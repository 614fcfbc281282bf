import LeadLag.AsyncWriter.System

/-!
# The rows of the file (live_pipeline.cpp:158-220)

Every accepted row is in one place: in the file, with the thread, or in the
queue, and the three in this order are the accepted rows in theirs.
-/

namespace LeadLag.AsyncWriter
open LeadLag.Interaction

namespace State
variable {C R : Type} {maxQueue : ℕ} {dumps : R → Bool} {s : State C R}

structure Kept (maxQueue : ℕ) (s : State C R) : Prop where
  rows : s.file ++ s.writer.inHand ++ s.queue = s.accepted
  bound : s.queue.length ≤ maxQueue
  stopping : s.stopper ≠ .absent → s.stop = true
  drained : s.writer = .returned → s.stop = true ∧ s.queue = []
  joined : s.stopper = .joined ∨ s.stopper = .returned → s.writer = .returned
  awake : s.stopper ≠ .absent → s.stopper ≠ .stopped → s.writer ≠ .asleep

theorem inHand_wake (w : Writer R) : w.wake.inHand = w.inHand := by
  cases w <;> rfl

theorem wake_eq_returned (w : Writer R) : w.wake = .returned ↔ w = .returned := by
  cases w <;> simp [Writer.wake]

theorem wake_ne_asleep (w : Writer R) : w.wake ≠ .asleep := by
  cases w <;> simp [Writer.wake]

theorem kept_start : (start : State C R).Kept maxQueue := by
  constructor
  · rfl
  · exact Nat.zero_le _
  · intro h
    exact absurd rfl h
  · intro h
    cases h
  · rintro (h | h) <;> cases h
  · intro h
    exact absurd rfl h

/-! ### One step -/

theorem Kept.setProducers (h : s.Kept maxQueue) (p : C → Producer R) :
    { s with producer := p }.Kept maxQueue :=
  ⟨h.rows, h.bound, h.stopping, h.drained, h.joined, h.awake⟩

theorem Kept.setProducer [DecidableEq C] (h : s.Kept maxQueue) (c : C) (p : Producer R) :
    (s.setProducer c p).Kept maxQueue :=
  h.setProducers (Function.update s.producer c p)

/-- `stop_and_flush` goes on: it has set `stop_`, and waits for the thread before it
flushes. -/
theorem Kept.setStopper (h : s.Kept maxQueue) {x : Stopper} (hcalled : s.stopper ≠ .absent)
    (hjoined : x = .joined ∨ x = .returned → s.writer = .returned)
    (hawake : s.writer ≠ .asleep) : { s with stopper := x }.Kept maxQueue := by
  have hstop : s.stop = true := h.stopping hcalled
  exact ⟨h.rows, h.bound, fun _ => hstop, h.drained, hjoined, fun _ _ => hawake⟩

/-- The thread goes on without touching the queue or the file. -/
theorem Kept.setWriter (h : s.Kept maxQueue) {w : Writer R} (hhand : w.inHand = s.writer.inHand)
    (hreturned : w = .returned ↔ s.writer = .returned) (hasleep : w ≠ .asleep) :
    { s with writer := w }.Kept maxQueue := by
  constructor
  · show s.file ++ w.inHand ++ s.queue = s.accepted
    rw [hhand]
    exact h.rows
  · exact h.bound
  · exact h.stopping
  · intro hw
    exact h.drained (hreturned.mp hw)
  · intro hj
    exact hreturned.mpr (h.joined hj)
  · intro _ _
    exact hasleep

theorem Kept.wakeWriter (h : s.Kept maxQueue) :
    { s with writer := s.writer.wake }.Kept maxQueue :=
  h.setWriter (inHand_wake s.writer) (wake_eq_returned s.writer) (wake_ne_asleep s.writer)

theorem Kept.append (h : s.Kept maxQueue) {row : R} (hw : s.writer = .notified row) :
    { s with writer := .looking, file := s.file ++ [row] }.Kept maxQueue := by
  have hrows := h.rows
  rw [hw] at hrows
  constructor
  · simpa [Writer.inHand] using hrows
  · exact h.bound
  · exact h.stopping
  · intro hreturned
    cases hreturned
  · intro hj
    have hreturned := h.joined hj
    rw [hw] at hreturned
    cases hreturned
  · intro _ _ hasleep
    cases hasleep

/-- The thread takes the oldest row, and returns only from an empty queue. -/
theorem Kept.writerTake (h : s.Kept maxQueue) (hw : s.writer = .looking) :
    s.writerTake.Kept maxQueue := by
  have hrows := h.rows
  have hjoined : ¬ (s.stopper = .joined ∨ s.stopper = .returned) := by
    intro hj
    have hreturned := h.joined hj
    rw [hw] at hreturned
    cases hreturned
  rw [hw] at hrows
  unfold State.writerTake
  split
  · rename_i hgo
    cases hq : s.queue with
    | nil =>
      have hstop : s.stop = true := by simpa [hq] using hgo
      dsimp only
      constructor
      · simpa [Writer.inHand, hq] using hrows
      · exact Nat.zero_le _
      · exact h.stopping
      · intro _
        exact ⟨hstop, rfl⟩
      · intro _
        rfl
      · intro _ _ hasleep
        cases hasleep
    | cons row rest =>
      have hbound := h.bound
      rw [hq, List.length_cons] at hbound
      constructor
      · simpa [Writer.inHand, hq] using hrows
      · show rest.length ≤ maxQueue
        omega
      · exact h.stopping
      · intro hreturned
        cases hreturned
      · intro hj
        exact absurd hj hjoined
      · intro _ _ hasleep
        cases hasleep
  · rename_i hwait
    constructor
    · exact hrows
    · exact h.bound
    · exact h.stopping
    · intro hreturned
      cases hreturned
    · intro hj
      exact absurd hj hjoined
    · intro hcalled _
      have hstop := h.stopping hcalled
      simp [hstop] at hwait

section Steps
variable [DecidableEq C]

/-- What a producer pushes is the last of the accepted rows and of the queue. -/
theorem Kept.producerLook (h : s.Kept maxQueue) (c : C) (row : R) :
    (s.producerLook maxQueue c row).Kept maxQueue := by
  unfold State.producerLook
  split
  · exact h.setProducer c .out
  · rename_i hstop
    split
    · rename_i hfull
      constructor
      · show s.file ++ s.writer.inHand ++ (s.queue ++ [row]) = s.accepted ++ [row]
        rw [← List.append_assoc, h.rows]
      · show (s.queue ++ [row]).length ≤ maxQueue
        rw [List.length_append, List.length_singleton]
        omega
      · exact h.stopping
      · intro hw
        exact absurd (h.drained hw).1 hstop
      · exact h.joined
      · exact h.awake
    · exact h.setProducer c (.blocked row)

theorem Kept.next (h : s.Kept maxQueue) {m : Move C R} (hm : s.enabled m) :
    (s.next maxQueue dumps m).Kept maxQueue := by
  cases m with
  | enqueue c row => exact h.setProducer c _
  | look c row => exact h.producerLook c row
  | notifyOne c => exact (h.setProducer c .out).wakeWriter
  | stir c => exact h.setProducer c _
  | take => exact h.writerTake hm
  | stirWriter =>
    have hw : s.writer = .asleep := hm
    refine h.setWriter ?_ ?_ ?_ <;> simp [hw, Writer.inHand]
  | notifyNotFull row woken =>
    cases woken with
    | some c =>
      have hw : s.writer = .popped row := hm.1
      refine (h.setProducer c _).setWriter ?_ ?_ ?_ <;>
        simp [State.setProducer, hw, Writer.inHand]
    | none =>
      have hw : s.writer = .popped row := hm.1
      refine h.setWriter ?_ ?_ ?_ <;> simp [hw, Writer.inHand]
  | append row =>
    simp only [State.next]
    split
    · exact h.append hm
    · exact ⟨h.rows, h.bound, h.stopping, h.drained, h.joined, h.awake⟩
  | stop =>
    constructor
    · exact h.rows
    · exact h.bound
    · intro _
      rfl
    · intro hreturned
      exact ⟨rfl, (h.drained hreturned).2⟩
    · rintro (hj | hj) <;> cases hj
    · intro _ hstopped
      exact absurd rfl hstopped
  | notifyAll =>
    have hs : s.stopper = .stopped := hm
    exact h.wakeWriter.setStopper (by simp [hs]) (by simp) (wake_ne_asleep s.writer)
  | notifyAllNotFull =>
    have hs : s.stopper = .notifiedWriter := hm
    have hawake : s.writer ≠ .asleep := h.awake (by simp [hs]) (by simp [hs])
    exact (h.setStopper (x := .joining) (by simp [hs]) (by simp) hawake).setProducers _
  | join =>
    have hs : s.stopper = .joining := hm.1
    have hreturned : s.writer = .returned := hm.2
    exact h.setStopper (by simp [hs]) (fun _ => hreturned) (by simp [hreturned])
  | flush =>
    have hs : s.stopper = .joined := hm
    have hreturned : s.writer = .returned := h.joined (.inl hs)
    exact h.setStopper (by simp [hs]) (fun _ => hreturned) (by simp [hreturned])

/-- Nothing is accepted once `stop_` is set, and it stays set. -/
theorem next_of_stop (hstop : s.stop = true) (m : Move C R) :
    (s.next maxQueue dumps m).stop = true ∧ (s.next maxQueue dumps m).accepted = s.accepted := by
  cases m with
  | look c row =>
    simp only [State.next, State.producerLook, hstop, if_true]
    exact ⟨hstop, rfl⟩
  | take =>
    simp only [State.next, State.writerTake, hstop, Bool.true_or, if_true]
    split <;> exact ⟨rfl, rfl⟩
  | notifyNotFull row woken =>
    cases woken with
    | some c => exact ⟨hstop, rfl⟩
    | none => exact ⟨hstop, rfl⟩
  | append row =>
    simp only [State.next]
    split <;> exact ⟨hstop, rfl⟩
  | stop => exact ⟨rfl, rfl⟩
  | enqueue | notifyOne | stir | stirWriter | notifyAll | notifyAllNotFull | join | flush =>
    exact ⟨hstop, rfl⟩

/-! ### Whole runs -/

theorem kept_of_reachable (h : (asyncWriter C R maxQueue dumps).Reachable s) :
    s.Kept maxQueue := by
  refine h.invariant (I := Kept maxQueue) ?_ ?_
  · rintro s rfl
    exact kept_start
  · rintro s m t _ ih ⟨⟨-, hm⟩, rfl⟩
    exact ih.next hm

theorem accepted_of_run {t : State C R} {ms : List (Move C R)} (hstop : s.stop = true)
    (h : (asyncWriter C R maxQueue dumps).Run s ms t) :
    t.stop = true ∧ t.accepted = s.accepted := by
  induction h with
  | nil => exact ⟨hstop, rfl⟩
  | snoc _ hst ih =>
    obtain ⟨-, rfl⟩ := hst
    obtain ⟨hstays, hsame⟩ := next_of_stop ih.1 _
    exact ⟨hstays, hsame.trans ih.2⟩

/-- Whoever joins the thread does not wait for ever: it can go on, or has returned. -/
theorem exists_enabled_of_joining (h : (asyncWriter C R maxQueue dumps).Reachable s)
    (hs : s.stopper = .joining) :
    s.enabled .join ∨ s.enabled .take ∨ (∃ row woken, s.enabled (.notifyNotFull row woken)) ∨
      ∃ row, s.enabled (.append row) := by
  have hawake : s.writer ≠ .asleep :=
    (kept_of_reachable h).awake (by simp [hs]) (by simp [hs])
  cases hw : s.writer with
  | looking => exact .inr (.inl hw)
  | asleep => exact absurd hw hawake
  | popped row =>
    by_cases hblocked : ∃ c, (s.producer c).isBlocked = true
    · obtain ⟨c, hc⟩ := hblocked
      exact .inr (.inr (.inl ⟨row, some c, hw, hc⟩))
    · refine .inr (.inr (.inl ⟨row, none, hw, ?_⟩))
      intro c
      have hc : ¬ (s.producer c).isBlocked = true := fun hc => hblocked ⟨c, hc⟩
      simpa using hc
  | notified row => exact .inr (.inr (.inr ⟨row, hw⟩))
  | returned => exact .inl ⟨hs, hw⟩

end Steps

end State

/-- In every reachable state the file holds the accepted rows in their order, but
for the one with the thread and those in the queue; the queue is bounded; once
`stop_and_flush` has returned nothing is missing; and nothing is accepted after
`stop_` is set. -/
theorem asyncWriter_loses_nothing {C R : Type} [DecidableEq C] {maxQueue : ℕ} {dumps : R → Bool}
    {s : State C R} (h : (asyncWriter C R maxQueue dumps).Reachable s) :
    s.accepted = s.file ++ s.writer.inHand ++ s.queue ∧ s.queue.length ≤ maxQueue ∧
      (s.stopper = .returned → s.file = s.accepted) ∧
      ∀ ms t, s.stop = true → (asyncWriter C R maxQueue dumps).Run s ms t →
        t.accepted = s.accepted := by
  have hkept := State.kept_of_reachable h
  refine ⟨hkept.rows.symm, hkept.bound, ?_, ?_⟩
  · intro hreturned
    have hw : s.writer = .returned := hkept.joined (.inr hreturned)
    have hrows := hkept.rows
    rw [hw, (hkept.drained hw).2] at hrows
    simpa [Writer.inHand] using hrows
  · intro ms t hstop hrun
    exact (State.accepted_of_run hstop hrun).2

/-- Two producers and a queue of one row: the second waits when stop comes. -/
def stopWhileWaiting : List (Move Bool ℕ) :=
  [.enqueue false 1, .look false 1, .enqueue true 2, .look true 2, .stop, .notifyOne false,
    .notifyAll, .notifyAllNotFull, .look true 2, .take, .notifyNotFull 1 none, .append 1, .take,
    .join, .flush]

theorem asyncWriter_loses_nothing_stopped :
    ∃ s, (asyncWriter Bool ℕ 1 fun _ => true).Reachable s ∧ s.stopper = .returned ∧
      s.accepted = [1] ∧ s.file = s.accepted := by
  have hstep : ∀ (s : State Bool ℕ) m t, s.apply 1 (fun _ => true) m = some t →
      (asyncWriter Bool ℕ 1 fun _ => true).step s m t := by
    intro s m t hst
    obtain ⟨hm, hnext⟩ := Option.ite_none_right_eq_some.mp hst
    exact ⟨hm, (Option.some.inj hnext).symm⟩
  have hend : (Lts.stepAll (State.apply 1 fun _ => true) State.start stopWhileWaiting).any
      (fun s => decide (s.stopper = .returned ∧ s.accepted = [1])) = true := by
    decide +kernel
  obtain ⟨s, hrun, hend⟩ := Lts.exists_run_stepAll hstep hend
  obtain ⟨hreturned, haccepted⟩ := of_decide_eq_true hend
  have hreach : (asyncWriter Bool ℕ 1 fun _ => true).Reachable s := hrun.reachable (.init rfl)
  exact ⟨s, hreach, hreturned, haccepted,
    (asyncWriter_loses_nothing hreach).2.2.1 hreturned⟩

end LeadLag.AsyncWriter
