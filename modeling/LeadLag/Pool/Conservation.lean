import LeadLag.Interaction.Holders
import LeadLag.Pool.System
import Mathlib.Data.Fintype.Sets

/-!
# Conservation of tasks (thread_pool.cpp:17-63)

Each task dispatched is in one place: with the thread that will push it, in
the queue, with the worker that runs it, or among those executed.
-/

namespace LeadLag.Pool
open LeadLag.Interaction

def Call.adding : Call → Multiset ℕ
  | .added task => {task}
  | _ => 0

def Worker.runs : Worker → Multiset ℕ
  | .running task => {task}
  | _ => 0

def Worker.hasRun : Worker → Multiset ℕ
  | .ran task => {task}
  | _ => 0

namespace State
variable {n : ℕ} {C : Type} {s t : State n C} {m : Move n C}

def running (s : State n C) : Multiset ℕ := held Worker.runs s.worker

/-- Dispatches begun whose task is not finished. -/
def inFlight (s : State n C) : ℕ := s.begun - s.finished

theorem held_wakeWorkers {f : Worker → Multiset ℕ} (hf : f .looking = f .asleep) :
    held f s.wakeWorkers.worker = held f s.worker := by
  refine held_congr fun i => ?_
  simp only [State.wakeWorkers]
  split
  · rename_i hb
    rw [hb, hf]
  · rfl

variable [Fintype C]

structure Conserved (s : State n C) : Prop where
  tasks : Multiset.range s.begun =
    held Call.adding s.call + ↑s.tasks + s.running + ↑s.executed
  executed : s.executed.length = s.finished + (held Worker.hasRun s.worker).card

/-! ### One step -/

theorem Conserved.setWorker {i : Fin n} {w : Worker} (h : s.Conserved)
    (hruns : w.runs = (s.worker i).runs) (hran : w.hasRun = (s.worker i).hasRun) :
    (s.setWorker i w).Conserved := by
  obtain ⟨htasks, hexec⟩ := h
  refine ⟨?_, ?_⟩
  · simp only [running, State.setWorker] at htasks ⊢
    rw [held_update_same hruns, htasks]
  · simp only [State.setWorker]
    rw [held_update_same hran, hexec]

theorem Conserved.look {i : Fin n} (h : s.Conserved) (hi : s.worker i = .looking) :
    (s.workerLook i).Conserved := by
  have hruns : (s.worker i).runs = 0 := by rw [hi]; rfl
  have hran : (s.worker i).hasRun = 0 := by rw [hi]; rfl
  unfold workerLook
  split
  · cases hq : s.tasks with
    | nil => exact h.setWorker hruns.symm hran.symm
    | cons task rest =>
      obtain ⟨htasks, hexec⟩ := h
      refine ⟨?_, ?_⟩
      · have hheld : held Worker.runs (Function.update s.worker i (.running task)) =
            held Worker.runs s.worker + {task} := held_update_take hruns
        simp only [running, State.setWorker, hq] at htasks ⊢
        rw [hheld, htasks, ← Multiset.cons_coe, ← Multiset.singleton_add]
        abel
      · simp only [State.setWorker]
        rw [held_update_same (hran.symm : Worker.hasRun (.running task) = _), hexec]
  · exact h.setWorker hruns.symm hran.symm

theorem Conserved.wakeWaiters (h : s.Conserved) : s.wakeWaiters.Conserved := by
  obtain ⟨htasks, hexec⟩ := h
  refine ⟨?_, hexec⟩
  have hheld : held Call.adding s.wakeWaiters.call = held Call.adding s.call := by
    refine held_congr fun th => ?_
    simp only [State.wakeWaiters]
    split
    · rename_i hb
      rw [hb]
      rfl
    · rfl
  change _ = held Call.adding s.wakeWaiters.call + _ + _ + _
  rw [hheld]
  exact htasks

theorem Conserved.wakeWorkers (h : s.Conserved) : s.wakeWorkers.Conserved := by
  obtain ⟨htasks, hexec⟩ := h
  refine ⟨?_, ?_⟩
  · simp only [running] at htasks ⊢
    rw [held_wakeWorkers rfl]
    exact htasks
  · rw [held_wakeWorkers rfl]
    exact hexec

variable [DecidableEq C]

theorem Conserved.setCall {th : Thread n C} {c : Call} (h : s.Conserved)
    (hadding : c.adding = (s.call th).adding) : (s.setCall th c).Conserved := by
  obtain ⟨htasks, hexec⟩ := h
  refine ⟨?_, hexec⟩
  simp only [running, State.setCall] at htasks ⊢
  rw [held_update_same hadding, htasks]

theorem Conserved.dispatch {th : Thread n C} (h : s.Conserved) (hth : s.call th = .out) :
    (s.next (.dispatch th)).Conserved := by
  obtain ⟨htasks, hexec⟩ := h
  refine ⟨?_, hexec⟩
  have hadding : (s.call th).adding = 0 := by rw [hth]; rfl
  have hheld : held Call.adding (Function.update s.call th (.added s.begun)) =
      held Call.adding s.call + {s.begun} := held_update_take hadding
  simp only [next, running, State.setCall] at htasks ⊢
  rw [hheld, Multiset.range_succ, htasks, ← Multiset.singleton_add]
  abel

theorem Conserved.push {th : Thread n C} {task : ℕ} (h : s.Conserved)
    (hth : s.call th = .added task) : (s.next (.push th task)).Conserved := by
  obtain ⟨htasks, hexec⟩ := h
  refine ⟨?_, hexec⟩
  have hadding : (s.call th).adding = {task} := by rw [hth]; rfl
  have hheld : held Call.adding (Function.update s.call th .pushed) + (s.call th).adding =
      held Call.adding s.call := held_update_give rfl
  simp only [next, running, State.setCall] at htasks ⊢
  rw [htasks, ← hheld, hadding, ← Multiset.coe_add, Multiset.coe_singleton]
  abel

theorem Conserved.ran {i : Fin n} {task : ℕ} (h : s.Conserved)
    (hi : s.worker i = .running task) : (s.next (.ran i task)).Conserved := by
  obtain ⟨htasks, hexec⟩ := h
  have hruns : (s.worker i).runs = {task} := by rw [hi]; rfl
  have hran : (s.worker i).hasRun = 0 := by rw [hi]; rfl
  refine ⟨?_, ?_⟩
  · have hheld : held Worker.runs (Function.update s.worker i (.ran task)) + (s.worker i).runs =
        held Worker.runs s.worker := held_update_give rfl
    simp only [next, running, State.setWorker] at htasks ⊢
    rw [htasks, ← hheld, hruns, ← Multiset.coe_add, Multiset.coe_singleton]
    abel
  · have hheld : held Worker.hasRun (Function.update s.worker i (.ran task)) =
        held Worker.hasRun s.worker + {task} := held_update_take hran
    simp only [next, State.setWorker]
    rw [hheld, List.length_append, List.length_singleton, Multiset.card_add,
      Multiset.card_singleton]
    omega

theorem Conserved.subtract {i : Fin n} {task : ℕ} (h : s.Conserved)
    (hi : s.worker i = .ran task) : (s.next (.subtract i task)).Conserved := by
  obtain ⟨htasks, hexec⟩ := h
  have hruns : (s.worker i).runs = 0 := by rw [hi]; rfl
  have hran : (s.worker i).hasRun = {task} := by rw [hi]; rfl
  refine ⟨?_, ?_⟩
  · simp only [next, running, State.setWorker] at htasks ⊢
    rw [held_update_same (hruns.symm : Worker.runs .subtracted = _), htasks]
  · have hheld : held Worker.hasRun (Function.update s.worker i .subtracted) +
        (s.worker i).hasRun = held Worker.hasRun s.worker := held_update_give rfl
    simp only [next, State.setWorker]
    rw [hexec, ← hheld, hran, Multiset.card_add, Multiset.card_singleton]
    omega

theorem Conserved.next (h : s.Conserved) (hm : s.enabled m) : (s.next m).Conserved := by
  cases m with
  | dispatch th => exact h.dispatch hm.1
  | push th task => exact h.push hm
  | notifyOne th woken =>
    cases woken with
    | none =>
      have hth : s.call th = .pushed := hm.1
      exact h.setCall (by rw [hth]; rfl)
    | some i =>
      have hth : s.call th = .pushed := hm.1
      have hi : s.worker i = .asleep := hm.2
      exact (h.setCall (c := .out) (by rw [hth]; rfl)).setWorker
        (by simp only [State.setCall, hi]; rfl) (by simp only [State.setCall, hi]; rfl)
  | waitIdle th =>
    have hth : s.call th = .out := hm.1
    exact h.setCall (by rw [hth]; rfl)
  | lock th =>
    have hth : s.call th = .entered := hm.1
    have hset : (s.setCall th .locked).Conserved := h.setCall (by rw [hth]; rfl)
    exact ⟨hset.tasks, hset.executed⟩
  | evaluate th =>
    have hth : s.call th = .locked := hm
    exact h.setCall (by rw [hth]; rfl)
  | block th =>
    have hth : s.call th = .evaluated false := hm
    have hset : (s.setCall th .blocked).Conserved := h.setCall (by rw [hth]; rfl)
    exact ⟨hset.tasks, hset.executed⟩
  | wake th =>
    have hth : s.call th = .blocked := hm
    exact h.setCall (by rw [hth]; rfl)
  | leave th =>
    have hth : s.call th = .evaluated true := hm
    have hset : (s.setCall th .out).Conserved := h.setCall (by rw [hth]; rfl)
    exact ⟨hset.tasks, hset.executed⟩
  | look i => exact h.look hm
  | stir i =>
    have hi : s.worker i = .asleep := hm
    exact h.setWorker (by rw [hi]; rfl) (by rw [hi]; rfl)
  | ran i task => exact h.ran hm.1
  | subtract i task => exact h.subtract hm
  | notifyAll i =>
    have hi : s.worker i = .subtracted := hm
    exact h.wakeWaiters.setWorker (by simp only [State.wakeWaiters, hi]; rfl)
      (by simp only [State.wakeWaiters, hi]; rfl)
  | stop => exact ⟨h.tasks, h.executed⟩
  | notifyWorkers => exact ⟨h.wakeWorkers.tasks, h.wakeWorkers.executed⟩
  | join =>
    simp only [State.next]
    split
    · exact ⟨h.tasks, h.executed⟩
    · exact ⟨h.tasks, h.executed⟩

theorem conserved (h : (pool n C).Reachable s) : s.Conserved := by
  refine h.invariant ?_ ?_
  · rintro _ rfl
    refine ⟨?_, ?_⟩
    · simp [start, running, held, Call.adding, Worker.runs]
    · simp [start, held, Worker.hasRun]
  · rintro _ m _ - hc ⟨hm, rfl⟩
    exact hc.next hm

/-! ### The counter -/

omit [DecidableEq C] in
theorem Conserved.begun_eq (h : s.Conserved) :
    s.begun = (held Call.adding s.call).card + s.tasks.length + s.running.card +
      (held Worker.hasRun s.worker).card + s.finished := by
  have hcard := congrArg Multiset.card h.tasks
  simp only [Multiset.card_range, Multiset.card_add, Multiset.coe_card] at hcard
  have hexec := h.executed
  omega

omit [Fintype C] in
theorem inflight_eq (h : (pool n C).Reachable s) :
    s.inflight = BitVec.ofNat 32 s.begun - BitVec.ofNat 32 s.finished := by
  refine h.invariant
    (I := fun s => s.inflight = BitVec.ofNat 32 s.begun - BitVec.ofNat 32 s.finished) ?_ ?_
  · rintro _ rfl
    simp [start]
  · rintro a m _ - ha ⟨hm, rfl⟩
    cases m with
    | dispatch th =>
      simp only [next, BitVec.ofNat_add, ha, State.setCall]
      grind
    | subtract i task =>
      simp only [next, BitVec.ofNat_add, ha, State.setWorker]
      grind
    | notifyOne th woken => cases woken <;> exact ha
    | look i =>
      simp only [next, workerLook]
      split
      · split <;> exact ha
      · exact ha
    | join =>
      simp only [next]
      split <;> exact ha
    | _ => exact ha

theorem inflight_eq_ofNat (h : (pool n C).Reachable s) :
    s.inflight = BitVec.ofNat 32 s.inFlight := by
  have hbegun := (conserved h).begun_eq
  have hsplit : s.begun = s.inFlight + s.finished := by
    unfold inFlight
    omega
  rw [inflight_eq h, hsplit, BitVec.ofNat_add, BitVec.add_sub_cancel]

theorem queued_add_running_le (h : (pool n C).Reachable s) :
    s.tasks.length + s.running.card ≤ s.inFlight := by
  have hbegun := (conserved h).begun_eq
  unfold inFlight
  omega

end State
end LeadLag.Pool
