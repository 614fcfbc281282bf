import LeadLag.Dashboard.Page

/-!
# How far the reading thread has come (live_web_dashboard.py:285-340)

A line is polled once and taken once. `processed f` counts the lines of `f` that
have been taken, and the lines that are pending follow these.
-/

namespace LeadLag.Dashboard
open LeadLag.Interaction

variable {py : Python} {cfg : Options} {s t : State}

/-- The rows of the lines that the parser accepts. -/
def accepted {A : Type} (parse : Line → Raises (Option A)) (lines : List Line) : List A :=
  lines.filterMap fun line => (parse line).toOption.join

section Accepted

variable {A : Type} {parse : Line → Raises (Option A)} {lines : List Line} {line : Line}

@[simp] theorem accepted_nil : accepted parse [] = [] := rfl

theorem accepted_concat_none (h : parse line = .ok none) :
    accepted parse (lines ++ [line]) = accepted parse lines := by
  simp [accepted, h, Except.toOption]

theorem accepted_concat_some {a : A} (h : parse line = .ok (some a)) :
    accepted parse (lines ++ [line]) = accepted parse lines ++ [a] := by
  simp [accepted, h, Except.toOption]

end Accepted

namespace State

def processed (s : State) (f : File) : ℕ :=
  if s.phase = f then s.tail f - s.pending.length else s.tail f

/-- The lines of `f` that the thread has taken. -/
def taken (s : State) (f : File) : List Line := (s.file f).take (s.processed f)

end State

structure Cursors (s : State) : Prop where
  tail_le : ∀ f, s.tail f ≤ (s.file f).length
  pending_le : s.pending.length ≤ s.tail s.phase
  split : (s.file s.phase).take (s.tail s.phase) = s.taken s.phase ++ s.pending

theorem cursors_start : Cursors {} where
  tail_le _ := le_rfl
  pending_le := le_rfl
  split := rfl

namespace State

theorem processed_le_tail (s : State) (f : File) : s.processed f ≤ s.tail f := by
  unfold processed
  split
  · omega
  · exact le_rfl

theorem file_append_prefix (s : State) (f g : File) (line : Line) :
    s.file g <+: (s.append f line).file g := by
  show s.file g <+: Function.update s.file f (s.file f ++ [line]) g
  by_cases h : g = f
  · rw [h, Function.update_self]
    exact List.prefix_append _ _
  · rw [Function.update_of_ne h]

theorem taken_append (inv : Cursors s) (f g : File) (line : Line) :
    (s.append f line).taken g = s.taken g := by
  obtain ⟨more, hmore⟩ := file_append_prefix s f g line
  have hle : s.processed g ≤ (s.file g).length := (s.processed_le_tail g).trans (inv.tail_le g)
  show ((s.append f line).file g).take (s.processed g) = (s.file g).take (s.processed g)
  rw [← hmore, List.take_append_of_le_length hle]

theorem length_taken (inv : Cursors s) (f : File) : (s.taken f).length = s.processed f := by
  have hle : s.processed f ≤ (s.file f).length := (s.processed_le_tail f).trans (inv.tail_le f)
  rw [taken, List.length_take, min_eq_left hle]

theorem processed_of_pending_nil (h : s.pending = []) (f : File) : s.processed f = s.tail f := by
  simp [processed, h]

theorem poll_of_reads (h : cfg.reads s.phase.next = true) :
    s.poll cfg = { s with
      phase := s.phase.next, pending := (s.file s.phase.next).drop (s.tail s.phase.next)
      tail := Function.update s.tail s.phase.next (s.file s.phase.next).length } := if_pos h

theorem poll_of_not_reads (h : ¬ cfg.reads s.phase.next = true) :
    s.poll cfg = { s with phase := s.phase.next, pending := [] } := if_neg h

theorem poll_frame (cfg : Options) (s : State) :
    (s.poll cfg).file = s.file ∧ (s.poll cfg).page = s.page ∧
      (s.poll cfg).tradesUpTo = s.tradesUpTo ∧ (s.poll cfg).chainFrom = s.chainFrom := by
  by_cases h : cfg.reads s.phase.next = true
  · rw [poll_of_reads h]
    exact ⟨rfl, rfl, rfl, rfl⟩
  · rw [poll_of_not_reads h]
    exact ⟨rfl, rfl, rfl, rfl⟩

theorem processed_poll (inv : Cursors s) (h : s.pending = []) (f : File) :
    (s.poll cfg).processed f = s.processed f := by
  have hle := inv.tail_le s.phase.next
  rw [processed_of_pending_nil h]
  by_cases hreads : cfg.reads s.phase.next = true
  · rw [poll_of_reads hreads]
    unfold processed
    by_cases hf : s.phase.next = f
    · subst hf
      simp only [if_true, Function.update_self, List.length_drop]
      omega
    · simp only [if_neg hf, Function.update_of_ne (Ne.symm hf)]
  · rw [poll_of_not_reads hreads]
    exact processed_of_pending_nil rfl f

theorem taken_poll (inv : Cursors s) (h : s.pending = []) (f : File) :
    (s.poll cfg).taken f = s.taken f := by
  unfold taken
  rw [processed_poll inv h, (poll_frame cfg s).1]

section TakeLine

variable {line : Line} {rest : List Line}

theorem chainFrom_takeLine : (s.takeLine py cfg line rest).chainFrom =
    if (s.takeLine py cfg line rest).page.lastBucket = s.page.lastBucket then s.chainFrom
    else s.tail .chain := by
  simp [takeLine]

theorem tradesUpTo_takeLine : (s.takeLine py cfg line rest).tradesUpTo =
    if (s.takeLine py cfg line rest).page.lastBucket = s.page.lastBucket then s.tradesUpTo
    else (s.file .trades).length := by
  simp [takeLine]

theorem processed_takeLine (inv : Cursors s) (h : s.pending = line :: rest) (f : File) :
    (s.takeLine py cfg line rest).processed f =
      if s.phase = f then s.processed f + 1 else s.processed f := by
  have hle := inv.pending_le
  have hlen : s.pending.length = rest.length + 1 := by rw [h, List.length_cons]
  show (if s.phase = f then s.tail f - rest.length else s.tail f) = _
  unfold processed
  by_cases hf : s.phase = f
  · subst hf
    simp only [if_true]
    omega
  · simp only [if_neg hf]

/-- The line taken is the next one of its file. -/
theorem take_processed_succ (inv : Cursors s) (h : s.pending = line :: rest) :
    (s.file s.phase).take (s.processed s.phase + 1) = s.taken s.phase ++ [line] := by
  have hle := inv.pending_le
  have hlen : s.pending.length = rest.length + 1 := by rw [h, List.length_cons]
  have hprocessed : s.processed s.phase = s.tail s.phase - s.pending.length := if_pos rfl
  have htaken : (s.taken s.phase).length = s.processed s.phase := length_taken inv s.phase
  have hshort : s.processed s.phase + 1 ≤ s.tail s.phase := by omega
  have hsplit := congrArg (List.take (s.processed s.phase + 1)) inv.split
  rw [List.take_take, min_eq_left hshort] at hsplit
  rw [hsplit, h, List.take_append, htaken, Nat.add_sub_cancel_left]
  rw [List.take_of_length_le (by omega)]
  rfl

theorem taken_takeLine (inv : Cursors s) (h : s.pending = line :: rest) (f : File) :
    (s.takeLine py cfg line rest).taken f =
      if s.phase = f then s.taken f ++ [line] else s.taken f := by
  show (s.file f).take ((s.takeLine py cfg line rest).processed f) = _
  rw [processed_takeLine inv h]
  by_cases hf : s.phase = f
  · subst hf
    rw [if_pos rfl, if_pos rfl, take_processed_succ inv h]
  · rw [if_neg hf, if_neg hf]
    rfl

end TakeLine

/-! ### What a step can do -/

theorem next_poll : s.next py cfg .poll = some t ↔
    s.raised = none ∧ s.pending = [] ∧ s.poll cfg = t := by
  show (if s.raised.isNone && s.pending.isEmpty then some (s.poll cfg) else none) = some t ↔ _
  by_cases hraised : s.raised = none <;> by_cases hpending : s.pending = [] <;>
    simp [hraised, hpending]

theorem next_line : s.next py cfg .line = some t ↔
    s.raised = none ∧ ∃ line rest, s.pending = line :: rest ∧
      s.takeLine py cfg line rest = t := by
  cases hraised : s.raised <;> cases hpending : s.pending <;> simp [next, hraised, hpending]

end State

theorem cursors_append (inv : Cursors s) (f : File) (line : Line) : Cursors (s.append f line) where
  tail_le g := (inv.tail_le g).trans (s.file_append_prefix f g line).length_le
  pending_le := inv.pending_le
  split := by
    obtain ⟨more, hmore⟩ := s.file_append_prefix f s.phase line
    show ((s.append f line).file s.phase).take (s.tail s.phase) =
      (s.append f line).taken s.phase ++ s.pending
    rw [State.taken_append inv, ← inv.split, ← hmore,
      List.take_append_of_le_length (inv.tail_le s.phase)]

theorem cursors_poll (inv : Cursors s) (h : s.pending = []) : Cursors (s.poll cfg) := by
  have hprocessed : (s.poll cfg).processed s.phase.next = s.processed s.phase.next :=
    State.processed_poll inv h s.phase.next
  rw [State.processed_of_pending_nil h] at hprocessed
  have hle := inv.tail_le s.phase.next
  by_cases hreads : cfg.reads s.phase.next = true
  · rw [State.poll_of_reads hreads] at hprocessed ⊢
    refine ⟨fun f => ?_, ?_, ?_⟩
    · show Function.update s.tail s.phase.next (s.file s.phase.next).length f ≤ (s.file f).length
      by_cases hf : f = s.phase.next
      · rw [hf, Function.update_self]
      · rw [Function.update_of_ne hf]
        exact inv.tail_le f
    · show ((s.file s.phase.next).drop (s.tail s.phase.next)).length ≤
        Function.update s.tail s.phase.next (s.file s.phase.next).length s.phase.next
      rw [Function.update_self, List.length_drop]
      omega
    · unfold State.taken
      show (s.file s.phase.next).take
          (Function.update s.tail s.phase.next (s.file s.phase.next).length s.phase.next) = _
      rw [hprocessed, Function.update_self, List.take_length]
      exact (List.take_append_drop _ _).symm
  · rw [State.poll_of_not_reads hreads] at hprocessed ⊢
    refine ⟨fun f => inv.tail_le f, Nat.zero_le _, ?_⟩
    unfold State.taken
    rw [hprocessed, List.append_nil]

theorem cursors_takeLine {line : Line} {rest : List Line} (inv : Cursors s)
    (h : s.pending = line :: rest) : Cursors (s.takeLine py cfg line rest) where
  tail_le f := inv.tail_le f
  pending_le := by
    have hle := inv.pending_le
    rw [h, List.length_cons] at hle
    show rest.length ≤ s.tail s.phase
    omega
  split := by
    show (s.file s.phase).take (s.tail s.phase) =
      (s.takeLine py cfg line rest).taken s.phase ++ rest
    rw [State.taken_takeLine inv h, if_pos rfl, inv.split, h, List.append_assoc]
    rfl

/-- An invariant beside `Cursors`, one case for each step of the system. -/
theorem reachable_invariant {I : State → Prop} (h : (dashboard py cfg).Reachable s)
    (hstart : I {})
    (happend : ∀ s f line, Cursors s → I s → I (s.append f line))
    (hpoll : ∀ s, Cursors s → s.raised = none → s.pending = [] → I s → I (s.poll cfg))
    (hline : ∀ s line rest, Cursors s → s.raised = none → s.pending = line :: rest → I s →
      I (s.takeLine py cfg line rest)) : I s := by
  have hall : Cursors s ∧ I s := by
    refine h.invariant (I := fun s => Cursors s ∧ I s) ?_ ?_
    · intro s hs
      obtain rfl : s = {} := hs
      exact ⟨cursors_start, hstart⟩
    · intro s l t _ hs hst
      obtain ⟨inv, hi⟩ := hs
      have hnext : s.next py cfg l = some t := hst
      cases l with
      | append f line =>
        obtain rfl : s.append f line = t := Option.some.inj hnext
        exact ⟨cursors_append inv f line, happend s f line inv hi⟩
      | poll =>
        obtain ⟨hraised, hpending, rfl⟩ := State.next_poll.mp hnext
        exact ⟨cursors_poll inv hpending, hpoll s inv hraised hpending hi⟩
      | line =>
        obtain ⟨hraised, line, rest, hpending, rfl⟩ := State.next_line.mp hnext
        exact ⟨cursors_takeLine inv hpending, hline s line rest inv hraised hpending hi⟩
  exact hall.2

end LeadLag.Dashboard
