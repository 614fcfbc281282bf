import LeadLag.Logger.File

/-!
# The quotes in the file of the logger

The two feeds take their numbers from one counter and append to one file, each in two
steps. Every quote that a feed delivers is logged once, with a number of its own.
-/

namespace LeadLag.Logger
open LeadLag.Core LeadLag.Execution LeadLag.Interaction
open LeadLag.Pipeline (isCallerMove delivered_moved)
open LeadLag.TokenFeed (Market WsQuote)

def unnumbered (r : QuoteRow) : QuoteRow := { r with seq := 0 }

/-- The rows of a feed's quotes, with the one it has begun to log. -/
def State.rowsOf (s : State) (o : Outcome) : List QuoteRow :=
  s.quotes.filter (fun r => r.outcome = outcomeName o) ++ (s.writing o).toList

def State.numbers (s : State) : List ℕ :=
  s.quotes.map (·.seq) ++ ((s.writing .up).toList ++ (s.writing .down).toList).map (·.seq)

structure Numbered (s : State) : Prop where
  each : ∀ o, (s.rowsOf o).map unnumbered = (s.feed o).delivered.map (quoteRow 0)
  order : ∀ o, ((s.rowsOf o).map (·.seq)).Pairwise (· < ·)
  numbers : s.numbers.Perm (List.range' 1 s.seq)

section Numbers

variable {parse : String → Option Json} {fwd : Prop} {s t : State} {mv : Move} {g : Desk}
  {o : Outcome}

theorem outcomeName_inj {o o' : Outcome} (h : outcomeName o = outcomeName o') : o = o' := by
  cases o with
  | up =>
    cases o' with
    | up => rfl
    | down => exact absurd h (by decide)
  | down =>
    cases o' with
    | up => exact absurd h (by decide)
    | down => rfl

theorem Numbered.seq_le (h : Numbered s) {r : QuoteRow} (hr : r ∈ s.rowsOf o) : r.seq ≤ s.seq := by
  have hmem : r.seq ∈ s.numbers := by
    rcases List.mem_append.mp hr with hr | hr
    · exact List.mem_append_left _ (List.mem_map_of_mem (List.mem_of_mem_filter hr))
    · refine List.mem_append_right _ (List.mem_map_of_mem ?_)
      cases o with
      | up => exact List.mem_append_left _ hr
      | down => exact List.mem_append_right _ hr
  have hrange := (h.numbers.mem_iff).mp hmem
  rw [List.mem_range'_1] at hrange
  omega

/-- A step that neither delivers a quote nor writes one. -/
theorem Numbered.frame (h : Numbered s) (hquotes : t.quotes = s.quotes)
    (hwriting : t.writing = s.writing) (hseq : t.seq = s.seq)
    (hdelivered : ∀ o, (t.feed o).delivered = (s.feed o).delivered) : Numbered t := by
  have hrows (o : Outcome) : t.rowsOf o = s.rowsOf o := by
    rw [State.rowsOf, State.rowsOf, hquotes, hwriting]
  have hnumbers : t.numbers = s.numbers := by
    rw [State.numbers, State.numbers, hquotes, hwriting]
  refine ⟨?_, ?_, ?_⟩
  · intro o
    rw [hrows, hdelivered]
    exact h.each o
  · intro o
    rw [hrows]
    exact h.order o
  · rw [hnumbers, hseq]
    exact h.numbers

theorem Numbered.setFeed (h : Numbered s) {f : TokenFeed.System}
    (hf : f.delivered = (s.feed o).delivered) (hquotes : t.quotes = s.quotes)
    (hwriting : t.writing = s.writing) (hseq : t.seq = s.seq)
    (hfeed : t.feed = Function.update s.feed o f) : Numbered t := by
  refine h.frame hquotes hwriting hseq fun o' => ?_
  rw [hfeed]
  by_cases ho : o' = o
  · subst ho
    rw [Function.update_self]
    exact hf
  · rw [Function.update_of_ne ho]

/-- The quote takes the next number; its feed was not logging another. -/
theorem Numbered.delivers (h : Numbered s) {f : TokenFeed.System} {q : WsQuote}
    (hnone : s.writing o = none) (hf : f.delivered = (s.feed o).delivered ++ [q]) :
    Numbered
      { (s.setFeed o f).setWriting o (some (quoteRow (s.seq + 1) q)) with seq := s.seq + 1 } := by
  let t : State :=
    { (s.setFeed o f).setWriting o (some (quoteRow (s.seq + 1) q)) with seq := s.seq + 1 }
  have hself : t.rowsOf o = s.rowsOf o ++ [quoteRow (s.seq + 1) q] := by
    show s.quotes.filter _ ++ (Function.update s.writing o _ o).toList = _
    rw [Function.update_self, State.rowsOf, hnone, Option.toList_none, List.append_nil]
    rfl
  have hother (o' : Outcome) (ho : o' ≠ o) : t.rowsOf o' = s.rowsOf o' := by
    show s.quotes.filter _ ++ (Function.update s.writing o _ o').toList = _
    rw [Function.update_of_ne ho]
    rfl
  refine ⟨?_, ?_, ?_⟩
  · intro o'
    by_cases ho : o' = o
    · subst ho
      show (t.rowsOf o').map unnumbered = (Function.update s.feed o' f o').delivered.map _
      rw [hself, Function.update_self, hf, List.map_append, List.map_append, h.each o']
      rfl
    · show (t.rowsOf o').map unnumbered = (Function.update s.feed o f o').delivered.map _
      rw [hother o' ho, Function.update_of_ne ho]
      exact h.each o'
  · intro o'
    by_cases ho : o' = o
    · subst ho
      show ((t.rowsOf o').map (·.seq)).Pairwise _
      rw [hself, List.map_append]
      refine List.pairwise_append.mpr ⟨h.order o', List.pairwise_singleton _ _, ?_⟩
      intro n hn n' hn'
      obtain ⟨r, hr, rfl⟩ := List.mem_map.mp hn
      rw [List.mem_singleton.mp hn']
      have hle := h.seq_le hr
      show r.seq < s.seq + 1
      omega
    · show ((t.rowsOf o').map (·.seq)).Pairwise _
      rw [hother o' ho]
      exact h.order o'
  · have hadd : t.numbers.Perm (s.numbers ++ [s.seq + 1]) := by
      cases o with
      | up =>
        have hwriting : t.numbers = s.quotes.map (·.seq) ++
            ([quoteRow (s.seq + 1) q] ++ (s.writing .down).toList).map (·.seq) := rfl
        rw [hwriting, State.numbers, hnone, Option.toList_none, List.nil_append,
          List.append_assoc, List.map_append]
        exact List.Perm.append_left _ List.perm_append_comm
      | down =>
        have hwriting : t.numbers = s.quotes.map (·.seq) ++
            ((s.writing .up).toList ++ [quoteRow (s.seq + 1) q]).map (·.seq) := rfl
        rw [hwriting, State.numbers, hnone, Option.toList_none, List.append_nil,
          List.map_append, List.append_assoc]
        exact List.Perm.refl _
    have hrange : List.range' 1 (s.seq + 1) = List.range' 1 s.seq ++ [s.seq + 1] := by
      rw [List.range'_concat, Nat.one_mul, Nat.add_comm 1 s.seq]
    show t.numbers.Perm (List.range' 1 (s.seq + 1))
    rw [hrange]
    exact hadd.trans (h.numbers.append_right _)

theorem Numbered.append (h : Numbered s) {r : QuoteRow} (hr : s.writing o = some r)
    (hname : r.outcome = outcomeName o) :
    Numbered { s.setWriting o none with file := s.file ++ [.quote r] } := by
  let t : State := { s.setWriting o none with file := s.file ++ [.quote r] }
  have hquotes : t.quotes = s.quotes ++ [r] := by
    simp [t, State.quotes, Row.quote?]
  have hrows (o' : Outcome) : t.rowsOf o' = s.rowsOf o' := by
    rw [State.rowsOf, hquotes, List.filter_append, State.rowsOf]
    by_cases ho : o' = o
    · subst ho
      have hwriting : t.writing o' = none := Function.update_self _ _ _
      rw [hwriting, hr]
      simp [hname]
    · have hwriting : t.writing o' = s.writing o' := Function.update_of_ne ho _ _
      have hno : r.outcome ≠ outcomeName o' := by
        rw [hname]
        exact fun heq => ho (outcomeName_inj heq).symm
      rw [hwriting]
      simp [hno]
  refine ⟨?_, ?_, ?_⟩
  · intro o'
    show (t.rowsOf o').map unnumbered = _
    rw [hrows]
    exact h.each o'
  · intro o'
    show ((t.rowsOf o').map (·.seq)).Pairwise _
    rw [hrows]
    exact h.order o'
  · have hperm : t.numbers.Perm s.numbers := by
      rw [State.numbers, hquotes, State.numbers, List.map_append, List.append_assoc]
      refine List.Perm.append_left _ ?_
      cases o with
      | up =>
        have hup : t.writing .up = none := rfl
        have hdown : t.writing .down = s.writing .down := rfl
        rw [hup, hdown, hr]
        exact List.Perm.refl _
      | down =>
        have hup : t.writing .up = s.writing .up := rfl
        have hdown : t.writing .down = none := rfl
        rw [hup, hdown, hr, Option.toList_none, List.append_nil, List.map_append]
        exact List.perm_append_comm
    exact hperm.trans h.numbers

theorem call_delivered {f f' : TokenFeed.System} {fmv : TokenFeed.Move}
    (hmv : isCallerMove fmv = true) (hf : f.apply 0 fmv = some f') :
    f'.delivered = f.delivered := by
  rcases delivered_moved (TokenFeed.apply_moved hf) with hsame | ⟨i, q, rest, rfl, -⟩
  · exact hsame
  · cases hmv

theorem Numbered.step (h : Numbered s) (inv : Inv fwd s g) (hm : Moved parse s mv t) :
    Numbered t := by
  cases hm with
  | feed o fmv f hmv hrunning hwriting hf =>
    rcases delivered_moved (TokenFeed.apply_moved hf) with hsame | ⟨i, q, rest, rfl, -, hdelivered⟩
    · rw [afterFeed_quiet hsame]
      exact h.setFeed hsame rfl rfl rfl rfl
    · rw [afterFeed_delivers hdelivered]
      exact h.delivers (hwriting.resolve_right nofun) hdelivered
  | append o r hr => exact h.append hr (inv.pending o r hr).1
  | begins o m k f hmain hswitching hf => exact h.setFeed (call_delivered rfl hf) rfl rfl rfl rfl
  | switches o m k f hmain hswitching hf =>
    exact h.setFeed (call_delivered rfl hf) rfl rfl rfl rfl
  | setMarketContext o m k hmain =>
    exact h.setFeed (o := o) (f := { s.feed o with
      fields := (s.feed o).fields.setMarketContext m, caller := .idle }) rfl rfl rfl rfl rfl
  | stop o k hmain hwriting =>
    exact h.setFeed (o := o) (f := { s.feed o with fields := (s.feed o).fields.setToken "" })
      rfl rfl rfl rfl rfl
  | rollover r k hmain =>
    refine h.frame ?_ rfl rfl fun _ => rfl
    simp [State.quotes, Row.quote?]
  | signal | steadyNs | outside | next => exact h.frame rfl rfl rfl fun _ => rfl
  | stopRequested | tokenId | switched | refused => exact h.frame rfl rfl rfl fun _ => rfl

/-- A feed that has been stopped is not in `on_quote`. -/
theorem writing_stopped (h : (logger parse).Reachable s) :
    ∀ o, s.running o = false → s.writing o = none := by
  apply h.invariant
  · intro s hs
    obtain ⟨tr, d, activeEpoch, lastPrefetchNs, wallS, -, -, -, rfl⟩ := hs
    exact fun _ _ => rfl
  · intro s mv t _ ih hst o ho
    cases apply_moved hst with
    | feed o' fmv f hmv hrunning hwriting hf =>
      rcases delivered_moved (TokenFeed.apply_moved hf) with hsame | ⟨_, q, _, -, -, hdelivered⟩
      · rw [afterFeed_quiet hsame] at ho ⊢
        exact ih o ho
      · rw [afterFeed_delivers hdelivered] at ho ⊢
        have hne : o ≠ o' := by
          rintro rfl
          have ho : s.running o = false := ho
          rw [hrunning] at ho
          cases ho
        show Function.update s.writing o' _ o = none
        rw [Function.update_of_ne hne]
        exact ih o ho
    | append o' r hr =>
      show Function.update s.writing o' none o = none
      by_cases hne : o = o'
      · rw [hne, Function.update_self]
      · rw [Function.update_of_ne hne]
        exact ih o ho
    | stop o' k hmain hwriting =>
      by_cases hne : o = o'
      · rw [hne]
        exact hwriting
      · have ho : Function.update s.running o' false o = false := ho
        rw [Function.update_of_ne hne] at ho
        exact ih o ho
    | signal | steadyNs | outside | next | stopRequested => exact ih o ho
    | tokenId | begins | switches | switched | refused => exact ih o ho
    | setMarketContext | rollover => exact ih o ho

theorem numbered_reachable (h : (logger parse).Reachable s) : Numbered s := by
  apply h.invariant
  · intro s hs
    obtain ⟨tr, d, activeEpoch, lastPrefetchNs, wallS, -, -, -, rfl⟩ := hs
    refine ⟨?_, fun _ => List.Pairwise.nil, List.Perm.nil⟩
    intro o
    cases o with
    | up => rfl
    | down => rfl
  · intro s mv t hs ih hst
    obtain ⟨g, inv⟩ := inv_reachable hs
    exact ih.step inv (apply_moved hst)

/-- In every interleaving each quote that a feed delivers is logged once, in the order
of the feed and with increasing numbers, and the numbers taken are 1, 2, and so on. When
`main` returns every row is in the file. -/
theorem quotes_logged_once {parse : String → Option Json} {s : State}
    (h : (logger parse).Reachable s) :
    Numbered s ∧ (s.main = .done none → s.numbers = s.quotes.map (·.seq) ∧
      ∀ o, (s.quotes.filter fun r => r.outcome = outcomeName o).map unnumbered =
        (s.feed o).delivered.map (quoteRow 0)) := by
  have hnumbered := numbered_reachable h
  refine ⟨hnumbered, ?_⟩
  intro hmain
  have hnone (o : Outcome) : s.writing o = none := by
    obtain ⟨g, inv⟩ := inv_reachable h
    have hsafe := inv.main
    rw [hmain] at hsafe
    have hrunning : ∀ o, g.running o = false := hsafe.2.1
    refine writing_stopped h o ?_
    rw [inv.running]
    exact hrunning o
  constructor
  · rw [State.numbers, hnone .up, hnone .down]
    exact List.append_nil _
  · intro o
    have heach := hnumbered.each o
    rw [State.rowsOf, hnone o, Option.toList_none, List.append_nil] at heach
    exact heach

def hasReturned (s : State) : Bool :=
  match s.main with
  | .done none => true
  | _ => false

/-- After the rollover a signal ends the loop. -/
theorem quotes_logged_once_sample :
    ∃ s, (logger fun _ => none).Reachable s ∧ s.main = .done none ∧ s.seq = 2 ∧
      s.numbers.Perm [1, 2] ∧ s.numbers = s.quotes.map (·.seq) := by
  obtain ⟨s, hs, hP⟩ := exists_logger_run (rolledOver ++ [.signal, .main, .main, .main, .main])
    (fun s => hasReturned s && decide (s.seq = 2)) (by decide +kernel)
  obtain ⟨hreturned, hseq⟩ := (Bool.and_eq_true _ _).mp hP
  have hseq : s.seq = 2 := of_decide_eq_true hseq
  have hmain : s.main = .done none := by
    unfold hasReturned at hreturned
    split at hreturned
    · assumption
    · cases hreturned
  obtain ⟨hnumbered, hend⟩ := quotes_logged_once hs.of_restrict
  have hperm := hnumbered.numbers
  rw [hseq] at hperm
  exact ⟨s, hs.of_restrict, hmain, hseq, hperm, (hend hmain).1⟩

end Numbers

end LeadLag.Logger
