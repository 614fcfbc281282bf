import LeadLag.Runner.Replay
import LeadLag.Runner.Ticks
import LeadLag.Timeline.Trim

/-!
# The order of the spot history

A tick is appended and becomes the spot whatever its time. So the history is in
order, and the spot the newest tick, exactly as long as ticks arrive in order.
-/

namespace LeadLag.Spot
open LeadLag.Execution LeadLag.Interaction LeadLag.Runner LeadLag.Timeline

theorem binHist_storeTick (cfg : Config) (h : HotState) (tick : SpotTick) :
    (h.storeTick cfg tick).binHist =
      trim (histTrimFloorMs cfg h.activeEpoch tick.wallMs) (h.binHist ++ [tick.point]) := rfl

theorem step_binHist {M : Libm} {cfg : Config} {c c' : Consumer} {l : Label} {tick : SpotTick}
    (h : Step M cfg c l c') (ht : l.spotTick? = some tick) :
    c'.hot.binHist = trim (histTrimFloorMs cfg c.hot.activeEpoch tick.wallMs)
      (c.hot.binHist ++ [tick.point]) := by
  rw [step_stores h ht]
  exact binHist_storeTick cfg c.hot tick

theorem binHist_suffix {M : Libm} {cfg : Config} {hist : History} {c : Consumer} {ls : List Label}
    (h : (runner M cfg).Run (.start cfg hist) ls c) : c.hot.binHist <:+ received hist ls := by
  induction h with
  | nil =>
    rw [received_nil]
    exact List.suffix_rfl
  | snoc hr hst ih =>
    rename_i l
    cases ht : l.spotTick? with
    | some tick =>
      rw [step_binHist hst ht, received_concat_tick ht]
      obtain ⟨pre, hpre⟩ := ih
      exact (trim_suffix _ _).trans ⟨pre, by rw [← List.append_assoc, hpre]⟩
    | none =>
      rw [(step_noTick hst ht).2, received_concat_other ht]
      exact ih

/-- The history is in order of time, and the spot is a tick that no observation
received is newer than. Before the first tick there is no spot. -/
structure HistoryInOrder (c : Consumer) (received : History) (ticks : List SpotTick) : Prop where
  sorted : InOrder c.hot.binHist
  spot : ticks ≠ [] → c.hot.bin.isSome = true
  newest : ∀ tick, c.hot.bin = some tick →
    tick ∈ ticks ∧ ∀ p ∈ received, p.1 ≤ tick.wallMs

section Run

variable {M : Libm} {cfg : Config} {hist : History} {c : Consumer} {ls : List Label}

theorem historyInOrder_of_sorted (h : (runner M cfg).Run (.start cfg hist) ls c)
    (hsorted : InOrder (received hist ls)) :
    HistoryInOrder c (received hist ls) (ticks ls) := by
  have hbin : c.hot.bin = (ticks ls).getLast? := bin_run ⟨hist, rfl⟩ h
  refine ⟨hsorted.of_suffix (binHist_suffix h), ?_, ?_⟩
  · intro hne
    rw [hbin]
    simpa [List.getLast?_isSome] using hne
  · intro tick htick
    rw [hbin] at htick
    obtain ⟨init, hinit⟩ := List.getLast?_eq_some_iff.mp htick
    have hlast : received hist ls = (hist ++ init.map SpotTick.point) ++ [tick.point] := by
      rw [received, hinit]
      simp
    have hmem : tick ∈ ticks ls := by
      rw [hinit]
      exact List.mem_append_right init (List.mem_singleton_self tick)
    rw [hlast, inOrder_concat] at hsorted
    refine ⟨hmem, ?_⟩
    intro p hp
    rw [hlast] at hp
    rcases List.mem_append.mp hp with hp | hp
    · exact hsorted.2 p hp
    · rw [List.mem_singleton.mp hp]
      exact le_rfl

theorem sorted_step {l : Label} {c' : Consumer} (h : Step M cfg c l c')
    (hsorted : InOrder (received hist ls))
    (hnew : ∀ tick, c'.hot.bin = some tick → ∀ p ∈ received hist (ls ++ [l]), p.1 ≤ tick.wallMs) :
    InOrder (received hist (ls ++ [l])) := by
  cases ht : l.spotTick? with
  | none =>
    rw [received_concat_other ht]
    exact hsorted
  | some tick =>
    have hbin : c'.hot.bin = some tick := by
      rw [step_stores h ht]
      rfl
    rw [received_concat_tick ht] at hnew ⊢
    have hlast : ∀ p ∈ received hist ls, p.1 ≤ tick.point.1 := by
      intro p hp
      exact hnew tick hbin p (List.mem_append_left _ hp)
    exact inOrder_concat.mpr ⟨hsorted, hlast⟩

/-- The history is in order and the spot the newest tick after every event of a
run exactly when the prefilled rows and the ticks, as received, are in order of
time. -/
theorem history_in_order_iff (h : (runner M cfg).Run (.start cfg hist) ls c) :
    (∀ ls₁ ls₂ a, ls = ls₁ ++ ls₂ → (runner M cfg).Run (.start cfg hist) ls₁ a →
      HistoryInOrder a (received hist ls₁) (ticks ls₁)) ↔ InOrder (received hist ls) := by
  constructor
  · intro hall
    induction h with
    | nil =>
      have hstart := (hall [] [] _ rfl .nil).sorted
      rw [received_nil]
      exact hstart
    | snoc hr hst ih =>
      rename_i ls t u l
      have hsorted : InOrder (received hist ls) := by
        apply ih
        intro ls₁ ls₂ a heq ha
        have hlonger : ls ++ [l] = ls₁ ++ (ls₂ ++ [l]) := by rw [heq, List.append_assoc]
        exact hall ls₁ (ls₂ ++ [l]) a hlonger ha
      have hlast := hall (ls ++ [l]) [] u (List.append_nil _).symm (.snoc hr hst)
      exact sorted_step hst hsorted fun tick htick => (hlast.newest tick htick).2
  · intro hsorted ls₁ ls₂ a heq ha
    rw [heq, received_append] at hsorted
    exact historyInOrder_of_sorted ha (hsorted.of_prefix (List.prefix_append _ _))

end Run

/-! ### Two runs -/

def twoTicks (first second : ℤ) : List (Event × Script) :=
  [(.chainlinkSpot first 100, paperAnswers.script),
   (.chainlinkSpot second 101, paperAnswers.script)]

theorem ticks_in_order :
    ∃ ls c, (runner coarse {}).Run (.start {} [(500, 99)]) ls c ∧ (ticks ls).length = 2 ∧
      HistoryInOrder c (received [(500, 99)] ls) (ticks ls) := by
  obtain ⟨ls, c, hrun, hP⟩ := exists_run_of_replay coarse {} [(500, 99)] (twoTicks 1000 1500)
    (fun ls _ => decide ((ticks ls).length = 2) && decide (InOrder (received [(500, 99)] ls)))
    (by decide +kernel)
  simp only [Bool.and_eq_true, decide_eq_true_eq] at hP
  have hall := (history_in_order_iff hrun).mpr hP.2
  exact ⟨ls, c, hrun, hP.1, hall ls [] c (List.append_nil ls).symm hrun⟩

/-- A tick half a second older than the one before it becomes the spot. -/
theorem spot_goes_back :
    ∃ ls c tick, (runner coarse {}).Run (.start {} []) ls c ∧ ¬ InOrder c.hot.binHist ∧
      c.hot.bin = some tick ∧ ∃ p ∈ received [] ls, tick.wallMs < p.1 := by
  obtain ⟨ls, c, hrun, hP⟩ := exists_run_of_replay coarse {} [] (twoTicks 1000 500)
    (fun ls c => !decide (InOrder c.hot.binHist) &&
      c.hot.bin.any fun tick => (received [] ls).any fun p => decide (tick.wallMs < p.1))
    (by decide +kernel)
  simp only [Bool.and_eq_true, Bool.not_eq_true', decide_eq_false_iff_not, Option.any_eq_true,
    List.any_eq_true, decide_eq_true_eq] at hP
  obtain ⟨hno, tick, htick, p, hp, hlt⟩ := hP
  exact ⟨ls, c, tick, hrun, hno, htick, p, hp, hlt⟩

end LeadLag.Spot
