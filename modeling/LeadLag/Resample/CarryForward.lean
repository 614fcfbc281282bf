import LeadLag.Resample.Grid
import LeadLag.Runner.Spot

/-!
# Last observation carried forward (btc_poly_runner.cpp:421-443, 473-491)

The carry value starts with the first observation at or after the start, not
with the last one before it. Until a grid time reaches that observation the grid
looks ahead.
-/

namespace LeadLag.Resample
open LeadLag.Runner LeadLag.Timeline

/-- Every grid value is the price of the last observation by its time, and is
taken from an observation that is not later. -/
def CarriesForward (hist : History) (now step : ℤ) : Prop :=
  ∃ used, usedObservations hist now step = some used ∧
    resampleMidsFromHist hist now step = some (used.map Prod.snd) ∧
    ∀ i : ℕ, now - oneHourMs + i * step ≤ now → ∃ p q : ℤ × ℚ,
      (upTo (now - oneHourMs + i * step) hist).getLast? = some p ∧ used[i]? = some q ∧
        q.2 = p.2 ∧ q.1 ≤ now - oneHourMs + i * step

/-- An observation one hour back to the millisecond, or none since. -/
def StartObserved (hist : History) (start : ℤ) : Prop :=
  (∃ p ∈ hist, p.1 = start) ∨ ∀ p ∈ hist, p.1 < start

section Split

variable {start t : ℤ} {pre rest : History} {cur : ℤ × ℚ}

theorem startObserved_iff (hsorted : InOrder (pre ++ cur :: rest))
    (hpre : ∀ p ∈ pre, p.1 < start) (hstop : start ≤ cur.1 ∨ rest = []) :
    StartObserved (pre ++ cur :: rest) start ↔ cur.1 ≤ start := by
  have hcur : InOrder (cur :: rest) := hsorted.of_suffix (List.suffix_append pre _)
  constructor
  · rintro (⟨p, hp, hstart⟩ | hnone)
    · rcases List.mem_append.mp hp with hp | hp
      · have hlt := hpre p hp
        omega
      · have hle : cur.1 ≤ p.1 := hcur.head_le rfl hp
        omega
    · exact (hnone cur (List.mem_append_right pre List.mem_cons_self)).le
  · intro hle
    rcases hstop with hge | hnil
    · exact .inl ⟨cur, List.mem_append_right pre List.mem_cons_self, le_antisymm hle hge⟩
    · by_cases heq : cur.1 = start
      · exact .inl ⟨cur, List.mem_append_right pre List.mem_cons_self, heq⟩
      · refine .inr ?_
        intro p hp
        rw [hnil] at hp
        rcases List.mem_append.mp hp with hp | hp
        · exact hpre p hp
        · rw [List.mem_singleton.mp hp]
          omega

/-- From the start on, what was skipped is never the last observation. -/
theorem getLast?_upTo_split (hsorted : InOrder (pre ++ cur :: rest)) (hle : cur.1 ≤ t) :
    (upTo t (pre ++ cur :: rest)).getLast? = some (advanceTo t cur rest).1 := by
  have hlast := getLast?_upTo_cons (hsorted.of_suffix (List.suffix_append pre _)) hle
  unfold upTo at hlast ⊢
  rw [List.filter_append, List.getLast?_append, hlast]
  rfl

theorem advanceTo_le (hle : cur.1 ≤ t) : (advanceTo t cur rest).1.1 ≤ t := by
  induction rest generalizing cur with
  | nil => exact hle
  | cons b rest ih =>
    by_cases hb : b.1 ≤ t
    · simp only [advanceTo, hb, if_true]
      exact ih hb
    · simp only [advanceTo, hb, if_false]
      exact hle

end Split

section Grid

variable {hist : History} {now step : ℤ}

/-- A grid that looks ahead shows it at its first time. -/
theorem CarriesForward.startObserved (h : CarriesForward hist now step) (h3 : 3 ≤ hist.length)
    (hsorted : InOrder hist) (hstep : 0 < step) : StartObserved hist (now - oneHourMs) := by
  have hne : hist ≠ [] := List.ne_nil_of_length_pos (by omega)
  obtain ⟨pre, cur, rest, hskip, hsplit, hpre, hstop⟩ := skipBefore_spec (now - oneHourMs) hne
  have hused := usedObservations_eq h3 hstep hskip
  rw [hsplit] at hsorted
  have hcur : InOrder (cur :: rest) := hsorted.of_suffix (List.suffix_append pre _)
  obtain ⟨used, hu, -, hcarries⟩ := h
  rw [hused] at hu
  obtain rfl := Option.some.inj hu
  rw [hsplit, startObserved_iff hsorted hpre hstop]
  by_contra hlate
  have hstart : 0 < gridSize now step (now - oneHourMs) := by
    rw [gridSize_hour hstep]
    omega
  obtain ⟨p, q, -, hq, -, hle⟩ := hcarries 0 ((lt_gridSize_iff hstep 0).mp hstart)
  have hgrid : (usedFrom step (now - oneHourMs) cur rest
      (gridSize now step (now - oneHourMs)))[0]? = some cur := by
    have hstay : advanceTo (now - oneHourMs) cur rest = (cur, rest) :=
      advanceTo_of_lt hcur (not_le.mp hlate)
    simp [usedFrom, List.getElem?_range hstart, hstay]
  rw [hgrid] at hq
  obtain rfl := Option.some.inj hq
  rw [Nat.cast_zero, zero_mul, add_zero] at hle
  exact hlate hle

theorem StartObserved.carriesForward (h : StartObserved hist (now - oneHourMs))
    (h3 : 3 ≤ hist.length) (hsorted : InOrder hist) (hstep : 0 < step) :
    CarriesForward hist now step := by
  have hne : hist ≠ [] := List.ne_nil_of_length_pos (by omega)
  obtain ⟨pre, cur, rest, hskip, hsplit, hpre, hstop⟩ := skipBefore_spec (now - oneHourMs) hne
  have hused := usedObservations_eq h3 hstep hskip
  have hvalues := resampleMids_eq h3 hstep hskip
  rw [hsplit] at hsorted h
  have hle : cur.1 ≤ now - oneHourMs := (startObserved_iff hsorted hpre hstop).mp h
  refine ⟨_, hused, hvalues, ?_⟩
  intro i hi
  have hnonneg : 0 ≤ (i : ℤ) * step := Int.mul_nonneg (by omega) hstep.le
  have hcur : cur.1 ≤ now - oneHourMs + i * step := by omega
  have hgrid : (usedFrom step (now - oneHourMs) cur rest
      (gridSize now step (now - oneHourMs)))[i]? =
        some (advanceTo (now - oneHourMs + i * step) cur rest).1 := by
    simp [usedFrom, List.getElem?_range ((lt_gridSize_iff hstep i).mpr hi)]
  refine ⟨_, _, ?_, hgrid, rfl, advanceTo_le hcur⟩
  rw [hsplit]
  exact getLast?_upTo_split hsorted hcur

/-- On an ordered history of three observations or more the grid carries the
last observation forward exactly when the start of the hour was observed. -/
theorem resample_carriesForward_iff (h3 : 3 ≤ hist.length) (hsorted : InOrder hist)
    (hstep : 0 < step) : CarriesForward hist now step ↔ StartObserved hist (now - oneHourMs) := by
  constructor
  · intro hforward
    exact hforward.startObserved h3 hsorted hstep
  · intro hobserved
    exact hobserved.carriesForward h3 hsorted hstep

end Grid

/-- In the thread the history is trimmed to the hour before the test is made: a
test passed says that the start was observed. -/
theorem trimmed_carriesForward {hist : History} {now step : ℤ}
    (h3 : 3 ≤ (trim (now - oneHourMs) hist).length) (hsorted : InOrder hist)
    (hhour : hasFullHour (trim (now - oneHourMs) hist) now = true) (hstep : 0 < step) :
    CarriesForward (trim (now - oneHourMs) hist) now step := by
  have htrim : InOrder (trim (now - oneHourMs) hist) := hsorted.of_suffix (trim_suffix _ _)
  obtain ⟨p, hp, hle⟩ := (Option.any_eq_true _ _).mp hhour
  have hge : now - oneHourMs ≤ p.1 := le_head_trim hp
  have hobserved : StartObserved (trim (now - oneHourMs) hist) (now - oneHourMs) :=
    .inl ⟨p, List.mem_of_mem_head? hp, le_antisymm (of_decide_eq_true hle) hge⟩
  exact hobserved.carriesForward h3 htrim hstep

/-- One observation just before the start of the hour and the others after it. -/
def straddling : History := [(-5, 1), (1000, 2), (2000, 3)]

/-- The first value is the price of an observation one second later. -/
theorem resample_looks_ahead :
    ¬ ∀ (hist : History) (now step : ℤ), 3 ≤ hist.length → InOrder hist →
      hasFullHour hist now = true → 0 < step → CarriesForward hist now step := by
  intro h
  have hall := h straddling oneHourMs 1800000 (by decide) (by decide) (by decide) (by decide)
  have hobserved := hall.startObserved (by decide) (by decide) (by decide)
  exact absurd hobserved (by unfold StartObserved; decide)

/-- With an observation at the start of the hour. -/
theorem resample_carriesForward_observed :
    CarriesForward [(-5, 1), (0, 4), (1000, 2)] oneHourMs 1800000 :=
  (resample_carriesForward_iff (by decide) (by decide) (by decide)).mpr
    (.inl ⟨(0, 4), by decide, by decide⟩)

end LeadLag.Resample
