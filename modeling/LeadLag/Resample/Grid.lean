import LeadLag.Runner.Volatility
import LeadLag.Timeline.Trim

/-!
# The grid of the runner (btc_poly_runner.cpp:473-491)

The value pushed at a grid time is that of the observation the cursor stands on,
and where the cursor stands depends on the grid time alone: on the last of the
observations that follow the first one kept without a gap up to that time.
-/

namespace LeadLag.Resample
open LeadLag.Runner LeadLag.Timeline

/-! ### The two cursors -/

/-- The cursor goes on from where an earlier grid time left it. -/
theorem advanceTo_advanceTo {t t' : ℤ} (hle : t ≤ t') (cur : ℤ × ℚ) (rest : History) :
    advanceTo t' (advanceTo t cur rest).1 (advanceTo t cur rest).2 = advanceTo t' cur rest := by
  induction rest generalizing cur with
  | nil => rfl
  | cons b rest ih =>
    by_cases hb : b.1 ≤ t
    · have hb' : b.1 ≤ t' := hb.trans hle
      simp only [advanceTo, hb, hb', if_true]
      exact ih b
    · simp only [advanceTo, hb, if_false]

theorem advanceTo_of_lt {t : ℤ} {cur : ℤ × ℚ} {rest : History}
    (hsorted : InOrder (cur :: rest)) (hlt : t < cur.1) : advanceTo t cur rest = (cur, rest) := by
  cases rest with
  | nil => rfl
  | cons b rest =>
    have hle : cur.1 ≤ b.1 := (List.pairwise_cons.mp hsorted).1 b List.mem_cons_self
    have hb : ¬ b.1 ≤ t := by omega
    simp only [advanceTo, hb, if_false]

theorem getLast?_upTo_cons {t : ℤ} {cur : ℤ × ℚ} {rest : History}
    (hsorted : InOrder (cur :: rest)) (hle : cur.1 ≤ t) :
    (upTo t (cur :: rest)).getLast? = some (advanceTo t cur rest).1 := by
  induction rest generalizing cur with
  | nil => simp [upTo, hle, advanceTo]
  | cons b rest ih =>
    have htail : InOrder (b :: rest) := (List.pairwise_cons.mp hsorted).2
    have hcons : upTo t (cur :: b :: rest) = cur :: upTo t (b :: rest) :=
      List.filter_cons_of_pos (decide_eq_true hle)
    by_cases hb : b.1 ≤ t
    · have hlast := ih htail hb
      have hne : upTo t (b :: rest) ≠ [] := by
        intro hnil
        rw [hnil] at hlast
        cases hlast
      rw [hcons, List.getLast?_cons_of_ne_nil hne, hlast]
      simp only [advanceTo, hb, if_true]
    · have hnone : upTo t (b :: rest) = [] := by
        have hall : ∀ p ∈ b :: rest, t < p.1 := by
          intro p hp
          have hbp : b.1 ≤ p.1 := htail.head_le rfl hp
          omega
        exact upTo_append_of_lt (l := []) hall
      rw [hcons, hnone]
      simp only [advanceTo, hb, if_false, List.getLast?_singleton]

/-- What the first loop skips is older than the start, and it stops at the start
or at the last observation. -/
theorem skipBefore_spec (start : ℤ) {hist : History} (hne : hist ≠ []) :
    ∃ pre cur rest, skipBefore start hist = cur :: rest ∧ hist = pre ++ cur :: rest ∧
      (∀ p ∈ pre, p.1 < start) ∧ (start ≤ cur.1 ∨ rest = []) := by
  induction hist with
  | nil => exact absurd rfl hne
  | cons a tail ih =>
    cases tail with
    | nil => exact ⟨[], a, [], rfl, rfl, fun _ hp => absurd hp List.not_mem_nil, .inr rfl⟩
    | cons b rest =>
      by_cases ha : a.1 < start
      · obtain ⟨pre, cur, rest', hskip, hsplit, hpre, hstop⟩ := ih (List.cons_ne_nil b rest)
        refine ⟨a :: pre, cur, rest', ?_, ?_, ?_, hstop⟩
        · simp only [skipBefore, ha, if_true]
          exact hskip
        · rw [hsplit, List.cons_append]
        · intro p hp
          rcases List.mem_cons.mp hp with hp | hp
          · rw [hp]
            exact ha
          · exact hpre p hp
      · refine ⟨[], a, b :: rest, ?_, rfl, fun _ hp => absurd hp List.not_mem_nil, ?_⟩
        · simp only [skipBefore, ha, if_false]
        · exact .inl (not_lt.mp ha)

theorem exists_skipBefore (start : ℤ) {hist : History} (h3 : 3 ≤ hist.length) :
    ∃ cur rest, skipBefore start hist = cur :: rest := by
  have hne : hist ≠ [] := List.ne_nil_of_length_pos (by omega)
  obtain ⟨pre, cur, rest, hskip, -, -, -⟩ := skipBefore_spec start hne
  exact ⟨cur, rest, hskip⟩

/-! ### The loop over the grid -/

/-- Grid times from `t` on. -/
def gridSize (now step t : ℤ) : ℕ := ((now - t) / step + 1).toNat

theorem gridSize_of_lt {now step t : ℤ} (hstep : 0 < step) (hlt : now < t) :
    gridSize now step t = 0 := by
  have hneg : (now - t) / step < 0 := Int.ediv_neg_of_neg_of_pos (by omega) hstep
  unfold gridSize
  omega

theorem gridSize_of_le {now step t : ℤ} (hstep : 0 < step) (hle : t ≤ now) :
    gridSize now step t = gridSize now step (t + step) + 1 := by
  have hnext : (now - (t + step)) / step = (now - t) / step - 1 := by
    rw [show now - (t + step) = now - t + -1 * step by omega, Int.add_mul_ediv_right _ _ hstep.ne']
    omega
  have hpos : 0 ≤ (now - t) / step := Int.ediv_nonneg (by omega) hstep.le
  unfold gridSize
  omega

theorem gridSize_hour {step : ℤ} (hstep : 0 < step) (now : ℤ) :
    gridSize now step (now - oneHourMs) = (oneHourMs / step).toNat + 1 := by
  have hpos : 0 ≤ oneHourMs / step := Int.ediv_nonneg (by decide) hstep.le
  unfold gridSize
  rw [sub_sub_cancel]
  omega

theorem lt_gridSize_iff {now step t : ℤ} (hstep : 0 < step) (i : ℕ) :
    i < gridSize now step t ↔ t + i * step ≤ now := by
  have hdiv : (i : ℤ) ≤ (now - t) / step ↔ (i : ℤ) * step ≤ now - t :=
    Int.le_ediv_iff_mul_le hstep
  unfold gridSize
  omega

/-- The loop with the observation that each value is taken from. -/
def usedLoop (now step : ℤ) : ℕ → ℤ → ℤ × ℚ → History → Option History
  | 0, _, _, _ => none
  | n + 1, t, cur, rest =>
    if t ≤ now then
      let (cur, rest) := advanceTo t cur rest
      (usedLoop now step n (t + step) cur rest).map (cur :: ·)
    else some []

theorem resampleLoop_eq_used (now step : ℤ) (n : ℕ) (t : ℤ) (cur : ℤ × ℚ) (rest : History) :
    resampleLoop now step n t cur rest =
      (usedLoop now step n t cur rest).map (List.map Prod.snd) := by
  induction n generalizing t cur rest with
  | zero => rfl
  | succ n ih =>
    simp only [resampleLoop, usedLoop]
    split
    · rw [ih, Option.map_map, Option.map_map]
      rfl
    · rfl

/-- The observations a grid of `k` times uses. -/
def usedFrom (step t : ℤ) (cur : ℤ × ℚ) (rest : History) (k : ℕ) : History :=
  (List.range k).map fun i : ℕ => (advanceTo (t + i * step) cur rest).1

theorem usedFrom_succ {step : ℤ} (hstep : 0 < step) (t : ℤ) (cur : ℤ × ℚ) (rest : History)
    (k : ℕ) :
    usedFrom step t cur rest (k + 1) = (advanceTo t cur rest).1 ::
      usedFrom step (t + step) (advanceTo t cur rest).1 (advanceTo t cur rest).2 k := by
  unfold usedFrom
  rw [List.range_succ_eq_map, List.map_cons, List.map_map]
  congr 1
  · simp
  · apply List.map_congr_left
    intro i _
    have htime : t + ((i + 1 : ℕ) : ℤ) * step = t + step + i * step := by
      rw [Nat.cast_succ, add_mul, one_mul]
      omega
    have hnonneg : 0 ≤ (i : ℤ) * step := Int.mul_nonneg (by omega) hstep.le
    show (advanceTo (t + ((i + 1 : ℕ) : ℤ) * step) cur rest).1 = _
    rw [htime, advanceTo_advanceTo (by omega)]

theorem usedLoop_eq {now step : ℤ} (hstep : 0 < step) (n : ℕ) (t : ℤ) (cur : ℤ × ℚ)
    (rest : History) :
    usedLoop now step n t cur rest =
      if gridSize now step t < n then some (usedFrom step t cur rest (gridSize now step t))
      else none := by
  induction n generalizing t cur rest with
  | zero => rfl
  | succ n ih =>
    by_cases hle : t ≤ now
    · have hsize := gridSize_of_le hstep hle
      simp only [usedLoop, hle, if_true, ih, hsize]
      by_cases hfuel : gridSize now step (t + step) < n
      · have hfuel' : gridSize now step (t + step) + 1 < n + 1 := by omega
        rw [if_pos hfuel, if_pos hfuel', usedFrom_succ hstep]
        rfl
      · have hfuel' : ¬ gridSize now step (t + step) + 1 < n + 1 := by omega
        rw [if_neg hfuel, if_neg hfuel']
        rfl
    · have hsize := gridSize_of_lt hstep (not_le.mp hle)
      simp only [usedLoop, hle, if_false, hsize, Nat.zero_lt_succ, if_true]
      rfl

/-! ### The grid of a history -/

/-- The observations behind the values of `resample_mids_from_hist`. -/
def usedObservations (hist : History) (nowWallMs stepMs : ℤ) : Option History :=
  if hist.length < 3 then some []
  else
    let start := nowWallMs - oneHourMs
    match skipBefore start hist with
    | [] => some []
    | cur :: rest => usedLoop nowWallMs stepMs resampleFuel start cur rest

theorem resample_eq_used (hist : History) (now step : ℤ) :
    resampleMidsFromHist hist now step =
      (usedObservations hist now step).map (List.map Prod.snd) := by
  unfold resampleMidsFromHist usedObservations
  split
  · rfl
  · dsimp only
    cases skipBefore (now - oneHourMs) hist with
    | nil => rfl
    | cons cur rest => exact resampleLoop_eq_used ..

/-- The grid of three or more observations, from the one the first loop stops at. -/
theorem usedObservations_eq {hist : History} {now step : ℤ} (h3 : 3 ≤ hist.length)
    (hstep : 0 < step) {cur : ℤ × ℚ} {rest : History}
    (hskip : skipBefore (now - oneHourMs) hist = cur :: rest) :
    usedObservations hist now step =
      some (usedFrom step (now - oneHourMs) cur rest (gridSize now step (now - oneHourMs))) := by
  have hfuel : gridSize now step (now - oneHourMs) < resampleFuel := by
    have hpos : 0 ≤ oneHourMs := by decide
    have hdiv : oneHourMs / step ≤ oneHourMs := Int.ediv_le_self step hpos
    have hsize := gridSize_hour hstep now
    have hhour : oneHourMs = 3600000 := rfl
    have hmax : resampleFuel = 3600002 := rfl
    omega
  unfold usedObservations
  simp only [not_lt.mpr h3, if_false, hskip]
  rw [usedLoop_eq hstep, if_pos hfuel]

theorem resampleMids_eq {hist : History} {now step : ℤ} (h3 : 3 ≤ hist.length)
    (hstep : 0 < step) {cur : ℤ × ℚ} {rest : History}
    (hskip : skipBefore (now - oneHourMs) hist = cur :: rest) :
    resampleMidsFromHist hist now step = some ((usedFrom step (now - oneHourMs) cur rest
      (gridSize now step (now - oneHourMs))).map Prod.snd) := by
  rw [resample_eq_used, usedObservations_eq h3 hstep hskip]
  rfl

end LeadLag.Resample
