import LeadLag.Resample.Grid

/-!
# The grid of live_pipeline (live_pipeline.cpp:90-124)

`live_pipeline` keeps the index of the first observation not used yet where the
runner keeps that of the last one used, and starts with the value of an
observation it has not used.
-/

namespace LeadLag.Resample
open LeadLag.Runner LeadLag.Timeline

def catchUp (tg : ℤ) (last : ℚ) : History → ℚ × History
  | [] => (last, [])
  | p :: rest => if p.1 ≤ tg then catchUp tg p.2 rest else (last, p :: rest)

def liveLoop (tEnd step : ℤ) : ℕ → ℤ → ℚ → History → Option (List ℚ)
  | 0, _, _, _ => none
  | n + 1, tg, last, rest =>
    if tg ≤ tEnd then
      let (last, rest) := catchUp tg last rest
      (liveLoop tEnd step n (tg + step) last rest).map (last :: ·)
    else some []

/-- The grid of `realized_vol_1h_resampled_from_hist`; `none` when it returns NaN
before it builds one. -/
def liveMids (hist : History) (tEndWallMs stepMs : ℤ) : Option (List ℚ) :=
  let t0 := tEndWallMs - oneHourMs
  if stepMs ≤ 0 then none
  else
    match hist.dropWhile fun p => decide (p.1 < t0) with
    | [] => none
    | p :: rest =>
      let n := oneHourMs / stepMs + 1
      if n < 3 then none else liveLoop tEndWallMs stepMs resampleFuel t0 p.2 (p :: rest)

/-! ### The cursors side by side -/

/-- What one program has used and the other has next, around one grid time. -/
inductive Aligned (cur : ℤ × ℚ) (rest : History) : ℚ → History → Prop where
  | used : Aligned cur rest cur.2 rest
  | unused : Aligned cur rest cur.2 (cur :: rest)

theorem catchUp_used (tg : ℤ) (cur : ℤ × ℚ) (rest : History) :
    catchUp tg cur.2 rest = ((advanceTo tg cur rest).1.2, (advanceTo tg cur rest).2) := by
  induction rest generalizing cur with
  | nil => rfl
  | cons b rest ih =>
    by_cases hb : b.1 ≤ tg
    · simp only [catchUp, advanceTo, hb, if_true]
      exact ih b
    · simp only [catchUp, advanceTo, hb, if_false]

theorem Aligned.catchUp {cur : ℤ × ℚ} {rest rest' : History} {last : ℚ} (tg : ℤ)
    (h : Aligned cur rest last rest') (hsorted : InOrder (cur :: rest)) :
    Aligned (advanceTo tg cur rest).1 (advanceTo tg cur rest).2
      (Resample.catchUp tg last rest').1 (Resample.catchUp tg last rest').2 := by
  cases h with
  | used =>
    rw [catchUp_used]
    exact .used
  | unused =>
    by_cases hcur : cur.1 ≤ tg
    · simp only [Resample.catchUp, hcur, if_true]
      rw [catchUp_used]
      exact .used
    · -- neither cursor moves, and the observation is still ahead
      rw [advanceTo_of_lt hsorted (not_le.mp hcur)]
      simp only [Resample.catchUp, hcur, if_false]
      exact .unused

theorem Aligned.value {cur : ℤ × ℚ} {rest rest' : History} {last : ℚ}
    (h : Aligned cur rest last rest') : last = cur.2 := by
  cases h <;> rfl

theorem advanceTo_suffix (t : ℤ) (cur : ℤ × ℚ) (rest : History) :
    (advanceTo t cur rest).1 :: (advanceTo t cur rest).2 <:+ cur :: rest := by
  induction rest generalizing cur with
  | nil => exact List.suffix_rfl
  | cons b rest ih =>
    by_cases hb : b.1 ≤ t
    · simp only [advanceTo, hb, if_true]
      exact (ih b).trans (List.suffix_cons cur _)
    · simp only [advanceTo, hb, if_false]
      exact List.suffix_rfl

theorem liveLoop_eq {tEnd step : ℤ} (n : ℕ) (tg : ℤ) {cur : ℤ × ℚ} {rest rest' : History}
    {last : ℚ} (h : Aligned cur rest last rest') (hsorted : InOrder (cur :: rest)) :
    liveLoop tEnd step n tg last rest' = resampleLoop tEnd step n tg cur rest := by
  induction n generalizing tg cur rest rest' last with
  | zero => rfl
  | succ n ih =>
    have hnext := h.catchUp tg hsorted
    have htail := ih (tg + step) hnext (hsorted.of_suffix (advanceTo_suffix tg cur rest))
    simp only [liveLoop, resampleLoop]
    rw [htail, hnext.value]

/-! ### The two starts -/

theorem skipBefore_eq_dropWhile {start : ℤ} {hist : History} (h : ∃ p ∈ hist, start ≤ p.1) :
    skipBefore start hist = hist.dropWhile fun p => decide (p.1 < start) := by
  induction hist with
  | nil =>
    obtain ⟨p, hp, -⟩ := h
    exact absurd hp List.not_mem_nil
  | cons a tail ih =>
    by_cases ha : a.1 < start
    · have htail : ∃ p ∈ tail, start ≤ p.1 := by
        obtain ⟨p, hp, hge⟩ := h
        rcases List.mem_cons.mp hp with heq | hp
        · rw [heq] at hge
          omega
        · exact ⟨p, hp, hge⟩
      have hdrop : (a :: tail).dropWhile (fun p => decide (p.1 < start)) =
          tail.dropWhile fun p => decide (p.1 < start) :=
        List.dropWhile_cons_of_pos (by simpa using ha)
      rw [hdrop, ← ih htail]
      cases tail with
      | nil =>
        obtain ⟨p, hp, -⟩ := htail
        exact absurd hp List.not_mem_nil
      | cons b rest => simp only [skipBefore, ha, if_true]
    · rw [List.dropWhile_cons_of_neg (by simpa using ha)]
      cases tail with
      | nil => rfl
      | cons b rest => simp only [skipBefore, ha, if_false]

/-- On an ordered history of three observations or more, one of them in the last
hour, both programs build the same grid for every positive step; live_pipeline
builds none for a step of more than half an hour. -/
theorem grids_agree {hist : History} {tEnd step : ℤ} (h3 : 3 ≤ hist.length)
    (hsorted : InOrder hist) (hlate : ∃ p ∈ hist, tEnd - oneHourMs ≤ p.1) (hstep : 0 < step) :
    (step ≤ 1800000 → ∃ mids, resampleMidsFromHist hist tEnd step = some mids ∧
      liveMids hist tEnd step = some mids) ∧
    (1800000 < step → liveMids hist tEnd step = none) := by
  have hne : hist ≠ [] := List.ne_nil_of_length_pos (by omega)
  obtain ⟨pre, cur, rest, hskip, hsplit, -, -⟩ := skipBefore_spec (tEnd - oneHourMs) hne
  have hdrop : (hist.dropWhile fun p => decide (p.1 < tEnd - oneHourMs)) = cur :: rest := by
    rw [← skipBefore_eq_dropWhile hlate, hskip]
  have hcur : InOrder (cur :: rest) := by
    rw [hsplit] at hsorted
    exact hsorted.of_suffix (List.suffix_append pre _)
  have hlive : liveMids hist tEnd step =
      if oneHourMs / step + 1 < 3 then none
      else liveLoop tEnd step resampleFuel (tEnd - oneHourMs) cur.2 (cur :: rest) := by
    unfold liveMids
    simp only [not_le.mpr hstep, if_false, hdrop]
  have hpoints : step ≤ 1800000 ↔ 2 ≤ oneHourMs / step := by
    rw [Int.le_ediv_iff_mul_le hstep]
    have hhour : oneHourMs = 3600000 := rfl
    omega
  constructor
  · intro hsmall
    have hmany : ¬ oneHourMs / step + 1 < 3 := by
      have := hpoints.mp hsmall
      omega
    have hmids := resampleMids_eq h3 hstep hskip
    have hloop : resampleMidsFromHist hist tEnd step =
        resampleLoop tEnd step resampleFuel (tEnd - oneHourMs) cur rest := by
      unfold resampleMidsFromHist
      simp only [not_lt.mpr h3, if_false, hskip]
    refine ⟨_, hmids, ?_⟩
    rw [hlive, if_neg hmany, liveLoop_eq resampleFuel _ .unused hcur, ← hloop, hmids]
  · intro hlarge
    have hfew : oneHourMs / step + 1 < 3 := by
      have := hpoints.not.mp (not_le.mpr hlarge)
      omega
    rw [hlive, if_pos hfew]

/-- Duplicate times and a gap, in steps of a quarter of an hour. -/
theorem grids_agree_quarters :
    ∃ mids, resampleMidsFromHist [(-5, 1), (7, 2), (7, 3), (2000000, 4)] oneHourMs 900000 =
        some mids ∧
      liveMids [(-5, 1), (7, 2), (7, 3), (2000000, 4)] oneHourMs 900000 = some mids :=
  (grids_agree (by decide) (by decide) ⟨(7, 2), by decide, by decide⟩ (by decide)).1 (by decide)

/-- With a step of 1800001 ms live_pipeline returns before it builds a grid. -/
theorem grids_differ_large_step :
    ¬ ∀ (hist : History) (tEnd step : ℤ), 3 ≤ hist.length → InOrder hist →
      (∃ p ∈ hist, tEnd - oneHourMs ≤ p.1) → 0 < step →
        ∃ mids, resampleMidsFromHist hist tEnd step = some mids ∧
          liveMids hist tEnd step = some mids := by
  intro h
  obtain ⟨mids, -, hlive⟩ := h [(1, 1), (2, 2), (3, 3)] oneHourMs 1800001 (by decide) (by decide)
    ⟨(1, 1), by decide, by decide⟩ (by decide)
  have hnone : liveMids [(1, 1), (2, 2), (3, 3)] oneHourMs 1800001 = none := by decide +kernel
  rw [hnone] at hlive
  cases hlive

end LeadLag.Resample
