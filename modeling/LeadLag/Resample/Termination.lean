import LeadLag.Core.Decimal
import LeadLag.Resample.Grid

/-!
# The loop in 64 bits (btc_poly_runner.cpp:473-491, 1020-1021)

The option takes any 64-bit step. The loop ends when every grid time and the one
after the last fit 64 bits, and not at all for a step that is not positive.
-/

namespace LeadLag.Resample
open LeadLag.Core LeadLag.Runner

/-- `--sigma-step-ms`: the argument goes through `std::stoll` and nothing else. -/
def sigmaStepOption (text : String) : Option ℤ := stoll text

/-- `none`: the loop goes on after `n` rounds, or `t += step_ms` overflows. -/
def resampleLoop64 (now step : ℤ) : ℕ → ℤ → ℤ × ℚ → History → Option (List ℚ)
  | 0, _, _, _ => none
  | n + 1, t, cur, rest =>
    if t ≤ now then
      let (cur, rest) := advanceTo t cur rest
      if fitsInt64 (t + step) then
        (resampleLoop64 now step n (t + step) cur rest).map (cur.2 :: ·)
      else none
    else some []

def resampleMids64 (n : ℕ) (hist : History) (nowWallMs stepMs : ℤ) : Option (List ℚ) :=
  if hist.length < 3 then some []
  else
    let start := nowWallMs - oneHourMs
    if fitsInt64 start then
      match skipBefore start hist with
      | [] => some []
      | cur :: rest => resampleLoop64 nowWallMs stepMs n start cur rest
    else none

/-- The call returns, and with one value a grid time. -/
def Returns (hist : History) (now step : ℤ) : Prop :=
  ∃ n mids, resampleMids64 n hist now step = some mids ∧
    (3 ≤ hist.length → (mids.length : ℤ) = oneHourMs / step + 1)

/-! ### One loop -/

theorem fitsInt64_iff (e : ℤ) :
    fitsInt64 e = true ↔ -9223372036854775808 ≤ e ∧ e < 9223372036854775808 :=
  decide_eq_true_iff

theorem resampleLoop64_nonpos {now step : ℤ} (hstep : step ≤ 0) (n : ℕ) {t : ℤ} (hle : t ≤ now)
    (cur : ℤ × ℚ) (rest : History) : resampleLoop64 now step n t cur rest = none := by
  induction n generalizing t cur rest with
  | zero => rfl
  | succ n ih =>
    have hnext : t + step ≤ now := by omega
    simp only [resampleLoop64, hle, if_true, ih hnext, Option.map_none, ite_self]

/-- With a positive step the last time computed is the one after the grid. -/
theorem resampleLoop64_eq {now step : ℤ} (hstep : 0 < step) (n : ℕ) {t : ℤ}
    (ht : fitsInt64 t = true) (cur : ℤ × ℚ) (rest : History) :
    resampleLoop64 now step n t cur rest =
      if gridSize now step t < n ∧ fitsInt64 (t + gridSize now step t * step) = true then
        some ((usedFrom step t cur rest (gridSize now step t)).map Prod.snd)
      else none := by
  induction n generalizing t cur rest with
  | zero => rfl
  | succ n ih =>
    by_cases hle : t ≤ now
    · have hsize := gridSize_of_le hstep hle
      have hend : t + (gridSize now step (t + step) + 1 : ℕ) * step =
          t + step + gridSize now step (t + step) * step := by
        rw [Nat.cast_succ, add_mul, one_mul]
        omega
      simp only [resampleLoop64, hle, if_true, hsize, hend]
      by_cases hfits : fitsInt64 (t + step) = true
      · simp only [hfits, if_true, ih hfits]
        by_cases hrest : gridSize now step (t + step) < n ∧
            fitsInt64 (t + step + gridSize now step (t + step) * step) = true
        · have hall : gridSize now step (t + step) + 1 < n + 1 ∧
              fitsInt64 (t + step + gridSize now step (t + step) * step) = true :=
            ⟨Nat.succ_lt_succ hrest.1, hrest.2⟩
          rw [if_pos hrest, if_pos hall, usedFrom_succ hstep]
          rfl
        · have hall : ¬ (gridSize now step (t + step) + 1 < n + 1 ∧
              fitsInt64 (t + step + gridSize now step (t + step) * step) = true) := by
            intro hall
            exact hrest ⟨Nat.lt_of_succ_lt_succ hall.1, hall.2⟩
          rw [if_neg hrest, if_neg hall]
          rfl
      · -- a time past the range only grows
        have hnonneg : 0 ≤ (gridSize now step (t + step) : ℤ) * step :=
          Int.mul_nonneg (by omega) hstep.le
        have hlater : ¬ fitsInt64 (t + step + gridSize now step (t + step) * step) = true := by
          rw [fitsInt64_iff] at ht hfits ⊢
          omega
        rw [if_neg hfits, if_neg fun hall => hlater hall.2]
    · have hsize := gridSize_of_lt hstep (not_le.mp hle)
      have htime : t + ((0 : ℕ) : ℤ) * step = t := by
        rw [Nat.cast_zero, zero_mul, add_zero]
      simp only [resampleLoop64, hle, if_false, hsize, htime, ht, Nat.zero_lt_succ, true_and,
        if_true]
      rfl

/-! ### The call -/

theorem resampleMids64_short {hist : History} (h : hist.length < 3) (n : ℕ) (now step : ℤ) :
    resampleMids64 n hist now step = some [] :=
  if_pos h

theorem resampleMids64_nonpos {hist : History} (h3 : 3 ≤ hist.length) {step : ℤ}
    (hstep : step ≤ 0) (n : ℕ) (now : ℤ) : resampleMids64 n hist now step = none := by
  obtain ⟨cur, rest, hskip⟩ := exists_skipBefore (now - oneHourMs) h3
  have hbefore : now - oneHourMs ≤ now := by
    have hhour : oneHourMs = 3600000 := rfl
    omega
  unfold resampleMids64
  simp only [not_lt.mpr h3, if_false, hskip, resampleLoop64_nonpos hstep n hbefore, ite_self]

/-- The times computed for a grid are within 64 bits. -/
def GridFits (now step : ℤ) : Prop :=
  fitsInt64 (now - oneHourMs) = true ∧
    fitsInt64 (now - oneHourMs + (oneHourMs / step + 1) * step) = true

theorem gridSize_hour_cast {step : ℤ} (hstep : 0 < step) (now : ℤ) :
    (gridSize now step (now - oneHourMs) : ℤ) = oneHourMs / step + 1 := by
  have hnonneg : 0 ≤ oneHourMs / step := Int.ediv_nonneg (by decide) hstep.le
  rw [gridSize_hour hstep]
  omega

theorem resampleMids64_fits {hist : History} (h3 : 3 ≤ hist.length) {now step : ℤ}
    (hstep : 0 < step) (hfits : GridFits now step) :
    ∃ mids, resampleMidsFromHist hist now step = some mids ∧
      (mids.length : ℤ) = oneHourMs / step + 1 ∧
      ∀ n, (oneHourMs / step).toNat + 1 < n → resampleMids64 n hist now step = some mids := by
  obtain ⟨cur, rest, hskip⟩ := exists_skipBefore (now - oneHourMs) h3
  refine ⟨_, resampleMids_eq h3 hstep hskip, ?_, ?_⟩
  · rw [List.length_map, ← gridSize_hour_cast hstep now]
    simp [usedFrom]
  · intro n hn
    have hrounds : gridSize now step (now - oneHourMs) < n ∧
        fitsInt64 (now - oneHourMs + gridSize now step (now - oneHourMs) * step) = true := by
      rw [gridSize_hour_cast hstep]
      exact ⟨by rw [gridSize_hour hstep]; exact hn, hfits.2⟩
    unfold resampleMids64
    simp only [not_lt.mpr h3, if_false, hskip, hfits.1, if_true]
    rw [resampleLoop64_eq hstep n hfits.1, if_pos hrounds]

/-- What is returned for three observations or more was computed without overflow. -/
theorem gridFits_of_some {hist : History} (h3 : 3 ≤ hist.length) {n : ℕ} {now step : ℤ}
    {mids : List ℚ} (hstep : 0 < step) (h : resampleMids64 n hist now step = some mids) :
    GridFits now step := by
  obtain ⟨cur, rest, hskip⟩ := exists_skipBefore (now - oneHourMs) h3
  unfold resampleMids64 at h
  simp only [not_lt.mpr h3, if_false, hskip] at h
  by_cases hstart : fitsInt64 (now - oneHourMs) = true
  · rw [if_pos hstart, resampleLoop64_eq hstep n hstart] at h
    split at h
    · rename_i hrounds
      rw [gridSize_hour_cast hstep] at hrounds
      exact ⟨hstart, hrounds.2⟩
    · cases h
  · rw [if_neg hstart] at h
    cases h

/-- The call returns exactly for a short history, or for a positive step whose
grid times fit. -/
theorem resample_returns_iff (hist : History) (now step : ℤ) :
    Returns hist now step ↔ hist.length < 3 ∨ (0 < step ∧ GridFits now step) := by
  constructor
  · rintro ⟨n, mids, hmids, -⟩
    by_cases h3 : hist.length < 3
    · exact .inl h3
    · have h3' : 3 ≤ hist.length := not_lt.mp h3
      have hstep : 0 < step := by
        by_contra hneg
        rw [resampleMids64_nonpos h3' (not_lt.mp hneg)] at hmids
        cases hmids
      exact .inr ⟨hstep, gridFits_of_some h3' hstep hmids⟩
  · rintro (hshort | ⟨hstep, hfits⟩)
    · refine ⟨0, [], resampleMids64_short hshort 0 now step, ?_⟩
      intro h3
      omega
    · by_cases h3 : hist.length < 3
      · refine ⟨0, [], resampleMids64_short h3 0 now step, ?_⟩
        intro h3'
        omega
      · obtain ⟨mids, -, hlength, hrun⟩ := resampleMids64_fits (not_lt.mp h3) hstep hfits
        exact ⟨_, mids, hrun _ (Nat.lt_succ_self _), fun _ => hlength⟩

/-- `--sigma-step-ms 0` is accepted, and the first full hour never comes back
from the call. -/
theorem resample_hangs :
    ¬ ∀ (text : String) (step : ℤ), sigmaStepOption text = some step →
      ∀ (hist : History) (now : ℤ), Returns hist now step := by
  intro h
  obtain ⟨n, mids, hmids, -⟩ := h "0" 0 (by decide +kernel) [(0, 1), (1000, 2), (2000, 3)] oneHourMs
  rw [resampleMids64_nonpos (by decide) le_rfl] at hmids
  cases hmids

end LeadLag.Resample
