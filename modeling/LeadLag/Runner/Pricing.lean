import LeadLag.Runner.Config

/-!
# Digital-option prices (btc_poly_runner.cpp:391-419, 1587-1601, 2185-2194)

The libm functions are arbitrary: every result below holds whatever `log`,
`sqrt`, `exp` and `erfc` return. A theo is `none` where the code's double is
NaN, which happens for a negative spot.
-/

namespace LeadLag.Runner

structure Libm where
  log : ℚ → ℚ
  sqrt : ℚ → ℚ
  exp : ℚ → ℚ
  erfc : ℚ → ℚ

def clamp01 (x : ℚ) : ℚ := if x < 0 then 0 else if x > 1 then 1 else x

def clampSigma (s lo hi : ℚ) : ℚ := if s < lo then lo else if s > hi then hi else s

def normalCdf (M : Libm) (x : ℚ) : ℚ := 1 / 2 * M.erfc (-x / M.sqrt 2)

theorem clamp01_mem (x : ℚ) : 0 ≤ clamp01 x ∧ clamp01 x ≤ 1 := by
  unfold clamp01
  split
  · norm_num
  · split
    · norm_num
    · constructor <;> linarith

theorem clampSigma_mem {lo hi : ℚ} (s : ℚ) (h : lo ≤ hi) :
    lo ≤ clampSigma s lo hi ∧ clampSigma s lo hi ≤ hi := by
  unfold clampSigma
  split
  · exact ⟨le_rfl, h⟩
  · split
    · exact ⟨h, le_rfl⟩
    · constructor <;> linarith

structure Theo where
  remS : ℚ
  sigmaUse : ℚ
  up : Option ℚ
  down : Option ℚ
  deriving DecidableEq, Repr

def Theo.of (t : Theo) : Execution.Outcome → Option ℚ
  | .up => t.up
  | .down => t.down

def secondsPerYear : ℚ := 365 * 24 * 3600

/-- `log` of a zero ratio is minus infinity, of a negative one NaN. -/
def digitalProbs (M : Libm) (S K tYears sigma r : ℚ) : Option ℚ × Option ℚ :=
  let disc := M.exp (-r * tYears)
  if 0 < S / K then
    let d2 := (M.log (S / K) + (r - 1 / 2 * sigma * sigma) * tYears) / (sigma * M.sqrt tYears)
    (some (clamp01 (disc * normalCdf M d2)), some (clamp01 (disc * normalCdf M (-d2))))
  else if S / K = 0 then (some (clamp01 (disc * 0)), some (clamp01 (disc * 1)))
  else (none, none)

def theoPrices (M : Libm) (cfg : Config) (activeEpoch binWallMs : ℤ) (S K : ℚ)
    (sigmaBucket : Option ℚ) : Theo :=
  let expWallMs := (activeEpoch + 300) * 1000
  let remS := max (1 / 1000) (((expWallMs - binWallMs : ℤ) : ℚ) / 1000)
  let tYears := remS / secondsPerYear
  let sigmaRaw := sigmaBucket.getD cfg.sigmaFallback
  let sigmaUse := clampSigma sigmaRaw cfg.sigmaClampMin cfg.sigmaClampMax
  let probs := digitalProbs M S K tYears sigmaUse cfg.r
  { remS := remS, sigmaUse := sigmaUse, up := probs.1, down := probs.2 }

theorem digitalProbs_mem {M : Libm} {S K tYears sigma r x : ℚ}
    (h : (digitalProbs M S K tYears sigma r).1 = some x ∨
      (digitalProbs M S K tYears sigma r).2 = some x) : 0 ≤ x ∧ x ≤ 1 := by
  simp only [digitalProbs] at h
  split at h
  · rcases h with h | h <;> cases h <;> exact clamp01_mem _
  · split at h
    · rcases h with h | h <;> cases h <;> exact clamp01_mem _
    · rcases h with h | h <;> cases h

/-- Under accepted options a theo is a probability and its sigma is in the clamp range. -/
theorem theoPrices_mem {M : Libm} {cfg : Config} (hc : cfg.Accepted) (epoch wallMs : ℤ) (S K : ℚ)
    (sigmaBucket : Option ℚ) :
    let t := theoPrices M cfg epoch wallMs S K sigmaBucket
    (cfg.sigmaClampMin ≤ t.sigmaUse ∧ t.sigmaUse ≤ cfg.sigmaClampMax) ∧
      ∀ o x, t.of o = some x → 0 ≤ x ∧ x ≤ 1 := by
  refine ⟨clampSigma_mem _ hc.sigmaClamp.2, fun o x hx => ?_⟩
  cases o with
  | up => exact digitalProbs_mem (Or.inl hx)
  | down => exact digitalProbs_mem (Or.inr hx)

end LeadLag.Runner
