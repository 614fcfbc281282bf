import LeadLag.Runner.Pricing

/-!
# Realized volatility (btc_poly_runner.cpp:473-529)
-/

namespace LeadLag.Runner

/-- `bin_hist`: time and mid of the spot ticks, oldest first. -/
abbrev History := List (ℤ × ℚ)

def oneHourMs : ℤ := 3600 * 1000

def skipBefore (start : ℤ) : History → History
  | a :: b :: rest => if a.1 < start then skipBefore start (b :: rest) else a :: b :: rest
  | hist => hist

def advanceTo (t : ℤ) : ℤ × ℚ → History → (ℤ × ℚ) × History
  | cur, [] => (cur, [])
  | cur, b :: rest => if b.1 ≤ t then advanceTo t b rest else (cur, b :: rest)

def resampleLoop (now step : ℤ) : ℕ → ℤ → ℤ × ℚ → History → Option (List ℚ)
  | 0, _, _, _ => none
  | n + 1, t, cur, rest =>
    if t ≤ now then
      let (cur, rest) := advanceTo t cur rest
      (resampleLoop now step n (t + step) cur rest).map (cur.2 :: ·)
    else some []

def resampleFuel : ℕ := 3600 * 1000 + 2

/-- `none`: the loop has no end (a step that is not positive). -/
def resampleMidsFromHist (hist : History) (nowWallMs stepMs : ℤ) : Option (List ℚ) :=
  if hist.length < 3 then some []
  else
    let start := nowWallMs - oneHourMs
    match skipBefore start hist with
    | [] => some []
    | cur :: rest => resampleLoop nowWallMs stepMs resampleFuel start cur rest

def logReturns (M : Libm) : List ℚ → List ℚ
  | a :: b :: rest =>
    if a ≠ 0 ∧ 0 < b / a then M.log (b / a) :: logReturns M (b :: rest)
    else logReturns M (b :: rest)
  | _ => []

def sampleVariance (xs : List ℚ) : ℚ :=
  let mean := xs.sum / xs.length
  (xs.map fun x => (x - mean) * (x - mean)).sum / (xs.length - 1)

def stepsPerYear (stepMs : ℤ) : ℚ := 365 * 24 * 3600 * 1000 / (max 1 stepMs : ℤ)

def realizedVolFromResampledMids (M : Libm) (mids : List ℚ) (stepMs : ℤ)
    (sigmaMin sigmaMax : ℚ) : Option ℚ :=
  if mids.length < 10 then none
  else
    let rets := logReturns M mids
    if rets.length < 10 then none
    else
      let sig := M.sqrt (sampleVariance rets * stepsPerYear stepMs)
      if sig < sigmaMin ∨ sig > sigmaMax then none else some sig

end LeadLag.Runner
