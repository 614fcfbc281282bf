import LeadLag.Execution.Calls
import Mathlib.Tactic.NormNum
import Mathlib.Tactic.Linarith

/-!
# Options of the strategy runner (btc_poly_runner.cpp:914-1183)
-/

namespace LeadLag.Runner

inductive SigmaVolMode where
  | rolling
  | slugFixed
  | constant
  deriving DecidableEq, Repr

/-- The options that the consumer thread reads, with their defaults. An infinite
or NaN `--max-loss-usd` is `none`: the code tests it with `isfinite`. The other
decimals are numbers here; `Paper.Options` has them as doubles, which may be infinite
or NaN. `sigmaFallback` is the value after its own clamp (line 1268). -/
structure Config where
  liveExecution : Bool := false
  disableRolloverForceSell : Bool := false
  enableGarchDaemon : Bool := false
  r : ℚ := 35 / 1000
  sigmaRvMin : ℚ := 5 / 100
  sigmaRvMax : ℚ := 5
  sigmaClampMin : ℚ := 15 / 100
  sigmaClampMax : ℚ := 2 / 10
  sigmaFallback : ℚ := 15 / 100
  sigmaStepMs : ℤ := 300
  sigmaVolMode : SigmaVolMode := .slugFixed
  sigmaTryGarch : Bool := false
  initialCash : ℚ := 100
  riskFrac : ℚ := 1 / 100
  entry : ℚ := 15 / 100
  closeEps : ℚ := 0
  closeEarlyThreshold : ℚ := 0
  useEntryElapsedWindow : Bool := true
  entryElapsedMinSec : ℚ := 260
  entryElapsedMaxSec : ℚ := 300
  edgePersistMs : ℤ := 500
  latMs : ℤ := 0
  feeRate : ℚ := 0
  stopLossFrac : ℚ := 4 / 10
  maxLossUsd : Option ℚ := none
  fixedSpendUsd : ℚ := 1
  useBuyAskRange : Bool := true
  buyAskMin : ℚ := 6 / 10
  buyAskMax : ℚ := 9 / 10
  deriving DecidableEq, Repr

namespace Config

def edgePersistNs (cfg : Config) : ℤ :=
  if cfg.edgePersistMs > 0 then cfg.edgePersistMs * 1000000 else 0

def latNs (cfg : Config) : ℤ := cfg.latMs * 1000000

/-- The values with which `run_live_impl` does not return 2. -/
structure Accepted (cfg : Config) : Prop where
  closeEarly : 0 ≤ cfg.closeEarlyThreshold
  stopLoss : 0 ≤ cfg.stopLossFrac
  fixedSpend : 0 ≤ cfg.fixedSpendUsd
  edgePersist : 0 ≤ cfg.edgePersistMs
  window : cfg.useEntryElapsedWindow = true → cfg.entryElapsedMinSec ≤ cfg.entryElapsedMaxSec
  askRange : cfg.useBuyAskRange = true →
    0 ≤ cfg.buyAskMin ∧ cfg.buyAskMax ≤ 1 ∧ cfg.buyAskMin ≤ cfg.buyAskMax
  sigmaClamp : 0 < cfg.sigmaClampMin ∧ cfg.sigmaClampMin ≤ cfg.sigmaClampMax
  sigmaFallback : cfg.sigmaClampMin ≤ cfg.sigmaFallback ∧ cfg.sigmaFallback ≤ cfg.sigmaClampMax

theorem default_accepted : Accepted {} where
  closeEarly := by norm_num
  stopLoss := by norm_num
  fixedSpend := by norm_num
  edgePersist := by norm_num
  window := by norm_num
  askRange := by norm_num
  sigmaClamp := by norm_num
  sigmaFallback := by norm_num

end Config

end LeadLag.Runner
