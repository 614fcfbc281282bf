import LeadLag.Runner.State

/-!
# Spot ticks (btc_poly_runner.cpp:2630-2806)

A tick is stored, appended to the history and, inside the bucket, may set sigma.
-/

namespace LeadLag.Runner
open LeadLag.Execution LeadLag.Interaction

/-- Oldest time kept: one hour back, and in `slug_fixed` mode also the hour
before the bucket opened. -/
def histTrimFloorMs (cfg : Config) (activeEpoch wallMs : ℤ) : ℤ :=
  if cfg.sigmaVolMode = .slugFixed ∧ 0 ≤ activeEpoch then
    min (wallMs - oneHourMs) (activeEpoch * 1000 - oneHourMs)
  else wallMs - oneHourMs

def HotState.storeTick (cfg : Config) (h : HotState) (tick : SpotTick) : HotState :=
  { h with
    bin := some tick
    binHist := (h.binHist ++ [(tick.wallMs, tick.mid)]).dropWhile fun p =>
      decide (p.1 < histTrimFloorMs cfg h.activeEpoch tick.wallMs) }

def HotState.setSigma (cfg : Config) (h : HotState) (sig : ℚ) : HotState :=
  { h with sigmaBucket := some (clampSigma sig cfg.sigmaClampMin cfg.sigmaClampMax) }

def HotState.clearSigma (h : HotState) : HotState := { h with sigmaBucket := none }

def inBucket (h : HotState) (wallMs : ℤ) : Bool :=
  decide (0 ≤ h.activeEpoch ∧ h.activeEpoch ≤ wallMs.tdiv 1000)

def hasFullHour (hist : History) (anchorMs : ℤ) : Bool :=
  hist.head?.any fun p => decide (p.1 ≤ anchorMs - oneHourMs)

def garchSigma (cfg : Config) (mids : List ℚ) : Prog (Option ℚ) :=
  if cfg.enableGarchDaemon && cfg.sigmaTryGarch then do
    match ← queryGarchSigma mids cfg.sigmaStepMs with
    | .error _ => pure none
    | .ok s => pure (if cfg.sigmaRvMin ≤ s ∧ s ≤ cfg.sigmaRvMax then some s else none)
  else pure none

def estimateSigma (M : Libm) (cfg : Config) (anchorMs : ℤ) (h : HotState) : Prog HotState :=
  if hasFullHour h.binHist anchorMs then do
    let mids ← orLoop (resampleMidsFromHist h.binHist anchorMs cfg.sigmaStepMs)
    if mids = [] then pure h.clearSigma
    else
      let garch ← garchSigma cfg mids
      let final := garch.orElse fun _ =>
        realizedVolFromResampledMids M mids cfg.sigmaStepMs cfg.sigmaRvMin cfg.sigmaRvMax
      match final with
      | some s =>
        if cfg.sigmaRvMin ≤ s ∧ s ≤ cfg.sigmaRvMax then pure (h.setSigma cfg s)
        else pure h.clearSigma
      | none => pure h.clearSigma
  else pure h.clearSigma

def rollSigma (M : Libm) (cfg : Config) (wallMs : ℤ) (h : HotState) : Prog HotState :=
  if inBucket h wallMs && hasFullHour h.binHist wallMs then do
    let mids ← orLoop (resampleMidsFromHist h.binHist wallMs cfg.sigmaStepMs)
    match realizedVolFromResampledMids M mids cfg.sigmaStepMs cfg.sigmaRvMin cfg.sigmaRvMax with
    | some s => pure (h.setSigma cfg s)
    | none => pure h
  else pure h

def bucketSigma (M : Libm) (cfg : Config) (wallMs : ℤ) (h : HotState) : Prog HotState :=
  if cfg.sigmaVolMode = .constant ∧ inBucket h wallMs then pure (h.setSigma cfg cfg.sigmaFallback)
  else if inBucket h wallMs && h.sigmaBucket.isNone then
    estimateSigma M cfg (if cfg.sigmaVolMode = .slugFixed then h.activeEpoch * 1000 else wallMs) h
  else pure h

def ingestSpot (M : Libm) (cfg : Config) (tick : SpotTick) (h : HotState) : Prog HotState := do
  let h ← bucketSigma M cfg tick.wallMs (h.storeTick cfg tick)
  if cfg.sigmaVolMode = .rolling then rollSigma M cfg tick.wallMs h else pure h

/-! ### What a tick leaves alone -/

theorem garchSigma_quietly (cfg : Config) (mids : List ℚ) : Quietly (garchSigma cfg mids) := by
  unfold garchSigma
  split
  · refine quietly_bind ⟨trivial, fun _ _ => trivial⟩ fun r => ?_
    cases r with
    | error err => trivial
    | ok s => trivial
  · trivial

theorem estimateSigma_quietly (M : Libm) (cfg : Config) (anchorMs : ℤ) (h : HotState) :
    Quietly (estimateSigma M cfg anchorMs h) := by
  unfold estimateSigma
  split
  · refine quietly_bind (quietly_orLoop _) fun mids => ?_
    split
    · trivial
    · refine quietly_bind (garchSigma_quietly cfg mids) fun garch => ?_
      dsimp only
      split
      · split
        · trivial
        · trivial
      · trivial
  · trivial

theorem rollSigma_quietly (M : Libm) (cfg : Config) (wallMs : ℤ) (h : HotState) :
    Quietly (rollSigma M cfg wallMs h) := by
  unfold rollSigma
  split
  · refine quietly_bind (quietly_orLoop _) fun mids => ?_
    split
    · trivial
    · trivial
  · trivial

theorem bucketSigma_quietly (M : Libm) (cfg : Config) (wallMs : ℤ) (h : HotState) :
    Quietly (bucketSigma M cfg wallMs h) := by
  unfold bucketSigma
  split
  · trivial
  · split
    · exact estimateSigma_quietly M cfg _ h
    · trivial

theorem ingestSpot_quietly (M : Libm) (cfg : Config) (tick : SpotTick) (h : HotState) :
    Quietly (ingestSpot M cfg tick h) := by
  refine quietly_bind (bucketSigma_quietly M cfg _ _) fun h₁ => ?_
  split
  · exact rollSigma_quietly M cfg _ h₁
  · trivial

structure SpotFrame (h h' : HotState) : Prop where
  activeEpoch : h'.activeEpoch = h.activeEpoch
  slug : h'.slug = h.slug
  K : h'.K = h.K
  up : h'.up = h.up
  down : h'.down = h.down
  edgeUp : h'.edgeUpOkSinceMonoNs = h.edgeUpOkSinceMonoNs
  edgeDn : h'.edgeDnOkSinceMonoNs = h.edgeDnOkSinceMonoNs

namespace SpotFrame

theorem book {h h' : HotState} (a : SpotFrame h h') (o : Outcome) : h'.book o = h.book o := by
  cases o with
  | up => exact a.up
  | down => exact a.down

end SpotFrame

/-- After a tick is stored only sigma may change. -/
def SigmaOnly (h h' : HotState) : Prop := h' = { h with sigmaBucket := h'.sigmaBucket }

section SigmaOnly

variable {M : Libm} {cfg : Config} {h : HotState}

theorem estimateSigma_sigmaOnly (anchorMs : ℤ) :
    Returns (estimateSigma M cfg anchorMs h) (SigmaOnly h) := by
  unfold estimateSigma
  split
  · refine returns_bind.mpr (returns_orLoop fun mids _ => ?_)
    split
    · exact returns_pure.mpr rfl
    · refine returns_bind.mpr ((returns_trivial _).mono fun garch _ => ?_)
      dsimp only
      split
      · split
        · exact returns_pure.mpr rfl
        · exact returns_pure.mpr rfl
      · exact returns_pure.mpr rfl
  · exact returns_pure.mpr rfl

theorem rollSigma_sigmaOnly (wallMs : ℤ) :
    Returns (rollSigma M cfg wallMs h) (SigmaOnly h) := by
  unfold rollSigma
  split
  · refine returns_bind.mpr (returns_orLoop fun mids _ => ?_)
    split
    · exact returns_pure.mpr rfl
    · exact returns_pure.mpr rfl
  · exact returns_pure.mpr rfl

theorem bucketSigma_sigmaOnly (wallMs : ℤ) :
    Returns (bucketSigma M cfg wallMs h) (SigmaOnly h) := by
  unfold bucketSigma
  split
  · exact returns_pure.mpr rfl
  · split
    · exact estimateSigma_sigmaOnly _
    · exact returns_pure.mpr rfl

theorem ingestSpot_sigmaOnly (tick : SpotTick) :
    Returns (ingestSpot M cfg tick h) (SigmaOnly (h.storeTick cfg tick)) := by
  refine returns_bind.mpr ((bucketSigma_sigmaOnly _).mono fun h₁ f₁ => ?_)
  split
  · refine (rollSigma_sigmaOnly _).mono fun h₂ f₂ => ?_
    unfold SigmaOnly at f₁ f₂ ⊢
    rw [f₂, f₁]
  · exact returns_pure.mpr f₁

end SigmaOnly

theorem SigmaOnly.frame {cfg : Config} {tick : SpotTick} {h h' : HotState}
    (f : SigmaOnly (h.storeTick cfg tick) h') : SpotFrame h h' := by
  rw [f]
  exact ⟨rfl, rfl, rfl, rfl, rfl, rfl, rfl⟩

theorem ingestSpot_frame (M : Libm) (cfg : Config) (tick : SpotTick) (h : HotState) :
    Returns (ingestSpot M cfg tick h) (SpotFrame h) :=
  (ingestSpot_sigmaOnly tick).mono fun _ f => f.frame

end LeadLag.Runner
