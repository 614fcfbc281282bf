import LeadLag.Pipeline.Rtds
import LeadLag.Runner.Volatility
import LeadLag.TokenFeed.System

/-!
# Hot state (live_pipeline.cpp:34-70, 90-156, 553-626, 772-785)

What the callbacks and the rollover write under `hot.mu`. A strike is kept with
the slug it was found for and with where it came from, a sigma with its bucket;
the code keeps the numbers only.
-/

namespace LeadLag.Pipeline
open LeadLag.Execution (Outcome)
open LeadLag.Runner (History Libm oneHourMs resampleFuel resampleLoop sampleVariance stepsPerYear)
open LeadLag.TokenFeed (Price WsQuote)

structure Strike where
  price : ℚ
  pos : 0 < price
  slug : String
  fromRtds : Bool

structure BucketSigma where
  value : ℚ
  pos : 0 < value
  bucket : ℤ

/-- `up` and `down` are bid and ask of the last quotes. -/
structure HotState where
  activeEpoch : ℤ
  slug : String
  bin : Option Tick := none
  binHist : History := []
  K : Option Strike
  sigmaBucket : Option BucketSigma := none
  up : Option (Price × Price) := none
  down : Option (Price × Price) := none

/-! ### Realized volatility -/

def positiveLogReturns (M : Libm) : List ℚ → List ℚ
  | a :: b :: rest =>
    if 0 < a ∧ 0 < b then M.log (b / a) :: positiveLogReturns M (b :: rest)
    else positiveLogReturns M (b :: rest)
  | _ => []

/-- `none` is NaN. -/
def realizedVol1hResampledFromHist (M : Libm) (hist : History) (tEndWallMs stepMs : ℤ) :
    Option ℚ :=
  let t0 := tEndWallMs - oneHourMs
  if stepMs ≤ 0 then none
  else
    match hist.dropWhile fun p => p.1 < t0 with
    | [] => none
    | first :: rest =>
      if oneHourMs / stepMs + 1 < 3 then none
      else
        match resampleLoop tEndWallMs stepMs resampleFuel t0 first (first :: rest) with
        | none => none
        | some mids =>
          let rets := positiveLogReturns M mids
          if mids.length < 3 ∨ rets.length < 2 then none
          else some (M.sqrt (sampleVariance rets * stepsPerYear stepMs))

def bucketSigma (M : Libm) (hist : History) (epoch stepMs : ℤ) : Option BucketSigma :=
  match realizedVol1hResampledFromHist M hist (epoch * 1000) stepMs with
  | none => none
  | some v => if h : 0 < v then some ⟨v, h, epoch⟩ else none

theorem bucketSigma_bucket {M : Libm} {hist : History} {epoch stepMs : ℤ} {sigma : BucketSigma}
    (h : bucketSigma M hist epoch stepMs = some sigma) : sigma.bucket = epoch := by
  unfold bucketSigma at h
  split at h
  · cases h
  · split at h
    · cases h
      rfl
    · cases h

/-! ### Writers -/

namespace HotState

def storeTick (hot : HotState) (t : Tick) : HotState :=
  { hot with
    bin := some t
    binHist := (hot.binHist ++ [(t.tsMs, t.px)]).dropWhile fun p => p.1 < t.tsMs - oneHourMs }

def onTick (M : Libm) (stepMs : ℤ) (hot : HotState) (t : Tick) : HotState :=
  let hot := hot.storeTick t
  if 0 ≤ hot.activeEpoch ∧ hot.K ≠ none ∧ hot.sigmaBucket = none ∧
      hot.activeEpoch * 1000 ≤ t.tsMs then
    { hot with sigmaBucket := bucketSigma M hot.binHist hot.activeEpoch stepMs }
  else hot

/-- A negative bucket epoch is replaced by the main loop's `active_epoch`. -/
def storedEpoch (activeEpoch epoch : ℤ) : ℤ := if 0 ≤ epoch then epoch else activeEpoch

def onQuote (activeEpoch : ℤ) (o : Outcome) (hot : HotState) (q : WsQuote) : HotState :=
  let hot := { hot with
    slug := q.eventSlug, activeEpoch := storedEpoch activeEpoch q.marketBucketEpoch }
  match o with
  | .up => { hot with up := some q.top }
  | .down => { hot with down := some q.top }

def install (hot : HotState) (slug : String) (epoch : ℤ) (K : Option Strike) : HotState :=
  { hot with slug := slug, activeEpoch := epoch, K := K, sigmaBucket := none }

section Fields

variable {M : Libm} {stepMs activeEpoch : ℤ} {hot : HotState} {t : Tick} {o : Outcome} {q : WsQuote}

@[simp] theorem onTick_activeEpoch : (hot.onTick M stepMs t).activeEpoch = hot.activeEpoch := by
  unfold onTick
  dsimp only
  split <;> rfl

@[simp] theorem onTick_slug : (hot.onTick M stepMs t).slug = hot.slug := by
  unfold onTick
  dsimp only
  split <;> rfl

@[simp] theorem onTick_K : (hot.onTick M stepMs t).K = hot.K := by
  unfold onTick
  dsimp only
  split <;> rfl

/-- A tick computes sigma for the bucket of the moment, and only with a strike. -/
theorem onTick_sigmaBucket {sigma : BucketSigma}
    (h : (hot.onTick M stepMs t).sigmaBucket = some sigma) :
    hot.sigmaBucket = some sigma ∨ hot.K ≠ none ∧ sigma.bucket = hot.activeEpoch := by
  unfold onTick at h
  dsimp only at h
  split at h
  · rename_i hcompute
    exact .inr ⟨hcompute.2.1, bucketSigma_bucket h⟩
  · exact .inl h

@[simp] theorem onQuote_activeEpoch : (hot.onQuote activeEpoch o q).activeEpoch =
    storedEpoch activeEpoch q.marketBucketEpoch := by
  cases o <;> rfl

@[simp] theorem onQuote_slug : (hot.onQuote activeEpoch o q).slug = q.eventSlug := by
  cases o <;> rfl

@[simp] theorem onQuote_K : (hot.onQuote activeEpoch o q).K = hot.K := by
  cases o <;> rfl

@[simp] theorem onQuote_sigmaBucket :
    (hot.onQuote activeEpoch o q).sigmaBucket = hot.sigmaBucket := by
  cases o <;> rfl

end Fields

end HotState

end LeadLag.Pipeline
