import LeadLag.Gamma.Monitor
import LeadLag.Pipeline.HotState

/-!
# The main thread (live_pipeline.cpp:242-277, 394-453, 642-807, rtds_chainlink_strike.cpp:34-72)

Discovery at the start, and one iteration of the prefetch and rollover loop, as
programs over the calls they make.
-/

namespace LeadLag.Pipeline
open LeadLag.Core LeadLag.Execution LeadLag.Interaction
open LeadLag.Gamma (BtcFiveMinuteBucketDiscovery slugForBucket parseBucketEpochFromSlug
  parseEpochFromConfirmedSlug epochOf rtdsTargetMs)
open LeadLag.TokenFeed (Market)

/-! ### Calls -/

/-- `outside` are the wall clock, Gamma and the event page. The slug beside a
boundary is that of the discovery whose strike is asked for. -/
inductive Call where
  | steadyMs
  | outside (c : Gamma.Call)
  | waitStrike (boundaryMs : ℤ) (slug : String)
  | switchToken (o : Outcome) (m : Market)
  | setMarketContext (o : Outcome) (m : Market)
  | install (slug : String) (epoch : ℤ) (K : Option Strike)

abbrev Reply : Call → Type
  | .steadyMs => ℤ
  | .outside c => Gamma.Reply c
  | .waitStrike .. => Option Tick
  | .switchToken .. => Bool
  | .setMarketContext .. => Unit
  | .install .. => Unit

abbrev Prog (A : Type) : Type := Interaction.Prog Reply A

/-- What a lookup calls is outside. -/
def lookup {A : Type} : Gamma.Prog A → Prog A
  | .done a => .done a
  | .call c k => .call (.outside c) fun r => lookup (k r)

structure Config where
  parse : String → Option Json
  polyRolloverWebPtb : Bool
  sigmaStepMs : ℤ
  /-- `--poly-token` and `--poly-event-slug`. -/
  manual : Option (String × String)

def Config.polyDiscover (cfg : Config) : Bool := cfg.manual.isNone

def Config.discoverBtcUpdown5mForExactSlug (cfg : Config) (slug : String) :
    Prog (Bool × BtcFiveMinuteBucketDiscovery) :=
  lookup (Gamma.discoverBtcUpdown5mForExactSlug cfg.parse slug {})

/-! ### Strike -/

def livePipeDiscHasStrike (d : BtcFiveMinuteBucketDiscovery) : Bool := decide (0 < d.priceToBeat)

def strikeOf (d : BtcFiveMinuteBucketDiscovery) : Option Strike :=
  if h : 0 < d.priceToBeat then
    some { price := d.priceToBeat, pos := h, slug := d.confirmedSlug
           fromRtds := d.strikeFromPolymarketRtdsChainlink }
  else none

def fillStrikeFromPolymarketRtdsChainlink (d : BtcFiveMinuteBucketDiscovery) :
    Prog BtcFiveMinuteBucketDiscovery := do
  if d.gammaHasPriceToBeat && livePipeDiscHasStrike d then return d
  if rtdsTargetMs d < 0 then return d
  let some t ← Prog.perform (Call.waitStrike (rtdsTargetMs d) d.confirmedSlug) | return d
  return { d with priceToBeat := t.px, strikeFromPolymarketRtdsChainlink := true }

def livePipeMaybeRtdsStrike (d : BtcFiveMinuteBucketDiscovery) :
    Prog BtcFiveMinuteBucketDiscovery := do
  if d.gammaHasPriceToBeat && livePipeDiscHasStrike d then return d
  fillStrikeFromPolymarketRtdsChainlink d

def livePipeMaybeWebThenRtdsStrike (tryWebFirst : Bool) (d : BtcFiveMinuteBucketDiscovery) :
    Prog BtcFiveMinuteBucketDiscovery := do
  if d.gammaHasPriceToBeat && livePipeDiscHasStrike d then return d
  if tryWebFirst && d.confirmedSlug != "" then
    match ← Prog.perform (Call.outside (.webPriceToBeat d.confirmedSlug)) with
    | none => livePipeMaybeRtdsStrike d
    | some ptb => return { d with
        priceToBeat := ptb, strikeFromPolymarketWebEventPage := true
        strikeFromPolymarketRtdsChainlink := false }
  else livePipeMaybeRtdsStrike d

/-! ### Start -/

def initialDiscovery (cfg : Config) : Prog (Option BtcFiveMinuteBucketDiscovery) :=
  match cfg.manual with
  | none => do
    let wallNowS ← lookup Gamma.systemSeconds
    let utcFloor := wallNowS.tdiv 300 * 300
    let (found, d) ← cfg.discoverBtcUpdown5mForExactSlug (slugForBucket utcFloor)
    let ep := epochOf (-1) d
    if found && decide (0 ≤ ep ∧ ep ≤ wallNowS ∧ wallNowS < ep + 300) then return some d
    let (found, d) ← lookup (Gamma.discoverActiveBtcUpdown5mViaBucket cfg.parse d)
    return if found then some d else none
  | some (polyManualToken, polyEventSlug) => do
    let (found, d) ← cfg.discoverBtcUpdown5mForExactSlug polyEventSlug
    return if found && polyManualToken = d.upTokenId then some d else none

def bucketEpoch? (d : BtcFiveMinuteBucketDiscovery) : Option ℤ :=
  if d.bucketEpochSeconds < 0 then parseEpochFromConfirmedSlug d.confirmedSlug
  else some d.bucketEpochSeconds

/-- The discovery and `active_epoch`, or exit code 1. -/
def startup (cfg : Config) : Prog (Option (BtcFiveMinuteBucketDiscovery × ℤ)) := do
  let some d ← initialDiscovery cfg | return none
  if d.upTokenId = "" ∨ d.downTokenId = "" then return none
  let some activeEpoch := bucketEpoch? d | return none
  let d ← livePipeMaybeWebThenRtdsStrike cfg.polyRolloverWebPtb d
  return some (d, activeEpoch)

/-! ### One iteration -/

/-- The `next_*` variables while `next_ready` is set. -/
structure Next where
  upToken : String
  downToken : String
  confirmedSlug : String
  strike : Option Strike

/-- `next_epoch` is set beside `active_epoch` everywhere. -/
structure Loop where
  activeEpoch : ℤ
  nextEpoch : ℤ
  next_eq : nextEpoch = activeEpoch + 300
  currentSlug : String
  next : Option Next
  lastPrefetchMs : ℤ

def kPrefetchIntervalMs : ℤ := 3000

def prefetch (cfg : Config) (nowMs : ℤ) (loop : Loop) : Prog Loop := do
  if loop.next.isSome ∨ nowMs - loop.lastPrefetchMs < kPrefetchIntervalMs then return loop
  let loop := { loop with lastPrefetchMs := nowMs }
  let (found, nd) ← cfg.discoverBtcUpdown5mForExactSlug (slugForBucket loop.nextEpoch)
  if !found || nd.upTokenId = "" || nd.downTokenId = "" then return loop
  let nd ← livePipeMaybeRtdsStrike nd
  return { loop with next := some { upToken := nd.upTokenId, downToken := nd.downTokenId
                                    confirmedSlug := nd.confirmedSlug, strike := strikeOf nd } }

/-- The market to roll over to, with the strike beside it. -/
structure Target where
  upToken : String
  downToken : String
  slug : String
  epoch : ℤ
  strike : Option Strike

/-- A prefetched market without a strike is looked up once more for it. -/
def prefetchedTarget (cfg : Config) (nextEpoch : ℤ) (n : Next) : Prog Target := do
  let slug := if n.confirmedSlug = "" then slugForBucket nextEpoch else n.confirmedSlug
  let target (strike : Option Strike) : Target :=
    { upToken := n.upToken, downToken := n.downToken, slug := slug, epoch := nextEpoch
      strike := strike }
  if n.strike.isSome then return target n.strike
  let (found, pf) ← cfg.discoverBtcUpdown5mForExactSlug slug
  if !found then return target none
  let pf ← livePipeMaybeWebThenRtdsStrike cfg.polyRolloverWebPtb pf
  return target (strikeOf pf)

def discoveredTarget (cfg : Config) (d2 : BtcFiveMinuteBucketDiscovery) : Prog Target := do
  let target (strike : Option Strike) : Target :=
    { upToken := d2.upTokenId, downToken := d2.downTokenId, slug := d2.confirmedSlug
      epoch := epochOf (-1) d2, strike := strike }
  if d2.gammaHasPriceToBeat then return target (strikeOf d2)
  let rolloverDisc ← livePipeMaybeWebThenRtdsStrike cfg.polyRolloverWebPtb d2
  return target ((strikeOf rolloverDisc).or (strikeOf d2))

def installTarget (loop : Loop) (t : Target) : Prog Loop := do
  if t.upToken = "" ∨ t.downToken = "" ∨ t.epoch < 0 ∨ t.slug = "" then return loop
  let up : Market := ⟨t.upToken, t.slug, t.epoch, "Up"⟩
  let down : Market := ⟨t.downToken, t.slug, t.epoch, "Down"⟩
  let upSwitched ← Prog.perform (Call.switchToken .up up)
  if !upSwitched then return loop
  let downSwitched ← Prog.perform (Call.switchToken .down down)
  if !downSwitched then return loop
  Prog.perform (Call.setMarketContext .up up)
  Prog.perform (Call.setMarketContext .down down)
  Prog.perform (Call.install t.slug t.epoch t.strike)
  return { activeEpoch := t.epoch, nextEpoch := t.epoch + 300, next_eq := rfl
           currentSlug := t.slug, next := none, lastPrefetchMs := loop.lastPrefetchMs }

/-- The exact slug of `next_epoch`, then the scan, are those of the monitor. -/
def rollover (cfg : Config) (wallNow : ℤ) (loop : Loop) : Prog Loop := do
  let next := if loop.nextEpoch + 300 ≤ wallNow then none else loop.next
  let loop := { loop with next := next }
  match next with
  | some n => do
    let target ← prefetchedTarget cfg loop.nextEpoch n
    installTarget loop target
  | none => do
    let some (_, d2) ← lookup (Gamma.findNext cfg.parse loop.nextEpoch) | return loop
    let target ← discoveredTarget cfg d2
    installTarget loop target

def iteration (cfg : Config) (loop : Loop) : Prog Loop := do
  if !cfg.polyDiscover then return loop
  let nowMs ← Prog.perform Call.steadyMs
  let wallNow ← lookup Gamma.systemSeconds
  let loop ← prefetch cfg nowMs loop
  if loop.activeEpoch + 300 ≤ wallNow then rollover cfg wallNow loop else return loop

end LeadLag.Pipeline
