import LeadLag.Feeds.Threads
import LeadLag.Gamma.Discovery

/-!
# Rollover monitor (btc_poly_runner.cpp:49-93, 3040-3108)

One iteration of the loop as a program over the calls it makes. It returns the
discovery it rolled over to, or tried to, beside the new state; the code does
not keep the former.
-/

namespace LeadLag.Gamma
open LeadLag.Core LeadLag.Execution LeadLag.Feeds LeadLag.Interaction LeadLag.Runner

/-- `next_epoch` is set beside `active_epoch` wherever the loop can run. -/
structure Monitor where
  currentSlug : String
  activeEpoch : ℤ
  nextEpoch : ℤ
  next_eq : nextEpoch = activeEpoch + 300

inductive Lookup where
  | exactSlug
  | bucketScan
  deriving DecidableEq, Repr

/-! ### Strike -/

def bucketDiscHasStrike (d : BtcFiveMinuteBucketDiscovery) : Bool := decide (0 < d.priceToBeat)

def rtdsTargetMs (d : BtcFiveMinuteBucketDiscovery) : ℤ :=
  if d.eventStartWallMs < 0 ∧ 0 ≤ d.bucketEpochSeconds then d.bucketEpochSeconds * 1000
  else d.eventStartWallMs

def maybeFillStrikeRtds (d : BtcFiveMinuteBucketDiscovery) : Prog BtcFiveMinuteBucketDiscovery := do
  if d.gammaHasPriceToBeat && bucketDiscHasStrike d then return d
  if rtdsTargetMs d < 0 then return d
  let some px ← Prog.perform (Call.waitStrike (rtdsTargetMs d)) | return d
  return { d with priceToBeat := px, strikeFromPolymarketRtdsChainlink := true }

def maybeFillStrikeWebThenRtds (tryWebFirst : Bool) (d : BtcFiveMinuteBucketDiscovery) :
    Prog BtcFiveMinuteBucketDiscovery := do
  if d.gammaHasPriceToBeat && bucketDiscHasStrike d then return d
  if tryWebFirst && d.confirmedSlug != "" then
    match ← Prog.perform (Call.webPriceToBeat d.confirmedSlug) with
    | none => maybeFillStrikeRtds d
    | some ptb => return { d with
        priceToBeat := ptb, strikeFromPolymarketWebEventPage := true
        strikeFromPolymarketRtdsChainlink := false }
  else maybeFillStrikeRtds d

/-! ### One iteration -/

/-- The epoch of a discovery, parsed from its slug when it has none. -/
def epochOf (otherwise : ℤ) (d : BtcFiveMinuteBucketDiscovery) : ℤ :=
  if d.bucketEpochSeconds < 0 then
    (parseEpochFromConfirmedSlug d.confirmedSlug).getD otherwise
  else d.bucketEpochSeconds

def findNext (parse : String → Option Json) (nextEpoch : ℤ) :
    Prog (Option (Lookup × BtcFiveMinuteBucketDiscovery)) := do
  let (found, d2) ← discoverBtcUpdown5mForExactSlug parse (slugForBucket nextEpoch) {}
  if found && decide (nextEpoch ≤ epochOf (-1) d2) then return some (.exactSlug, d2)
  let (found, d2) ← discoverActiveBtcUpdown5mViaBucket parse d2
  if found && decide (nextEpoch ≤ d2.bucketEpochSeconds) then return some (.bucketScan, d2)
  return none

def rolloverEvent (d2 : BtcFiveMinuteBucketDiscovery) (quotes : Option Quote × Option Quote) :
    Rollover :=
  { epoch := d2.bucketEpochSeconds, slug := d2.confirmedSlug
    priceToBeat := if bucketDiscHasStrike d2 then some d2.priceToBeat else none
    up := quotes.1, down := quotes.2 }

def rollTo (webPtb : Bool) (m : Monitor) (d2 : BtcFiveMinuteBucketDiscovery) : Prog Monitor := do
  let d2 ← maybeFillStrikeWebThenRtds webPtb d2
  let quotes ← Prog.perform Call.hotQuotes
  let upSwitched ← Prog.perform (Call.switchToken .up d2.upTokenId)
  if !upSwitched then return m
  let downSwitched ← Prog.perform (Call.switchToken .down d2.downTokenId)
  if !downSwitched then return m
  let activeEpoch := epochOf d2.bucketEpochSeconds d2
  Prog.perform (Call.setMarketContext .up d2.confirmedSlug activeEpoch)
  Prog.perform (Call.setMarketContext .down d2.confirmedSlug activeEpoch)
  Prog.perform (Call.pushRollover (rolloverEvent d2 quotes))
  return { currentSlug := d2.confirmedSlug, activeEpoch := activeEpoch
           nextEpoch := activeEpoch + 300, next_eq := rfl }

def iteration (parse : String → Option Json) (webPtb : Bool) (m : Monitor) :
    Prog (Option (Lookup × BtcFiveMinuteBucketDiscovery) × Monitor) := do
  let nowMs ← systemMs
  if 0 ≤ m.activeEpoch ∧ m.nextEpoch + 1 ≤ nowMs.tdiv 1000 then
    let some (how, d2) ← findNext parse m.nextEpoch | return (none, m)
    let m' ← rollTo webPtb m d2
    return (some (how, d2), m')
  else return (none, m)

/-! ### The strike changes no other field -/

/-- The market of a discovery: everything a rollover uses but the strike. -/
def BtcFiveMinuteBucketDiscovery.SameMarket (d d' : BtcFiveMinuteBucketDiscovery) : Prop :=
  d'.confirmedSlug = d.confirmedSlug ∧ d'.bucketEpochSeconds = d.bucketEpochSeconds ∧
    d'.upTokenId = d.upTokenId ∧ d'.downTokenId = d.downTokenId

theorem maybeFillStrikeRtds_sameMarket {d : BtcFiveMinuteBucketDiscovery} :
    Returns (maybeFillStrikeRtds d) d.SameMarket := by
  unfold maybeFillStrikeRtds
  split
  · exact returns_pure.mpr ⟨rfl, rfl, rfl, rfl⟩
  split
  · exact returns_pure.mpr ⟨rfl, rfl, rfl, rfl⟩
  refine returns_bind.mpr (returns_perform.mpr fun px => ?_)
  split
  · exact returns_pure.mpr ⟨rfl, rfl, rfl, rfl⟩
  · exact returns_pure.mpr ⟨rfl, rfl, rfl, rfl⟩

theorem maybeFillStrikeWebThenRtds_sameMarket {webPtb : Bool} {d : BtcFiveMinuteBucketDiscovery} :
    Returns (maybeFillStrikeWebThenRtds webPtb d) d.SameMarket := by
  unfold maybeFillStrikeWebThenRtds
  split
  · exact returns_pure.mpr ⟨rfl, rfl, rfl, rfl⟩
  split
  · refine returns_bind.mpr (returns_perform.mpr fun ptb => ?_)
    split
    · exact maybeFillStrikeRtds_sameMarket
    · exact returns_pure.mpr ⟨rfl, rfl, rfl, rfl⟩
  · exact maybeFillStrikeRtds_sameMarket

/-! ### What the lookups find -/

variable {parse : String → Option Json}

/-- The exact slug is accepted for `next_epoch` whatever the clock says, the scan
for a bucket that is open by the clock it read. -/
def Finds (nextEpoch : ℤ) (tr : Trace) : Lookup → BtcFiveMinuteBucketDiscovery → Prop
  | .exactSlug, d => d.bucketEpochSeconds = nextEpoch
  | .bucketScan, d => nextEpoch ≤ d.bucketEpochSeconds ∧
      ∃ s : ℤ, ⟨.systemSeconds, s⟩ ∈ tr ∧ d.bucketEpochSeconds ≤ s ∧ s < d.bucketEpochSeconds + 300

theorem Finds.next_le {nextEpoch : ℤ} {tr : Trace} {how : Lookup}
    {d : BtcFiveMinuteBucketDiscovery} (h : Finds nextEpoch tr how d) :
    nextEpoch ≤ d.bucketEpochSeconds := by
  cases how with
  | exactSlug => exact le_of_eq (Eq.symm h)
  | bucketScan => exact h.1

theorem exactSlug_epoch {nextEpoch : ℤ} {d : BtcFiveMinuteBucketDiscovery} (hnext : 0 ≤ nextEpoch)
    (hd : Confirms (slugForBucket nextEpoch) d) (hep : nextEpoch ≤ epochOf (-1) d) :
    d.bucketEpochSeconds = nextEpoch := by
  obtain ⟨hslug, hepoch⟩ := hd
  rw [parse_slugForBucket] at hepoch
  by_cases hfits : fitsInt64 nextEpoch = true
  · simpa [hfits] using hepoch
  · simp only [hfits, Bool.false_eq_true, ite_false, Option.getD_none] at hepoch
    simp [epochOf, hepoch, hslug, parseEpoch_slugForBucket, hfits] at hep
    omega

theorem discoverActive_finds {out : BtcFiveMinuteBucketDiscovery} :
    Ensures (discoverActiveBtcUpdown5mViaBucket parse out) fun tr r => r.1 = true →
      ∃ s : ℤ, ⟨.systemSeconds, s⟩ ∈ tr ∧ r.2.bucketEpochSeconds ≤ s ∧
        s < r.2.bucketEpochSeconds + 300 := by
  unfold discoverActiveBtcUpdown5mViaBucket
  refine ensures_bind.mpr (ensures_perform.mpr fun s => ?_)
  intro tr r hr hfound
  exact ⟨s, by simp, probeOffsets_found tr r hr hfound⟩

theorem findNext_finds {nextEpoch : ℤ} (hnext : 0 ≤ nextEpoch) :
    Ensures (findNext parse nextEpoch) fun tr r =>
      ∀ how d, r = some (how, d) → Finds nextEpoch tr how d := by
  unfold findNext
  refine ensures_bind.mpr ?_
  rintro tr₁ ⟨found, d2⟩ hexact
  dsimp only
  split
  · rename_i haccept
    obtain ⟨hfound, hep⟩ := (Bool.and_eq_true _ _).mp haccept
    refine ensures_pure.mpr ?_
    rintro how d ⟨⟩
    exact exactSlug_epoch hnext (trySlug_confirms tr₁ _ hexact hfound) (of_decide_eq_true hep)
  · refine ensures_bind.mpr ?_
    rintro tr₂ ⟨found, d2⟩ hscan
    dsimp only
    split
    · rename_i haccept
      obtain ⟨hfound, hep⟩ := (Bool.and_eq_true _ _).mp haccept
      refine ensures_pure.mpr ?_
      rintro how d ⟨⟩
      obtain ⟨s, hs, hwindow⟩ := discoverActive_finds tr₂ _ hscan hfound
      exact ⟨of_decide_eq_true hep, s, by simp [hs], hwindow⟩
    · exact ensures_pure.mpr nofun

/-- What holds of the markets that the two lookups accept holds of the next one. -/
theorem findNext_accepts {nextEpoch : ℤ} {Q : BtcFiveMinuteBucketDiscovery → Prop}
    (hexact : ∀ out, Returns (trySlug parse (slugForBucket nextEpoch) out) fun r =>
      r.1 = true → nextEpoch ≤ epochOf (-1) r.2 → Q r.2)
    (hscan : ∀ nowS base offsets out, Returns (probeOffsets parse nowS base offsets out) fun r =>
      r.1 = true → nextEpoch ≤ r.2.bucketEpochSeconds → Q r.2) :
    Returns (findNext parse nextEpoch) fun r => ∀ how d, r = some (how, d) → Q d := by
  unfold findNext
  refine returns_bind.mpr ((hexact _).mono ?_)
  rintro ⟨found, d2⟩ haccepted
  dsimp only
  split
  · rename_i haccept
    obtain ⟨hfound, hep⟩ := (Bool.and_eq_true _ _).mp haccept
    refine returns_pure.mpr ?_
    rintro how d ⟨⟩
    exact haccepted hfound (of_decide_eq_true hep)
  · refine returns_bind.mpr (returns_bind.mpr (returns_perform.mpr fun nowS => ?_))
    refine (hscan nowS _ _ _).mono ?_
    rintro ⟨found, d2⟩ haccepted
    dsimp only
    split
    · rename_i haccept
      obtain ⟨hfound, hep⟩ := (Bool.and_eq_true _ _).mp haccept
      refine returns_pure.mpr ?_
      rintro how d ⟨⟩
      exact haccepted hfound (of_decide_eq_true hep)
    · exact returns_pure.mpr nofun

end LeadLag.Gamma
