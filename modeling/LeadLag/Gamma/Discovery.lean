import LeadLag.Gamma.Text
import LeadLag.Runner.Rollover
import LeadLag.TokenFeed.Message

/-!
# Bucket discovery (bucket_market_discovery.cpp:82-168, 202-300, 404-588)

What Gamma answers is a list of JSON values, or nothing when the request fails.
`parse` is `nlohmann::json::parse`, `none` its exception. A typed access to a
field of another type throws, and nothing up to `main` catches it.
-/

namespace LeadLag.Gamma
open LeadLag.Core LeadLag.Execution LeadLag.Interaction LeadLag.Runner
open LeadLag.TokenFeed (stringValue)

structure BtcFiveMinuteBucketDiscovery where
  confirmedSlug : String := ""
  bucketEpochSeconds : ℤ := -1
  upTokenId : String := ""
  downTokenId : String := ""
  conditionId : String := ""
  marketNumericId : String := ""
  priceToBeat : ℚ := 0
  gammaHasPriceToBeat : Bool := true
  strikeFromPolymarketRtdsChainlink : Bool := false
  strikeFromPolymarketWebEventPage : Bool := false
  eventStartWallMs : ℤ := -1
  deriving DecidableEq, Repr

/-! ### Calls of the rollover monitor -/

inductive Call where
  | systemMs
  | systemSeconds
  | eventsBySlug (slug : String)
  | eventsById (id : String)
  | webPriceToBeat (slug : String)
  | waitStrike (boundaryMs : ℤ)
  | hotQuotes
  | switchToken (o : Outcome) (newTokenId : String)
  | setMarketContext (o : Outcome) (slug : String) (epoch : ℤ)
  | pushRollover (ev : Rollover)
  /-- An exception that nobody catches: there is no reply. -/
  | uncaught

abbrev Reply : Call → Type
  | .systemMs => ℤ
  | .systemSeconds => ℤ
  | .eventsBySlug _ => Option (List Json)
  | .eventsById _ => Option (List Json)
  | .webPriceToBeat _ => Option ℚ
  | .waitStrike _ => Option ℚ
  | .hotQuotes => Option Quote × Option Quote
  | .switchToken _ _ => Bool
  | .setMarketContext .. => Unit
  | .pushRollover _ => Unit
  | .uncaught => Empty

abbrev Prog (A : Type) : Type := Interaction.Prog Reply A
abbrev Trace : Type := List (Obs Reply)

def systemMs : Prog ℤ := Prog.perform Call.systemMs
def systemSeconds : Prog ℤ := Prog.perform Call.systemSeconds
def eventsBySlug (slug : String) : Prog (Option (List Json)) :=
  Prog.perform (Call.eventsBySlug slug)
def eventsById (id : String) : Prog (Option (List Json)) := Prog.perform (Call.eventsById id)

def orUncaught {A : Type} : Option A → Prog A
  | some a => pure a
  | none => Prog.perform Call.uncaught >>= Empty.elim

/-! ### Fields of a Gamma event -/

def boolValue (key : String) (default : Bool) (j : Json) : Option Bool :=
  match j.field? key with
  | none => some default
  | some (.bool b) => some b
  | some _ => none

/-- The strings that a loop over a parsed value visits. -/
def stringsOf : Json → List String
  | .null => []
  | .arr xs => xs.filterMap Json.string?
  | .obj fields => fields.filterMap fun f => f.2.string?
  | j => [j].filterMap Json.string?

def stringsField (parse : String → Option Json) (key : String) (m : Json) : List String :=
  match m.field? key with
  | some (.arr xs) => xs.filterMap Json.string?
  | some (.str raw) => stringsOf ((parse raw).getD (.arr []))
  | _ => []

def outcomesFromMarket (parse : String → Option Json) (m : Json) : List String :=
  stringsField parse "outcomes" m

def tokensFromMarket (parse : String → Option Json) (m : Json) : List String :=
  stringsField parse "clobTokenIds" m

def jsonScalarIdString (key : String) (j : Json) : String :=
  match j.field? key with
  | some (.str s) => s
  | some (.int i) => toString i
  | _ => ""

def indexOutcome (name : String) (outcomes : List String) : Option ℕ :=
  outcomes.findIdx? fun o => lower o = name.toList

/-- The loop of `find_market_for_slug`. -/
def marketWithSlug (wantSlug : String) : List Json → Option (Option Json)
  | [] => some none
  | m :: rest =>
    if m.isObject then
      match stringValue "slug" m with
      | none => none
      | some slug => if slug = wantSlug then some (some m) else marketWithSlug wantSlug rest
    else marketWithSlug wantSlug rest

def findMarketForSlug (event : Json) (wantSlug : String) : Option (Option Json) :=
  match event.field? "markets" with
  | some (.arr ms) =>
    match marketWithSlug wantSlug ms with
    | none => none
    | some (some m) => some (some m)
    | some none => some (ms.head?.filter Json.isObject)
  | _ => some none

def eventMetadataObject (parse : String → Option Json) (event : Json) : Option Json :=
  match event.field? "eventMetadata" with
  | some (.obj fields) => some (.obj fields)
  | some (.str raw) => (parse raw).filter Json.isObject
  | _ => none

def extractPriceToBeatFromGammaEvent (parse : String → Option Json) (event : Json) : Option ℚ := do
  let em ← eventMetadataObject parse event
  let v ← em.field? "priceToBeat"
  let ptb ← match v with
    | .int i => some (i : ℚ)
    | .float x => some x
    | .str s => (stod s).join
    | _ => none
  if 0 < ptb then some ptb else none

/-! ### validate_and_extract -/

/-- Tokens of Up and Down, `none` when the outcomes and tokens do not fit. -/
def tokensOf (outs toks : List String) : Option (String × String) :=
  if outs.length ≠ toks.length ∨ toks = [] then none
  else match indexOutcome "up" outs, indexOutcome "down" outs with
    | some up, some down =>
      match toks[up]?, toks[down]? with
      | some upTok, some downTok => some (upTok, downTok)
      | _, _ => none
    | _, _ => none

/-- `active` and not `closed`; the second is read only after the first. -/
def isOpen (j : Json) : Option Bool := do
  if ← boolValue "active" false j then return !(← boolValue "closed" true j)
  return false

def startIso (event m : Json) : Option String := do
  let marketStart ← stringValue "eventStartTime" m
  if marketStart = "" then stringValue "startTime" event else return marketStart

def confirmMarket (m : Json) (wantSlug up down conditionId iso : String)
    (out : BtcFiveMinuteBucketDiscovery) : BtcFiveMinuteBucketDiscovery :=
  let epoch := (parseBucketEpochFromSlug wantSlug).getD (-1)
  let start := (gammaIso8601UtcToUnixMs iso).getD (-1)
  { out with
    confirmedSlug := wantSlug, upTokenId := up, downTokenId := down, conditionId := conditionId
    marketNumericId := jsonScalarIdString "id" m, bucketEpochSeconds := epoch
    eventStartWallMs := if start < 0 ∧ 0 ≤ epoch then epoch * 1000 else start }

/-- Up to the price to beat. The outer `none` is an exception, the inner one `false`. -/
def extractMarket (parse : String → Option Json) (event : Json) (wantSlug : String)
    (out : BtcFiveMinuteBucketDiscovery) : Option (Option BtcFiveMinuteBucketDiscovery) := do
  if (← stringValue "slug" event) ≠ wantSlug then return none
  if !(← isOpen event) then return none
  let some m ← findMarketForSlug event wantSlug | return none
  if !(← isOpen m) then return none
  let some (up, down) := tokensOf (outcomesFromMarket parse m) (tokensFromMarket parse m)
    | return none
  let conditionId ← stringValue "conditionId" m
  let iso ← startIso event m
  return some (confirmMarket m wantSlug up down conditionId iso out)

/-- The event whose metadata is read: the one fetched by id when it is of the slug. -/
def strikeSource (event : Json) (wantSlug : String) : Prog Json := do
  let id := jsonScalarIdString "id" event
  if id = "" then return event
  let some (ev2 :: _) ← eventsById id | return event
  if !ev2.isObject then return event
  let slug ← orUncaught (stringValue "slug" ev2)
  return if slug = wantSlug then ev2 else event

def withPriceToBeat (ptb : Option ℚ) (out : BtcFiveMinuteBucketDiscovery) :
    BtcFiveMinuteBucketDiscovery :=
  { out with priceToBeat := ptb.getD 0, gammaHasPriceToBeat := ptb.isSome
             strikeFromPolymarketRtdsChainlink := false }

/-- `false` leaves what was written to `out` so far. -/
def validateAndExtract (parse : String → Option Json) (event : Json) (wantSlug : String)
    (out : BtcFiveMinuteBucketDiscovery) : Prog (Bool × BtcFiveMinuteBucketDiscovery) := do
  let out := { out with eventStartWallMs := -1, strikeFromPolymarketRtdsChainlink := false }
  match ← orUncaught (extractMarket parse event wantSlug out) with
  | none => return (false, out)
  | some out =>
    let source ← strikeSource event wantSlug
    return (true, withPriceToBeat (extractPriceToBeatFromGammaEvent parse source) out)

def trySlug (parse : String → Option Json) (slug : String) (out : BtcFiveMinuteBucketDiscovery) :
    Prog (Bool × BtcFiveMinuteBucketDiscovery) := do
  let some (ev :: _) ← eventsBySlug slug | return (false, out)
  if ev.isObject then validateAndExtract parse ev slug out else return (false, out)

/-! ### The two lookups -/

def discoverBtcUpdown5mForExactSlug (parse : String → Option Json) (slug : String)
    (out : BtcFiveMinuteBucketDiscovery) : Prog (Bool × BtcFiveMinuteBucketDiscovery) :=
  trySlug parse slug out

def probeOffsets (parse : String → Option Json) (nowS base : ℤ) :
    List ℤ → BtcFiveMinuteBucketDiscovery → Prog (Bool × BtcFiveMinuteBucketDiscovery)
  | [], out => return (false, out)
  | off :: rest, out => do
    let (found, out) ← trySlug parse (slugForBucket (base + off)) out
    if !found then probeOffsets parse nowS base rest out
    else
      let epoch := if out.bucketEpochSeconds < 0 then parseBucketEpochFromSlug out.confirmedSlug
        else some out.bucketEpochSeconds
      match epoch with
      | none => probeOffsets parse nowS base rest out
      | some epoch =>
        if epoch ≤ nowS ∧ nowS < epoch + 300 then
          return (true, { out with bucketEpochSeconds := epoch })
        else probeOffsets parse nowS base rest out

def discoverActiveBtcUpdown5mViaBucket (parse : String → Option Json)
    (out : BtcFiveMinuteBucketDiscovery) : Prog (Bool × BtcFiveMinuteBucketDiscovery) := do
  let nowS ← systemSeconds
  probeOffsets parse nowS (nowS.tdiv 300 * 300) [0, 300, -300] out

/-! ### What a lookup returns -/

variable {parse : String → Option Json}

theorem returns_orUncaught {A : Type} {o : Option A} {P : A → Prop} :
    Returns (orUncaught o) P ↔ ∀ a, o = some a → P a := by
  cases o with
  | none =>
    unfold orUncaught
    rw [returns_bind, returns_perform]
    exact ⟨fun _ _ => nofun, fun _ r => r.elim⟩
  | some a =>
    constructor
    · rintro h _ ⟨⟩
      exact returns_pure.mp h
    · intro h
      exact returns_pure.mpr (h a rfl)

theorem extractMarket_confirms {event : Json} {slug : String}
    {out d : BtcFiveMinuteBucketDiscovery}
    (h : extractMarket parse event slug out = some (some d)) :
    ∃ m up down conditionId iso, findMarketForSlug event slug = some (some m) ∧
      tokensOf (outcomesFromMarket parse m) (tokensFromMarket parse m) = some (up, down) ∧
      d = confirmMarket m slug up down conditionId iso out := by
  unfold extractMarket at h
  simp only [Option.bind_eq_bind, Option.bind_eq_some_iff] at h
  obtain ⟨_, -, h⟩ := h
  split at h
  · cases h
  obtain ⟨_, -, h⟩ := Option.bind_eq_some_iff.mp h
  split at h
  · cases h
  obtain ⟨market, hmarket, h⟩ := Option.bind_eq_some_iff.mp h
  split at h
  · rename_i m
    obtain ⟨_, -, h⟩ := Option.bind_eq_some_iff.mp h
    split at h
    · cases h
    split at h
    · rename_i up down htokens
      obtain ⟨conditionId, -, h⟩ := Option.bind_eq_some_iff.mp h
      obtain ⟨iso, -, h⟩ := Option.bind_eq_some_iff.mp h
      exact ⟨m, up, down, conditionId, iso, hmarket, htokens,
        (Option.some.inj (Option.some.inj h)).symm⟩
    · cases h
  · cases h

/-- The market of a slug that a lookup has accepted. -/
def Confirms (slug : String) (d : BtcFiveMinuteBucketDiscovery) : Prop :=
  d.confirmedSlug = slug ∧ d.bucketEpochSeconds = (parseBucketEpochFromSlug slug).getD (-1)

theorem validateAndExtract_confirms {event : Json} {slug : String}
    {out : BtcFiveMinuteBucketDiscovery} :
    Returns (validateAndExtract parse event slug out) fun r => r.1 = true → Confirms slug r.2 := by
  unfold validateAndExtract
  rw [returns_bind, returns_orUncaught]
  intro market hmarket
  cases market with
  | none => exact returns_pure.mpr nofun
  | some d =>
    obtain ⟨m, up, down, conditionId, iso, -, -, rfl⟩ := extractMarket_confirms hmarket
    refine returns_bind.mpr ((returns_trivial _).mono fun source _ => ?_)
    exact returns_pure.mpr fun _ => ⟨rfl, rfl⟩

theorem trySlug_confirms {slug : String} {out : BtcFiveMinuteBucketDiscovery} :
    Returns (trySlug parse slug out) fun r => r.1 = true → Confirms slug r.2 := by
  unfold trySlug
  refine returns_bind.mpr ((returns_trivial _).mono fun events _ => ?_)
  split
  · split
    · exact validateAndExtract_confirms
    · exact returns_pure.mpr nofun
  · exact returns_pure.mpr nofun

/-- `r` was accepted for the slug of an offset, and its bucket is open at `nowS`. -/
def Scanned (P : String → BtcFiveMinuteBucketDiscovery → Prop) (nowS base : ℤ)
    (offsets : List ℤ) (r : BtcFiveMinuteBucketDiscovery) : Prop :=
  ∃ off ∈ offsets, ∃ d epoch, P (slugForBucket (base + off)) d ∧
    (if d.bucketEpochSeconds < 0 then parseBucketEpochFromSlug d.confirmedSlug
      else some d.bucketEpochSeconds) = some epoch ∧
    (epoch ≤ nowS ∧ nowS < epoch + 300) ∧ r = { d with bucketEpochSeconds := epoch }

theorem probeOffsets_accepts {P : String → BtcFiveMinuteBucketDiscovery → Prop}
    (htry : ∀ slug out, Returns (trySlug parse slug out) fun r => r.1 = true → P slug r.2)
    {nowS base : ℤ} {offsets : List ℤ} {out : BtcFiveMinuteBucketDiscovery} :
    Returns (probeOffsets parse nowS base offsets out) fun r =>
      r.1 = true → Scanned P nowS base offsets r.2 := by
  induction offsets generalizing out with
  | nil => exact returns_pure.mpr nofun
  | cons off rest ih =>
    have hrest (out : BtcFiveMinuteBucketDiscovery) :
        Returns (probeOffsets parse nowS base rest out) fun r =>
          r.1 = true → Scanned P nowS base (off :: rest) r.2 := by
      refine ih.mono fun r h hfound => ?_
      obtain ⟨off', hmem, hscanned⟩ := h hfound
      exact ⟨off', List.mem_cons_of_mem off hmem, hscanned⟩
    unfold probeOffsets
    refine returns_bind.mpr ((htry _ out).mono ?_)
    rintro ⟨found, d⟩ haccepted
    dsimp only
    split
    · exact hrest d
    · rename_i hfound
      split
      · exact hrest d
      · rename_i epoch hepoch
        split
        · rename_i hwindow
          refine returns_pure.mpr fun _ => ?_
          exact ⟨off, List.mem_cons_self, d, epoch, haccepted (by simpa using hfound), hepoch,
            hwindow, rfl⟩
        · exact hrest d

theorem probeOffsets_found {nowS base : ℤ} {offsets : List ℤ}
    {out : BtcFiveMinuteBucketDiscovery} :
    Returns (probeOffsets parse nowS base offsets out) fun r => r.1 = true →
      r.2.bucketEpochSeconds ≤ nowS ∧ nowS < r.2.bucketEpochSeconds + 300 := by
  refine (probeOffsets_accepts fun _ _ => trySlug_confirms).mono ?_
  intro r h hfound
  obtain ⟨_, -, d, epoch, -, -, hwindow, heq⟩ := h hfound
  rw [heq]
  exact hwindow

end LeadLag.Gamma
