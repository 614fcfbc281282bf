import LeadLag.TokenFeed.Malformed
import Mathlib.Algebra.Order.Floor.Ring
import Mathlib.Data.Rat.Floor

/-!
# The Up feed with rollover (poly_ws_quote_feed.cpp:19-169, 260-531)

`PolyWsQuoteFeed` handles its messages on the socket thread and follows
`new_market` messages to the next market. `Result` is what handling a message
leaves: the feed, what it sent and called in order, and whether an exception
left the handler. `dump` is the text of a JSON value, as nlohmann::json writes
it. The time a market was announced is written and never read.
-/

namespace LeadLag.PolyWs
open LeadLag.Core LeadLag.TokenFeed

structure MarketRef where
  marketId : String := ""
  conditionId : String := ""
  slug : String := ""
  upTokenId : String := ""
  downTokenId : String := ""
  active : Bool := false
  deriving DecidableEq, Repr

/-- `PolymarketQuoteTick` without its two clock readings. -/
structure QuoteTick where
  tokenId : String
  outcome : String
  marketSlug : String
  marketId : String
  bestBid : Price
  bestAsk : Price
  deriving DecidableEq

structure Feed where
  rolloverSlugPrefix : String := "btc-updown-5m"
  active : MarketRef
  activeUpToken : String
  lastQuoteDedup : String := ""
  deriving DecidableEq, Repr

inductive Output where
  | quote (t : QuoteTick)
  | unsubscribe (tok : String)
  | snapshot (tok : String)
  | subscribe (tok : String)
  | rollover (old next : MarketRef)
  deriving DecidableEq

structure Result where
  feed : Feed
  outputs : List Output := []
  threw : Bool := false

namespace Result

def andThen (r : Result) (k : Feed → Result) : Result :=
  if r.threw then r
  else
    let r' := k r.feed
    { r' with outputs := r.outputs ++ r'.outputs }

end Result

/-! ### Text -/

def lower (s : String) : String := s.map Char.toLower

def slugHasPrefixCi (slug pre : String) : Bool :=
  (lower pre).toList.isPrefixOf (lower slug).toList

def roundHalfEven (x : ℚ) : ℤ :=
  let n := ⌊x⌋
  if Int.fract x < 1 / 2 then n
  else if 1 / 2 < Int.fract x then n + 1
  else if n % 2 = 0 then n else n + 1

/-- `std::to_string` of a double: six decimals. -/
def toStringF : Price → String
  | none => "-inf"
  | some none => "inf"
  | some (some x) =>
    let n := (roundHalfEven (|x| * 10 ^ 6)).toNat
    let digits := toString (n % 10 ^ 6)
    (if x < 0 then "-" else "") ++ toString (n / 10 ^ 6) ++ "." ++
      String.ofList (List.replicate (6 - digits.length) '0') ++ digits

example : toStringF ((51 / 100 : ℚ) : Price) = "0.510000" := by decide +kernel

/-! ### Market messages -/

def strings : Json → List String
  | .arr xs => xs.filterMap Json.string?
  | _ => []

def outcomesFromNewMarket (j : Json) : List String := ((j.field? "outcomes").map strings).getD []

/-- The first of the three fields that holds a string. -/
def tokensFromNewMarket (j : Json) : List String :=
  let ids key := ((j.field? key).map strings).getD []
  if ids "clob_token_ids" ≠ [] then ids "clob_token_ids"
  else if ids "clobTokenIds" ≠ [] then ids "clobTokenIds"
  else ids "assets_ids"

def indexOfOutcome (name : String) (fallback : ℕ) (outs : List String) : ℕ :=
  (outs.findIdx? fun o => lower o = name).getD fallback

def indexUp (outs : List String) : ℕ := indexOfOutcome "up" 0 outs

def indexDown (outs : List String) : ℕ :=
  indexOfOutcome "down" (if 1 < outs.length then 1 else 0) outs

def jsonScalarIdString (key : String) (j : Json) : String :=
  match j.field? key with
  | some (.str s) => s
  | some (.int i) => toString i
  | _ => ""

/-- `value(key, fallback)` of a flag; `none` is the exception for another type. -/
def boolValue (key : String) (fallback : Bool) (j : Json) : Option Bool :=
  match j.field? key with
  | none => some fallback
  | some (.bool b) => some b
  | some _ => none

/-- `none` is an exception, here and in the next three definitions. -/
def newMarketMatchesFamily (pre : String) (j : Json) : Option Bool := do
  let slug ← stringValue "slug" j
  let outs := (outcomesFromNewMarket j).map lower
  pure (slugHasPrefixCi slug pre && outs.contains "up" && outs.contains "down")

def conditionIdFromNewMarket (j : Json) : Option String := do
  let market ← stringValue "market" j
  if market = "" then stringValue "condition_id" j else pure market

/-- Both tokens; `toks.at` throws past the end. -/
def tokensOfOutcomes (outs toks : List String) : Option (String × String) :=
  if toks ≠ [] ∧ outs.length = toks.length then do
    let up ← toks[indexUp outs]?
    let down ← toks[indexDown outs]?
    pure (up, down)
  else some ("", "")

def marketRefFromNewMarket (j : Json) : Option MarketRef := do
  let conditionId ← conditionIdFromNewMarket j
  let slug ← stringValue "slug" j
  let active ← boolValue "active" true j
  let (up, down) ← tokensOfOutcomes (outcomesFromNewMarket j) (tokensFromNewMarket j)
  pure { marketId := jsonScalarIdString "id" j, conditionId := conditionId, slug := slug
         upTokenId := up, downTokenId := down, active := active }

def conditionSame (a b : String) : Bool := lower a = lower b

namespace Feed

def switchToMarket (f : Feed) (next : MarketRef) : Result where
  feed := { f with active := next, activeUpToken := next.upTokenId, lastQuoteDedup := "" }
  outputs :=
    (if f.activeUpToken ≠ "" ∧ f.activeUpToken ≠ next.upTokenId then
      [.unsubscribe f.activeUpToken] else []) ++
    [.snapshot next.upTokenId, .subscribe next.upTokenId, .rollover f.active next]

def maybeHandleNewMarket (f : Feed) (j : Json) : Result :=
  match newMarketMatchesFamily f.rolloverSlugPrefix j with
  | none => { feed := f, threw := true }
  | some false => { feed := f }
  | some true =>
    match marketRefFromNewMarket j with
    | none => { feed := f, threw := true }
    | some next =>
      if next.upTokenId = "" then { feed := f }
      else if f.active.conditionId ≠ "" ∧ next.conditionId ≠ "" ∧
          conditionSame f.active.conditionId next.conditionId = true then { feed := f }
      else f.switchToMarket next

/-! ### Quotes -/

def guardActiveQuoteAsset (f : Feed) (assetId : String) : Bool :=
  decide (assetId ≠ "" ∧ assetId = f.activeUpToken)

def tick (f : Feed) (assetId : String) (bid ask : Price) : QuoteTick :=
  { tokenId := assetId, outcome := "Up", marketSlug := f.active.slug
    marketId := if f.active.marketId = "" then f.active.conditionId else f.active.marketId
    bestBid := bid, bestAsk := ask }

def emitQuote (f : Feed) (assetId : String) (bid ask : Option Price) (dedupTs : String) : Result :=
  if f.guardActiveQuoteAsset assetId then
    match bid, ask with
    | some bid, some ask =>
      let k := assetId ++ "|" ++ toStringF bid ++ "|" ++ toStringF ask ++ "|" ++ dedupTs
      if k = f.lastQuoteDedup then { feed := f }
      else { feed := { f with lastQuoteDedup := k }, outputs := [.quote (f.tick assetId bid ask)] }
    | _, _ => { feed := f }
  else { feed := f }

/-- The entries of a message with their dedup timestamps. -/
def quoteEntries (f : Feed) : List (Item × String) → Result
  | [] => { feed := f }
  | (.throws, _) :: _ => { feed := f, threw := true }
  | (.entry aid top, dedupTs) :: rest =>
    if f.guardActiveQuoteAsset aid then
      match top with
      | .throws => { feed := f, threw := true }
      | .nothing => f.quoteEntries rest
      | .prices bid ask => (f.emitQuote aid bid ask dedupTs).andThen fun f => f.quoteEntries rest
    else f.quoteEntries rest

/-- A market whose condition id is unknown takes it from a message about its token. -/
def tryHydrateFromMessage (f : Feed) (j : Json) : Feed :=
  if f.active.conditionId ≠ "" then f
  else
    match j.field? "asset_id", j.field? "market" with
    | some (.str aid), some (.str market) =>
      if aid = f.activeUpToken then { f with active := { f.active with conditionId := market } }
      else f
    | _, _ => f

end Feed

/-! ### The handler -/

section Handler

variable (dump : Json → String)

def timestampText (j : Json) : String := ((j.field? "timestamp").map dump).getD ""

/-- A change without timestamp takes that of the message. -/
def dedupTs (message entry : Json) : String :=
  let pts := timestampText dump entry
  if pts = "" then timestampText dump message else pts

/-- `items` with the dedup timestamp of each. -/
def stampedItems (j : Json) : List (Item × String) :=
  if stringValue "event_type" j = some "price_change" then
    ((levels "price_changes" j).filter Json.isObject).map fun ch =>
      (withAssetId ch (bestBidAsk .nothing ch), dedupTs dump j ch)
  else (items (some j)).map fun item => (item, timestampText dump j)

def onWsMessage (f : Feed) (msg : Option Json) : Result :=
  match msg with
  | none => { feed := f }
  | some j =>
    if j.isObject then
      let f := f.tryHydrateFromMessage j
      match stringValue "event_type" j with
      | none => { feed := f, threw := true }
      | some "new_market" => f.maybeHandleNewMarket j
      | some _ =>
        if f.activeUpToken = "" then { feed := f } else f.quoteEntries (stampedItems dump j)
    else { feed := f }

end Handler

end LeadLag.PolyWs
