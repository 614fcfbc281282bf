import LeadLag.Core.Json
import Mathlib.Order.WithBotTop

/-!
# Market messages (ws_fixed_token_feed.cpp:17-98, 209-284)

What `on_ws_message_inner` reads of a message: the asset id of each entry and
the top of book it offers. `throws` is an exception of nlohmann::json, which
nobody catches. A price is a double other than NaN.
-/

namespace LeadLag.TokenFeed
open LeadLag.Core

/-- `⊥` and `⊤` are the infinities. -/
abbrev Price := WithBot (WithTop ℚ)

/-- `std::stod` with NaN and the exceptions as `none`. -/
def stodPrice (s : String) : Option Price :=
  match stod s with
  | none => none
  | some (some x) => some x
  | some none =>
    let (neg, cs) := splitSign (s.toList.dropWhile isSpace)
    if (cs.take 3).map Char.toLower = ['i', 'n', 'f'] then some (if neg then ⊥ else ⊤) else none

def jsonToDouble : Json → Option Price
  | .int i => some (i : ℚ)
  | .float x => some x
  | .str s => stodPrice s
  | _ => none

def jsonLevelSizePositive (lvl : Json) : Bool :=
  ((lvl.field? "size").bind jsonToDouble).any fun v => decide (((1 / 10 ^ 18 : ℚ) : Price) < v)

def levelPrice (lvl : Json) : Option Price :=
  match lvl.field? "price" with
  | none => none
  | some p => if jsonLevelSizePositive lvl then jsonToDouble p else none

/-- The loop over one side; `better` is `>` for bids and `<` for asks. -/
def bestLevel (better : Price → Price → Bool) : Option Price → List Json → Option Price
  | best, [] => best
  | best, lvl :: rest =>
    match levelPrice lvl with
    | none => bestLevel better best rest
    | some p => bestLevel better (if best.all (better p) then some p else best) rest

def levels (key : String) (j : Json) : List Json :=
  match j.field? key with
  | some (.arr lvls) => lvls
  | _ => []

def parseTopOfBookFromBook (j : Json) : Option (Price × Price) :=
  match bestLevel (fun p best => decide (best < p)) none (levels "bids" j),
    bestLevel (fun p best => decide (p < best)) none (levels "asks" j) with
  | some bid, some ask => some (bid, ask)
  | _, _ => none

/-- What an entry offers once its asset id has been compared. -/
inductive Top where
  | prices (bid ask : Option Price)
  | nothing
  | throws
  deriving DecidableEq

inductive Item where
  | entry (assetId : String) (top : Top)
  | throws
  deriving DecidableEq

/-- `value(key, "")` of an object; `none` is the exception for another type. -/
def stringValue (key : String) (j : Json) : Option String :=
  match j.field? key with
  | none => some ""
  | some v => v.string?

def withAssetId (j : Json) (top : Top) : Item :=
  match stringValue "asset_id" j with
  | none => .throws
  | some aid => .entry aid top

/-- `best_bid` and `best_ask`; `missing` is what happens without one of them. -/
def bestBidAsk (missing : Top) (j : Json) : Top :=
  match j.field? "best_bid", j.field? "best_ask" with
  | some bid, some ask => .prices (jsonToDouble bid) (jsonToDouble ask)
  | _, _ => missing

def bookTop (j : Json) : Top :=
  match parseTopOfBookFromBook j with
  | some (bid, ask) => .prices (some bid) (some ask)
  | none => .nothing

def changeItems (changes : List Json) : List Item :=
  (changes.filter Json.isObject).map fun ch => withAssetId ch (bestBidAsk .nothing ch)

/-- The entries of a message, in the order in which they are handled; text that
is no JSON is `none`. -/
def items : Option Json → List Item
  | none => []
  | some j =>
    if j.isObject then
      match stringValue "event_type" j with
      | none => [.throws]
      | some "best_bid_ask" => [withAssetId j (bestBidAsk .throws j)]
      | some "book" => [withAssetId j (bookTop j)]
      | some "price_change" => changeItems (levels "price_changes" j)
      | some _ => []
    else []

end LeadLag.TokenFeed
