import LeadLag.Core.Decimal
import LeadLag.Rtds.Messages
import LeadLag.Runner.Consumer
import LeadLag.TokenFeed.Message

/-!
# Messages of the Binance stream (stream_client.cpp:21-43, 117-158)

`handle` is what the handler passes on; `none` where an exception is caught or
the message is none of the two kinds. A price is what `std::stod` makes of the
string, whatever its sign, and `none` for an infinity or NaN.
-/

namespace LeadLag.Binance
open LeadLag.Core LeadLag.Runner LeadLag.TokenFeed

inductive StreamTick where
  | bookTicker (bidPrice askPrice : Option ℚ)
  | trade (price : Option ℚ)
  deriving DecidableEq

def hasField (key : String) (j : Json) : Bool := (j.field? key).isSome

def looksLikeBooktickerPayload (j : Json) : Bool :=
  hasField "s" j && hasField "b" j && hasField "B" j && hasField "a" j && hasField "A" j &&
    hasField "u" j

/-- `std::stod` of a field that has to be a string. -/
def stodField (key : String) (j : Json) : Option (Option ℚ) :=
  ((j.field? key).bind Json.string?).bind stod

/-- The update id is not read by the runner; its text may not be a number. -/
def updateIdParses (j : Json) : Bool :=
  match j.field? "u" with
  | some (.str s) => (stoull s).isSome
  | _ => true

/-- `value(key, -1)` of an integer that the runner does not read. -/
def integerOrAbsent (key : String) (j : Json) : Bool :=
  match j.field? key with
  | none | some (.int _) | some (.float _) => true
  | some _ => false

def handleBookTicker (j : Json) : Option StreamTick := do
  let _symbol ← stringValue "s" j
  let bidPrice ← stodField "b" j
  let _bidQty ← stodField "B" j
  let askPrice ← stodField "a" j
  let _askQty ← stodField "A" j
  if updateIdParses j then some (.bookTicker bidPrice askPrice) else none

def handleTrade (j : Json) : Option StreamTick := do
  if integerOrAbsent "E" j then
    let _symbol ← stringValue "s" j
    let price ← stodField "p" j
    let _qty ← stodField "q" j
    if integerOrAbsent "t" j then some (.trade price) else none
  else none

/-- `parsed` is the message, `none` where `json::parse` throws. -/
def handle (parsed : Option Json) : Option StreamTick :=
  parsed.bind fun j =>
    if looksLikeBooktickerPayload j then handleBookTicker j
    else if (j.field? "e").bind Json.string? = some "trade" then handleTrade j
    else none

/-- The event queued for a tick; an infinity or NaN has none in the model of the runner. -/
def StreamTick.event? (wallMs : ℤ) : StreamTick → Option Event
  | .bookTicker bid ask => do some (.binBook (← bid) (← ask) wallMs)
  | .trade price => do some (.binTrade (← price) wallMs)

/-- The mid or the price is a positive number. -/
def StreamTick.Priced : StreamTick → Prop
  | .bookTicker bid ask => ∃ b a, bid = some b ∧ ask = some a ∧ 0 < 1 / 2 * (b + a)
  | .trade price => ∃ p, price = some p ∧ 0 < p

/-- A book with nothing on either side. -/
def emptyBook : Json :=
  .obj [("u", .int 1), ("s", .str "BTCUSDT"), ("b", .str "0.00000000"), ("B", .str "0.00000000"),
    ("a", .str "0.00000000"), ("A", .str "0.00000000")]

example : handle (some emptyBook) = some (.bookTicker (some 0) (some 0)) := by decide +kernel

end LeadLag.Binance
