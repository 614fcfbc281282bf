import LeadLag.Core.Collected
import LeadLag.Core.Json
import LeadLag.Rtds.Strike
import Mathlib.Algebra.Order.Floor.Ring
import Mathlib.Data.Rat.Floor

/-!
# Ticks of a message (rtds_chainlink_feed.cpp:52-94, 160-222, 381-388)

A row can stop the collection: `get<std::string>` throws on another type, and
`operator[]` of a const object has no meaning for a missing key (the library
asserts that it is there). The handler catches the exception and pushes nothing.
`outOfRange` is the cast of a double that `std::int64_t` cannot hold.
-/

namespace LeadLag.Rtds
open LeadLag.Core LeadLag.Pipeline

inductive Stop where
  | threw
  | undefined
  deriving DecidableEq, Repr

abbrev Ticks := Collected Tick Stop

def lowerAscii (s : String) : String := s.map Char.toLower

def btcUsdSymbolMatch (raw : String) : Bool :=
  lowerAscii raw = "btc/usd" || lowerAscii raw = "btcusd"

def castInt64 (outOfRange : ℚ → ℤ) (x : ℚ) : ℤ :=
  let n := if 0 ≤ x then ⌊x⌋ else ⌈x⌉
  if -2 ^ 63 ≤ n ∧ n < 2 ^ 63 then n else outOfRange x

def jsonToMs (outOfRange : ℚ → ℤ) : Json → Option ℤ
  | .int i => some (i.bmod (2 ^ 64))
  | .float x => some (castInt64 outOfRange x)
  | _ => none

/-- `some none` is an infinity or NaN. -/
def jsonToDouble : Json → Option (Option ℚ)
  | .int i => some (some i)
  | .float x => some (some x)
  | .str s => stod s
  | _ => none

/-- The finite positive number a value parses to. -/
def price (j : Json) : Option {x : ℚ // 0 < x} :=
  match jsonToDouble j with
  | some (some x) => if h : 0 < x then some ⟨x, h⟩ else none
  | _ => none

section Collect

variable (outOfRange : ℚ → ℤ)

/-- The two fields of a row whose symbol matches. -/
def tickOf (row : Json) : Ticks :=
  match row.field? "timestamp" with
  | none => ⟨[], some .undefined⟩
  | some tsJson =>
    match jsonToMs outOfRange tsJson with
    | none => {}
    | some ts =>
      match row.field? "value" with
      | none => ⟨[], some .undefined⟩
      | some value =>
        match price value with
        | none => {}
        | some px => ⟨[⟨ts, px.1, px.2⟩], none⟩

/-- A row of the `data` array. -/
def dataRow (row : Json) : Ticks :=
  match row.field? "symbol" with
  | none => {}
  | some (.str s) => if btcUsdSymbolMatch s then tickOf outOfRange row else {}
  | some _ => ⟨[], some .threw⟩

/-- A payload without a `data` array is a row, and its symbol is checked to be a string. -/
def payloadRow (p : Json) : Ticks :=
  match p.field? "symbol" with
  | some (.str s) => if btcUsdSymbolMatch s then tickOf outOfRange p else {}
  | _ => {}

def collectTicksFromPayload (p : Json) : Ticks :=
  match p.field? "data" with
  | some (.arr rows) => Collected.all (dataRow outOfRange) rows
  | _ => payloadRow outOfRange p

def isChainlink (o : Json) : Bool :=
  match o.field? "topic" with
  | some (.str topic) => lowerAscii topic = "crypto_prices_chainlink"
  | _ => false

def collectOne (o : Json) : Ticks :=
  if isChainlink o then
    match o.field? "payload" with
    | some p => collectTicksFromPayload outOfRange p
    | none => {}
  else {}

def collectTicksFromMessage : Json → Ticks
  | .arr xs => Collected.all (collectOne outOfRange) xs
  | j => collectOne outOfRange j

end Collect

/-- The ticks the handler pushes; `none` when C++ gives the run no meaning. -/
def pushed (c : Ticks) : Option (List Tick) :=
  match c.stop with
  | none => some c.items
  | some .threw => some []
  | some .undefined => none

/-- `parsed` is the message, `none` where `json::parse` throws. -/
def onMessage (outOfRange : ℚ → ℤ) (parsed : Option Json) : Option (List Tick) :=
  match parsed with
  | none => some []
  | some j => pushed (collectTicksFromMessage outOfRange j)

/-! ### The rows of a message -/

structure Row where
  inData : Bool
  json : Json

def payloadRows (p : Json) : List Row :=
  match p.field? "data" with
  | some (.arr rows) => rows.map fun row => ⟨true, row⟩
  | _ => [⟨false, p⟩]

def objectRows (o : Json) : List Row :=
  if isChainlink o then ((o.field? "payload").map payloadRows).getD [] else []

def messageRows : Json → List Row
  | .arr xs => xs.flatMap objectRows
  | j => objectRows j

/-- A row that is no object has no fields and is passed over. -/
def symbol? (row : Json) : Option String := (row.field? "symbol").bind Json.string?

/-- The tick a row stands for by itself. -/
def rowTick (outOfRange : ℚ → ℤ) (row : Json) : Option Tick := do
  let s ← symbol? row
  guard (btcUsdSymbolMatch s)
  let ts ← (row.field? "timestamp").bind (jsonToMs outOfRange)
  let px ← (row.field? "value").bind price
  pure ⟨ts, px.1, px.2⟩

def isNumber : Json → Bool
  | .int _ => true
  | .float _ => true
  | _ => false

/-- Why a row stops the collection. -/
def Row.fault (row : Row) : Option Stop :=
  match row.json.field? "symbol" with
  | none => none
  | some (.str s) =>
    if btcUsdSymbolMatch s then
      match row.json.field? "timestamp" with
      | none => some .undefined
      | some ts =>
        if isNumber ts && (row.json.field? "value").isNone then some .undefined else none
    else none
  | some _ => if row.inData then some .threw else none

end LeadLag.Rtds
