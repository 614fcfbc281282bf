import LeadLag.Daemon.OneReply
import LeadLag.Execution.Calls

/-!
# An order at the daemon (live_executor.cpp:62-101, 155-165, 241-243, 304-306,
poly_daemon.py:131-239)

The request that `LiveExecutor` writes for an intent, and what the daemon does
for it: one order at most goes to the exchange, and the reply is `ok` just when
the exchange took it.
-/

namespace LeadLag.Daemon
open LeadLag.Interaction
open LeadLag.Execution (OrderIntent OrderSide)

/-! ### Requests -/

/-- The calls of `LiveExecutor`; a submit reads `POLY_MARKET_ORDER_TYPE`. -/
inductive Request where
  | submit (env : String) (o : OrderIntent)
  | queryConditionalBalance (tokenId : String)
  | queryOrder (orderId : String)
  | queryGarchSigma (resampledMids : List ℚ) (stepMs : ℤ)
  deriving DecidableEq

def sideText : OrderSide → String
  | .buy => "BUY"
  | .sell => "SELL"

def marketOrderType (env : String) (o : OrderIntent) : String :=
  let mot := if o.marketOrderType = "" then env else o.marketOrderType
  if mot = "" then "FAK" else mot

/-- `req` as Python reads it: nlohmann keeps the fields of an object sorted. -/
def Request.value : Request → Value
  | .submit env o =>
    if o.marketOrder then
      .dict ([("amount", .float o.qty), ("cmd", .str "place_market_order"),
          ("order_type", .str (marketOrderType env o))] ++
        (if 0 < o.marketWorstPrice then [("price", .float o.marketWorstPrice)] else []) ++
        [("side", .str (sideText o.side)), ("token_id", .str o.marketTokenId)])
    else
      .dict [("cmd", .str "place_order"), ("order_type", .str "GTC"),
        ("price", .float o.limitPrice), ("side", .str (sideText o.side)), ("size", .float o.qty),
        ("token_id", .str o.marketTokenId)]
  | .queryConditionalBalance tokenId =>
    .dict [("cmd", .str "get_conditional_balance"), ("token_id", .str tokenId)]
  | .queryOrder orderId => .dict [("cmd", .str "get_order"), ("order_id", .str orderId)]
  | .queryGarchSigma resampledMids stepMs =>
    .dict [("cmd", .str "garch_forecast"),
      ("mids", .list (resampledMids.map fun x => .float x)), ("step_ms", .int stepMs)]

/-! ### Orders -/

/-- What the client of the exchange is handed. -/
inductive Order where
  | market (tokenId : Value) (amount : Option ℚ) (side : Value) (price : Option ℚ)
      (orderType : Value)
  | limit (tokenId : Value) (price size : Option ℚ) (side orderType : Value)

/-- An order handed over, and what came back. -/
abbrev Post : Type := Order × Except Raised Value

def post? : Obs Reply → Option Post
  | ⟨.createAndPostMarketOrder tokenId amount side price orderType, r⟩ =>
    some (.market tokenId amount side price orderType, r)
  | ⟨.createAndPostOrder tokenId price size side orderType, r⟩ =>
    some (.limit tokenId price size side orderType, r)
  | _ => none

def posts (tr : Trace) : List Post := tr.filterMap post?

/-- The order that an intent stands for. A worst price of 0 lets the client of
the exchange compute its own. -/
def orderOf (typeNamed : String → Value) (env : String) (o : OrderIntent) : Order :=
  if o.marketOrder then
    .market (.str o.marketTokenId) (some o.qty) (.str (sideText o.side))
      (some (max o.marketWorstPrice 0)) (typeNamed (marketOrderType env o))
  else
    .limit (.str o.marketTokenId) (some o.limitPrice) (some o.qty) (.str (sideText o.side))
      (.str "GTC")

/-! ### What Python's built-ins reply -/

/-- `dump` is the text of a request and `getattr(OrderType, name, OrderType.FOK)` is
`typeNamed name`. -/
structure Python where
  floatRepr : Option ℚ → Line
  dump : Request → List Char
  typeNamed : String → Value

/-- `json.loads` reads back what was dumped, `float` of a number and `str` of a
string are that number and that string, and `str` of a JSON value does not raise. -/
def Python.promises (py : Python) : Obs Reply → Prop
  | ⟨.loads t, r⟩ => ∀ q, t = String.ofList (strip (py.dump q)) → r = .ok q.value
  | ⟨.toFloat (.float x), r⟩ => r = .ok x
  | ⟨.toFloat (.int i), r⟩ => r = .ok (some (i : ℚ))
  | ⟨.toStr v, r⟩ =>
    (∀ s, v = .str s → r = .ok s) ∧ (dumps py.floatRepr v ≠ none → ∃ s, r = .ok s)
  | ⟨.orderType (.str name), r⟩ => r = .ok (py.typeNamed name)
  | _ => True

/-- What has been posted and written when a statement ends, given such replies. -/
def Spec {A : Type} (py : Python) (Q : List Post → List (List Char) → Except Raised A → Prop)
    (p : Py A) : Prop :=
  Ensures p.run fun tr r => (∀ o ∈ tr, py.promises o) → Q (posts tr) (writes tr) r

/-- Nothing is posted or written, and what comes out satisfies `P`. -/
def Reads {A : Type} (py : Python) (P : Except Raised A → Prop) (p : Py A) : Prop :=
  Spec py (fun ps ws r => ps = [] ∧ ws = [] ∧ P r) p

section Rules

variable {A B : Type} {py : Python} {P : Except Raised A → Prop}
  {Q : List Post → List (List Char) → Except Raised B → Prop}

theorem Spec.mono {Q' : List Post → List (List Char) → Except Raised B → Prop} {p : Py B}
    (h : Spec py Q p) (hq : ∀ ps ws r, Q ps ws r → Q' ps ws r) : Spec py Q' p :=
  Ensures.mono h fun _ _ h hkept => hq _ _ _ (h hkept)

end Rules

/-! ### Statements -/

section Statements

variable {py : Python}

end Statements

/-! ### The two commands that place an order -/

/-- What a reply for an order that the exchange took says. -/
structure Confirms (resp : Value) (fields : List (String × Value)) : Prop where
  keys : (fields.map Prod.fst).Nodup
  ok : fields.lookup "ok" = some (.bool true)
  answer : fields.lookup "resp" = some resp
  orderId : ∀ id, fields.lookup "order_id" = some id →
    ∃ s, id = .str s ∧ ∀ t, resp.get? "orderID" = some (.str t) → t ≠ "" → s = t

section Commands

variable {py : Python} {order : Order}

section Market

variable {env : String} {o : OrderIntent}

end Market

end Commands

/-! ### The other commands post nothing -/

section Nothing

variable {A B : Type}

variable (floatRepr : Option ℚ → Line)

end Nothing

/-! ### A request at the daemon -/

section Requests

variable {py : Python} {env : String} {o : OrderIntent}

end Requests

end LeadLag.Daemon
