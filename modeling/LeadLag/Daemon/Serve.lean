import LeadLag.Daemon.Value
import LeadLag.Interaction.Program

/-!
# The loop of the trading daemon (poly_daemon.py:91-328)

`serve` is the body of `for line in sys.stdin`. What may raise is a call that
may reply with an exception: the built-in conversions, the order client, numpy
and arch. `write` is one `write` and `flush` of stdout.
-/

namespace LeadLag.Daemon
open LeadLag.Interaction

/-- An exception: whether it is a TypeError or ValueError, and its `str`. -/
structure Raised where
  typeOrValue : Bool
  str : String

inductive Call where
  | loads (text : String)
  | getenv (name fallback : String)
  | toFloat (v : Value)
  | toInt (v : Value)
  | toStr (v : Value)
  | orderType (name : Value)
  | createAndPostMarketOrder (tokenId : Value) (amount : Option ℚ) (side : Value)
      (price : Option ℚ) (orderType : Value)
  | createAndPostOrder (tokenId : Value) (price size : Option ℚ) (side orderType : Value)
  | getBalanceAllowance (tokenId : String)
  | getOrder (orderId : String)
  | archInstalled
  | npArray (mids : Value)
  | finiteReturns (mids : List (Option ℚ))
  | garchSigmaAnnual (rets : List (Option ℚ)) (p q stepMs : ℤ)
  | timeMs
  | formatExc
  | write (text : List Char)

abbrev Reply : Call → Type
  | .loads _ => Except Raised Value
  | .getenv .. => String
  | .toFloat _ => Except Raised (Option ℚ)
  | .toInt _ => Except Raised ℤ
  | .toStr _ => Except Raised String
  | .orderType _ => Except Raised Value
  | .createAndPostMarketOrder .. => Except Raised Value
  | .createAndPostOrder .. => Except Raised Value
  | .getBalanceAllowance _ => Except Raised Value
  | .getOrder _ => Except Raised Value
  | .archInstalled => Bool
  | .npArray _ => Except Raised (List (Option ℚ))
  | .finiteReturns _ => Except Raised (List (Option ℚ))
  | .garchSigmaAnnual .. => Except Raised (Option ℚ)
  | .timeMs => ℤ
  | .formatExc => String
  | .write _ => Unit

abbrev Trace : Type := List (Obs Reply)

/-- A statement that may raise. -/
abbrev Py (A : Type) : Type := ExceptT Raised (Prog Reply) A

def ask (c : Call) : Py (Reply c) := ExceptT.lift (Prog.perform c)

def orRaise {A : Type} (r : Except Raised A) : Py A := ExceptT.mk (pure r)

def toFloat (v : Value) : Py (Option ℚ) := do orRaise (← ask (.toFloat v))
def toInt (v : Value) : Py ℤ := do orRaise (← ask (.toInt v))
def toStr (v : Value) : Py String := do orRaise (← ask (.toStr v))

/-- `req[key]`. -/
def item (key : String) (req : Value) : Py Value :=
  match req.get? key with
  | some v => pure v
  | none => throw { typeOrValue := false, str := "'" ++ key ++ "'" }

/-- `req.get(key, fallback)`. -/
def Value.getD (key : String) (req fallback : Value) : Value := (req.get? key).getD fallback

def okReply (cmd : Value) (fields : List (String × Value)) (tsMs : ℤ) : Value :=
  .dict (("ok", .bool true) :: ("cmd", cmd) :: fields ++ [("ts_ms", .int tsMs)])

def errorReply (cmd : Value) (fields : List (String × Value)) (tsMs : ℤ) : Value :=
  .dict (("ok", .bool false) :: ("cmd", cmd) :: fields ++ [("ts_ms", .int tsMs)])

section Serve

variable (floatRepr : Option ℚ → Line)

/-- `json.dumps` raises before anything is written. -/
def reply (obj : Value) : Py Unit :=
  match dumps floatRepr obj with
  | none =>
    let typeName := (firstObject? obj).getD ""
    throw { typeOrValue := true
            str := "Object of type " ++ typeName ++ " is not JSON serializable" }
  | some text => ask (.write (text ++ ['\n']))

def replyOk (cmd : Value) (fields : List (String × Value)) : Py Unit := do
  reply floatRepr (okReply cmd fields (← ask .timeMs))

def replyError (cmd : Value) (fields : List (String × Value)) : Py Unit := do
  reply floatRepr (errorReply cmd fields (← ask .timeMs))

/-- What both `except Exception as e` branches do. -/
def replyRaised (head : List (String × Value)) (e : Raised) : Py Unit := do
  let trace ← ask .formatExc
  reply floatRepr (.dict (("ok", .bool false) :: head ++
    [("error", .str e.str), ("trace", .str trace), ("ts_ms", .int (← ask .timeMs))]))

/-! ### Commands -/

def orderIdOf (resp : Value) : Py String :=
  if resp.isDict then
    toStr ((((resp.getD "orderID" .none).or (resp.getD "order_id" .none)).or
      (resp.getD "orderId" .none)).or (.str ""))
  else pure ""

def orderTypeName (req : Value) : Py Value :=
  let name := req.getD "order_type" .none
  if name.truthy then pure name
  else do pure (.str (← ask (.getenv "POLY_MARKET_ORDER_TYPE" "IOC")))

def placeMarketOrder (cmd req : Value) : Py Unit := do
  let tokenId ← item "token_id" req
  let side ← item "side" req
  let amount ← toFloat (← item "amount" req)
  let otName ← orderTypeName req
  let ot ← orRaise (← ask (.orderType otName))
  if (req.getD "dry_run" .none).jsonTruthy then
    replyOk floatRepr cmd
      [("dry_run", .bool true),
       ("would", .dict [("token_id", tokenId), ("side", side), ("amount", .float amount),
         ("order_type", otName)])]
  else
    let price ← toFloat ((req.getD "price" (.int 0)).or (.int 0))
    let resp ← orRaise (← ask (.createAndPostMarketOrder tokenId amount side price ot))
    let orderId ← orderIdOf resp
    replyOk floatRepr cmd [("resp", resp), ("order_id", .str orderId)]

def placeOrder (cmd req : Value) : Py Unit := do
  let tokenId ← item "token_id" req
  let side ← item "side" req
  let price ← toFloat (← item "price" req)
  let size ← toFloat (← item "size" req)
  let orderType := req.getD "order_type" (.str "GTC")
  if (req.getD "dry_run" .none).jsonTruthy then
    replyOk floatRepr cmd
      [("dry_run", .bool true),
       ("would", .dict [("token_id", tokenId), ("side", side), ("price", .float price),
         ("size", .float size), ("order_type", orderType)])]
  else
    let resp ← orRaise (← ask (.createAndPostOrder tokenId price size side orderType))
    replyOk floatRepr cmd [("resp", resp)]

/-- `float(b)` with a TypeError or ValueError as `none`. -/
def tryFloat (b : Value) : Py (Option (Option ℚ)) :=
  tryCatch (do pure (some (← toFloat b))) fun e =>
    if e.typeOrValue then pure none else throw e

def balanceShares (raw : Value) : Py (Option (Option ℚ)) :=
  if raw.isDict then
    match raw.getD "balance" .none with
    | .none => pure none
    | b => do
      match ← tryFloat b with
      | some x => pure (some (x.map (· / 10 ^ 6)))
      | none => tryFloat b
  else pure none

def getConditionalBalance (cmd req : Value) : Py Unit := do
  let tokenId ← toStr (← item "token_id" req)
  let raw ← orRaise (← ask (.getBalanceAllowance tokenId))
  match ← balanceShares raw with
  | none =>
    replyError floatRepr cmd
      [("error", .str "could not parse conditional balance"), ("raw", raw)]
  | some balance => replyOk floatRepr cmd [("balance", .float balance), ("raw", raw)]

def getOrder (cmd req : Value) : Py Unit := do
  let orderId ← toStr (← item "order_id" req)
  let resp ← orRaise (← ask (.getOrder orderId))
  replyOk floatRepr cmd [("order", resp), ("resp", resp)]

def cancelOrder (cmd : Value) : Py Unit :=
  reply floatRepr (.dict [("ok", .bool false), ("cmd", cmd),
    ("error", .str "cancel_order not implemented in poly_daemon.py yet")])

def fitGarch (cmd : Value) (rets : List (Option ℚ)) (p q stepMs : ℤ) : Py Unit := do
  let sigma ← orRaise (← ask (.garchSigmaAnnual rets p q stepMs))
  replyOk floatRepr cmd [("sigma_annual", .float sigma), ("n_returns", .int rets.length)]

def garchForecast (cmd req : Value) : Py Unit := do
  let mids ← item "mids" req
  let stepMs ← toInt (req.getD "step_ms" (.int 300))
  let p ← toInt (req.getD "p" (.int 1))
  let q ← toInt (req.getD "q" (.int 1))
  if ← ask .archInstalled then
    let midsArr ← orRaise (← ask (.npArray mids))
    if midsArr.length < 50 then
      replyError floatRepr cmd
        [("error", .str ("too few data points: " ++ toString midsArr.length))]
    else
      let rets ← orRaise (← ask (.finiteReturns midsArr))
      if rets.length < 50 then
        replyError floatRepr cmd
          [("error", .str ("too few valid returns: " ++ toString rets.length))]
      else
        tryCatch (fitGarch floatRepr cmd rets p q stepMs) (replyRaised floatRepr [("cmd", cmd)])
  else replyError floatRepr cmd [("error", .str "arch package not installed")]

def unknownCommand (cmd : Value) : Py Unit := do
  let name ← toStr cmd
  reply floatRepr (.dict [("ok", .bool false), ("error", .str ("unknown cmd: " ++ name)),
    ("ts_ms", .int (← ask .timeMs))])

/-! ### One line -/

def handle (text : String) : Py Unit := do
  let req ← orRaise (← ask (.loads text))
  if req.isDict then
    let cmd := req.getD "cmd" .none
    if cmd.isStr "place_market_order" then placeMarketOrder floatRepr cmd req
    else if cmd.isStr "place_order" then placeOrder floatRepr cmd req
    else if cmd.isStr "get_conditional_balance" then getConditionalBalance floatRepr cmd req
    else if cmd.isStr "get_order" then getOrder floatRepr cmd req
    else if cmd.isStr "cancel_order" then cancelOrder floatRepr cmd
    else if cmd.isStr "garch_forecast" then garchForecast floatRepr cmd req
    else if cmd.isStr "ping" then replyOk floatRepr cmd []
    else unknownCommand floatRepr cmd
  else
    throw { typeOrValue := false, str := "'" ++ req.typeName ++ "' object has no attribute 'get'" }

def serve (line : List Char) : Py Unit :=
  let text := strip line
  if text = [] then pure ()
  else tryCatch (handle floatRepr (String.ofList text)) (replyRaised floatRepr [])

end Serve

end LeadLag.Daemon
