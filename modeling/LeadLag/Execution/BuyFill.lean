import LeadLag.Core.Binary64
import LeadLag.Execution.Calls
import Mathlib.Algebra.Order.Floor.Ring
import Mathlib.Data.Rat.Floor

/-!
# Fee and fill of a live market BUY (btc_poly_runner.cpp:533-775)

The amounts of a reply are read with a `Rounding` for the numbers, the literals and the
quotients. The resolved fill takes the exact one.
-/

namespace LeadLag.Execution
open LeadLag.Core LeadLag.Interaction

/-- `std::round`: to the nearest integer, halves away from zero. -/
def roundHalfAway (x : ℚ) : ℤ := if 0 ≤ x then ⌊x + 1 / 2⌋ else -⌊-x + 1 / 2⌋

def polyTakerFee (notionalUsdc price feeRate : ℚ) : ℚ :=
  let raw := notionalUsdc * feeRate * price * (1 - price)
  let fee := (roundHalfAway (raw * 10 ^ 5) : ℚ) / 10 ^ 5
  if fee ≥ 1 / 10 ^ 5 then fee else 0

theorem polyTakerFee_nonneg (notional price rate : ℚ) : 0 ≤ polyTakerFee notional price rate := by
  simp only [polyTakerFee]
  split
  · rename_i h
    exact le_trans (by norm_num) h
  · exact le_rfl

/-! ### Amounts in CLOB replies -/

def clobOrderStatusUpper (order : Json) : String :=
  let st := match (order.field? "status").bind Json.string? with
    | some s => s
    | none => ((order.field? "order_status").bind Json.string?).getD ""
  st.map Char.toUpper

def clobOrderStatusTerminal (st : String) : Bool :=
  st = "MATCHED" || st = "CANCELED" || st = "CANCELLED" || st = "FILLED" || st = "EXECUTED"

section Amounts

variable (r : Rounding)

def clobJsonToDoubleIn : Json → Option ℚ
  | .int i => some (r.rnd i)
  | .float x => some x
  | .str s => ((stod s).bind id).map r.rnd
  | _ => none

/-- A double and its rounding to an integer have an exact difference. -/
def clobDecodeAmountIn (raw : ℚ) : ℚ :=
  if raw ≥ 10 ^ 4 ∧ |raw - roundHalfAway raw| < r.rnd (1 / 10 ^ 6) then r.rnd (raw / 10 ^ 6)
  else raw

def clobJsonAmountFieldIn (obj : Json) (key : String) : Option ℚ :=
  (((obj.field? key).bind (clobJsonToDoubleIn r)).map (clobDecodeAmountIn r)).filter (0 ≤ ·)

def clobOrderSizeMatchedSharesIn (order : Json) : Option ℚ :=
  ((clobJsonAmountFieldIn r order "size_matched").orElse fun _ =>
    clobJsonAmountFieldIn r order "sizeMatched").filter (0 < ·)

def tryMarketBuyFillFromPostRespIn (submitTop : Json) : Option (ℚ × ℚ) :=
  let body := match submitTop.field? "resp" with
    | some r => if r.isObject then some r else if submitTop.isObject then some submitTop else none
    | none => if submitTop.isObject then some submitTop else none
  body.bind fun b => do
    let making ← (clobJsonAmountFieldIn r b "makingAmount").orElse fun _ =>
      clobJsonAmountFieldIn r b "making_amount"
    let taking ← (clobJsonAmountFieldIn r b "takingAmount").orElse fun _ =>
      clobJsonAmountFieldIn r b "taking_amount"
    if making ≤ 0 ∨ taking ≤ 0 then none
    else
      -- BUY pays USDC (making) and receives shares (taking), unless reversed.
      let (cost, shares) :=
        if making ≤ 1 ∧ taking > 1 then (taking, making) else (making, taking)
      let px := r.rnd (cost / shares)
      if px < r.rnd (1 / 1000) ∨ px > r.rnd (999 / 1000) then
        let px2 := r.rnd (shares / cost)
        if px2 < r.rnd (1 / 1000) ∨ px2 > r.rnd (999 / 1000) then none
        else some (shares, cost)
      else some (cost, shares)

end Amounts

def clobJsonAmountField (obj : Json) (key : String) : Option ℚ :=
  clobJsonAmountFieldIn .exact obj key

def clobOrderSizeMatchedShares (order : Json) : Option ℚ :=
  clobOrderSizeMatchedSharesIn .exact order

def tryMarketBuyFillFromPostResp (submitTop : Json) : Option (ℚ × ℚ) :=
  tryMarketBuyFillFromPostRespIn .exact submitTop

/-! ### Resolving the fill -/

structure LiveMarketBuyFill where
  fillQty : ℚ
  fillAvgPrice : ℚ
  costUsd : ℚ
  feeUsd : ℚ
  fillPriceEstimated : Bool
  deriving DecidableEq, Repr

/-- The locals of `live_resolve_market_buy_fill`; `none` is the NaN they start as. -/
structure FillProgress where
  costUsd : Option ℚ
  fillQty : Option ℚ
  estimated : Bool := false
  lastError : String := ""
  deriving DecidableEq, Repr

def kShareEps : ℚ := 1 / 10 ^ 6
def kMaxOrderPolls : ℕ := 20

def FillProgress.observe (fp : FillProgress) (order : Json) : FillProgress :=
  match clobOrderSizeMatchedShares order with
  | none => fp
  | some matched =>
    if matched > kShareEps then
      let qty := if fp.fillQty.any (0 < ·) then fp.fillQty.getD 0 else matched
      if fp.costUsd.any (0 < ·) then { fp with fillQty := some qty }
      else match clobJsonAmountField order "price" with
        | some px =>
          if 0 < px ∧ px < 1 then
            { fp with fillQty := some qty, costUsd := some (qty * px), estimated := true }
          else { fp with fillQty := some qty }
        | none => { fp with fillQty := some qty }
    else fp

def pollOrder (orderId : String) : ℕ → FillProgress → Prog FillProgress
  | 0, fp => pure fp
  | n + 1, fp => do
    match ← queryOrder orderId with
    | .ok order =>
      if clobOrderStatusTerminal (clobOrderStatusUpper order) then pure (fp.observe order)
      else pollOrder orderId n (fp.observe order)
    | .error err =>
      pollOrder orderId n (if err = "" then fp else { fp with lastError := err })

theorem pollOrder_quietly (orderId : String) (n : ℕ) (fp : FillProgress) :
    Quietly (pollOrder orderId n fp) := by
  induction n generalizing fp with
  | zero => trivial
  | succ n ih =>
    refine quietly_bind ⟨trivial, fun _ _ => trivial⟩ fun r => ?_
    cases r with
    | error err => exact ih _
    | ok order =>
      dsimp only
      split
      · trivial
      · exact ih _

def inferBuyCost (fp : FillProgress) (qty spendTargetUsd signalAsk : ℚ) : Option (ℚ × Bool) :=
  match fp.costUsd.filter (0 < ·) with
  | some cost => some (cost, fp.estimated)
  | none =>
    if spendTargetUsd > 0 ∧ signalAsk > 0 then
      let expectedQty := spendTargetUsd / signalAsk
      if expectedQty > 0 ∧ qty ≥ expectedQty * (98 / 100) then some (spendTargetUsd, true)
      else some (qty * signalAsk, true)
    else none

def FillProgress.readBalance (fp : FillProgress) (balanceBefore : ℚ) :
    Except String ℚ → FillProgress
  | .ok b =>
    if b - balanceBefore > kShareEps then { fp with fillQty := some (b - balanceBefore) } else fp
  | .error err => if err = "" then fp else { fp with lastError := err }

def FillProgress.verdict (fp : FillProgress) (spendTargetUsd signalAsk feeRate : ℚ) :
    Except String LiveMarketBuyFill :=
  match fp.fillQty.filter (kShareEps < ·) with
  | none => .error (if fp.lastError = "" then
      "no shares filled (balance delta and order match empty)" else fp.lastError)
  | some qty =>
    match inferBuyCost fp qty spendTargetUsd signalAsk with
    | none => .error "cannot infer buy cost (missing CLOB amounts)"
    | some (cost, est) => .ok
      { fillQty := qty, costUsd := cost, fillAvgPrice := cost / qty
        feeUsd := polyTakerFee cost (cost / qty) feeRate, fillPriceEstimated := est }

def settleBuyFill (fp : FillProgress) (balanceBefore : ℚ) (after : Except String ℚ)
    (spendTargetUsd signalAsk feeRate : ℚ) : Except String LiveMarketBuyFill :=
  (fp.readBalance balanceBefore after).verdict spendTargetUsd signalAsk feeRate

theorem inferBuyCost_isSome (fp : FillProgress) (qty : ℚ) {spend ask : ℚ} (hs : 0 < spend)
    (ha : 0 < ask) : ∃ cost, inferBuyCost fp qty spend ask = some cost := by
  unfold inferBuyCost
  split
  · exact ⟨_, rfl⟩
  · rw [if_pos ⟨hs, ha⟩]
    dsimp only
    split <;> exact ⟨_, rfl⟩

theorem verdict_error {fp : FillProgress} {spend ask rate : ℚ} {err : String} (hs : 0 < spend)
    (ha : 0 < ask) (h : fp.verdict spend ask rate = .error err) :
    fp.fillQty.getD 0 ≤ kShareEps := by
  by_contra hq
  have hq' : kShareEps < fp.fillQty.getD 0 := not_le.mp hq
  cases hfill : fp.fillQty with
  | none =>
    rw [hfill] at hq'
    have heps : (0 : ℚ) ≤ kShareEps := by
      unfold kShareEps
      norm_num
    exact absurd hq' (not_lt.mpr heps)
  | some qty =>
    have hqty : kShareEps < qty := by
      rw [hfill] at hq'
      exact hq'
    have hfilter : (some qty).filter (kShareEps < ·) = some qty := by simpa using hqty
    obtain ⟨⟨cost, est⟩, hcost⟩ := inferBuyCost_isSome fp qty hs ha
    simp only [FillProgress.verdict, hfill, hfilter, hcost] at h
    cases h

/-- An order whose fill stays unresolved: neither its replies nor the balance
show more than dust. -/
theorem settleBuyFill_error {fp : FillProgress} {before spend ask rate : ℚ}
    {after : Except String ℚ} {err : String} (hs : 0 < spend) (ha : 0 < ask)
    (h : settleBuyFill fp before after spend ask rate = .error err) :
    fp.fillQty.getD 0 ≤ kShareEps ∧ ∀ b, after = .ok b → b - before ≤ kShareEps := by
  have hread : (fp.readBalance before after).fillQty.getD 0 ≤ kShareEps := verdict_error hs ha h
  cases after with
  | error e =>
    have hkept : (fp.readBalance before (.error e)).fillQty = fp.fillQty := by
      simp only [FillProgress.readBalance]
      split <;> rfl
    rw [hkept] at hread
    exact ⟨hread, nofun⟩
  | ok b =>
    by_cases hb : b - before > kShareEps
    · rw [FillProgress.readBalance, if_pos hb] at hread
      exact absurd hb (not_lt.mpr hread)
    · rw [FillProgress.readBalance, if_neg hb] at hread
      refine ⟨hread, fun b' hb' => ?_⟩
      cases hb'
      exact not_lt.mp hb

def liveResolveMarketBuyFill (tokenId orderId : String)
    (balanceBefore spendTargetUsd signalAsk feeRate : ℚ) (submitResp : Json) :
    Prog (Except String LiveMarketBuyFill) := do
  let post := tryMarketBuyFillFromPostResp submitResp
  let start : FillProgress := { costUsd := post.map Prod.fst, fillQty := post.map Prod.snd }
  let fp ← if orderId = "" then pure start else pollOrder orderId kMaxOrderPolls start
  let after ← queryConditionalBalance tokenId
  pure (settleBuyFill fp balanceBefore after spendTargetUsd signalAsk feeRate)

end LeadLag.Execution
