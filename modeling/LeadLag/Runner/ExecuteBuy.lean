import LeadLag.Runner.Schedule

/-!
# The BUY branch of `execute_due` (btc_poly_runner.cpp:1603-1847)
-/

namespace LeadLag.Runner
open LeadLag.Execution LeadLag.Interaction

def kCooldownNs : ℤ := 10000000000

def failOrder (cooldownNs : ℤ) (c : Consumer) : Prog Consumer := do
  let t ← steadyNs
  pure (c.coolDown (t + cooldownNs))

/-! ### The max-loss cap -/

def maxLossExceeded (cfg : Config) (eq : ℚ) : Bool :=
  cfg.maxLossUsd.any fun m => decide (cfg.initialCash - eq > m + 1 / 10 ^ 9)

def maxLossReached (cfg : Config) (eq : ℚ) : Bool :=
  cfg.maxLossUsd.any fun m => decide (cfg.initialCash - eq ≥ m - 1 / 10 ^ 9)

/-! ### Checks before the order -/

/-- `want_up` names the Up side, everything else is Down. -/
def PaperState.pendingOutcome (p : PaperState) : Outcome :=
  if p.pendingSide = some .up then .up else .down

def buyRefused (cfg : Config) (v : HotView) (t : Theo) (o : Outcome) : Bool :=
  let ask := (v.book o).bestAsk
  (edge (t.of o) ask).any (fun e => decide (e < cfg.entry)) ||
    !entryElapsedOk cfg v.activeEpoch v.bin.entryClockWallMs ||
    (if cfg.useBuyAskRange then decide (ask ≤ 0 ∨ ask < cfg.buyAskMin ∨ cfg.buyAskMax < ask)
      else decide (ask < 2 / 100))

/-- `std::min(spend_target, cash / (1 + fee_mult))`. A zero divisor makes the
quotient infinite with the sign of the cash, or NaN, which `min` passes over. -/
def affordableSpend (cash feeMult spendTarget : ℚ) : ℚ :=
  if 1 + feeMult = 0 then (if cash < 0 then cash else spendTarget)
  else min spendTarget (cash / (1 + feeMult))

structure BuyPlan where
  ask : ℚ
  mid : ℚ
  theo : Option ℚ
  spendTarget : ℚ
  spend : ℚ
  qty : ℚ
  fee : ℚ
  deriving DecidableEq, Repr

inductive BuyCheck where
  | refused
  | riskBlocked
  | order (plan : BuyPlan)
  deriving DecidableEq, Repr

def buyPlan (cfg : Config) (v : HotView) (t : Theo) (cash : ℚ) (o : Outcome) : BuyPlan :=
  let ask := (v.book o).bestAsk
  let spendTarget :=
    if 0 < cfg.fixedSpendUsd then cfg.fixedSpendUsd else max (cash * cfg.riskFrac) 1
  let spend := affordableSpend cash (cfg.feeRate * ask * (1 - ask)) spendTarget
  { ask := ask, mid := (v.book o).mid, theo := t.of o, spendTarget := spendTarget, spend := spend
    qty := spend / ask, fee := polyTakerFee spend ask cfg.feeRate }

def buyCheck (cfg : Config) (v : HotView) (t : Theo) (p : PaperState) : BuyCheck :=
  if buyRefused cfg v t p.pendingOutcome then .refused
  else
    let plan := buyPlan cfg v t p.cash p.pendingOutcome
    if plan.spend < 1 then .refused
    else if maxLossExceeded cfg (p.cash - plan.spend - plan.fee + plan.qty * plan.mid) then
      .riskBlocked
    else .order plan

theorem buyCheck_order {cfg : Config} {v : HotView} {t : Theo} {p : PaperState} {plan : BuyPlan}
    (h : buyCheck cfg v t p = .order plan) :
    plan = buyPlan cfg v t p.cash p.pendingOutcome ∧
      buyRefused cfg v t p.pendingOutcome = false ∧ 1 ≤ plan.spend ∧
      maxLossExceeded cfg (p.cash - plan.spend - plan.fee + plan.qty * plan.mid) = false := by
  simp only [buyCheck] at h
  split at h
  · cases h
  · rename_i hr
    split at h
    · cases h
    · rename_i hs
      split at h
      · cases h
      · rename_i hm
        cases h
        exact ⟨rfl, by simpa using hr, not_lt.mp hs, by simpa using hm⟩

theorem buyRefused_ask_pos {cfg : Config} {v : HotView} {t : Theo} {o : Outcome}
    (h : buyRefused cfg v t o = false) : 0 < (v.book o).bestAsk := by
  simp only [buyRefused, Bool.or_eq_false_iff] at h
  have hask := h.2
  split at hask
  · simp only [decide_eq_false_iff_not, not_or, not_le] at hask
    exact hask.1
  · simp only [decide_eq_false_iff_not, not_lt] at hask
    linarith

/-! ### The order and the position -/

def buyIntent (now : ℤ) (tok : String) (plan : BuyPlan) : OrderIntent :=
  { monoNs := now, side := .buy, qty := plan.spend, marketTokenId := tok, marketOrder := true
    marketWorstPrice := plan.ask }

def BuyPlan.paperFill (plan : BuyPlan) : LiveMarketBuyFill :=
  { fillQty := plan.qty, fillAvgPrice := plan.ask, costUsd := plan.spend, feeUsd := plan.fee
    fillPriceEstimated := false }

def buyError (action : ErrorAction) (slug tok err : String) (plan : BuyPlan) (p : PaperState) :
    ErrorRow :=
  { action := action, slug := slug, side := p.pendingSide, tokenId := tok, error := err
    amount := plan.spend }

/-- The live order; `.error` carries the consumer as a failure leaves it. -/
def liveBuy (cfg : Config) (slug : String) (plan : BuyPlan) (now : ℤ) (c : Consumer) :
    Prog (Except Consumer LiveMarketBuyFill) := do
  let tok ← tokenId c.paper.pendingOutcome
  match ← queryConditionalBalance tok with
  | .error _ =>
    let c ← failOrder kCooldownNs c
    pure (.error c)
  | .ok balBefore =>
    match ← submit (buyIntent now tok plan) with
    | .error err =>
      let c ← failOrder kCooldownNs (c.log (.error (buyError .buy slug tok err plan c.paper)))
      pure (.error c)
    | .ok resp =>
      match ← liveResolveMarketBuyFill tok resp.orderId balBefore plan.spend plan.ask cfg.feeRate
        resp.resp with
      | .error err =>
        let c ← failOrder kCooldownNs
          (c.log (.error (buyError .buyNoFill slug tok err plan c.paper)))
        pure (.error c)
      | .ok fill => pure (.ok fill)

def buyFill (cfg : Config) (slug : String) (plan : BuyPlan) (now : ℤ) (c : Consumer) :
    Prog (Except Consumer LiveMarketBuyFill) :=
  if cfg.liveExecution then liveBuy cfg slug plan now c else pure (.ok plan.paperFill)

def Consumer.opened (cfg : Config) (v : HotView) (t : Theo) (plan : BuyPlan)
    (fill : LiveMarketBuyFill) (tok : String) (c : Consumer) : Consumer :=
  let p := c.paper
  let cash := p.cash - (fill.costUsd + fill.feeUsd)
  { c with
    paper := { p with
      cash := cash, havePos := true, side := p.pendingSide, slug := v.slug, tokenId := tok
      qty := fill.fillQty, entryFillPrice := fill.fillAvgPrice
      posCostBasis := fill.costUsd + fill.feeUsd
      riskStop := p.riskStop || maxLossReached cfg (cash + fill.fillQty * plan.mid)
      pending := false }
    trades := .buy
      { slug := v.slug, side := p.pendingSide, tokenId := tok, S := v.bin.mid, K := v.K
        remS := t.remS, sigma := t.sigmaUse, theo := plan.theo
        bid := (v.book p.pendingOutcome).bestBid, ask := plan.ask, fillPrice := fill.fillAvgPrice
        mid := plan.mid, edge := edge plan.theo plan.ask, qty := fill.fillQty
        cost := fill.costUsd, fee := fill.feeUsd, spendTarget := plan.spendTarget
        fillPriceEstimated := fill.fillPriceEstimated
        posCostBasis := fill.costUsd + fill.feeUsd
        cashBefore := cash + fill.costUsd + fill.feeUsd, cashAfter := cash } :: c.trades
    stopSales := [] }

def Consumer.riskBlocked (c : Consumer) : Consumer :=
  { c with paper := { c.paper with riskStop := true, pending := false } }

def executeBuy (cfg : Config) (v : HotView) (t : Theo) (now : ℤ) (c : Consumer) : Prog Consumer :=
  if c.paper.havePos then pure c.clearPending
  else match buyCheck cfg v t c.paper with
    | .refused => pure c.clearPending
    | .riskBlocked => pure c.riskBlocked
    | .order plan => do
      match ← buyFill cfg v.slug plan now c with
      | .error c => pure c
      | .ok fill =>
        let tok ← tokenId c.paper.pendingOutcome
        pure (c.opened cfg v t plan fill tok)

end LeadLag.Runner
