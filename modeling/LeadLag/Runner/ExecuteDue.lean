import LeadLag.Runner.ExecuteBuy

/-!
# The SELL branch of `execute_due`, and the function (btc_poly_runner.cpp:1555-1601, 1849-2160)

`executeDue_executed` says all that the function can do.
-/

namespace LeadLag.Runner
open LeadLag.Execution LeadLag.Interaction

def kStopRetryNs : ℤ := 200000000
def kZeroQty : ℚ := 1 / 10 ^ 12

/-! ### Selling -/

def sellIntent (now : ℤ) (tok : String) (qty bid : ℚ) : OrderIntent :=
  { monoNs := now, side := .sell, qty := qty, marketTokenId := tok, marketOrder := true
    marketWorstPrice := if 0 < bid then max (1 / 100) bid else 0 }

def sellError (action : ErrorAction) (err : String) (p : PaperState)
    (clobBalance : Option ℚ) : ErrorRow :=
  { action := action, slug := p.slug, side := p.side, tokenId := p.tokenId, error := err
    amount := p.qty, clobBalance := clobBalance }

def takeProfitLost (cfg : Config) (theo : Option ℚ) (bid : ℚ) : Bool :=
  theo.any fun x => decide (bid < x - cfg.closeEps - cfg.closeEarlyThreshold)

structure Sale where
  qty : ℚ
  proceeds : ℚ
  fee : ℚ
  clobBalanceShares : Option ℚ := none
  stopSellAttempts : ℕ := 0

def saleAtBid (cfg : Config) (qty bid : ℚ) (clobBalance : Option ℚ) : Sale :=
  { qty := qty, proceeds := qty * bid, fee := polyTakerFee (qty * bid) bid cfg.feeRate
    clobBalanceShares := clobBalance }

def saleByStop (qty : ℚ) (r : StopSellUntilFlatResult) : Sale :=
  { qty := qty, proceeds := r.totalProceeds, fee := r.totalFee
    clobBalanceShares := some r.finalBalance, stopSellAttempts := r.attempts }

def Consumer.sold (cfg : Config) (v : HotView) (t : Theo) (sale : Sale) (c : Consumer) : Consumer :=
  let p := c.paper
  let q := v.book p.outcome
  let cash := p.cash + (sale.proceeds - sale.fee)
  { c with
    paper := { p.closed with
      cash := cash, riskStop := p.riskStop || maxLossReached cfg cash
      pendingExitReason := none, stopSellRetry := false }
    trades := .sell
      { exitReason := p.pendingExitReason.getD .takeProfit, slug := p.slug, side := p.side
        tokenId := p.tokenId, S := v.bin.mid, K := v.K, remS := t.remS, sigma := t.sigmaUse
        theo := t.of p.outcome, bid := q.bestBid, ask := q.bestAsk, mid := q.mid
        edge := edge (t.of p.outcome) q.bestAsk, qty := sale.qty, strategyQty := p.qty
        clobBalanceShares := sale.clobBalanceShares, stopSellAttempts := sale.stopSellAttempts
        proceeds := sale.proceeds, fee := sale.fee, cashBefore := p.cash, cashAfter := cash } ::
      c.trades }

def Consumer.flattened (c : Consumer) : Consumer :=
  { c with paper := { c.paper.closed with stopSellRetry := false } }

def Consumer.recordStopSale (c : Consumer) (r : StopSellUntilFlatResult) : Consumer :=
  { c with stopSales := r :: c.stopSales }

/-- A stop sale whose attempts ran out: its totals are dropped. -/
def Consumer.stopIncomplete (c : Consumer) (r : StopSellUntilFlatResult) : Consumer :=
  let c := c.log (.error
    (sellError .sellStopIncomplete r.lastError c.paper (some r.finalBalance)))
  { c with paper := { c.paper with stopSellRetry := true } }

def PaperState.exitIsStop (p : PaperState) : Bool := p.pendingExitReason = some .stopLoss

def liveSell (cfg : Config) (v : HotView) (t : Theo) (now : ℤ) (c : Consumer) : Prog Consumer := do
  let p := c.paper
  let bid := (v.book p.outcome).bestBid
  match ← queryConditionalBalance p.tokenId with
  | .error err => failOrder kCooldownNs (c.log (.error (sellError .sellBalanceQuery err p none)))
  | .ok clobBalance =>
    -- the CLOB balance is sold, whatever the recorded quantity
    let sellQty := max 0 clobBalance
    if sellQty ≤ kZeroQty then
      if p.exitIsStop then pure c.flattened
      else failOrder kCooldownNs (c.log (.error (sellError .sellSkippedZero
        "sell_qty from API balance is 0" p (some clobBalance))))
    else if p.exitIsStop then
      let r ← liveStopSellUntilFlat p.tokenId bid cfg.feeRate
      let c := c.recordStopSale r
      if r.flat then pure (c.sold cfg v t (saleByStop sellQty r))
      else failOrder kStopRetryNs (c.stopIncomplete r)
    else
      match ← submit (sellIntent now p.tokenId sellQty bid) with
      | .error err =>
        failOrder kCooldownNs (c.log (.error (sellError .sell err p (some clobBalance))))
      | .ok _ => pure (c.sold cfg v t (saleAtBid cfg sellQty bid (some clobBalance)))

def executeSell (cfg : Config) (v : HotView) (t : Theo) (now : ℤ) (c : Consumer) : Prog Consumer :=
  let p := c.paper
  let bid := (v.book p.outcome).bestBid
  if !p.exitIsStop && takeProfitLost cfg (t.of p.outcome) bid then pure c.clearPending
  else if cfg.liveExecution then liveSell cfg v t now c
  else if p.qty ≤ kZeroQty then pure c.clearPending
  else pure (c.sold cfg v t (saleAtBid cfg p.qty bid none))

/-! ### The function -/

def Consumer.clearUnknown (c : Consumer) : Consumer :=
  { c with paper := { c.paper with pending := false, pendingExitReason := none } }

def executeDueAt (M : Libm) (cfg : Config) (now : ℤ) (c : Consumer) : Prog Consumer :=
  if now < c.paper.dueNs then pure c
  else
    match c.hot.view? with
    | none => pure c
    | some v =>
      if c.paper.pendingAction = some .buy then executeBuy cfg v (v.theo M cfg) now c
      else if c.paper.pendingAction = some .sell ∧ c.paper.havePos then
        executeSell cfg v (v.theo M cfg) now c
      else pure c.clearUnknown

def executeDue (M : Libm) (cfg : Config) (c : Consumer) : Prog Consumer :=
  if c.paper.pending then do
    let now ← steadyNs
    executeDueAt M cfg now c
  else pure c

/-! ### What it can do -/

def FillOf (cfg : Config) (plan : BuyPlan) (fill : LiveMarketBuyFill) : Prop :=
  cfg.liveExecution = false → fill = plan.paperFill

inductive Executed (M : Libm) (cfg : Config) (c : Consumer) : Consumer → Prop
  | kept : Executed M cfg c c
  | cleared : c.paper.pending = true → Executed M cfg c c.clearPending
  | unknown :
      c.paper.pending = true → c.paper.pendingAction ≠ some .buy →
      (c.paper.pendingAction = some .sell → c.paper.havePos = false) →
      Executed M cfg c c.clearUnknown
  | riskBlocked :
      c.paper.pending = true → c.paper.pendingAction = some .buy → c.paper.havePos = false →
      Executed M cfg c c.riskBlocked
  | failed (untilNs : ℤ) : cfg.liveExecution = true → c.paper.pending = true →
      Executed M cfg c (c.coolDown untilNs)
  | failedRow (untilNs : ℤ) (e : ErrorRow) :
      cfg.liveExecution = true → c.paper.pending = true → e.action ≠ .sellStopIncomplete →
      Executed M cfg c ((c.log (.error e)).coolDown untilNs)
  | bought (v : HotView) (plan : BuyPlan) (fill : LiveMarketBuyFill) (tok : String) :
      c.paper.pending = true → c.paper.pendingAction = some .buy → c.paper.havePos = false →
      c.hot.view? = some v → buyCheck cfg v (v.theo M cfg) c.paper = .order plan →
      FillOf cfg plan fill → Executed M cfg c (c.opened cfg v (v.theo M cfg) plan fill tok)
  | flattened :
      cfg.liveExecution = true → c.paper.pending = true → c.paper.pendingAction = some .sell →
      c.paper.havePos = true → c.paper.exitIsStop = true → Executed M cfg c c.flattened
  | stopIncomplete (v : HotView) (r : StopSellUntilFlatResult) (untilNs : ℤ) :
      cfg.liveExecution = true → c.paper.pending = true → c.paper.pendingAction = some .sell →
      c.paper.havePos = true → c.paper.exitIsStop = true → c.hot.view? = some v →
      r.flat = false → Executed M cfg c (((c.recordStopSale r).stopIncomplete r).coolDown untilNs)
  | soldByStop (v : HotView) (r : StopSellUntilFlatResult) (qty : ℚ) :
      cfg.liveExecution = true → c.paper.pending = true → c.paper.pendingAction = some .sell →
      c.paper.havePos = true → c.paper.exitIsStop = true → c.hot.view? = some v →
      r.flat = true →
      SoldAt (v.book c.paper.outcome).bestBid cfg.feeRate r.totalProceeds r.totalFee →
      Executed M cfg c ((c.recordStopSale r).sold cfg v (v.theo M cfg) (saleByStop qty r))
  | soldAtBid (v : HotView) (qty : ℚ) (clobBalance : Option ℚ) :
      c.paper.pending = true → c.paper.pendingAction = some .sell → c.paper.havePos = true →
      c.hot.view? = some v → (cfg.liveExecution = false → qty = c.paper.qty) →
      (cfg.liveExecution = true → c.paper.exitIsStop = false) →
      Executed M cfg c (c.sold cfg v (v.theo M cfg)
        (saleAtBid cfg qty (v.book c.paper.outcome).bestBid clobBalance))

section Executed

variable {M : Libm} {cfg : Config} {c : Consumer} {v : HotView}

theorem failOrder_returns {ns : ℤ} {P : Consumer → Prop} (h : ∀ t, P (c.coolDown t)) :
    Returns (failOrder ns c) P := by
  simp only [failOrder, returns_bind, returns_pure, steadyNs, returns_perform]
  exact fun r => h (r + ns)

theorem liveBuy_failed {slug : String} {plan : BuyPlan} {now : ℤ}
    (hl : cfg.liveExecution = true) (hp : c.paper.pending = true) :
    Returns (liveBuy cfg slug plan now c) fun
      | .error c' => Executed M cfg c c'
      | .ok fill => FillOf cfg plan fill := by
  have paper (fill : LiveMarketBuyFill) : FillOf cfg plan fill := fun h => absurd hl (by simp [h])
  simp only [liveBuy, returns_bind, tokenId, queryConditionalBalance, submit, returns_perform]
  intro tok bal
  cases bal with
  | error err =>
    simp only [returns_bind, returns_pure]
    exact failOrder_returns fun t => .failed t hl hp
  | ok balBefore =>
    simp only [returns_bind, returns_perform]
    intro resp
    cases resp with
    | error err =>
      simp only [returns_bind, returns_pure]
      exact failOrder_returns fun t => .failedRow t _ hl hp (by simp [buyError])
    | ok resp =>
      simp only [returns_bind]
      refine (returns_trivial _).mono fun fill _ => ?_
      cases fill with
      | error err =>
        simp only [returns_bind, returns_pure]
        exact failOrder_returns fun t => .failedRow t _ hl hp (by simp [buyError])
      | ok fill => exact returns_pure.mpr (paper fill)

theorem buyFill_spec {slug : String} {plan : BuyPlan} {now : ℤ} (hp : c.paper.pending = true) :
    Returns (buyFill cfg slug plan now c) fun
      | .error c' => Executed M cfg c c'
      | .ok fill => FillOf cfg plan fill := by
  unfold buyFill
  split
  · rename_i hl
    exact liveBuy_failed hl hp
  · exact returns_pure.mpr fun _ => rfl

theorem executeBuy_executed {now : ℤ} (hp : c.paper.pending = true)
    (ha : c.paper.pendingAction = some .buy) (hv : c.hot.view? = some v) :
    Returns (executeBuy cfg v (v.theo M cfg) now c) (Executed M cfg c) := by
  unfold executeBuy
  split
  · exact returns_pure.mpr (.cleared hp)
  · rename_i hpos
    have hn : c.paper.havePos = false := by simpa using hpos
    split
    · exact returns_pure.mpr (.cleared hp)
    · exact returns_pure.mpr (.riskBlocked hp ha hn)
    · rename_i plan hplan
      simp only [returns_bind]
      refine (buyFill_spec (M := M) hp).mono fun r hr => ?_
      cases r with
      | error c' => exact returns_pure.mpr hr
      | ok fill =>
        simp only [returns_bind, tokenId, returns_perform, returns_pure]
        exact fun tok => .bought v plan fill tok hp ha hn hv hplan hr

theorem liveSell_executed {now : ℤ} (hl : cfg.liveExecution = true) (hp : c.paper.pending = true)
    (ha : c.paper.pendingAction = some .sell) (hn : c.paper.havePos = true)
    (hv : c.hot.view? = some v) :
    Returns (liveSell cfg v (v.theo M cfg) now c) (Executed M cfg c) := by
  have paper {P : Prop} (h : cfg.liveExecution = false) : P := absurd hl (by simp [h])
  simp only [liveSell, returns_bind, queryConditionalBalance, submit, returns_perform]
  intro bal
  cases bal with
  | error err => exact failOrder_returns fun t => .failedRow t _ hl hp (by simp [sellError])
  | ok clobBalance =>
    dsimp only
    split
    · split
      · rename_i hs
        exact returns_pure.mpr (.flattened hl hp ha hn hs)
      · exact failOrder_returns fun t => .failedRow t _ hl hp (by simp [sellError])
    · split
      · rename_i hs
        refine returns_bind.mpr (liveStopSellUntilFlat_soldAt.mono fun r hr => ?_)
        split
        · rename_i hf
          exact returns_pure.mpr (.soldByStop v r _ hl hp ha hn hs hv hf hr)
        · rename_i hf
          have hf' : r.flat = false := by simpa using hf
          exact failOrder_returns fun t => .stopIncomplete v r t hl hp ha hn hs hv hf'
      · rename_i hs
        have hs' : c.paper.exitIsStop = false := by simpa using hs
        refine returns_bind.mpr (returns_perform.mpr fun resp => ?_)
        cases resp with
        | error err => exact failOrder_returns fun t => .failedRow t _ hl hp (by simp [sellError])
        | ok _ => exact returns_pure.mpr (.soldAtBid v _ _ hp ha hn hv paper fun _ => hs')

theorem executeSell_executed {now : ℤ} (hp : c.paper.pending = true)
    (ha : c.paper.pendingAction = some .sell) (hn : c.paper.havePos = true)
    (hv : c.hot.view? = some v) :
    Returns (executeSell cfg v (v.theo M cfg) now c) (Executed M cfg c) := by
  unfold executeSell
  dsimp only
  split
  · exact returns_pure.mpr (.cleared hp)
  · split
    · rename_i hl
      exact liveSell_executed hl hp ha hn hv
    · rename_i hl
      split
      · exact returns_pure.mpr (.cleared hp)
      · exact returns_pure.mpr
          (.soldAtBid v _ _ hp ha hn hv (fun _ => rfl) fun h => absurd h hl)

theorem executeDueAt_executed {now : ℤ} (hp : c.paper.pending = true) :
    Returns (executeDueAt M cfg now c) (Executed M cfg c) := by
  unfold executeDueAt
  split
  · exact returns_pure.mpr .kept
  · split
    · exact returns_pure.mpr .kept
    · rename_i v hv
      split
      · rename_i ha
        exact executeBuy_executed hp ha hv
      · rename_i hb
        split
        · rename_i hs
          exact executeSell_executed hp hs.1 hs.2 hv
        · rename_i hs
          refine returns_pure.mpr (.unknown hp hb fun ha => ?_)
          simpa [ha] using hs

theorem executeDue_executed (M : Libm) (cfg : Config) (c : Consumer) :
    Returns (executeDue M cfg c) (Executed M cfg c) := by
  unfold executeDue
  split
  · rename_i hp
    simp only [returns_bind, steadyNs, returns_perform]
    exact fun now => executeDueAt_executed hp
  · exact returns_pure.mpr .kept

end Executed

end LeadLag.Runner
