import LeadLag.Paper.State

/-!
# Trading on paper (btc_poly_runner.cpp:1433-1655, 1765-1895, 2103-2160, 2357-2629)

`schedule`, `execute_due` and the Rollover handler without their live branches. The
theo prices `t` are any doubles. A comparison with NaN is false, so that `x < y` and
`y ≤ x` may both fail.
-/

namespace LeadLag.Paper
open LeadLag.Core LeadLag.Execution
open LeadLag.Runner (HotState ExitReason)

/-! ### Signals -/

def stopLossSignal (opts : Options) (p : PaperState) (bid qty : Double) : Bool :=
  if opts.stopLossFrac ≤ 0 ∨ p.posCostBasis ≤ 0 ∨ qty ≤ 0 then false
  else if bid.isFinite = false ∨ bid ≤ 0 then false
  else
    let proceeds := qty * bid
    let fee := polyTakerFee proceeds bid opts.feeRate
    decide ((proceeds - fee - p.posCostBasis) / p.posCostBasis ≤ -opts.stopLossFrac)

def entryElapsedOk (opts : Options) (activeEpoch entryClockWallMs : ℤ) : Bool :=
  if !opts.useEntryElapsedWindow then true
  else if activeEpoch < 0 then false
  else
    let elapsedSec : Double :=
      .round ((entryClockWallMs - activeEpoch * 1000 : ℤ) : ℚ) / .round 1000
    decide (opts.entryElapsedMinSec ≤ elapsedSec ∧ elapsedSec ≤ opts.entryElapsedMaxSec)

def buyAskOk (opts : Options) (ask : Double) : Bool :=
  if ask.isFinite = false ∨ ask ≤ 0 then false
  else if opts.useBuyAskRange then decide (opts.buyAskMin ≤ ask ∧ ask ≤ opts.buyAskMax)
  else decide (.round (2 / 100) ≤ ask)

def edgeRaw (opts : Options) (theo ask : Double) : Bool :=
  decide (opts.entry ≤ theo - ask) && buyAskOk opts ask

def edgePersisted (opts : Options) (raw : Bool) (since now : ℤ) : Bool :=
  raw && decide (opts.edgePersistNs ≤ 0 ∨ opts.edgePersistNs ≤ now - since)

def buySide (upOk dnOk : Bool) (eUp eDn : Double) : Option Outcome :=
  if upOk && dnOk then some (if eDn ≤ eUp then .up else .down)
  else if upOk then some .up
  else if dnOk then some .down
  else none

def closeFloor (opts : Options) (theo : Double) : Double :=
  theo - opts.closeEps - opts.closeEarlyThreshold

/-! ### schedule -/

def PaperState.scheduleBuy (p : PaperState) (o : Outcome) (dueNs : ℤ) : PaperState :=
  { p with pending := true, pendingAction := some .buy, pendingSide := some o, dueNs := dueNs }

def PaperState.scheduleSell (p : PaperState) (reason : ExitReason) (dueNs : ℤ) : PaperState :=
  { p with pending := true, pendingAction := some .sell, pendingSide := p.side
           pendingExitReason := some reason, dueNs := dueNs }

def Consumer.withEdges (c : Consumer) (up down : ℤ) : Consumer :=
  { c with hot := c.hot.withEdges up down }

def scheduleEntry (opts : Options) (v : View) (t : Outcome → Double) (now : ℤ) (c : Consumer) :
    Consumer :=
  if !c.tradingEnabled then c.withEdges (-1) (-1)
  else
    let rawUp := edgeRaw opts (t .up) v.up.ask
    let rawDn := edgeRaw opts (t .down) v.down.ask
    let sinceUp := Runner.edgeSince rawUp c.hot.edgeUpOkSinceMonoNs now
    let sinceDn := Runner.edgeSince rawDn c.hot.edgeDnOkSinceMonoNs now
    let c := c.withEdges sinceUp sinceDn
    match buySide (edgePersisted opts rawUp sinceUp now) (edgePersisted opts rawDn sinceDn now)
        (t .up - v.up.ask) (t .down - v.down.ask) with
    | none => c
    | some o =>
      if entryElapsedOk opts v.activeEpoch v.entryClockWallMs then
        { c with paper := c.paper.scheduleBuy o (now + opts.latNs) }
      else c

def scheduleExit (opts : Options) (v : View) (t : Outcome → Double) (now : ℤ) (c : Consumer) :
    Consumer :=
  let bid := (v.book c.paper.outcome).bid
  let stop := stopLossSignal opts c.paper bid c.paper.qty || c.paper.stopSellRetry
  let takeProfit := decide (closeFloor opts (t c.paper.outcome) ≤ bid)
  if !stop && !takeProfit then c
  else
    let reason := if stop then .stopLoss else .takeProfit
    { c with paper := c.paper.scheduleSell reason (now + opts.latNs) }

def scheduleAt (opts : Options) (v : View) (t : Outcome → Double) (now : ℤ) (c : Consumer) :
    Consumer :=
  if c.paper.pending then c
  else if c.paper.riskStop then c
  else if c.paper.havePos then scheduleExit opts v t now (c.withEdges (-1) (-1))
  else scheduleEntry opts v t now c

inductive Scheduled (c : Consumer) : Consumer → Prop
  | idle (a b : ℤ) : Scheduled c (c.withEdges a b)
  | buy (a b : ℤ) (o : Outcome) (dueNs : ℤ) :
      c.paper.riskStop = false → c.paper.havePos = false →
      Scheduled c { c.withEdges a b with paper := c.paper.scheduleBuy o dueNs }
  | sell (a b : ℤ) (reason : ExitReason) (dueNs : ℤ) :
      c.paper.riskStop = false → c.paper.havePos = true →
      Scheduled c { c.withEdges a b with paper := c.paper.scheduleSell reason dueNs }

theorem Scheduled.unchanged (c : Consumer) : Scheduled c c :=
  .idle c.hot.edgeUpOkSinceMonoNs c.hot.edgeDnOkSinceMonoNs

/-- All that `schedule` can do. -/
theorem scheduleAt_cases (opts : Options) (v : View) (t : Outcome → Double) (now : ℤ)
    (c : Consumer) : Scheduled c (scheduleAt opts v t now c) := by
  unfold scheduleAt
  split
  · exact .unchanged c
  · split
    · exact .unchanged c
    · rename_i hrisk
      have hr : c.paper.riskStop = false := by simpa using hrisk
      split
      · rename_i hn
        unfold scheduleExit
        dsimp only
        split
        · exact .idle _ _
        · exact .sell _ _ _ _ hr hn
      · rename_i hpos
        have hn : c.paper.havePos = false := by simpa using hpos
        unfold scheduleEntry
        split
        · exact .idle _ _
        · dsimp only
          split
          · exact .idle _ _
          · split
            · exact .buy _ _ _ _ hr hn
            · exact .idle _ _

/-! ### The max-loss cap -/

def capSlack : Double := .round (1 / 10 ^ 9)

def maxLossExceeded (opts : Options) (eq : Double) : Bool :=
  opts.maxLossUsd.isFinite && decide (opts.maxLossUsd + capSlack < opts.initialCash - eq)

def maxLossReached (opts : Options) (eq : Double) : Bool :=
  opts.maxLossUsd.isFinite && decide (opts.maxLossUsd - capSlack ≤ opts.initialCash - eq)

/-! ### execute_due: BUY -/

def PaperState.pendingOutcome (p : PaperState) : Outcome :=
  if p.pendingSide = some .up then .up else .down

def buyRefused (opts : Options) (v : View) (t : Outcome → Double) (o : Outcome) : Bool :=
  let ask := (v.book o).ask
  decide (t o - ask < opts.entry) || !entryElapsedOk opts v.activeEpoch v.entryClockWallMs ||
    (if opts.useBuyAskRange then
      decide (ask.isFinite = false ∨ ask ≤ 0 ∨ ask < opts.buyAskMin ∨ opts.buyAskMax < ask)
    else decide (ask < .round (2 / 100)))

structure BuyPlan where
  ask : Double
  mid : Double
  spendTarget : Double
  spend : Double
  qty : Double
  fee : Double
  deriving DecidableEq, Repr

def buyPlan (opts : Options) (q : Quote) (cash : Double) : BuyPlan :=
  let spendTarget :=
    if 0 < opts.fixedSpendUsd then opts.fixedSpendUsd
    else Double.stdMax (cash * opts.riskFrac) 1
  let feeMult := opts.feeRate * q.ask * (1 - q.ask)
  let spend := Double.stdMin spendTarget (cash / (1 + feeMult))
  { ask := q.ask, mid := q.mid, spendTarget := spendTarget, spend := spend, qty := spend / q.ask
    fee := polyTakerFee spend q.ask opts.feeRate }

/-- The equity that the cap is tested on. -/
def BuyPlan.projEq (plan : BuyPlan) (cash : Double) : Double :=
  cash - plan.spend - plan.fee + plan.qty * plan.mid

inductive BuyCheck where
  | refused
  | riskBlocked
  | order (plan : BuyPlan)

def buyCheck (opts : Options) (v : View) (t : Outcome → Double) (p : PaperState) : BuyCheck :=
  if buyRefused opts v t p.pendingOutcome then .refused
  else
    let plan := buyPlan opts (v.book p.pendingOutcome) p.cash
    if plan.spend < 1 then .refused
    else if maxLossExceeded opts (plan.projEq p.cash) then .riskBlocked
    else .order plan

theorem buyCheck_order {opts : Options} {v : View} {t : Outcome → Double} {p : PaperState}
    {plan : BuyPlan} (h : buyCheck opts v t p = .order plan) :
    plan = buyPlan opts (v.book p.pendingOutcome) p.cash ∧
      buyRefused opts v t p.pendingOutcome = false ∧ ¬ plan.spend < 1 ∧
      maxLossExceeded opts (plan.projEq p.cash) = false := by
  simp only [buyCheck] at h
  split at h
  · cases h
  · rename_i hr
    split at h
    · cases h
    · rename_i hs
      split at h
      · cases h
      · rename_i hm
        cases h
        exact ⟨rfl, by simpa using hr, hs, by simpa using hm⟩

def Consumer.opened (opts : Options) (v : View) (t : Outcome → Double) (plan : BuyPlan)
    (tok : String) (c : Consumer) : Consumer :=
  let p := c.paper
  let cash := p.cash - (plan.spend + plan.fee)
  { c with
    paper := { p with
      cash := cash, havePos := true, side := p.pendingSide, slug := v.slug, tokenId := tok
      qty := plan.qty, entryFillPrice := plan.ask, posCostBasis := plan.spend + plan.fee
      riskStop := p.riskStop || maxLossReached opts (cash + plan.qty * plan.mid)
      pending := false }
    trades := .buy
      { slug := v.slug, side := p.pendingSide, tokenId := tok, theo := t p.pendingOutcome
        bid := (v.book p.pendingOutcome).bid, ask := plan.ask, fillPrice := plan.ask
        mid := plan.mid, edge := t p.pendingOutcome - plan.ask, qty := plan.qty
        cost := plan.spend, fee := plan.fee, spendTarget := plan.spendTarget
        posCostBasis := plan.spend + plan.fee
        cashBefore := cash + plan.spend + plan.fee, cashAfter := cash } :: c.trades }

def Consumer.riskBlocked (c : Consumer) : Consumer :=
  { c with paper := { c.paper with riskStop := true, pending := false } }

def executeBuy (opts : Options) (v : View) (t : Outcome → Double) (tok : String) (c : Consumer) :
    Consumer :=
  if c.paper.havePos then c.clearPending
  else
    match buyCheck opts v t c.paper with
    | .refused => c.clearPending
    | .riskBlocked => c.riskBlocked
    | .order plan => c.opened opts v t plan tok

/-! ### execute_due: SELL -/

def zeroQty : Double := .round (1 / 10 ^ 12)

def Consumer.sold (opts : Options) (v : View) (t : Outcome → Double) (c : Consumer) : Consumer :=
  let p := c.paper
  let q := v.book p.outcome
  let proceeds := p.qty * q.bid
  let fee := polyTakerFee proceeds q.bid opts.feeRate
  let cash := p.cash + (proceeds - fee)
  { c with
    paper := { p.closed with
      cash := cash, riskStop := p.riskStop || maxLossReached opts cash
      pendingExitReason := none, stopSellRetry := false }
    trades := .sell
      { exitReason := p.pendingExitReason.getD .takeProfit, slug := p.slug, side := p.side
        tokenId := p.tokenId, theo := t p.outcome, bid := q.bid, ask := q.ask, mid := q.mid
        edge := t p.outcome - q.ask, qty := p.qty, proceeds := proceeds, fee := fee
        cashBefore := p.cash, cashAfter := cash } :: c.trades }

def PaperState.exitIsStop (p : PaperState) : Bool := p.pendingExitReason = some .stopLoss

def executeSell (opts : Options) (v : View) (t : Outcome → Double) (c : Consumer) : Consumer :=
  let bid := (v.book c.paper.outcome).bid
  if !c.paper.exitIsStop && decide (bid < closeFloor opts (t c.paper.outcome)) then c.clearPending
  else if c.paper.qty ≤ zeroQty then c.clearPending
  else c.sold opts v t

def Consumer.clearUnknown (c : Consumer) : Consumer :=
  { c with paper := { c.paper with pending := false, pendingExitReason := none } }

/-- `now` is the reading of the clock, `tok` what the feed of the side trades. -/
def executeDueAt (opts : Options) (v : View) (t : Outcome → Double) (now : ℤ) (tok : String)
    (c : Consumer) : Consumer :=
  if !c.paper.pending then c
  else if now < c.paper.dueNs then c
  else if c.paper.pendingAction = some .buy then executeBuy opts v t tok c
  else if c.paper.pendingAction = some .sell ∧ c.paper.havePos then executeSell opts v t c
  else c.clearUnknown

/-- Nothing, the order dropped and perhaps latched, a BUY, or a SELL. -/
inductive Executed (opts : Options) (v : View) (t : Outcome → Double) (c : Consumer) :
    Consumer → Prop
  | kept : Executed opts v t c c
  | dropped (riskStop : Bool) (reason : Option ExitReason) :
      c.paper.pending = true → (c.paper.riskStop = true → riskStop = true) →
      Executed opts v t c { c with paper := { c.paper with
        pending := false, riskStop := riskStop, pendingExitReason := reason } }
  | bought (plan : BuyPlan) (tok : String) :
      c.paper.pending = true → c.paper.pendingAction = some .buy → c.paper.havePos = false →
      buyCheck opts v t c.paper = .order plan → Executed opts v t c (c.opened opts v t plan tok)
  | sold : c.paper.pending = true → c.paper.havePos = true →
      Executed opts v t c (c.sold opts v t)

theorem executeDueAt_cases (opts : Options) (v : View) (t : Outcome → Double) (now : ℤ)
    (tok : String) (c : Consumer) : Executed opts v t c (executeDueAt opts v t now tok c) := by
  unfold executeDueAt
  split
  · exact .kept
  · rename_i hpending
    have hp : c.paper.pending = true := by simpa using hpending
    have hclear : Executed opts v t c c.clearPending := .dropped _ _ hp id
    split
    · exact .kept
    · split
      · rename_i ha
        unfold executeBuy
        split
        · exact hclear
        · rename_i hpos
          split
          · exact hclear
          · exact .dropped _ _ hp fun _ => rfl
          · rename_i plan hplan
            exact .bought plan tok hp ha (by simpa using hpos) hplan
      · split
        · rename_i hs
          unfold executeSell
          dsimp only
          split
          · exact hclear
          · split
            · exact hclear
            · exact .sold hp hs.2
        · exact .dropped _ _ hp id

/-! ### Rollover -/

structure Rollover where
  epoch : ℤ
  slug : String
  priceToBeat : Option ℚ
  up : Option Quote
  down : Option Quote
  deriving DecidableEq

def Rollover.book (ev : Rollover) : Outcome → Option Quote
  | .up => ev.up
  | .down => ev.down

def Rollover.bid (ev : Rollover) (o : Outcome) : Double := ((ev.book o).map Quote.bid).getD 0

def Consumer.closePos (c : Consumer) : Consumer := { c with paper := c.paper.closed }

def Consumer.forceSold (opts : Options) (ev : Rollover) (c : Consumer) : Consumer :=
  let p := c.paper
  let bid := ev.bid p.outcome
  let proceeds := p.qty * bid
  let fee := polyTakerFee proceeds bid opts.feeRate
  let cash := p.cash + (proceeds - fee)
  { c with
    paper := { p.closed with cash := cash }
    trades := .forceSell
      { slug := p.slug, side := p.side, tokenId := p.tokenId, bid := bid, qty := p.qty
        proceeds := proceeds, fee := fee, cashBefore := p.cash, cashAfter := cash } :: c.trades }

def rolloverPosition (opts : Options) (ev : Rollover) (c : Consumer) : Consumer :=
  if c.paper.havePos then
    if opts.disableRolloverForceSell then c.closePos
    else if c.paper.qty ≤ zeroQty then c.closePos
    else c.forceSold opts ev
  else c

def rolloverRow (opts : Options) (ev : Rollover) (p : PaperState) : RolloverRow :=
  { newSlug := ev.slug, newEpoch := ev.epoch, priceToBeat := ev.priceToBeat
    disableForceSell := opts.disableRolloverForceSell, cash := p.cash, havePos := p.havePos
    posSide := if p.havePos then p.side else none
    posQty := if p.havePos then p.qty else 0
    posSlug := if p.havePos then p.slug else ""
    posTokenId := if p.havePos then p.tokenId else "" }

def Consumer.enterBucket (opts : Options) (ev : Rollover) (c : Consumer) : Consumer :=
  { c with
    hot := { c.hot.withEdges (-1) (-1) with
      slug := ev.slug, activeEpoch := ev.epoch, K := ev.priceToBeat.filter (0 < ·)
      sigmaBucket := none }
    tradingEnabled := true
    trades := .rollover (rolloverRow opts ev c.paper) :: c.trades }

def Consumer.onRollover (opts : Options) (ev : Rollover) (c : Consumer) : Consumer :=
  (rolloverPosition opts ev c).enterBucket opts ev

end LeadLag.Paper
