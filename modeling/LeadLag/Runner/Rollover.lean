import LeadLag.Runner.ExecuteDue

/-!
# The Rollover event (btc_poly_runner.cpp:2357-2629)

First the open position is force-sold at the prices the event carries, then the
hot state moves to the new bucket. The quotes of the old one stay.
-/

namespace LeadLag.Runner
open LeadLag.Execution LeadLag.Interaction

/-- The Rollover event. `up` and `down` are the books of the old slug as the
rollover monitor saw them; `priceToBeat` is `none` when it is not known. -/
structure Rollover where
  epoch : ℤ
  slug : String
  priceToBeat : Option ℚ
  up : Option Quote
  down : Option Quote
  deriving DecidableEq, Repr

def Rollover.book (ev : Rollover) : Outcome → Option Quote
  | .up => ev.up
  | .down => ev.down

/-- A side without a quote still has its initial price. -/
def Rollover.bid (ev : Rollover) (o : Outcome) : ℚ := ((ev.book o).map Quote.bestBid).getD 0

/-! ### FORCE_SELL -/

def forceSellIntent (monoNs : ℤ) (tok : String) (qty : ℚ) : OrderIntent :=
  { monoNs := monoNs, side := .sell, qty := qty, marketTokenId := tok, marketOrder := true }

def Consumer.closePos (c : Consumer) : Consumer := { c with paper := c.paper.closed }

def Consumer.forceSold (cfg : Config) (ev : Rollover) (qty : ℚ) (clobBalance : Option ℚ)
    (c : Consumer) : Consumer :=
  let p := c.paper
  let bid := ev.bid p.outcome
  let proceeds := qty * bid
  let fee := polyTakerFee proceeds bid cfg.feeRate
  let cash := p.cash + (proceeds - fee)
  { c with
    paper := { p.closed with cash := cash }
    trades := .forceSell
      { slug := p.slug, side := p.side, tokenId := p.tokenId, bid := bid, qty := qty
        strategyQty := p.qty, clobBalanceShares := clobBalance, proceeds := proceeds, fee := fee
        cashBefore := p.cash, cashAfter := cash } :: c.trades }

def liveForceSell (cfg : Config) (ev : Rollover) (c : Consumer) : Prog Consumer := do
  let p := c.paper
  match ← queryConditionalBalance p.tokenId with
  -- the position stays open; the hot state moves on all the same
  | .error err => pure (c.log (.error (sellError .forceSellBalanceQuery err p none)))
  | .ok clobBalance =>
    let sellQty := max 0 clobBalance
    if sellQty ≤ kZeroQty then
      pure (c.log (.error (sellError .forceSellSkippedZero
        "sell_qty from API balance is 0 at rollover FORCE_SELL" p (some clobBalance)))).closePos
    else
      let mono ← steadyNs
      match ← submit (forceSellIntent mono p.tokenId sellQty) with
      | .error err => pure (c.log (.error (sellError .forceSell err p (some clobBalance))))
      | .ok _ => pure (c.forceSold cfg ev sellQty (some clobBalance))

def rolloverPosition (cfg : Config) (ev : Rollover) (c : Consumer) : Prog Consumer :=
  if c.paper.havePos then
    if cfg.disableRolloverForceSell then pure c.closePos
    else if cfg.liveExecution then liveForceSell cfg ev c
    else if c.paper.qty ≤ kZeroQty then pure c.closePos
    else pure (c.forceSold cfg ev c.paper.qty none)
  else pure c

/-! ### The new bucket -/

def rolloverRow (cfg : Config) (ev : Rollover) (p : PaperState) : RolloverRow :=
  { newSlug := ev.slug, newEpoch := ev.epoch, priceToBeat := ev.priceToBeat
    disableForceSell := cfg.disableRolloverForceSell, cash := p.cash, havePos := p.havePos
    posSide := if p.havePos then p.side else none
    posQty := if p.havePos then p.qty else 0
    posSlug := if p.havePos then p.slug else ""
    posTokenId := if p.havePos then p.tokenId else "" }

def HotState.enterBucket (h : HotState) (ev : Rollover) : HotState :=
  { h with
    slug := ev.slug, activeEpoch := ev.epoch, K := ev.priceToBeat.filter (0 < ·)
    sigmaBucket := none, edgeUpOkSinceMonoNs := -1, edgeDnOkSinceMonoNs := -1 }

def Consumer.enterBucket (cfg : Config) (ev : Rollover) (c : Consumer) : Consumer :=
  { c with
    hot := c.hot.enterBucket ev, tradingEnabled := true
    trades := .rollover (rolloverRow cfg ev c.paper) :: c.trades }

def onRollover (cfg : Config) (ev : Rollover) (c : Consumer) : Prog Consumer := do
  let c ← rolloverPosition cfg ev c
  pure (c.enterBucket cfg ev)

/-! ### What can happen to the position -/

inductive ForceSold (cfg : Config) (ev : Rollover) (c : Consumer) : Consumer → Prop
  | noPosition : c.paper.havePos = false → ForceSold cfg ev c c
  | carried : c.paper.havePos = true → cfg.disableRolloverForceSell = true →
      ForceSold cfg ev c c.closePos
  | kept (e : ErrorRow) : c.paper.havePos = true → cfg.disableRolloverForceSell = false →
      cfg.liveExecution = true → e.action ≠ .sellStopIncomplete →
      ForceSold cfg ev c (c.log (.error e))
  | nothingLeft (e : ErrorRow) : c.paper.havePos = true → cfg.disableRolloverForceSell = false →
      cfg.liveExecution = true → e.action ≠ .sellStopIncomplete →
      ForceSold cfg ev c (c.log (.error e)).closePos
  | paperZero : c.paper.havePos = true → cfg.disableRolloverForceSell = false →
      cfg.liveExecution = false → c.paper.qty ≤ kZeroQty → ForceSold cfg ev c c.closePos
  | sold (qty : ℚ) (clobBalance : Option ℚ) :
      c.paper.havePos = true → cfg.disableRolloverForceSell = false →
      (cfg.liveExecution = false → qty = c.paper.qty) →
      ForceSold cfg ev c (c.forceSold cfg ev qty clobBalance)

theorem liveForceSell_cases {cfg : Config} {ev : Rollover} {c : Consumer}
    (hn : c.paper.havePos = true) (hd : cfg.disableRolloverForceSell = false)
    (hl : cfg.liveExecution = true) :
    Returns (liveForceSell cfg ev c) (ForceSold cfg ev c) := by
  simp only [liveForceSell, returns_bind, queryConditionalBalance, submit, steadyNs,
    returns_perform]
  intro bal
  cases bal with
  | error err => exact returns_pure.mpr (.kept _ hn hd hl (by simp [sellError]))
  | ok clobBalance =>
    dsimp only
    split
    · exact returns_pure.mpr (.nothingLeft _ hn hd hl (by simp [sellError]))
    · simp only [returns_bind, returns_perform]
      intro mono resp
      cases resp with
      | error err => exact returns_pure.mpr (.kept _ hn hd hl (by simp [sellError]))
      | ok _ => exact returns_pure.mpr (.sold _ _ hn hd fun h => by simp [h] at hl)

theorem rolloverPosition_cases (cfg : Config) (ev : Rollover) (c : Consumer) :
    Returns (rolloverPosition cfg ev c) (ForceSold cfg ev c) := by
  unfold rolloverPosition
  split
  · rename_i hn
    split
    · rename_i hd
      exact returns_pure.mpr (.carried hn hd)
    · rename_i hd
      have hd' : cfg.disableRolloverForceSell = false := by simpa using hd
      split
      · rename_i hl
        exact liveForceSell_cases hn hd' hl
      · rename_i hl
        have hl' : cfg.liveExecution = false := by simpa using hl
        split
        · rename_i hq
          exact returns_pure.mpr (.paperZero hn hd' hl' hq)
        · exact returns_pure.mpr (.sold _ _ hn hd' fun _ => rfl)
  · rename_i hn
    exact returns_pure.mpr (.noPosition (by simpa using hn))

theorem onRollover_cases (cfg : Config) (ev : Rollover) (c : Consumer) :
    Returns (onRollover cfg ev c) fun c' =>
      ∃ c₁, ForceSold cfg ev c c₁ ∧ c' = c₁.enterBucket cfg ev := by
  simp only [onRollover, returns_bind, returns_pure]
  exact (rolloverPosition_cases cfg ev c).mono fun c₁ h => ⟨c₁, h, rfl⟩

end LeadLag.Runner
