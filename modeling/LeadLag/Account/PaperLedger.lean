import LeadLag.Account.Position
import LeadLag.Ledger.RoundTrip

/-!
# The trades file of a paper run is a ledger

The BUY, SELL and FORCE_SELL rows are the entries of a round-trip ledger, and
the account is its last line: the cash is the last `cash_after` and a position
is open when the last entry is a BUY.
-/

namespace LeadLag.Account
open LeadLag.Execution LeadLag.Interaction LeadLag.Ledger LeadLag.Runner

structure PosKey where
  side : Option Outcome
  slug : String
  tokenId : String
  qty : ℚ
  deriving DecidableEq, Repr

def posKey (p : PaperState) : PosKey :=
  { side := p.side, slug := p.slug, tokenId := p.tokenId, qty := p.qty }

/-- Error and rollover rows move no money. -/
def entry? : TradesRow → Option (Entry PosKey)
  | .buy r => some
    { opens := true, pos := { side := r.side, slug := r.slug, tokenId := r.tokenId, qty := r.qty }
      amount := r.cost, fee := r.fee, cashBefore := r.cashBefore, cashAfter := r.cashAfter }
  | .sell r => some
    { opens := false, pos := { side := r.side, slug := r.slug, tokenId := r.tokenId, qty := r.qty }
      amount := r.proceeds, fee := r.fee, cashBefore := r.cashBefore, cashAfter := r.cashAfter }
  | .forceSell r => some
    { opens := false, pos := { side := r.side, slug := r.slug, tokenId := r.tokenId, qty := r.qty }
      amount := r.proceeds, fee := r.fee, cashBefore := r.cashBefore, cashAfter := r.cashAfter }
  | .error _ => none
  | .rollover _ => none

def entries (rows : List TradesRow) : List (Entry PosKey) := rows.filterMap entry?

structure LedgerInv (cfg : Config) (c : Consumer) : Prop where
  wellFormed : WellFormed cfg.initialCash (entries c.trades)
  cash : c.paper.cash = cash cfg.initialCash (entries c.trades)
  position : openPos (entries c.trades) = if c.paper.havePos then some (posKey c.paper) else none
  sellable : c.paper.havePos = true → kZeroQty < c.paper.qty

/-! ### The parts of a step -/

section LedgerInv

variable {cfg : Config} {c c' : Consumer}

theorem LedgerInv.frame (inv : LedgerInv cfg c) (ht : entries c'.trades = entries c.trades)
    (hc : c'.paper.cash = c.paper.cash) (hn : c'.paper.havePos = c.paper.havePos)
    (hk : posKey c'.paper = posKey c.paper) : LedgerInv cfg c' where
  wellFormed := ht ▸ inv.wellFormed
  cash := by rw [hc, ht, inv.cash]
  position := by rw [ht, hn, hk, inv.position]
  sellable h := by
    have hq : c'.paper.qty = c.paper.qty := congrArg PosKey.qty hk
    rw [hq]
    exact inv.sellable (hn ▸ h)

theorem LedgerInv.openPos_eq (inv : LedgerInv cfg c) (hn : c.paper.havePos = true) :
    openPos (entries c.trades) = some (posKey c.paper) := by
  rw [inv.position, if_pos hn]

theorem LedgerInv.exit (inv : LedgerInv cfg c) (hn : c.paper.havePos = true) {e : Entry PosKey}
    (he : e.opens = false) (hpos : e.pos = posKey c.paper) (hb : e.cashBefore = c.paper.cash)
    (ha : e.cashAfter = c.paper.cash + (e.amount - e.fee))
    (hes : entries c'.trades = e :: entries c.trades)
    (hc : c'.paper.cash = e.cashAfter) (hn' : c'.paper.havePos = false) : LedgerInv cfg c' where
  wellFormed := by
    rw [hes]
    refine inv.wellFormed.closed he ?_ (hb.trans inv.cash) ?_
    · rw [inv.openPos_eq hn, hpos]
    · rw [ha, hb]
      ring
  cash := by rw [hc, hes, Ledger.cash]
  position := by simp [hes, openPos, he, hn']
  sellable h := by simp [hn'] at h

end LedgerInv

/-- With asks of at most 1, the dollar spent at least buys a whole share. -/
theorem plan_qty_ge_one {cfg : Config} {v : HotView} {t : Theo} {p : PaperState} {plan : BuyPlan}
    (hcfg : cfg.Accepted) (hrange : cfg.useBuyAskRange = true)
    (h : buyCheck cfg v t p = .order plan) : 1 ≤ plan.qty := by
  obtain ⟨hplan, hr, hs, -⟩ := buyCheck_order h
  have hask : 0 < plan.ask ∧ plan.ask ≤ 1 := by
    rw [hplan]
    refine ⟨buyRefused_ask_pos hr, ?_⟩
    simp only [buyRefused, Bool.or_eq_false_iff, hrange, if_true, decide_eq_false_iff_not,
      not_or, not_lt] at hr
    exact hr.2.2.2.trans (hcfg.askRange hrange).2.1
  have hqty : plan.qty = plan.spend / plan.ask := by
    rw [hplan]
    rfl
  rw [hqty, le_div_iff₀ hask.1]
  linarith

theorem LedgerInv.rollover {cfg : Config} {ev : Rollover} {c c₁ : Consumer}
    (hl : cfg.liveExecution = false) (hd : cfg.disableRolloverForceSell = false)
    (inv : LedgerInv cfg c) (h : ForceSold cfg ev c c₁) :
    LedgerInv cfg (c₁.enterBucket cfg ev) := by
  have inv₁ : LedgerInv cfg c₁ := by
    cases h with
    | noPosition => exact inv
    | carried _ hd' => simp [hd] at hd'
    | kept _ _ _ hl' | nothingLeft _ _ _ hl' => simp [hl] at hl'
    | paperZero hn _ _ hq => exact absurd hq (not_le.mpr (inv.sellable hn))
    | sold qty clob hn _ hq =>
      obtain rfl := hq hl
      exact inv.exit hn rfl rfl rfl rfl rfl rfl rfl
  exact inv₁.frame rfl rfl rfl rfl

theorem LedgerInv.schedule {cfg : Config} {v : HotView} {t : Theo} {now : ℤ} {c c₁ : Consumer}
    (inv : LedgerInv cfg c) (h : Scheduled cfg v t now c c₁) : LedgerInv cfg c₁ := by
  cases h <;> exact inv.frame rfl rfl rfl rfl

theorem LedgerInv.opened {cfg : Config} {v : HotView} {t : Theo} {plan : BuyPlan} {tok : String}
    {c : Consumer} (inv : LedgerInv cfg c) (hn : c.paper.havePos = false) (hq : 1 ≤ plan.qty) :
    LedgerInv cfg (c.opened cfg v t plan plan.paperFill tok) where
  wellFormed := by
    have hempty : openPos (entries c.trades) = none := by
      rw [inv.position, hn]
      rfl
    refine inv.wellFormed.opened rfl hempty ?_ ?_
    · change c.paper.cash - (plan.spend + plan.fee) + plan.spend + plan.fee = _
      rw [← inv.cash]
      ring
    · change c.paper.cash - (plan.spend + plan.fee) =
        c.paper.cash - (plan.spend + plan.fee) + plan.spend + plan.fee - plan.spend - plan.fee
      ring
  cash := rfl
  position := rfl
  sellable _ := by
    change kZeroQty < plan.qty
    have hzero : kZeroQty < 1 := by norm_num [kZeroQty]
    exact lt_of_lt_of_le hzero hq

theorem LedgerInv.execute {M : Libm} {cfg : Config} {c c₁ : Consumer}
    (hl : cfg.liveExecution = false) (hcfg : cfg.Accepted) (hrange : cfg.useBuyAskRange = true)
    (inv : LedgerInv cfg c) (h : Executed M cfg c c₁) : LedgerInv cfg c₁ := by
  have live {P : Prop} (h : cfg.liveExecution = true) : P := by simp [hl] at h
  cases h with
  | kept => exact inv
  | cleared | unknown | riskBlocked => exact inv.frame rfl rfl rfl rfl
  | failed _ h | failedRow _ _ h | flattened h | stopIncomplete _ _ _ h | soldByStop _ _ _ h =>
    exact live h
  | bought v plan fill tok hp ha hn hv hplan hf =>
    obtain rfl := hf hl
    exact inv.opened hn (plan_qty_ge_one hcfg hrange hplan)
  | soldAtBid v qty clob hp ha hn hv hq =>
    obtain rfl := hq hl
    exact inv.exit hn rfl rfl rfl rfl rfl rfl rfl

theorem ledgerInv_runner {M : Libm} {cfg : Config} (hl : cfg.liveExecution = false)
    (hd : cfg.disableRolloverForceSell = false) (hcfg : cfg.Accepted)
    (hrange : cfg.useBuyAskRange = true) : RunnerInvariant M cfg (LedgerInv cfg) where
  init _ := ⟨trivial, rfl, rfl, nofun⟩
  spot inv _ := inv.frame rfl rfl rfl rfl
  quote inv := inv.frame rfl rfl rfl rfl
  rollover inv h := inv.rollover hl hd h
  startup inv _ := inv.frame rfl rfl rfl rfl
  done inv := inv.frame rfl rfl rfl rfl
  schedule inv _ _ h := inv.schedule h
  execute inv _ h := inv.execute hl hcfg hrange h

/-- In every state of a paper run the trade rows are a well-formed ledger from
the initial cash, the cash is what its last entry left, and a position is open
exactly when that entry is a BUY. -/
theorem paper_ledger {M : Libm} {cfg : Config} (hl : cfg.liveExecution = false)
    (hd : cfg.disableRolloverForceSell = false) (hcfg : cfg.Accepted)
    (hrange : cfg.useBuyAskRange = true) {c : Consumer} (h : (runner M cfg).Reachable c) :
    WellFormed cfg.initialCash (entries c.trades) ∧
      c.paper.cash = cash cfg.initialCash (entries c.trades) ∧
      (c.paper.havePos = true ↔
        ∃ e rest, entries c.trades = e :: rest ∧ e.opens = true) := by
  have inv := (ledgerInv_runner hl hd hcfg hrange).reachable h
  refine ⟨inv.wellFormed, inv.cash, ?_⟩
  rw [← openPos_isSome, inv.position]
  cases c.paper.havePos <;> simp

def roundTrip : List (Event × Script) :=
  signalUp paperAnswers ++
    [(rolloverTo 600 "btc-600" 100
      (some { tokenId := "up-300", eventSlug := "btc-300", marketBucketEpoch := 300
              outcome := some .up, bestBid := 7 / 10, bestAsk := 8 / 10 }) none,
      paperAnswers.script)]

theorem paper_ledger_round_trip :
    ∃ c, (runner coarse quickEntry).Reachable c ∧ (entries c.trades).length = 2 ∧
      WellFormed 100 (entries c.trades) ∧ c.paper.cash = cash 100 (entries c.trades) := by
  obtain ⟨c, hr, hn⟩ := exists_reachable_of_replay coarse quickEntry roundTrip
    (fun c => (entries c.trades).length = 2) (by decide +kernel)
  have h := paper_ledger rfl rfl quickEntry_accepted rfl hr
  exact ⟨c, hr, by simpa using hn, h.1, h.2.1⟩

end LeadLag.Account
