import LeadLag.Runner.Replay

/-!
# The position of a paper run, in exact arithmetic

A position is held in one bucket only, and while there is none every field of
it is cleared. The six places that close it share `PaperState.closed`. The options
are rational; `LeadLag.Paper` has the doubles.
-/

namespace LeadLag.Account
open LeadLag.Execution LeadLag.Interaction LeadLag.Runner

structure Held (c : Consumer) : Prop where
  side : c.paper.side = some .up ∨ c.paper.side = some .down
  qty : 0 < c.paper.qty
  basis : 0 < c.paper.posCostBasis
  fillPrice : 0 < c.paper.entryFillPrice
  slug : c.paper.slug = c.hot.slug
  pending : c.paper.pending = true →
    c.paper.pendingAction = some .sell ∧ c.paper.pendingSide = c.paper.side

structure Flat (p : PaperState) : Prop where
  qty : p.qty = 0
  basis : p.posCostBasis = 0
  fillPrice : p.entryFillPrice = 0
  side : p.side = none
  slug : p.slug = ""
  tokenId : p.tokenId = ""
  retry : p.stopSellRetry = false
  pending : p.pending = true → p.pendingAction = some .buy

/-- `Held` or `Flat`, and what carries them from step to step: a position needs
a known bucket and trading enabled, and a pending BUY knows its side. -/
structure PositionInv (c : Consumer) : Prop where
  held : c.paper.havePos = true → Held c
  flat : c.paper.havePos = false → Flat c.paper
  epoch : c.paper.havePos = true → 0 ≤ c.hot.activeEpoch
  enabled : c.paper.havePos = true → c.tradingEnabled = true
  retry : c.paper.stopSellRetry = false
  buySide : c.paper.pending = true → c.paper.pendingAction = some .buy →
    c.paper.pendingSide = some .up ∨ c.paper.pendingSide = some .down

/-! ### The parts of a step -/

theorem flat_closed {p : PaperState} (hr : p.stopSellRetry = false) : Flat p.closed :=
  ⟨rfl, rfl, rfl, rfl, rfl, rfl, hr, nofun⟩

theorem PositionInv.hot {c c' : Consumer} (inv : PositionInv c) (hp : c'.paper = c.paper)
    (hb : c.paper.havePos = true → c'.hot.slug = c.hot.slug ∧ 0 ≤ c'.hot.activeEpoch ∧
      c'.tradingEnabled = true) : PositionInv c' where
  held hn := by
    rw [hp] at hn
    have h := inv.held hn
    exact ⟨hp ▸ h.side, hp ▸ h.qty, hp ▸ h.basis, hp ▸ h.fillPrice,
      by rw [hp, (hb hn).1]; exact h.slug, hp ▸ h.pending⟩
  flat hn := by
    rw [hp] at hn ⊢
    exact inv.flat hn
  epoch hn := (hb (hp ▸ hn)).2.1
  enabled hn := (hb (hp ▸ hn)).2.2
  retry := hp ▸ inv.retry
  buySide := hp ▸ inv.buySide

theorem PositionInv.ofFlat {c : Consumer} (hn : c.paper.havePos = false) (hf : Flat c.paper)
    (hs : c.paper.pending = true → c.paper.pendingAction = some .buy →
      c.paper.pendingSide = some .up ∨ c.paper.pendingSide = some .down) : PositionInv c where
  held h := by simp [hn] at h
  flat _ := hf
  epoch h := by simp [hn] at h
  enabled h := by simp [hn] at h
  retry := hf.retry
  buySide := hs

theorem PositionInv.rollover {cfg : Config} {ev : Rollover} {c c₁ : Consumer}
    (hl : cfg.liveExecution = false) (inv : PositionInv c) (h : ForceSold cfg ev c c₁) :
    PositionInv (c₁.enterBucket cfg ev) := by
  have flat : c₁.paper.havePos = false ∧ PositionInv c₁ := by
    cases h with
    | noPosition hn => exact ⟨hn, inv⟩
    | kept _ _ _ hl' => simp [hl] at hl'
    | nothingLeft _ _ _ hl' => simp [hl] at hl'
    | carried | paperZero => exact ⟨rfl, .ofFlat rfl (flat_closed inv.retry) nofun⟩
    | sold qty clob hn hd hq =>
      exact ⟨rfl, .ofFlat rfl ⟨rfl, rfl, rfl, rfl, rfl, rfl, inv.retry, nofun⟩ nofun⟩
  exact flat.2.hot rfl fun hn => by simp [flat.1] at hn

theorem PositionInv.schedule {cfg : Config} {v : HotView} {t : Theo} {now : ℤ} {c c₁ : Consumer}
    (inv : PositionInv c) (h : Scheduled cfg v t now c c₁) : PositionInv c₁ := by
  cases h with
  | idle a b => exact inv.hot rfl fun hn => ⟨rfl, inv.epoch hn, inv.enabled hn⟩
  | buy a b o hp hr hn hen he =>
    have f := inv.flat hn
    exact .ofFlat hn ⟨f.qty, f.basis, f.fillPrice, f.side, f.slug, f.tokenId, f.retry,
      fun _ => rfl⟩ fun _ _ => by cases o <;> simp [PaperState.scheduleBuy]
  | sell a b reason hp hr hn =>
    have f := inv.held hn
    exact
      { held := fun _ => ⟨f.side, f.qty, f.basis, f.fillPrice, f.slug, fun _ => ⟨rfl, rfl⟩⟩
        flat := fun h => by simp [PaperState.scheduleSell, hn] at h
        epoch := fun _ => inv.epoch hn
        enabled := fun _ => inv.enabled hn
        retry := inv.retry
        buySide := fun _ h => by simp [PaperState.scheduleSell] at h }

theorem paperFill_pos {cfg : Config} {v : HotView} {t : Theo} {p : PaperState} {plan : BuyPlan}
    (h : buyCheck cfg v t p = .order plan) :
    0 < plan.paperFill.fillQty ∧ 0 < plan.paperFill.fillAvgPrice ∧
      0 < plan.paperFill.costUsd + plan.paperFill.feeUsd := by
  obtain ⟨hplan, hr, hs, -⟩ := buyCheck_order h
  have hask : 0 < plan.ask := by
    rw [hplan]
    exact buyRefused_ask_pos hr
  have hqty : plan.qty = plan.spend / plan.ask := by
    rw [hplan]
    rfl
  have hfee : 0 ≤ plan.fee := by
    rw [hplan]
    exact polyTakerFee_nonneg _ _ _
  refine ⟨?_, hask, ?_⟩
  · change 0 < plan.qty
    rw [hqty]
    exact div_pos (by linarith) hask
  · change 0 < plan.spend + plan.fee
    linarith

theorem PositionInv.dropped {c : Consumer} (inv : PositionInv c) {p : PaperState}
    (hp : p.pending = false)
    (hc : p = { c.paper with pending := p.pending, riskStop := p.riskStop
                             pendingExitReason := p.pendingExitReason }) :
    PositionInv { c with paper := p } := by
  cases hn : c.paper.havePos with
  | true =>
    have f := inv.held hn
    rw [hc, hp]
    exact
      { held := fun _ => ⟨f.side, f.qty, f.basis, f.fillPrice, f.slug, nofun⟩
        flat := fun h => by simp [hn] at h
        epoch := fun _ => inv.epoch hn
        enabled := fun _ => inv.enabled hn
        retry := inv.retry
        buySide := nofun }
  | false =>
    have f := inv.flat hn
    rw [hc, hp]
    exact .ofFlat hn
      ⟨f.qty, f.basis, f.fillPrice, f.side, f.slug, f.tokenId, f.retry, nofun⟩ nofun

theorem PositionInv.execute {M : Libm} {cfg : Config} {c c₁ : Consumer}
    (hl : cfg.liveExecution = false) (inv : PositionInv c) (hen : c.tradingEnabled = true)
    (h : Executed M cfg c c₁) : PositionInv c₁ := by
  have live {P : Prop} (h : cfg.liveExecution = true) : P := by simp [hl] at h
  cases h with
  | kept => exact inv
  | cleared => exact inv.dropped rfl rfl
  | unknown => exact inv.dropped rfl rfl
  | riskBlocked => exact inv.dropped rfl rfl
  | failed _ h | failedRow _ _ h | flattened h | stopIncomplete _ _ _ h | soldByStop _ _ _ h =>
    exact live h
  | bought v plan fill tok hp ha hn hv hplan hf =>
    have hview := HotState.view?_spec hv
    obtain rfl := hf hl
    have pos := paperFill_pos hplan
    exact
      { held := fun _ => ⟨inv.buySide hp ha, pos.1, pos.2.2, pos.2.1, hview.slug, nofun⟩
        flat := nofun
        epoch := fun _ => hview.epoch
        enabled := fun _ => hen
        retry := inv.retry
        buySide := nofun }
  | soldAtBid v qty clob hp ha hn =>
    exact .ofFlat rfl ⟨rfl, rfl, rfl, rfl, rfl, rfl, rfl, nofun⟩ nofun

theorem positionInv_runner {M : Libm} {cfg : Config} (hl : cfg.liveExecution = false) :
    RunnerInvariant M cfg PositionInv where
  init _ := .ofFlat rfl ⟨rfl, rfl, rfl, rfl, rfl, rfl, rfl, nofun⟩ nofun
  spot inv f := inv.hot rfl fun hn => ⟨f.slug, f.activeEpoch ▸ inv.epoch hn, inv.enabled hn⟩
  quote {_ q} inv := inv.hot rfl fun hn =>
    have hb := HotState.storeQuote_bucket q (inv.epoch hn)
    ⟨hb.2, hb.1 ▸ inv.epoch hn, inv.enabled hn⟩
  rollover inv h := inv.rollover hl h
  startup inv hen := inv.hot rfl fun hn => by simp [inv.enabled hn] at hen
  done inv := inv.hot rfl fun hn => ⟨rfl, inv.epoch hn, inv.enabled hn⟩
  schedule inv _ _ h := inv.schedule h
  execute inv hen h := inv.execute hl hen h

theorem paper_position {M : Libm} {cfg : Config} (hl : cfg.liveExecution = false) {c : Consumer}
    (h : (runner M cfg).Reachable c) :
    (c.paper.havePos = true → Held c) ∧ (c.paper.havePos = false → Flat c.paper) :=
  have inv := (positionInv_runner hl).reachable h
  ⟨inv.held, inv.flat⟩

end LeadLag.Account
