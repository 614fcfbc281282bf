import LeadLag.Paper.Runs
import LeadLag.Runner.Replay

/-!
# The paper position, with options that are no numbers

`std::min` keeps a spend target that is NaN, and the tests `spend < 1` and the cap are
false of it. `--risk-frac nan` makes the target one, and the BUY is booked with NaN shares
at a NaN cost. Without an ask range an infinite ask buys no shares at all.
-/

namespace LeadLag.Paper
open LeadLag.Core LeadLag.Execution
open LeadLag.Runner (HotState)

structure Held (c : Consumer) : Prop where
  side : c.paper.side = some .up ∨ c.paper.side = some .down
  qty : 0 < c.paper.qty
  basis : 0 < c.paper.posCostBasis
  fillPrice : 0 < c.paper.entryFillPrice
  slug : c.paper.slug = c.hot.slug
  pending : c.paper.pending = true →
    c.paper.pendingAction = some .sell ∧ c.paper.pendingSide = c.paper.side

structure Flat (p : PaperState) : Prop where
  qty : p.qty = 0
  basis : p.posCostBasis = 0
  fillPrice : p.entryFillPrice = 0
  side : p.side = none
  slug : p.slug = ""
  tokenId : p.tokenId = ""
  retry : p.stopSellRetry = false
  pending : p.pending = true → p.pendingAction = some .buy

/-- Without a position the spend target is a number, and the asks are finite unless the
range checks them. -/
structure SpendIsNumber (opts : Options) (c : Consumer) : Prop where
  target : 0 < opts.fixedSpendUsd ∨ (c.paper.cash * opts.riskFrac).isNaN = false
  ask : opts.useBuyAskRange = true ∨ ∀ o q, c.book o = some q → q.ask.isFinite = true

/-- The condition on a run. -/
def BuysNumbers (opts : Options) (c : Consumer) : Event → Prop
  | .update .. => c.paper.havePos = false → SpendIsNumber opts c
  | _ => True

structure PositionInv (c : Consumer) : Prop where
  held : c.paper.havePos = true → Held c
  flat : c.paper.havePos = false → Flat c.paper
  epoch : c.paper.havePos = true → 0 ≤ c.hot.activeEpoch
  enabled : c.paper.havePos = true → c.tradingEnabled = true
  retry : c.paper.stopSellRetry = false
  buySide : c.paper.pending = true → c.paper.pendingAction = some .buy →
    c.paper.pendingSide = some .up ∨ c.paper.pendingSide = some .down

/-! ### The parts of a BUY -/

section Buy

variable {opts : Options} {v : View} {t : Outcome → Double} {p : PaperState} {plan : BuyPlan}

theorem polyTakerFee_nonneg (notional price rate : Double) :
    0 ≤ polyTakerFee notional price rate := by
  simp only [polyTakerFee]
  split
  · rename_i hfee
    have hleast : (0 : Double) < .round (1 / 10 ^ 5) := by decide +kernel
    exact Double.le_of_lt (Double.lt_of_lt_of_le hleast hfee)
  · decide

theorem ask_isFinite (h : buyRefused opts v t p.pendingOutcome = false)
    (hask : opts.useBuyAskRange = true ∨ (v.book p.pendingOutcome).ask.isFinite = true) :
    (v.book p.pendingOutcome).ask.isFinite = true := by
  rcases hask with hrange | hask
  · simp only [buyRefused, hrange, if_true, Bool.or_eq_false_iff, decide_eq_false_iff_not,
      not_or, Bool.not_eq_false] at h
    exact h.2.1
  · exact hask

theorem ask_pos (h : buyRefused opts v t p.pendingOutcome = false) {y : ℚ}
    (hask : (v.book p.pendingOutcome).ask = .finite y) : 0 < y := by
  simp only [buyRefused, Bool.or_eq_false_iff, hask] at h
  obtain ⟨-, hrange⟩ := h
  by_cases hr : opts.useBuyAskRange = true
  · rw [if_pos hr] at hrange
    have hpos : ¬ (Double.finite y ≤ 0) := fun hle => of_decide_eq_false hrange (.inr (.inl hle))
    by_contra hy
    exact hpos (Double.finite_le_finite.mpr (not_lt.mp hy))
  · rw [if_neg hr] at hrange
    have hnot : ¬ (Double.finite y < .round (2 / 100)) := of_decide_eq_false hrange
    by_contra hy
    have hle : Double.finite y ≤ 0 := Double.finite_le_finite.mpr (not_lt.mp hy)
    have hcent : (0 : Double) < .round (2 / 100) := by decide +kernel
    exact hnot (Double.lt_of_le_of_lt hle hcent)

/-- What the BUY books: shares, a cost and a price above zero. -/
theorem plan_pos (hplan : buyCheck opts v t p = .order plan)
    (htarget : 0 < opts.fixedSpendUsd ∨ (p.cash * opts.riskFrac).isNaN = false)
    (hask : opts.useBuyAskRange = true ∨ (v.book p.pendingOutcome).ask.isFinite = true) :
    0 < plan.qty ∧ 0 < plan.spend + plan.fee ∧ 0 < plan.ask := by
  obtain ⟨hdef, hr, hs, -⟩ := buyCheck_order hplan
  obtain ⟨x, y, hy, hround⟩ := Double.exists_round_of_isFinite (ask_isFinite hr hask)
  have hpos : 0 < y := ask_pos hr hy
  have hspend : plan.spend.isNaN = plan.spendTarget.isNaN := by
    rw [hdef]
    exact Double.isNaN_stdMin
  have hnumber : plan.spendTarget.isNaN = false := by
    rw [hdef]
    show (if 0 < opts.fixedSpendUsd then opts.fixedSpendUsd
      else Double.stdMax (p.cash * opts.riskFrac) 1).isNaN = false
    split
    · rename_i hfixed
      exact (Double.lt_iff.mp hfixed).2.1
    · rename_i hfixed
      rw [Double.isNaN_stdMax]
      exact htarget.resolve_left hfixed
  have hone : 1 ≤ plan.spend := Double.le_of_not_lt rfl (hspend.trans hnumber) hs
  have hdollar : (0 : Double) < 1 := by decide
  have hprice : plan.ask = .finite y := by
    rw [hdef]
    exact hy
  have hqty : plan.qty = plan.spend / plan.ask := by
    rw [hdef]
    rfl
  have hfee : 0 ≤ plan.fee := by
    rw [hdef]
    exact polyTakerFee_nonneg _ _ _
  refine ⟨?_, ?_, ?_⟩
  · rw [hqty, hprice]
    exact Double.div_pos_of_one_le hone hround hpos
  · exact Double.lt_of_lt_of_le hdollar (Double.one_le_add hone hfee)
  · rw [hprice]
    exact Double.finite_lt_finite.mpr hpos

end Buy

/-! ### The parts of a step -/

theorem PositionInv.ofFlat {c : Consumer} (hn : c.paper.havePos = false) (hf : Flat c.paper)
    (hs : c.paper.pending = true → c.paper.pendingAction = some .buy →
      c.paper.pendingSide = some .up ∨ c.paper.pendingSide = some .down) : PositionInv c where
  held h := by
    rw [hn] at h
    cases h
  flat _ := hf
  epoch h := by
    rw [hn] at h
    cases h
  enabled h := by
    rw [hn] at h
    cases h
  retry := hf.retry
  buySide := hs

theorem PositionInv.hot {c c' : Consumer} (inv : PositionInv c) (hp : c'.paper = c.paper)
    (hb : c.paper.havePos = true → c'.hot.slug = c.hot.slug ∧ 0 ≤ c'.hot.activeEpoch ∧
      c'.tradingEnabled = true) : PositionInv c' where
  held hn := by
    rw [hp] at hn
    have h := inv.held hn
    exact ⟨hp ▸ h.side, hp ▸ h.qty, hp ▸ h.basis, hp ▸ h.fillPrice,
      by rw [hp, (hb hn).1]; exact h.slug, hp ▸ h.pending⟩
  flat hn := by
    rw [hp] at hn ⊢
    exact inv.flat hn
  epoch hn := (hb (hp ▸ hn)).2.1
  enabled hn := (hb (hp ▸ hn)).2.2
  retry := hp ▸ inv.retry
  buySide := hp ▸ inv.buySide

theorem PositionInv.schedule {c c₁ : Consumer} (inv : PositionInv c) (h : Scheduled c c₁) :
    PositionInv c₁ := by
  cases h with
  | idle a b => exact inv.hot rfl fun hn => ⟨rfl, inv.epoch hn, inv.enabled hn⟩
  | buy a b o dueNs hr hn =>
    have f := inv.flat hn
    refine .ofFlat hn ⟨f.qty, f.basis, f.fillPrice, f.side, f.slug, f.tokenId, f.retry,
      fun _ => rfl⟩ ?_
    intro _ _
    cases o with
    | up => exact .inl rfl
    | down => exact .inr rfl
  | sell a b reason dueNs hr hn =>
    have f := inv.held hn
    exact
      { held := fun _ => ⟨f.side, f.qty, f.basis, f.fillPrice, f.slug, fun _ => ⟨rfl, rfl⟩⟩
        flat := fun h => absurd (hn.symm.trans h) (by decide)
        epoch := fun _ => inv.epoch hn
        enabled := fun _ => inv.enabled hn
        retry := inv.retry
        buySide := fun _ h => absurd h (by simp [PaperState.scheduleSell]) }

theorem PositionInv.dropped {c : Consumer} (inv : PositionInv c) (riskStop : Bool)
    (reason : Option Runner.ExitReason) :
    PositionInv { c with paper := { c.paper with
      pending := false, riskStop := riskStop, pendingExitReason := reason } } := by
  cases hn : c.paper.havePos with
  | true =>
    have f := inv.held hn
    exact
      { held := fun _ => ⟨f.side, f.qty, f.basis, f.fillPrice, f.slug, nofun⟩
        flat := fun h => absurd (hn.symm.trans h) (by decide)
        epoch := fun _ => inv.epoch hn
        enabled := fun _ => inv.enabled hn
        retry := inv.retry
        buySide := nofun }
  | false =>
    have f := inv.flat hn
    exact .ofFlat hn
      ⟨f.qty, f.basis, f.fillPrice, f.side, f.slug, f.tokenId, f.retry, nofun⟩ nofun

theorem PositionInv.execute {opts : Options} {v : View} {t : Outcome → Double} {c c₁ : Consumer}
    (inv : PositionInv c) (hv : c.view? = some v) (hen : c.tradingEnabled = true)
    (hbuys : c.paper.havePos = false → SpendIsNumber opts c) (h : Executed opts v t c c₁) :
    PositionInv c₁ := by
  cases h with
  | kept => exact inv
  | dropped riskStop reason => exact inv.dropped riskStop reason
  | bought plan tok hp ha hn hplan =>
    obtain ⟨hslug, hepoch, hbook⟩ := Consumer.view?_spec hv
    have hnumber := hbuys hn
    obtain ⟨hqty, hbasis, hprice⟩ := plan_pos hplan hnumber.target
      (hnumber.ask.imp_right fun hask => hask _ _ (hbook _))
    exact
      { held := fun _ => ⟨inv.buySide hp ha, hqty, hbasis, hprice, hslug, nofun⟩
        flat := nofun
        epoch := fun _ => hepoch
        enabled := fun _ => hen
        retry := inv.retry
        buySide := nofun }
  | sold => exact .ofFlat rfl ⟨rfl, rfl, rfl, rfl, rfl, rfl, rfl, nofun⟩ nofun

theorem PositionInv.rollover {opts : Options} {ev : Rollover} {c : Consumer}
    (inv : PositionInv c) : PositionInv (c.onRollover opts ev) := by
  have hflat : (rolloverPosition opts ev c).paper.havePos = false ∧
      PositionInv (rolloverPosition opts ev c) := by
    have hclosed {c₁ : Consumer} (h : c₁.paper = { c.paper.closed with cash := c₁.paper.cash }) :
        c₁.paper.havePos = false ∧ PositionInv c₁ := by
      have hn : c₁.paper.havePos = false := by
        rw [h]
        rfl
      refine ⟨hn, .ofFlat hn ?_ ?_⟩
      · rw [h]
        exact ⟨rfl, rfl, rfl, rfl, rfl, rfl, inv.retry, nofun⟩
      · rw [h]
        nofun
    unfold rolloverPosition
    split
    · split
      · exact hclosed rfl
      · split
        · exact hclosed rfl
        · exact hclosed rfl
    · rename_i hpos
      exact ⟨by simpa using hpos, inv⟩
  refine hflat.2.hot rfl ?_
  intro hn
  exact absurd (hflat.1.symm.trans hn) (by decide)

theorem PositionInv.next {opts : Options} {theo : HotState → Outcome → Double} {c c' : Consumer}
    {e : Event} (inv : PositionInv c) (hcond : BuysNumbers opts c e)
    (h : Next opts theo c e c') : PositionInv c' := by
  cases h with
  | spot hot hframe =>
    refine inv.hot rfl ?_
    intro hn
    exact ⟨hframe.slug, hframe.activeEpoch ▸ inv.epoch hn, inv.enabled hn⟩
  | quote q =>
    obtain ⟨hpaper, -, henabled, hhot⟩ := storeQuote_frame q c
    refine inv.hot hpaper ?_
    intro hn
    rw [hhot (inv.epoch hn), henabled]
    exact ⟨rfl, inv.epoch hn, inv.enabled hn⟩
  | rollover ev => exact inv.rollover
  | startup slug epoch priceToBeat enable hen =>
    refine inv.hot rfl ?_
    intro hn
    exact absurd (hen.symm.trans (inv.enabled hn)) (by decide)
  | skipped now due tok => exact inv.hot rfl fun hn => ⟨rfl, inv.epoch hn, inv.enabled hn⟩
  | traded now due tok v c₁ c₂ hv hen hs hx =>
    have hdone : PositionInv c.updateDone :=
      inv.hot rfl fun hn => ⟨rfl, inv.epoch hn, inv.enabled hn⟩
    have hview : c₁.view? = some v := by
      cases hs <;> exact hv
    have henabled : c₁.tradingEnabled = true := by
      cases hs <;> exact hen
    refine (hdone.schedule hs).execute hview henabled ?_ hx
    intro hn
    have hbefore : c.paper.havePos = false := by
      cases hs <;> exact hn
    obtain ⟨htarget, hask⟩ := hcond hbefore
    cases hs <;> exact ⟨htarget, hask⟩

/-! ### Runs -/

def PositionKept (c : Consumer) : Prop :=
  (c.paper.havePos = true → Held c) ∧ (c.paper.havePos = false → Flat c.paper)

/-- In a run whose updates find numbers to spend, a position is held in its bucket and has
shares, a cost and a price above zero, and without one every field of it is cleared. -/
theorem position_kept {opts : Options} {theo : HotState → Outcome → Double} {c : Consumer}
    (h : ((paper opts theo).restrict (BuysNumbers opts)).Reachable c) : PositionKept c := by
  have inv : PositionInv c := by
    refine h.invariant ?_ ?_
    · rintro c₀ ⟨hist, rfl⟩
      exact .ofFlat rfl ⟨rfl, rfl, rfl, rfl, rfl, rfl, rfl, nofun⟩ nofun
    · intro c₀ e c₁ _ hinv hstep
      exact hinv.next hstep.2 (next_cases hstep.1)
  exact ⟨inv.held, inv.flat⟩

/-- With a fixed spend and an ask range every run meets the condition. -/
theorem buysNumbers_of_fixed {opts : Options} (hfixed : 0 < opts.fixedSpendUsd)
    (hrange : opts.useBuyAskRange = true) (c : Consumer) (e : Event) : BuysNumbers opts c e := by
  cases e with
  | update now due tok => exact fun _ => ⟨.inl hfixed, .inl hrange⟩
  | spot | quote | rollover | startup => trivial

theorem position_kept_open :
    ∃ c, (paper quickEntry (digitalTheo Runner.coarse {})).Reachable c ∧ c.paper.havePos = true ∧
      Held c := by
  have hnumbers : ∀ c e, BuysNumbers quickEntry c e := buysNumbers_of_fixed (by decide) rfl
  obtain ⟨c, hr, hpos⟩ := exists_reachable_of_replay quickEntry (digitalTheo Runner.coarse {})
    (fun _ _ => true) (fun c e _ => hnumbers c e)
    (signalUp (78 / 100) ++ [.update 0 0 "up-300"]) (fun c => c.paper.havePos) (by decide +kernel)
  exact ⟨c, hr.of_restrict, hpos, (position_kept hr).1 hpos⟩

/-- `--fixed-spend-usd 0 --risk-frac nan`. -/
def nanRisk : Options := { quickEntry with fixedSpendUsd := 0, riskFrac := .nan }

theorem position_of_nan_shares :
    ¬ ∀ (opts : Options) (c : Consumer),
      (paper opts (digitalTheo Runner.coarse {})).Reachable c → PositionKept c := by
  intro h
  obtain ⟨c, hr, hc⟩ := exists_reachable_of_replay nanRisk (digitalTheo Runner.coarse {})
    (fun _ _ => true) (P := fun _ _ => True) (fun _ _ _ => trivial)
    (signalUp (78 / 100) ++ [.update 0 0 "up-300"])
    (fun c => c.paper.havePos && decide (c.paper.qty = .nan)) (by decide +kernel)
  simp only [Bool.and_eq_true, decide_eq_true_eq] at hc
  obtain ⟨hpos, hqty⟩ := hc
  have hshares := ((h nanRisk c (hr.of_restrict)).1 hpos).qty
  rw [hqty] at hshares
  exact absurd hshares (by decide)

end LeadLag.Paper
