import LeadLag.Runner.Replay

/-!
# What a paper BUY costs (btc_poly_runner.cpp:533-540, 1630-1645, 1767)

The spend is capped so that it and its unrounded fee fit the cash. The fee that
is charged is rounded to five decimals, up as well as down.
-/

namespace LeadLag.Account
open LeadLag.Execution LeadLag.Interaction LeadLag.Runner

theorem floor_add_half_le_iff {x : ℚ} : (⌊x + 1 / 2⌋ : ℚ) ≤ x ↔ Int.fract x < 1 / 2 := by
  have hsplit := Int.floor_add_fract x
  have hnonneg := Int.fract_nonneg x
  constructor
  · intro h
    by_contra hge
    have hup : ⌊x⌋ + 1 ≤ ⌊x + 1 / 2⌋ := by
      refine Int.le_floor.mpr ?_
      push_cast
      linarith
    have hcast : ((⌊x⌋ + 1 : ℤ) : ℚ) ≤ ⌊x + 1 / 2⌋ := Int.cast_le.mpr hup
    push_cast at hcast
    linarith [Int.fract_lt_one x]
  · intro h
    have hdown : ⌊x + 1 / 2⌋ < ⌊x⌋ + 1 := by
      refine Int.floor_lt.mpr ?_
      push_cast
      linarith
    have hcast : (⌊x + 1 / 2⌋ : ℚ) ≤ ⌊x⌋ := Int.cast_le.mpr (Int.lt_add_one_iff.mp hdown)
    linarith

/-- The cut-off at a hundred-thousandth removes nothing that rounding leaves. -/
theorem polyTakerFee_eq {notional price rate : ℚ} (h : 0 ≤ notional * rate * price * (1 - price)) :
    polyTakerFee notional price rate =
      (⌊notional * rate * price * (1 - price) * 10 ^ 5 + 1 / 2⌋ : ℚ) / 10 ^ 5 := by
  have hscaled : 0 ≤ notional * rate * price * (1 - price) * 10 ^ 5 := by positivity
  have hround : roundHalfAway (notional * rate * price * (1 - price) * 10 ^ 5) =
      ⌊notional * rate * price * (1 - price) * 10 ^ 5 + 1 / 2⌋ := if_pos hscaled
  simp only [polyTakerFee, hround]
  split
  · rfl
  · rename_i hsmall
    have hlt : (⌊notional * rate * price * (1 - price) * 10 ^ 5 + 1 / 2⌋ : ℚ) < 1 := by
      have hpow : (0 : ℚ) < 10 ^ 5 := by norm_num
      rw [ge_iff_le, div_le_div_iff_of_pos_right hpow, not_le] at hsmall
      exact hsmall
    have hzero : ⌊notional * rate * price * (1 - price) * 10 ^ 5 + 1 / 2⌋ = 0 := by
      have hlow : 0 ≤ ⌊notional * rate * price * (1 - price) * 10 ^ 5 + 1 / 2⌋ :=
        Int.floor_nonneg.mpr (by positivity)
      have hhigh : ⌊notional * rate * price * (1 - price) * 10 ^ 5 + 1 / 2⌋ < 1 := by
        exact_mod_cast hlt
      omega
    rw [hzero]
    simp

/-! ### The cap -/

def spendTarget (cfg : Config) (cash : ℚ) : ℚ :=
  if 0 < cfg.fixedSpendUsd then cfg.fixedSpendUsd else max (cash * cfg.riskFrac) 1

/-- In units of the fifth decimal: the fee of a binding cap is rounded down; below
the cap, the rounded fee fits into what the target leaves. -/
def FeeFits (cash feeMult target : ℚ) : Prop :=
  if cash / (1 + feeMult) ≤ target then
    Int.fract (cash * feeMult / (1 + feeMult) * 10 ^ 5) < 1 / 2
  else (⌊target * feeMult * 10 ^ 5 + 1 / 2⌋ : ℚ) ≤ (cash - target) * 10 ^ 5

instance (cash feeMult target : ℚ) : Decidable (FeeFits cash feeMult target) :=
  inferInstanceAs (Decidable (if cash / (1 + feeMult) ≤ target then
      Int.fract (cash * feeMult / (1 + feeMult) * 10 ^ 5) < 1 / 2
    else (⌊target * feeMult * 10 ^ 5 + 1 / 2⌋ : ℚ) ≤ (cash - target) * 10 ^ 5))

theorem cost_le_cash_iff {cash ask feeRate target : ℚ} (hcash : 0 ≤ cash) (htarget : 0 ≤ target)
    (hmult : 0 ≤ feeRate * ask * (1 - ask)) :
    affordableSpend cash (feeRate * ask * (1 - ask)) target +
        polyTakerFee (affordableSpend cash (feeRate * ask * (1 - ask)) target) ask feeRate ≤ cash ↔
      FeeFits cash (feeRate * ask * (1 - ask)) target := by
  generalize hm : feeRate * ask * (1 - ask) = m at hmult
  have hpos : 0 < 1 + m := by linarith
  have hfee : ∀ spend : ℚ, 0 ≤ spend →
      polyTakerFee spend ask feeRate = (⌊spend * m * 10 ^ 5 + 1 / 2⌋ : ℚ) / 10 ^ 5 := by
    intro spend hspend
    have hraw : spend * feeRate * ask * (1 - ask) = spend * m := by
      rw [← hm]
      ring
    rw [polyTakerFee_eq (by rw [hraw]; positivity), hraw]
  have hunits : ∀ spend n : ℚ, spend + n / 10 ^ 5 ≤ cash ↔ n ≤ (cash - spend) * 10 ^ 5 := by
    intro spend n
    constructor
    · intro h
      linarith
    · intro h
      linarith
  simp only [affordableSpend, hpos.ne', ite_false, FeeFits]
  split
  · rename_i hcap
    have hspend : 0 ≤ cash / (1 + m) := by positivity
    have hleft : (cash - cash / (1 + m)) * 10 ^ 5 = cash * m / (1 + m) * 10 ^ 5 := by
      field_simp
      ring
    have hraw : cash / (1 + m) * m * 10 ^ 5 = cash * m / (1 + m) * 10 ^ 5 := by ring
    rw [min_eq_right hcap, hfee _ hspend, hunits, hleft, hraw]
    exact floor_add_half_le_iff
  · rename_i hslack
    rw [min_eq_left (le_of_lt (not_le.mp hslack)), hfee _ htarget, hunits]

/-! ### The paper BUY -/

theorem paperBuy_cash {cfg : Config} {v : HotView} {t : Theo} {now : ℤ} {c c' : Consumer}
    {plan : BuyPlan} {tr : Trace} (hpaper : cfg.liveExecution = false)
    (hflat : c.paper.havePos = false) (horder : buyCheck cfg v t c.paper = .order plan)
    (hx : Exec (executeBuy cfg v t now c) tr c') :
    c'.paper.cash = c.paper.cash - (plan.spend + polyTakerFee plan.spend plan.ask cfg.feeRate) := by
  obtain ⟨rfl, -, -, -⟩ := buyCheck_order horder
  simp only [executeBuy, hflat, horder, buyFill, hpaper, Bool.false_eq_true, ite_false] at hx
  obtain ⟨_, fill, _, hfill, hrest, rfl⟩ := exec_bind.mp hx
  obtain ⟨rfl, rfl⟩ := exec_done.mp hfill
  obtain ⟨_, tok, _, -, hopened, rfl⟩ := exec_bind.mp hrest
  obtain ⟨rfl, rfl⟩ := exec_done.mp hopened
  rfl

/-- A paper BUY costs at most the cash, and leaves no negative cash, exactly when
its rounded fee fits. -/
theorem buy_affordable_iff {cfg : Config} {v : HotView} {t : Theo} {now : ℤ} {c c' : Consumer}
    {plan : BuyPlan} {tr : Trace} (hpaper : cfg.liveExecution = false)
    (hflat : c.paper.havePos = false) (horder : buyCheck cfg v t c.paper = .order plan)
    (hcash : 0 < c.paper.cash) (hrate : 0 ≤ cfg.feeRate) (hask : plan.ask < 1)
    (hx : Exec (executeBuy cfg v t now c) tr c') :
    (plan.spend + polyTakerFee plan.spend plan.ask cfg.feeRate ≤ c.paper.cash ↔
        FeeFits c.paper.cash (cfg.feeRate * plan.ask * (1 - plan.ask))
          (spendTarget cfg c.paper.cash)) ∧
      (0 ≤ c'.paper.cash ↔
        FeeFits c.paper.cash (cfg.feeRate * plan.ask * (1 - plan.ask))
          (spendTarget cfg c.paper.cash)) := by
  have hleft := paperBuy_cash hpaper hflat horder hx
  obtain ⟨rfl, hchecked, -, -⟩ := buyCheck_order horder
  have hpos := buyRefused_ask_pos hchecked
  have hmult : 0 ≤ cfg.feeRate * (v.book c.paper.pendingOutcome).bestAsk *
      (1 - (v.book c.paper.pendingOutcome).bestAsk) :=
    mul_nonneg (mul_nonneg hrate hpos.le) (sub_nonneg.mpr hask.le)
  have htarget : 0 ≤ spendTarget cfg c.paper.cash := by
    unfold spendTarget
    split
    · rename_i hfixed
      exact hfixed.le
    · exact le_trans zero_le_one (le_max_right _ _)
  have hiff := cost_le_cash_iff hcash.le htarget hmult
  refine ⟨hiff, ?_⟩
  rw [hleft, sub_nonneg]
  exact hiff

def withFee (fixedSpend : ℚ) : Config :=
  { quickEntry with feeRate := 2 / 100, fixedSpendUsd := fixedSpend }

/-- Up is offered at 0.8 and worth 0.99. -/
def offeredUp : HotView :=
  { slug := "btc-300", activeEpoch := 300
    bin := { mid := 110, wallMs := 300500, entryClockWallMs := 300500 }
    K := 100, sigmaBucket := none
    up := { tokenId := "up-300", eventSlug := "btc-300", marketBucketEpoch := 300
            outcome := some .up, bestBid := 78 / 100, bestAsk := 8 / 10 }
    down := { tokenId := "down-300", eventSlug := "btc-300", marketBucketEpoch := 300
              outcome := some .down, bestBid := 18 / 100, bestAsk := 2 / 10 } }

def worthUp : Theo := { remS := 299, sigmaUse := 15 / 100, up := some (99 / 100), down := none }

def pendingUp (cfg : Config) : Consumer :=
  let c := Consumer.start cfg []
  { c with paper := { c.paper with pending := true, pendingSide := some .up } }

def firstBuy (fixedSpend : ℚ) : BuyPlan :=
  buyPlan (withFee fixedSpend) offeredUp worthUp 100 .up

/-- One dollar of a hundred: the fee of 0.0032 fits what the target leaves. -/
theorem small_buy_affordable :
    ∃ tr c', Exec (executeBuy (withFee 1) offeredUp worthUp 0 (pendingUp (withFee 1))) tr c' ∧
      (firstBuy 1).spend + polyTakerFee (firstBuy 1).spend (firstBuy 1).ask (withFee 1).feeRate ≤
        (pendingUp (withFee 1)).paper.cash ∧
      0 ≤ c'.paper.cash := by
  have hrun : ((executeBuy (withFee 1) offeredUp worthUp 0 (pendingUp (withFee 1))).replay
      paperAnswers.script 0).isSome = true := by
    decide +kernel
  obtain ⟨⟨tr, c'⟩, hrun⟩ := Option.isSome_iff_exists.mp hrun
  have horder : buyCheck (withFee 1) offeredUp worthUp (pendingUp (withFee 1)).paper =
      .order (firstBuy 1) := by
    decide +kernel
  have hfits : FeeFits (pendingUp (withFee 1)).paper.cash
      ((withFee 1).feeRate * (firstBuy 1).ask * (1 - (firstBuy 1).ask))
      (spendTarget (withFee 1) (pendingUp (withFee 1)).paper.cash) := by
    decide +kernel
  have hx := exec_replay hrun
  obtain ⟨hcost, hcash⟩ := buy_affordable_iff rfl rfl horder (by decide +kernel) (by decide +kernel)
    (by decide +kernel) hx
  exact ⟨tr, c', hx, hcost.mpr hfits, hcash.mpr hfits⟩

def overspent (c : Consumer) : Bool :=
  match c.trades with
  | .buy r :: _ =>
    decide (r.cashBefore < r.cost + polyTakerFee r.cost r.ask (2 / 100) ∧ c.paper.cash < 0)
  | _ => false

/-- All the cash at an ask of 0.8: the fee of 0.318979… is rounded up, past what
the cap has left for it. -/
theorem buy_makes_cash_negative :
    ∃ c, (runner coarse (withFee 100)).Reachable c ∧ overspent c = true :=
  exists_reachable_of_replay coarse (withFee 100) (signalUp paperAnswers) overspent
    (by decide +kernel)

end LeadLag.Account
