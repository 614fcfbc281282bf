import LeadLag.Paper.Runs
import LeadLag.Runner.Replay

/-!
# The max-loss cap, with options that are no numbers

The cap is tested on `cash - cost - fee` before the BUY, and the BUY takes `cost + fee`
from the cash: the two differ by rounding. A loss that is NaN passes the test: with
`--initial-cash nan` every BUY does. The latch `risk_stop` needs no arithmetic.
-/

namespace LeadLag.Paper
open LeadLag.Core LeadLag.Execution LeadLag.Interaction
open LeadLag.Runner (HotState)

def TradesRow.isOrder : TradesRow → Bool
  | .buy _ | .sell _ => true
  | .forceSell _ | .rollover _ => false

/-- The rows that were added have `P`. -/
def Adds (P : TradesRow → Prop) (c c' : Consumer) : Prop :=
  ∃ rows, c'.trades = rows ++ c.trades ∧ ∀ row ∈ rows, P row

section Adds

variable {P : TradesRow → Prop} {c c' c'' : Consumer}

theorem Adds.none (h : c'.trades = c.trades) : Adds P c c' :=
  ⟨[], h, fun _ hrow => absurd hrow List.not_mem_nil⟩

theorem Adds.one {row : TradesRow} (h : c'.trades = row :: c.trades) (hrow : P row) :
    Adds P c c' := by
  refine ⟨[row], h, ?_⟩
  intro r hr
  rw [List.mem_singleton.mp hr]
  exact hrow

theorem Adds.trans (h : Adds P c c') (h' : Adds P c' c'') : Adds P c c'' := by
  obtain ⟨rows, hrows, hP⟩ := h
  obtain ⟨rows', hrows', hP'⟩ := h'
  refine ⟨rows' ++ rows, by rw [hrows', hrows, List.append_assoc], ?_⟩
  intro row hrow
  rcases List.mem_append.mp hrow with hrow | hrow
  · exact hP' row hrow
  · exact hP row hrow

end Adds

/-! ### The bound -/

/-- For a BUY row: the loss that the account `p` just after it stands at is within the cap. -/
def WithinCap (opts : Options) (p : PaperState) : TradesRow → Prop
  | .buy r => opts.initialCash - (p.cash + p.qty * r.mid) ≤ opts.maxLossUsd + capSlack
  | _ => True

/-- The amounts of a BUY are at most `m`, and the loss that is tested is off the cap by
more than the two losses can differ. -/
structure ClearOfCap (opts : Options) (money : Double) (plan : BuyPlan) (m : ℚ) : Prop where
  one_le : 1 ≤ m
  le_max : m ≤ 2 ^ 1000
  initialCash : |opts.initialCash.toRat| ≤ m
  cash : |money.toRat| ≤ m
  spend : |plan.spend.toRat| ≤ m
  fee : |plan.fee.toRat| ≤ m
  position : |(plan.qty * plan.mid).toRat| ≤ m
  clear : .finite ((opts.initialCash - plan.projEq money).toRat + m / 2 ^ 45) ≤
    opts.maxLossUsd + capSlack

/-- The amounts of a BUY are finite. The cash that is tested is the cash that is left, or the
difference does not matter. -/
structure CapTested (opts : Options) (money : Double) (plan : BuyPlan) : Prop where
  initialCash : opts.initialCash.isFinite = true
  cash : money.isFinite = true
  spend : plan.spend.isFinite = true
  fee : plan.fee.isFinite = true
  position : (plan.qty * plan.mid).isFinite = true
  rounding : money - plan.spend - plan.fee = money - (plan.spend + plan.fee) ∨
    ∃ m, ClearOfCap opts money plan m

/-- The condition on a run: at an update without a position this is so of each side that
at least a dollar can be spent on within the cap. -/
def TestsLoss (opts : Options) (c : Consumer) : Event → Prop
  | .update .. => c.paper.havePos = false → ∀ o q, c.book o = some q →
      ¬ (buyPlan opts q c.paper.cash).spend < 1 →
      maxLossExceeded opts ((buyPlan opts q c.paper.cash).projEq c.paper.cash) = false →
        CapTested opts c.paper.cash (buyPlan opts q c.paper.cash)
  | _ => True

section Bound

variable {opts : Options} {v : View} {t : Outcome → Double} {c c₁ : Consumer} {plan : BuyPlan}

/-- What is left of the account after the BUY. -/
def BuyPlan.leftEq (plan : BuyPlan) (money : Double) : Double :=
  money - (plan.spend + plan.fee) + plan.qty * plan.mid

/-- The loss that is left is at most the loss that is tested, up to the rounding. -/
theorem ClearOfCap.left_le {money : Double} {m : ℚ} (h : ClearOfCap opts money plan m)
    (htested : CapTested opts money plan) :
    opts.initialCash - plan.leftEq money ≤ opts.maxLossUsd + capSlack := by
  have hclear := h.clear
  obtain ⟨hone, hmax, hI, hC, hS, hF, hQ, -⟩ := h
  have hbig : 2 ^ 23 * m ≤ 2 ^ 1023 := by
    have hpow : (2 : ℚ) ^ 1023 = 2 ^ 23 * 2 ^ 1000 := by rw [← pow_add]
    rw [hpow]
    exact mul_le_mul_of_nonneg_left hmax (by positivity)
  have hroom {k : ℚ} (hk : k ≤ 2 ^ 23 * m) : k ≤ 2 ^ 1023 := hk.trans hbig
  unfold BuyPlan.leftEq
  unfold BuyPlan.projEq at hclear
  rw [Double.eq_finite_toRat htested.initialCash, Double.eq_finite_toRat htested.cash,
    Double.eq_finite_toRat htested.spend, Double.eq_finite_toRat htested.fee,
    Double.eq_finite_toRat htested.position] at hclear ⊢
  generalize opts.initialCash.toRat = I at hI hclear ⊢
  generalize money.toRat = C at hC hclear ⊢
  generalize plan.spend.toRat = S at hS hclear ⊢
  generalize plan.fee.toRat = F at hF hclear ⊢
  generalize (plan.qty * plan.mid).toRat = Q at hQ hclear ⊢
  generalize opts.maxLossUsd + capSlack = bound at hclear ⊢
  -- the cash less the spend and then the fee, as it is tested
  obtain ⟨a, ha, haerr, hale⟩ := Double.sub_near hC hS (by linarith) (hroom (by linarith))
  obtain ⟨b, hb, hberr, hble⟩ := Double.sub_near hale hF (by linarith) (hroom (by linarith))
  obtain ⟨e, he, heerr, hele⟩ := Double.add_near hble hQ (by linarith) (hroom (by linarith))
  obtain ⟨l, hl, hlerr, -⟩ := Double.sub_near hI hele (by linarith) (hroom (by linarith))
  rw [ha, hb, he, hl] at hclear
  -- the cash less both at once, as it is left
  obtain ⟨f, hf, hferr, hfle⟩ := Double.add_near hS hF (by linarith) (hroom (by linarith))
  obtain ⟨g, hg, hgerr, hgle⟩ := Double.sub_near hC hfle (by linarith) (hroom (by linarith))
  obtain ⟨k, hk, hkerr, hkle⟩ := Double.add_near hgle hQ (by linarith) (hroom (by linarith))
  obtain ⟨r, hr, hrerr, -⟩ := Double.sub_near hI hkle (by linarith) (hroom (by linarith))
  rw [hf, hg, hk, hr]
  have hdiff : r ≤ l + m / 2 ^ 45 := by
    rw [abs_le] at haerr hberr heerr hlerr hferr hgerr hkerr hrerr
    linarith
  exact Double.le_trans (Double.finite_le_finite.mpr hdiff) hclear

theorem opened_withinCap (hm : opts.maxLossUsd.isFinite = true) (tok : String)
    (h : buyCheck opts v t c.paper = .order plan) (htested : CapTested opts c.paper.cash plan) :
    Adds (WithinCap opts (c.opened opts v t plan tok).paper) c (c.opened opts v t plan tok) := by
  suffices hleft : opts.initialCash - plan.leftEq c.paper.cash ≤ opts.maxLossUsd + capSlack from
    Adds.one rfl hleft
  rcases htested.rounding with hsame | ⟨m, hclear⟩
  · obtain ⟨-, -, -, hcap⟩ := buyCheck_order h
    have hnot : ¬ (opts.maxLossUsd + capSlack < opts.initialCash - plan.projEq c.paper.cash) := by
      rw [maxLossExceeded, hm, Bool.true_and] at hcap
      exact of_decide_eq_false hcap
    have hbound : (opts.maxLossUsd + capSlack).isNaN = false := by
      rw [Double.isNaN_add hm]
      decide +kernel
    have hcost : (plan.spend + plan.fee).isNaN = false := by
      rw [Double.isNaN_add htested.spend]
      exact Double.isNaN_of_isFinite htested.fee
    have hloss : (opts.initialCash - plan.projEq c.paper.cash).isNaN = false := by
      rw [Double.isNaN_sub htested.initialCash, BuyPlan.projEq, hsame,
        Double.add_isNaN htested.position, Double.isNaN_sub htested.cash]
      exact hcost
    have hwithin := Double.le_of_not_lt hloss hbound hnot
    rw [BuyPlan.projEq, hsame] at hwithin
    exact hwithin
  · exact hclear.left_le htested

theorem executed_withinCap (hm : opts.maxLossUsd.isFinite = true) (hv : c.view? = some v)
    (htests : c.paper.havePos = false → ∀ o q, c.book o = some q →
      ¬ (buyPlan opts q c.paper.cash).spend < 1 →
      maxLossExceeded opts ((buyPlan opts q c.paper.cash).projEq c.paper.cash) = false →
        CapTested opts c.paper.cash (buyPlan opts q c.paper.cash))
    (h : Executed opts v t c c₁) : Adds (WithinCap opts c₁.paper) c c₁ := by
  cases h with
  | kept => exact .none rfl
  | dropped => exact .none rfl
  | bought plan tok hp ha hn hplan =>
    obtain ⟨hdef, -, hdollar, hcap⟩ := buyCheck_order hplan
    obtain ⟨-, -, hbook⟩ := Consumer.view?_spec hv
    rw [hdef] at hdollar hcap
    have htested := htests hn _ _ (hbook c.paper.pendingOutcome) hdollar hcap
    rw [← hdef] at htested
    exact opened_withinCap hm tok hplan htested
  | sold => exact .one rfl trivial

end Bound

theorem rollover_adds (opts : Options) (ev : Rollover) (c : Consumer) :
    Adds (fun row => row.isOrder = false) c (c.onRollover opts ev) := by
  have hposition : Adds (fun row => row.isOrder = false) c (rolloverPosition opts ev c) := by
    unfold rolloverPosition
    split
    · split
      · exact .none rfl
      · split
        · exact .none rfl
        · exact .one rfl rfl
    · exact .none rfl
  exact hposition.trans (.one rfl rfl)

theorem withinCap_of_not_order {opts : Options} {p : PaperState} {row : TradesRow}
    (h : row.isOrder = false) : WithinCap opts p row := by
  cases row with
  | buy => cases h
  | sell | forceSell | rollover => trivial

theorem next_withinCap {opts : Options} {theo : HotState → Outcome → Double} {c c' : Consumer}
    {e : Event} (hm : opts.maxLossUsd.isFinite = true) (hcond : TestsLoss opts c e)
    (h : Next opts theo c e c') : Adds (WithinCap opts c'.paper) c c' := by
  cases h with
  | spot => exact .none rfl
  | quote q => exact .none ((storeQuote_frame q c).2.1)
  | rollover ev =>
    obtain ⟨rows, hrows, hP⟩ := rollover_adds opts ev c
    exact ⟨rows, hrows, fun row hrow => withinCap_of_not_order (hP row hrow)⟩
  | startup => exact .none rfl
  | skipped => exact .none rfl
  | traded now due tok v c₁ c₂ hv hen hs hx =>
    have hview : c₁.view? = some v := by
      cases hs <;> exact hv
    have hsame : Adds (WithinCap opts c'.paper) c c₁ := by
      cases hs <;> exact .none rfl
    refine hsame.trans (executed_withinCap hm hview ?_ hx)
    intro hn o q hq hdollar hcap
    have hbefore : c.paper.havePos = false := by
      cases hs <;> exact hn
    cases hs with
    | idle | buy | sell => exact hcond hbefore o q hq hdollar hcap

/-! ### The latch -/

def RiskInv (c : Consumer) : Prop := c.paper.riskStop = true → c.paper.pending = false

theorem rollover_riskStop (opts : Options) (ev : Rollover) (c : Consumer) :
    (c.onRollover opts ev).paper.riskStop = c.paper.riskStop ∧
      ((c.onRollover opts ev).paper.pending = true → c.paper.pending = true) := by
  show (rolloverPosition opts ev c).paper.riskStop = _ ∧
    ((rolloverPosition opts ev c).paper.pending = true → _)
  unfold rolloverPosition
  split
  · split
    · exact ⟨rfl, nofun⟩
    · split
      · exact ⟨rfl, nofun⟩
      · exact ⟨rfl, nofun⟩
  · exact ⟨rfl, id⟩

section Latch

variable {opts : Options} {theo : HotState → Outcome → Double} {c c' : Consumer} {e : Event}

theorem RiskInv.next (inv : RiskInv c) (h : Next opts theo c e c') : RiskInv c' := by
  cases h with
  | spot => exact inv
  | quote q =>
    intro hr
    rw [(storeQuote_frame q c).1] at hr ⊢
    exact inv hr
  | rollover ev =>
    obtain ⟨hstop, hpending⟩ := rollover_riskStop opts ev c
    intro hr
    rw [hstop] at hr
    exact Bool.eq_false_iff.mpr fun hp => Bool.eq_false_iff.mp (inv hr) (hpending hp)
  | startup => exact inv
  | skipped => exact inv
  | traded now due tok v c₁ c₂ hv hen hs hx =>
    have hscheduled : RiskInv c₁ := by
      cases hs with
      | idle => exact inv
      | buy _ _ _ _ hr => exact fun h => absurd (hr.symm.trans h) (by decide)
      | sell _ _ _ _ hr => exact fun h => absurd (hr.symm.trans h) (by decide)
    cases hx with
    | kept => exact hscheduled
    | dropped => exact fun _ => rfl
    | bought => exact fun _ => rfl
    | sold => exact fun _ => rfl

theorem next_stopped (inv : RiskInv c) (hr : c.paper.riskStop = true)
    (h : Next opts theo c e c') :
    c'.paper.riskStop = true ∧ Adds (fun row => row.isOrder = false) c c' := by
  cases h with
  | spot => exact ⟨hr, .none rfl⟩
  | quote q => exact ⟨by rw [(storeQuote_frame q c).1, hr], .none ((storeQuote_frame q c).2.1)⟩
  | rollover ev => exact ⟨(rollover_riskStop opts ev c).1.trans hr, rollover_adds opts ev c⟩
  | startup => exact ⟨hr, .none rfl⟩
  | skipped => exact ⟨hr, .none rfl⟩
  | traded now due tok v c₁ c₂ hv hen hs hx =>
    have hp : c.paper.pending = false := inv hr
    -- `schedule` places nothing, and `execute_due` finds nothing pending
    cases hs with
    | buy _ _ _ _ hr' => exact absurd (hr'.symm.trans hr) (by decide)
    | sell _ _ _ _ hr' => exact absurd (hr'.symm.trans hr) (by decide)
    | idle a b =>
      cases hx with
      | kept => exact ⟨hr, .none rfl⟩
      | dropped _ _ hp' => exact absurd (hp.symm.trans hp') (by decide)
      | bought _ _ hp' => exact absurd (hp.symm.trans hp') (by decide)
      | sold hp' => exact absurd (hp.symm.trans hp') (by decide)

theorem run_stopped {es : List Event} (inv : RiskInv c) (hr : c.paper.riskStop = true)
    (h : (paper opts theo).Run c es c') :
    RiskInv c' ∧ c'.paper.riskStop = true ∧ Adds (fun row => row.isOrder = false) c c' := by
  induction h with
  | nil => exact ⟨inv, hr, .none rfl⟩
  | snoc _ hstep ih =>
    obtain ⟨inv₁, hr₁, hrows⟩ := ih
    have hnext := next_cases hstep
    obtain ⟨hr₂, hnew⟩ := next_stopped inv₁ hr₁ hnext
    exact ⟨inv₁.next hnext, hr₂, hrows.trans hnew⟩

theorem riskInv_reachable (h : (paper opts theo).Reachable c) : RiskInv c := by
  refine h.invariant ?_ ?_
  · rintro c₀ ⟨hist, rfl⟩
    exact nofun
  · intro c₀ e c₁ _ inv hstep
    exact inv.next (next_cases hstep)

/-- With a finite cap: in a run whose updates find finite amounts, and no loss that the
rounding takes across the cap, every BUY leaves the account, its position at the mid,
within the cap. In every run `risk_stop` stays set once
it is, and no order is executed from then on. -/
theorem max_loss_kept (hm : opts.maxLossUsd.isFinite = true) :
    (∀ c, ((paper opts theo).restrict (TestsLoss opts)).Reachable c → ∀ e c',
      ((paper opts theo).restrict (TestsLoss opts)).step c e c' →
        Adds (WithinCap opts c'.paper) c c') ∧
    ∀ c, (paper opts theo).Reachable c → c.paper.riskStop = true → ∀ es c',
      (paper opts theo).Run c es c' →
        c'.paper.riskStop = true ∧ Adds (fun row => row.isOrder = false) c c' := by
  constructor
  · intro c _ e c' hstep
    exact next_withinCap hm hstep.2 (next_cases hstep.1)
  · intro c hreach hr es c' hrun
    exact (run_stopped (riskInv_reachable hreach) hr hrun).2

end Latch

/-! ### Runs with a cap -/

/-- The amounts are finite, and rounding does not matter to the cost. -/
def keepsCost (opts : Options) (money : Double) (plan : BuyPlan) : Bool :=
  opts.initialCash.isFinite && money.isFinite && plan.spend.isFinite && plan.fee.isFinite &&
    (plan.qty * plan.mid).isFinite &&
    decide (money - plan.spend - plan.fee = money - (plan.spend + plan.fee))

def keepsCosts (opts : Options) (c : Consumer) : Event → Bool
  | .update .. => [Outcome.up, .down].all fun o =>
      (c.book o).all fun q => keepsCost opts c.paper.cash (buyPlan opts q c.paper.cash)
  | _ => true

theorem testsLoss_of_keepsCosts {opts : Options} (c : Consumer) (e : Event)
    (h : keepsCosts opts c e = true) : TestsLoss opts c e := by
  cases e with
  | spot | quote | rollover | startup => trivial
  | update now due tok =>
    intro _ o q hq _ _
    have hkept := List.all_eq_true.mp h o (by cases o <;> decide)
    rw [hq] at hkept
    simp only [Option.all_some, keepsCost, Bool.and_eq_true, decide_eq_true_eq] at hkept
    obtain ⟨⟨⟨⟨⟨hinitial, hcash⟩, hspend⟩, hfee⟩, hposition⟩, hsame⟩ := hkept
    exact ⟨hinitial, hcash, hspend, hfee, hposition, .inl hsame⟩

/-- `--max-loss-usd 0.1`. -/
def capped : Options := { quickEntry with maxLossUsd := .round (1 / 10) }

def buysNext (opts : Options) (Q : PaperState → Bool) (c : Consumer) : Bool :=
  (next opts (digitalTheo Runner.coarse {}) c (.update 0 0 "up-300")).any fun c' =>
    Q c'.paper && match c'.trades with
      | .buy _ :: rest => decide (rest = c.trades)
      | _ => false

theorem buysNext_spec {opts : Options} {Q : PaperState → Bool} {c : Consumer}
    (h : buysNext opts Q c = true) : ∃ c' r,
      (paper opts (digitalTheo Runner.coarse {})).step c (.update 0 0 "up-300") c' ∧
      Q c'.paper = true ∧ c'.trades = .buy r :: c.trades := by
  obtain ⟨c', hnext, hc⟩ := (Option.any_eq_true _ _).mp h
  obtain ⟨hQ, hrow⟩ := Bool.and_eq_true_iff.mp hc
  split at hrow
  · rename_i r rest htrades
    rw [of_decide_eq_true hrow] at htrades
    exact ⟨c', r, hnext, hQ, htrades⟩
  · cases hrow

/-- A BUY at 0.8 that is worth 0.72 loses the cap, and latches. -/
theorem max_loss_kept_at_cap : ∃ c c' r,
    (paper capped (digitalTheo Runner.coarse {})).step c (.update 0 0 "up-300") c' ∧
      c'.trades = .buy r :: c.trades ∧ c'.paper.riskStop = true ∧
      Adds (WithinCap capped c'.paper) c c' := by
  obtain ⟨c, hr, hc⟩ := exists_reachable_of_replay capped (digitalTheo Runner.coarse {})
    (keepsCosts capped) testsLoss_of_keepsCosts (signalUp (64 / 100))
    (fun c => keepsCosts capped c (.update 0 0 "up-300") &&
      buysNext capped PaperState.riskStop c) (by decide +kernel)
  obtain ⟨hkept, hbuys⟩ := Bool.and_eq_true_iff.mp hc
  obtain ⟨c', r, hstep, hstop, hrow⟩ := buysNext_spec hbuys
  exact ⟨c, c', r, hstep, hrow, hstop, (max_loss_kept (by decide +kernel)).1 c hr _ c'
    ⟨hstep, testsLoss_of_keepsCosts c _ hkept⟩⟩

/-- `--max-loss-usd 0.1 --initial-cash nan`. -/
def nanCash : Options := { capped with initialCash := .nan }

theorem max_loss_of_nan_cash :
    ¬ ∀ (opts : Options), opts.maxLossUsd.isFinite = true →
      ∀ c, (paper opts (digitalTheo Runner.coarse {})).Reachable c → ∀ e c',
        (paper opts (digitalTheo Runner.coarse {})).step c e c' →
          Adds (WithinCap opts c'.paper) c c' := by
  intro h
  obtain ⟨c, hr, hc⟩ := exists_reachable_of_replay nanCash (digitalTheo Runner.coarse {})
    (fun _ _ => true) (P := fun _ _ => True) (fun _ _ _ => trivial) (signalUp (78 / 100))
    (buysNext nanCash fun _ => true) (by decide +kernel)
  obtain ⟨c', r, hstep, -, hrow⟩ := buysNext_spec hc
  obtain ⟨rows, hrows, hwithin⟩ := h nanCash (by decide +kernel) c hr.of_restrict _ c' hstep
  have hone : rows = [.buy r] := List.append_cancel_right (hrows.symm.trans hrow)
  have hbuy : Double.nan - (c'.paper.cash + c'.paper.qty * r.mid) ≤ capped.maxLossUsd + capSlack :=
    hwithin (.buy r) (by rw [hone]; exact List.mem_singleton_self _)
  have hnumber := (Double.le_iff.mp hbuy).1
  cases hnumber

end LeadLag.Paper
