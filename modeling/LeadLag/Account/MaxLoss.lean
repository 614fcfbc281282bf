import LeadLag.Exits.RiskStop

/-!
# The max-loss cap, in exact arithmetic

A BUY is sent only when the account, with the new position marked at mid, stays
within `--max-loss-usd` of the initial cash. `risk_stop` is set together with
`pending = false`, and `schedule` returns at once while it is set, so that
nothing can be executed any more. The options are rational; `LeadLag.Paper` has
the doubles.
-/

namespace LeadLag.Account
open LeadLag.Execution LeadLag.Exits LeadLag.Interaction LeadLag.Runner

/-! ### The bound -/

/-- For a BUY row: the account `p` just after it is within the cap. -/
def WithinCap (cfg : Config) (m : ℚ) (p : PaperState) : TradesRow → Prop
  | .buy r => cfg.initialCash - (p.cash + p.qty * r.mid) ≤ m + 1 / 10 ^ 9
  | _ => True

theorem withinCap_of_not_order {cfg : Config} {m : ℚ} {p : PaperState} {row : TradesRow}
    (h : row.isOrder = false) : WithinCap cfg m p row := by
  cases row with
  | buy => cases h
  | sell | forceSell | error | rollover => trivial

theorem opened_withinCap {cfg : Config} {v : HotView} {t : Theo} {c : Consumer} {plan : BuyPlan}
    {tok : String} {m : ℚ} (hm : cfg.maxLossUsd = some m)
    (h : buyCheck cfg v t c.paper = .order plan) :
    NewRows (WithinCap cfg m (c.opened cfg v t plan plan.paperFill tok).paper) c
      (c.opened cfg v t plan plan.paperFill tok) := by
  obtain ⟨-, -, -, hcap⟩ := buyCheck_order h
  have hloss : cfg.initialCash - (c.paper.cash - plan.spend - plan.fee + plan.qty * plan.mid) ≤
      m + 1 / 10 ^ 9 := by
    simpa [maxLossExceeded, hm] using hcap
  refine .one rfl ?_
  change cfg.initialCash - (c.paper.cash - (plan.spend + plan.fee) + plan.qty * plan.mid) ≤ _
  linarith

theorem executed_withinCap {M : Libm} {cfg : Config} {c c' : Consumer} {m : ℚ}
    (hl : cfg.liveExecution = false) (hm : cfg.maxLossUsd = some m) (h : Executed M cfg c c') :
    NewRows (WithinCap cfg m c'.paper) c c' := by
  cases h with
  | kept | cleared | unknown | riskBlocked | failed | flattened => exact .same rfl
  | failedRow | stopIncomplete | soldByStop | soldAtBid => exact .one rfl trivial
  | bought v plan fill tok _ _ _ _ hplan hf =>
    obtain rfl := hf hl
    exact opened_withinCap hm hplan

theorem step_withinCap {M : Libm} {cfg : Config} {c c' : Consumer} {l : Label} {m : ℚ}
    (hl : cfg.liveExecution = false) (hm : cfg.maxLossUsd = some m) (h : Step M cfg c l c') :
    NewRows (WithinCap cfg m c'.paper) c c' := by
  cases h with
  | event _ _ he =>
    exact (take_taken M cfg c _ _ _ he).newRows.mono fun _ => withinCap_of_not_order
  | update _ he =>
    cases onHotUpdate_updated M cfg _ _ _ he with
    | skipped => exact .same rfl
    | traded v now c₁ _ _ _ hs hx =>
      have hsame : NewRows (WithinCap cfg m c'.paper) c c₁ := .same hs.trades
      exact hsame.trans (executed_withinCap hl hm hx)

/-! ### The latch -/

def RiskInv (c : Consumer) : Prop := c.paper.riskStop = true → c.paper.pending = false

theorem riskInv_runner (M : Libm) (cfg : Config) : RunnerInvariant M cfg RiskInv where
  init _ := nofun
  spot inv _ := inv
  quote inv := inv
  rollover inv h := by
    cases h with
    | noPosition | kept => exact inv
    | carried | nothingLeft | paperZero | sold => exact fun _ => rfl
  startup inv _ := inv
  done inv := inv
  schedule inv _ _ h := by
    cases h with
    | idle => exact inv
    | buy _ _ _ _ hr | sell _ _ _ _ hr =>
      intro h
      change _ = true at h
      exact absurd (hr.symm.trans h) (by decide)
  execute inv _ h := by
    cases h with
    | kept => exact inv
    | cleared | unknown | riskBlocked | failed | failedRow | bought => exact fun _ => rfl
    | flattened | stopIncomplete | soldByStop | soldAtBid => exact fun _ => rfl

theorem updated_stopped {M : Libm} {cfg : Config} {c c' : Consumer} (inv : RiskInv c)
    (hr : c.paper.riskStop = true) (h : Updated M cfg c c') :
    c'.paper = c.paper ∧ c'.trades = c.trades := by
  cases h with
  | skipped => exact ⟨rfl, rfl⟩
  | traded v now c₁ _ _ _ hs hx =>
    have hp : c.paper.pending = false := inv hr
    cases hs with
    | buy _ _ _ _ hr' | sell _ _ _ _ hr' => simp [hr] at hr'
    | idle =>
      obtain rfl := hx.idle hp
      exact ⟨rfl, rfl⟩

theorem taken_riskStop {cfg : Config} {c c' : Consumer} {e : Event} (h : Taken cfg c e c') :
    c'.paper.riskStop = c.paper.riskStop := by
  cases h with
  | spot | quote | idle | startup => rfl
  | rollover ev c₁ hf => cases hf <;> rfl

theorem step_stopped {M : Libm} {cfg : Config} {c c' : Consumer} {l : Label} (inv : RiskInv c)
    (hr : c.paper.riskStop = true) (h : Step M cfg c l c') :
    c'.paper.riskStop = true ∧ NewRows (fun row => row.isOrder = false) c c' := by
  cases h with
  | event _ _ he =>
    have ht := take_taken M cfg c _ _ _ he
    exact ⟨(taken_riskStop ht).trans hr, ht.newRows⟩
  | update _ he =>
    obtain ⟨hp, ht⟩ :=
      updated_stopped (c := c.updateDone) inv hr (onHotUpdate_updated M cfg _ _ _ he)
    exact ⟨by rw [hp]; exact hr, .same ht⟩

theorem run_stopped {M : Libm} {cfg : Config} {c c' : Consumer} {ls : List Label}
    (inv : RiskInv c) (hr : c.paper.riskStop = true) (h : (runner M cfg).Run c ls c') :
    RiskInv c' ∧ c'.paper.riskStop = true ∧ NewRows (fun row => row.isOrder = false) c c' := by
  induction h with
  | nil => exact ⟨inv, hr, .same rfl⟩
  | snoc _ hst ih =>
    obtain ⟨inv₁, hr₁, hrows⟩ := ih
    obtain ⟨hr₂, hnew⟩ := step_stopped inv₁ hr₁ hst
    exact ⟨(riskInv_runner M cfg).step inv₁ hst, hr₂, hrows.trans hnew⟩

/-- In a paper run with a finite cap every BUY leaves the account, its position
at mid, within the cap, and once `risk_stop` is set it stays set and no order
is executed. -/
theorem max_loss_guarantee {M : Libm} {cfg : Config} {m : ℚ} (hl : cfg.liveExecution = false)
    (hm : cfg.maxLossUsd = some m) {c : Consumer} (h : (runner M cfg).Reachable c) :
    (∀ l c', (runner M cfg).step c l c' → NewRows (WithinCap cfg m c'.paper) c c') ∧
      (c.paper.riskStop = true → ∀ ls c', (runner M cfg).Run c ls c' →
        c'.paper.riskStop = true ∧ NewRows (fun row => row.isOrder = false) c c') := by
  constructor
  · intro l c' hst
    exact step_withinCap hl hm hst
  · intro hr ls c' hrun
    exact (run_stopped ((riskInv_runner M cfg).reachable h) hr hrun).2

end LeadLag.Account
