import LeadLag.Orders.Cooldown

/-!
# Orders without latency (btc_poly_runner.cpp:1457-1655, 1849-1873)

With `lat_ms = 0` and paper orders, `execute_due` settles in the same call what
`schedule` has placed: the prices are the same and so are the conditions, which
both functions spell out on their own. `Settled` lists the outcomes.
-/

namespace LeadLag.Orders
open LeadLag.Execution LeadLag.Interaction LeadLag.Runner

/-! ### The conditions -/

theorem edgeRaw_ok {cfg : Config} {theo : Option ℚ} {ask : ℚ} (h : edgeRaw cfg theo ask = true) :
    (∃ x, theo = some x ∧ cfg.entry ≤ x - ask) ∧ buyAskOk cfg ask = true := by
  simp only [edgeRaw, edge, Bool.and_eq_true, Option.any_map, Option.any_eq_true,
    decide_eq_true_eq] at h
  exact h

theorem entrySignal_ok {cfg : Config} {v : HotView} {t : Theo} {now : ℤ} {h : HotState}
    {o : Outcome} (hs : entrySignal cfg v t now h o = true) :
    edgeRaw cfg (t.of o) (v.book o).bestAsk = true ∧
      entryElapsedOk cfg v.activeEpoch v.bin.entryClockWallMs = true := by
  simp only [entrySignal, edgePersisted, Bool.and_eq_true] at hs
  exact ⟨hs.1.1, hs.2⟩

theorem buyAskOk_pos {cfg : Config} {ask : ℚ} (h : buyAskOk cfg ask = true) :
    0 < ask ∧ (cfg.useBuyAskRange = true → ask ≤ cfg.buyAskMax) := by
  unfold buyAskOk at h
  split at h
  · cases h
  · rename_i hpos
    refine ⟨not_le.mp hpos, fun hrange => ?_⟩
    rw [if_pos hrange, decide_eq_true_eq] at h
    exact h.2

/-- Whatever `schedule` finds worth buying passes every recheck of `execute_due`. -/
theorem buyRefused_of_entrySignal {cfg : Config} {v : HotView} {t : Theo} {now : ℤ} {h : HotState}
    {o : Outcome} (hs : entrySignal cfg v t now h o = true) : buyRefused cfg v t o = false := by
  obtain ⟨hraw, helapsed⟩ := entrySignal_ok hs
  obtain ⟨⟨x, hx, hedge⟩, hask⟩ := edgeRaw_ok hraw
  have hkeep : (edge (t.of o) (v.book o).bestAsk).any (fun e => decide (e < cfg.entry)) =
      false := by
    rw [edge, hx, Option.map_some, Option.any_some, decide_eq_false_iff_not, not_lt]
    exact hedge
  simp only [buyRefused, hkeep, helapsed, Bool.not_true, Bool.false_or]
  unfold buyAskOk at hask
  split at hask
  · cases hask
  · rename_i hpos
    split at hask
    · rename_i hrange
      have hin := of_decide_eq_true hask
      rw [if_pos hrange, decide_eq_false_iff_not]
      rintro (h | h | h)
      · exact hpos h
      · exact absurd hin.1 (not_le.mpr h)
      · exact absurd hin.2 (not_le.mpr h)
    · rename_i hrange
      rw [if_neg hrange, decide_eq_false_iff_not, not_lt]
      exact of_decide_eq_true hask

theorem takeProfitLost_of_signal {cfg : Config} {theo : Option ℚ} {bid : ℚ}
    (h : takeProfitSignal cfg theo bid = true) : takeProfitLost cfg theo bid = false := by
  cases theo with
  | none => rfl
  | some x =>
    have hle := of_decide_eq_true h
    exact decide_eq_false (not_lt.mpr hle)

/-! ### The outcomes -/

/-- The options let a share cost 10^12 dollars. -/
def SharesMayCostTrillion (cfg : Config) : Prop :=
  cfg.entry ≤ 1 - 10 ^ 12 ∧ (cfg.useBuyAskRange = true → 10 ^ 12 ≤ cfg.buyAskMax)

/-- How the order of `c` ends when `execute_due` sees `v`. -/
inductive Settled (M : Libm) (cfg : Config) (v : HotView) (c : Consumer) : Consumer → Prop
  | bought (plan : BuyPlan) (tok : String) :
      c.paper.pendingAction = some .buy → buyCheck cfg v (v.theo M cfg) c.paper = .order plan →
      Settled M cfg v c (c.opened cfg v (v.theo M cfg) plan plan.paperFill tok)
  | belowDollar (plan : BuyPlan) :
      c.paper.pendingAction = some .buy →
      plan = buyPlan cfg v (v.theo M cfg) c.paper.cash c.paper.pendingOutcome → plan.spend < 1 →
      Settled M cfg v c c.clearPending
  | overMaxLoss (plan : BuyPlan) :
      c.paper.pendingAction = some .buy →
      plan = buyPlan cfg v (v.theo M cfg) c.paper.cash c.paper.pendingOutcome →
      maxLossExceeded cfg (c.paper.cash - plan.spend - plan.fee + plan.qty * plan.mid) = true →
      Settled M cfg v c c.riskBlocked
  | sold :
      c.paper.pendingAction = some .sell →
      Settled M cfg v c (c.sold cfg v (v.theo M cfg)
        (saleAtBid cfg c.paper.qty (v.book c.paper.outcome).bestBid none))
  | nothingToSell :
      c.paper.pendingAction = some .sell → c.paper.qty ≤ kZeroQty → SharesMayCostTrillion cfg →
      Settled M cfg v c c.clearPending

theorem Settled.notPending {M : Libm} {cfg : Config} {v : HotView} {c c' : Consumer}
    (h : Settled M cfg v c c') : c'.paper.pending = false := by
  cases h <;> rfl

/-! ### One call -/

/-- A position of no more than 1e-12 shares was bought at 10^12 dollars a share or more. -/
structure Flat (cfg : Config) (c : Consumer) : Prop where
  pending : c.paper.pending = false
  lot : c.paper.havePos = true → c.paper.qty ≤ kZeroQty → SharesMayCostTrillion cfg

section Call

variable {M : Libm} {cfg : Config} {c c' : Consumer} {v : HotView} {tr : Trace}

theorem buy_settled {now : ℤ} (hpaper : cfg.liveExecution = false)
    (hflat : c.paper.havePos = false) (haction : c.paper.pendingAction = some .buy)
    (hkept : buyRefused cfg v (v.theo M cfg) c.paper.pendingOutcome = false)
    (h : Exec (executeBuy cfg v (v.theo M cfg) now c) tr c') : Settled M cfg v c c' := by
  simp only [executeBuy, hflat, Bool.false_eq_true, ite_false] at h
  split at h
  · rename_i hcheck
    obtain ⟨rfl, rfl⟩ := exec_done.mp h
    simp only [buyCheck, hkept, Bool.false_eq_true, ite_false] at hcheck
    split at hcheck
    · rename_i hsmall
      exact .belowDollar _ haction rfl hsmall
    · split at hcheck <;> cases hcheck
  · rename_i hcheck
    obtain ⟨rfl, rfl⟩ := exec_done.mp h
    simp only [buyCheck, hkept, Bool.false_eq_true, ite_false] at hcheck
    split at hcheck
    · cases hcheck
    · split at hcheck
      · rename_i hloss
        exact .overMaxLoss _ haction rfl hloss
      · cases hcheck
  · rename_i plan horder
    simp only [buyFill, hpaper, Bool.false_eq_true, ite_false] at h
    obtain ⟨_, fill, _, hfill, hrest, rfl⟩ := exec_bind.mp h
    obtain ⟨rfl, rfl⟩ := exec_done.mp hfill
    obtain ⟨_, tok, _, -, hopened, rfl⟩ := exec_bind.mp hrest
    obtain ⟨rfl, rfl⟩ := exec_done.mp hopened
    exact .bought plan tok haction horder

theorem sell_settled {now : ℤ} (hpaper : cfg.liveExecution = false)
    (haction : c.paper.pendingAction = some .sell)
    (hlot : c.paper.qty ≤ kZeroQty → SharesMayCostTrillion cfg)
    (hkept : c.paper.exitIsStop = true ∨
      takeProfitSignal cfg ((v.theo M cfg).of c.paper.outcome) (v.book c.paper.outcome).bestBid =
        true)
    (h : Exec (executeSell cfg v (v.theo M cfg) now c) tr c') : Settled M cfg v c c' := by
  have hstill : (!c.paper.exitIsStop && takeProfitLost cfg ((v.theo M cfg).of c.paper.outcome)
      (v.book c.paper.outcome).bestBid) = false := by
    rcases hkept with hstop | hprofit
    · rw [hstop, Bool.not_true, Bool.false_and]
    · rw [takeProfitLost_of_signal hprofit, Bool.and_false]
  simp only [executeSell, hstill, hpaper, Bool.false_eq_true, ite_false] at h
  split at h
  · rename_i hzero
    obtain ⟨rfl, rfl⟩ := exec_done.mp h
    exact .nothingToSell haction hzero (hlot hzero)
  · obtain ⟨rfl, rfl⟩ := exec_done.mp h
    exact .sold haction

theorem due_buy {now : ℤ} (h : Exec (executeDueAt M cfg now c) tr c')
    (hdue : ¬ now < c.paper.dueNs) (hv : c.hot.view? = some v)
    (haction : c.paper.pendingAction = some .buy) :
    Exec (executeBuy cfg v (v.theo M cfg) now c) tr c' := by
  simp only [executeDueAt, if_neg hdue, hv, if_pos haction] at h
  exact h

theorem due_sell {now : ℤ} (h : Exec (executeDueAt M cfg now c) tr c')
    (hdue : ¬ now < c.paper.dueNs) (hv : c.hot.view? = some v)
    (haction : c.paper.pendingAction = some .sell) (hpos : c.paper.havePos = true) :
    Exec (executeSell cfg v (v.theo M cfg) now c) tr c' := by
  have hbuy : c.paper.pendingAction ≠ some .buy := by
    rw [haction]
    nofun
  simp only [executeDueAt, if_neg hdue, hv, if_neg hbuy, if_pos (And.intro haction hpos)] at h
  exact h

theorem scheduled_settled {r₁ r₂ : ℤ} {c₁ : Consumer} (hpaper : cfg.liveExecution = false)
    (hlat : cfg.latMs = 0) (hle : r₁ ≤ r₂) (hv : c.hot.view? = some v) (hflat : Flat cfg c)
    (hs : Scheduled cfg v (v.theo M cfg) r₁ c c₁) (hp : c₁.paper.pending = true)
    (h : Exec (executeDueAt M cfg r₂ c₁) tr c') : Settled M cfg v c₁ c' := by
  have hdue : ¬ r₂ < r₁ + cfg.latNs := by
    simp only [Config.latNs, hlat]
    omega
  cases hs with
  | idle =>
    have hnot := hflat.pending
    exact absurd hp (by simp [hnot])
  | buy a b o _ _ hnone _ hsig =>
    refine buy_settled hpaper hnone rfl ?_ (due_buy h hdue hv rfl)
    have ho : (c.paper.scheduleBuy o (r₁ + cfg.latNs)).pendingOutcome = o :=
      PaperState.pendingOutcome_of_side rfl
    rw [ho]
    exact buyRefused_of_entrySignal hsig
  | sell a b reason _ _ hpos hsig hreason =>
    refine sell_settled hpaper rfl (hflat.lot hpos) ?_ (due_sell h hdue hv rfl hpos)
    simp only [exitSignal, Bool.or_eq_true] at hsig
    rcases hsig with hstop | hprofit
    · left
      rw [hreason.mpr hstop]
      rfl
    · exact .inr hprofit

/-- A bought position is small only if its ask was large. -/
theorem bought_lot {plan : BuyPlan} {o : Outcome} {r₁ : ℤ} {h : HotState}
    (hsig : entrySignal cfg v (v.theo M cfg) r₁ h o = true)
    (hask : plan.ask = (v.book o).bestAsk) (hqty : plan.qty = plan.spend / plan.ask)
    (hspend : 1 ≤ plan.spend) (hsmall : plan.qty ≤ kZeroQty) : SharesMayCostTrillion cfg := by
  obtain ⟨⟨x, hx, hedge⟩, hok⟩ := edgeRaw_ok (entrySignal_ok hsig).1
  obtain ⟨hpos, hmax⟩ := buyAskOk_pos hok
  rw [← hask] at hpos hmax hedge
  have hbig : (10 : ℚ) ^ 12 ≤ plan.ask := by
    rw [hqty, kZeroQty, div_le_div_iff₀ hpos (by norm_num)] at hsmall
    linarith
  have hone : x ≤ 1 := by
    cases o with
    | up => exact (digitalProbs_mem (Or.inl hx)).2
    | down => exact (digitalProbs_mem (Or.inr hx)).2
  constructor
  · linarith
  · intro hrange
    exact hbig.trans (hmax hrange)

theorem scheduled_lot {r₁ : ℤ} {c₁ : Consumer} (hflat : Flat cfg c)
    (hs : Scheduled cfg v (v.theo M cfg) r₁ c c₁) (hpos : c₁.paper.havePos = true)
    (hsmall : c₁.paper.qty ≤ kZeroQty) : SharesMayCostTrillion cfg := by
  cases hs with
  | idle | buy | sell => exact hflat.lot hpos hsmall

theorem settled_flat {r₁ : ℤ} {c₁ : Consumer} (hflat : Flat cfg c)
    (hs : Scheduled cfg v (v.theo M cfg) r₁ c c₁) (hp : c₁.paper.pending = true)
    (h : Settled M cfg v c₁ c') : Flat cfg c' := by
  refine ⟨h.notPending, ?_⟩
  cases h with
  | belowDollar | overMaxLoss | nothingToSell =>
    have hlot := scheduled_lot hflat hs
    exact hlot
  | sold => exact nofun
  | bought plan tok haction horder =>
    intro _ hsmall
    obtain ⟨rfl, -, hspend, -⟩ := buyCheck_order horder
    cases hs with
    | idle =>
      have hnot := hflat.pending
      exact absurd hp (by simp [hnot])
    | sell => cases haction
    | buy a b o _ _ _ _ hsig =>
      have ho : (c.paper.scheduleBuy o (r₁ + cfg.latNs)).pendingOutcome = o :=
        PaperState.pendingOutcome_of_side rfl
      refine bought_lot hsig ?_ rfl hspend hsmall
      rw [ho]
      rfl

/-- A hot update: nothing is placed, or `execute_due` settles what is. -/
theorem update_settled {t t' : ℤ} (hpaper : cfg.liveExecution = false) (hlat : cfg.latMs = 0)
    (hflat : Flat cfg c) (hacc : Accepts clock t tr t')
    (h : Exec (c.onHotUpdate M cfg) tr c') :
    (tr = [] ∧ c' = c) ∨
      ∃ v r₁ rest, c.hot.view? = some v ∧ tr = ⟨.steadyNs, r₁⟩ :: rest ∧
        Scheduled cfg v (v.theo M cfg) r₁ c (scheduleAt cfg v (v.theo M cfg) r₁ c) ∧
        if (scheduleAt cfg v (v.theo M cfg) r₁ c).paper.pending then
          Settled M cfg v (scheduleAt cfg v (v.theo M cfg) r₁ c) c'
        else c' = scheduleAt cfg v (v.theo M cfg) r₁ c := by
  rcases onHotUpdate_executeDue h with ⟨htr, hc, -⟩ | ⟨v, r₁, rest, hv, -, rfl, hx⟩
  · exact .inl ⟨htr, hc⟩
  · have hs := scheduleAt_cases cfg v (v.theo M cfg) r₁ c
    refine .inr ⟨v, r₁, rest, hv, rfl, hs, ?_⟩
    unfold executeDue at hx
    split at hx
    · rename_i hp
      obtain ⟨_, r₂, rest, hr, hrest, rfl⟩ := exec_bind.mp hx
      cases hr with
      | call r₂ hr =>
        obtain ⟨rfl, rfl⟩ := exec_done.mp hr
        obtain ⟨t₁, h₁, hacc⟩ := accepts_cons.mp hacc
        obtain rfl : r₁ = t₁ := h₁.2 r₁ rfl
        have hle : r₁ ≤ r₂ := reading_ge hacc List.mem_cons_self
        rw [if_pos hp]
        exact scheduled_settled hpaper hlat hle hv hflat hs hp hrest
    · rename_i hp
      obtain ⟨-, rfl⟩ := exec_done.mp hx
      rw [if_neg hp]

end Call

/-! ### Runs -/

theorem taken_flat {cfg : Config} {c c' : Consumer} {e : Event} (hflat : Flat cfg c)
    (h : Taken cfg c e c') : Flat cfg c' := by
  cases h with
  | spot | quote | idle | startup => exact ⟨hflat.pending, hflat.lot⟩
  | rollover ev c₁ hf =>
    cases hf with
    | noPosition | kept => exact ⟨hflat.pending, hflat.lot⟩
    | carried | nothingLeft | paperZero | sold => exact ⟨rfl, nofun⟩

theorem flat_reachable {M : Libm} {cfg : Config} {x : Consumer × ℤ}
    (hpaper : cfg.liveExecution = false) (hlat : cfg.latMs = 0)
    (h : (timedRunner M cfg).Reachable x) : Flat cfg x.1 := by
  refine h.invariant (I := fun x => Flat cfg x.1) ?_ ?_
  · rintro _ ⟨⟨hist, hstart⟩, -⟩
    rw [hstart]
    exact ⟨rfl, nofun⟩
  · intro s l t _ hflat hst
    obtain ⟨hstep, hacc⟩ := hst
    cases hstep with
    | event _ _ he => exact taken_flat hflat (take_taken M cfg _ _ _ _ he)
    | update _ he =>
      have hdone : Flat cfg s.1.updateDone := ⟨hflat.pending, hflat.lot⟩
      rcases update_settled hpaper hlat hdone hacc he with
        ⟨-, hsame⟩ | ⟨v, r₁, rest, -, -, hs, hsettled⟩
      · rw [hsame]
        exact hdone
      · split at hsettled
        · rename_i hp
          exact settled_flat hdone hs hp hsettled
        · rename_i hp
          rw [hsettled]
          exact ⟨by simpa using hp, scheduled_lot hdone hs⟩

/-- After a hot update without latency no paper order is pending. What was
scheduled in it was executed in it, but for a BUY of less than a dollar or past
the max-loss cap, and a SELL of no more than 1e-12 shares, which only options
that let a share cost 10^12 dollars can lead to. -/
theorem orders_settled_in_call {M : Libm} {cfg : Config} {x y : Consumer × ℤ} {tr : Trace}
    (hpaper : cfg.liveExecution = false) (hlat : cfg.latMs = 0)
    (hx : (timedRunner M cfg).Reachable x) (hstep : (timedRunner M cfg).step x (.update tr) y) :
    y.1.paper.pending = false ∧
      ((tr = [] ∧ y.1 = x.1.updateDone) ∨
        ∃ v r₁ rest, x.1.hot.view? = some v ∧ tr = ⟨.steadyNs, r₁⟩ :: rest ∧
          if (scheduleAt cfg v (v.theo M cfg) r₁ x.1.updateDone).paper.pending then
            Settled M cfg v (scheduleAt cfg v (v.theo M cfg) r₁ x.1.updateDone) y.1
          else y.1 = scheduleAt cfg v (v.theo M cfg) r₁ x.1.updateDone) := by
  have hafter := flat_reachable hpaper hlat (hx.step hstep)
  have hbefore := flat_reachable hpaper hlat hx
  have hdone : Flat cfg x.1.updateDone := ⟨hbefore.pending, hbefore.lot⟩
  refine ⟨hafter.pending, ?_⟩
  obtain ⟨hst, hacc⟩ := hstep
  cases hst with
  | update _ he =>
    rcases update_settled hpaper hlat hdone hacc he with
      hnone | ⟨v, r₁, rest, hv, htr, -, hsettled⟩
    · exact .inl hnone
    · exact .inr ⟨v, r₁, rest, hv, htr, hsettled⟩

/-! ### Two runs -/

theorem exists_timed_update (cfg : Config) (es : List (Event × Script)) (e : Event)
    (script : Script) (P : Consumer → Trace → Consumer → Bool)
    (h : (replayEvents coarse cfg tick (fun _ _ => true) (.start cfg [], 0) es).any (fun x =>
      (replayUpdate coarse cfg tick (fun _ _ => true) x e script).any fun (y, tr, z) =>
        P y.1 tr z.1) = true) :
    ∃ y tr z, (timedRunner coarse cfg).Reachable y ∧
      (timedRunner coarse cfg).step y (.update tr) z ∧ P y.1 tr z.1 = true := by
  obtain ⟨x, hr, hx⟩ := exists_in_environment coarse cfg (fun _ => True) clock (fun _ _ => true)
    es _ tick_clock trivial h
  obtain ⟨⟨y, tr, z⟩, hup, hP⟩ := (Option.any_eq_true _ _).mp hx
  obtain ⟨⟨tr₀, hstep₀⟩, hstep⟩ := replayUpdate_steps (fun _ => True) clock tick_clock hup
  have hy : (timedRunner coarse cfg).Reachable y := hr.of_restrict.step hstep₀.1
  exact ⟨y, tr, z, hy, hstep.1, hP⟩

theorem entry_settled_in_call :
    ∃ x tr y, (timedRunner coarse quickEntry).Reachable x ∧
      (timedRunner coarse quickEntry).step x (.update tr) y ∧
      (boughtNow x.1 y.1).isSome = true ∧ y.1.paper.pending = false := by
  obtain ⟨x, tr, y, hx, hstep, hbought⟩ := exists_timed_update quickEntry
    ((signalUp paperAnswers).take 4) (upQuote "up-300" "btc-300" 300 (78 / 100) (8 / 10))
    paperAnswers.script (fun c _ c' => (boughtNow c c').isSome) (by decide +kernel)
  exact ⟨x, tr, y, hx, hstep, hbought, (orders_settled_in_call rfl rfl hx hstep).1⟩

/-- Any price is worth paying. -/
def anyPrice : Config :=
  { quickEntry with entry := -10 ^ 13, useBuyAskRange := false, stopLossFrac := 0 }

/-- Down is offered at one cent, which is no ask to buy at. -/
def signalAt (ask : ℚ) : List (Event × Script) :=
  (signalUp paperAnswers).take 3 ++
    [(downQuote "down-300" "btc-300" 300 0 (1 / 100), paperAnswers.script),
     (upQuote "up-300" "btc-300" 300 (1 / 2) ask, paperAnswers.script)]

def sellScheduled (cfg : Config) (c : Consumer) (r₁ : ℤ) : Bool :=
  c.hot.view?.any fun v =>
    let c₁ := scheduleAt cfg v (v.theo coarse cfg) r₁ c.updateDone
    c₁.paper.pending && decide (c₁.paper.pendingAction = some .sell)

def schedulesSellOnly (c : Consumer) (tr : Trace) (c' : Consumer) : Bool :=
  match tr with
  | ⟨.steadyNs, r₁⟩ :: _ =>
    sellScheduled anyPrice c r₁ && c'.paper.havePos && decide (c'.trades = c.trades)
  | _ => false

theorem schedulesSellOnly_spec {c c' : Consumer} {tr : Trace}
    (h : schedulesSellOnly c tr c' = true) :
    ∃ r₁ rest, tr = ⟨.steadyNs, r₁⟩ :: rest ∧ sellScheduled anyPrice c r₁ = true ∧
      c'.paper.havePos = true ∧ c'.trades = c.trades := by
  unfold schedulesSellOnly at h
  split at h
  · rename_i r₁ rest
    simp only [Bool.and_eq_true, decide_eq_true_eq] at h
    obtain ⟨⟨hsell, hpos⟩, hrows⟩ := h
    exact ⟨r₁, rest, rfl, hsell, hpos, hrows⟩
  · cases h

/-- A dollar has bought 5e-13 shares. At a bid of 1 their SELL is scheduled and
then dropped. -/
theorem tiny_lot_never_sold :
    ∃ x rest r₁ y, (timedRunner coarse anyPrice).Reachable x ∧
      (timedRunner coarse anyPrice).step x (.update (⟨.steadyNs, r₁⟩ :: rest)) y ∧
      sellScheduled anyPrice x.1 r₁ = true ∧ y.1.paper.havePos = true ∧
      y.1.trades = x.1.trades := by
  obtain ⟨x, tr, y, hx, hstep, hP⟩ := exists_timed_update anyPrice
    (signalAt (2 * 10 ^ 12)) (upQuote "up-300" "btc-300" 300 1 (2 * 10 ^ 12))
    paperAnswers.script schedulesSellOnly (by decide +kernel)
  obtain ⟨r₁, rest, rfl, hsell, hpos, hrows⟩ := schedulesSellOnly_spec hP
  exact ⟨x, rest, r₁, y, hx, hstep, hsell, hpos, hrows⟩

end LeadLag.Orders
