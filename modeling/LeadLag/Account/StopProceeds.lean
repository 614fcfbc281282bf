import LeadLag.Exits.StopRetry

/-!
# What a stop exit credits

A stop exit may take several stop sales. Only the last one, which leaves
nothing, is credited; what the incomplete ones sold before it is in their totals
and in no row.
-/

namespace LeadLag.Account
open LeadLag.Execution LeadLag.Exits LeadLag.Interaction LeadLag.Runner

def net (r : StopSellUntilFlatResult) : ℚ := r.totalProceeds - r.totalFee

def lastBuy : List TradesRow → Option BuyRow
  | [] => none
  | .buy r :: _ => some r
  | _ :: rest => lastBuy rest

/-- While a position is open the cash is what its BUY left and no stop sale was
complete; after a stop exit it has grown by the last stop sale. -/
structure StopExitInv (c : Consumer) : Prop where
  held : c.paper.havePos = true →
    ∃ b, lastBuy c.trades = some b ∧ c.paper.cash = b.cashAfter ∧
      ∀ r ∈ c.stopSales, r.flat = false
  closed : c.paper.havePos = false → ∀ r earlier, c.stopSales = r :: earlier → r.flat = true →
    ∃ b, lastBuy c.trades = some b ∧ c.paper.cash = b.cashAfter + net r

section StopExitInv

variable {c c' : Consumer}

theorem StopExitInv.frame (inv : StopExitInv c) (hn : c'.paper.havePos = c.paper.havePos)
    (hc : c'.paper.cash = c.paper.cash) (ht : lastBuy c'.trades = lastBuy c.trades)
    (hs : c'.stopSales = c.stopSales) : StopExitInv c' where
  held h := by
    rw [ht, hc, hs]
    exact inv.held (hn ▸ h)
  closed h := by
    rw [ht, hc, hs]
    exact inv.closed (hn ▸ h)

theorem StopExitInv.otherExit (inv : StopExitInv c) (hn : c.paper.havePos = true)
    (hn' : c'.paper.havePos = false) (hs : c'.stopSales = c.stopSales) : StopExitInv c' where
  held h := by simp [hn'] at h
  closed _ r earlier hr hf := by
    obtain ⟨_, _, _, hall⟩ := inv.held hn
    have := hall r (by simp [← hs, hr])
    simp [hf] at this

theorem StopExitInv.rollover {cfg : Config} {ev : Rollover} {c₁ : Consumer}
    (inv : StopExitInv c) (h : ForceSold cfg ev c c₁) : StopExitInv (c₁.enterBucket cfg ev) := by
  have inv₁ : StopExitInv c₁ := by
    cases h with
    | noPosition => exact inv
    | kept => exact inv.frame rfl rfl rfl rfl
    | carried hn | nothingLeft _ hn | paperZero hn | sold _ _ hn => exact inv.otherExit hn rfl rfl
  exact inv₁.frame rfl rfl rfl rfl

theorem StopExitInv.schedule {cfg : Config} {v : HotView} {t : Theo} {now : ℤ} {c₁ : Consumer}
    (inv : StopExitInv c) (h : Scheduled cfg v t now c c₁) : StopExitInv c₁ := by
  cases h <;> exact inv.frame rfl rfl rfl rfl

theorem StopExitInv.execute {M : Libm} {cfg : Config} {c₁ : Consumer}
    (inv : StopExitInv c) (h : Executed M cfg c c₁) : StopExitInv c₁ := by
  cases h with
  | kept => exact inv
  | cleared | unknown | riskBlocked | failed | failedRow => exact inv.frame rfl rfl rfl rfl
  | bought =>
    refine ⟨fun _ => ⟨_, rfl, rfl, ?_⟩, ?_⟩
    · intro r hr
      cases hr
    · intro hn
      cases hn
  | flattened _ _ _ hn => exact inv.otherExit hn rfl rfl
  | soldAtBid _ _ _ _ _ hn => exact inv.otherExit hn rfl rfl
  | stopIncomplete v r untilNs _ _ _ hn _ _ hf =>
    obtain ⟨b, hb, hc, hall⟩ := inv.held hn
    have all : ∀ r' ∈ r :: c.stopSales, r'.flat = false := List.forall_mem_cons.mpr ⟨hf, hall⟩
    exact
      { held := fun _ => ⟨b, hb, hc, all⟩
        closed := fun h => by
          simp [Consumer.coolDown, Consumer.stopIncomplete, Consumer.log, Consumer.recordStopSale,
            hn] at h }
  | soldByStop v r qty _ _ _ hn =>
    obtain ⟨b, hb, hc, -⟩ := inv.held hn
    refine ⟨fun hheld => (by cases hheld), fun _ r' earlier hr _ => ⟨b, hb, ?_⟩⟩
    obtain ⟨rfl, -⟩ := List.cons.inj hr
    exact congrArg (· + net r) hc

end StopExitInv

theorem stopExitInv_runner (M : Libm) (cfg : Config) : RunnerInvariant M cfg StopExitInv where
  init _ := ⟨nofun, fun _ _ _ h => nomatch h⟩
  spot inv _ := inv.frame rfl rfl rfl rfl
  quote inv := inv.frame rfl rfl rfl rfl
  rollover inv h := inv.rollover h
  startup inv _ := inv.frame rfl rfl rfl rfl
  done inv := inv.frame rfl rfl rfl rfl
  schedule inv _ _ h := inv.schedule h
  execute inv _ h := inv.execute h

/-- After a stop exit the cash has changed, since the BUY, by the sum over all
its stop sales exactly when the incomplete ones sold nothing on balance. -/
theorem stop_exit_credit_iff {M : Libm} {cfg : Config} {c : Consumer}
    (h : (runner M cfg).Reachable c) {r : StopSellUntilFlatResult}
    {incomplete : List StopSellUntilFlatResult} (hs : c.stopSales = r :: incomplete)
    (hf : r.flat = true) :
    ∃ b, lastBuy c.trades = some b ∧
      (c.paper.cash - b.cashAfter = (c.stopSales.map net).sum ↔
        (incomplete.map net).sum = 0) := by
  have inv := (stopExitInv_runner M cfg).reachable h
  have hn : c.paper.havePos = false := by
    by_contra hn
    obtain ⟨_, _, _, hall⟩ := inv.held (by simpa using hn)
    have := hall r (by simp [hs])
    simp [hf] at this
  obtain ⟨b, hb, hc⟩ := inv.closed hn r incomplete hs hf
  refine ⟨b, hb, ?_⟩
  rw [hs, List.map_cons, List.sum_cons, hc]
  constructor
  · intro heq
    linarith
  · intro h₀
    linarith

/-! ### Two runs -/

def finishStop : Answers := liveAnswers fun n => .ok (if n ≤ 3 then 3 / 4 else 0)

def stopInTwo : List (Event × Script) :=
  incompleteStopRun ++ [(.polyQuote (dropTo (4 / 10)), finishStop.script)]

def stopInOne : List (Event × Script) :=
  signalUp fillUp ++ [(.polyQuote (dropTo (4 / 10)),
    (liveAnswers fun n => .ok (if n ≤ 3 then 5 / 4 else 0)).script)]

def soldByOneStop (c : Consumer) : Bool :=
  match c.stopSales with
  | [r] => r.flat
  | _ => false

theorem soldByOneStop_spec {c : Consumer} (h : soldByOneStop c = true) :
    ∃ r, c.stopSales = [r] ∧ r.flat = true := by
  unfold soldByOneStop at h
  split at h
  · rename_i r hs
    exact ⟨r, hs, h⟩
  · cases h

def losesProceeds (c : Consumer) : Bool :=
  match c.stopSales, lastBuy c.trades with
  | [r, r'], some b =>
    r.flat && !r'.flat && decide (c.paper.cash - b.cashAfter ≠ (c.stopSales.map net).sum)
  | _, _ => false

theorem losesProceeds_spec {c : Consumer} (h : losesProceeds c = true) :
    ∃ r r' b, c.stopSales = [r, r'] ∧ r.flat = true ∧ r'.flat = false ∧
      lastBuy c.trades = some b ∧ c.paper.cash - b.cashAfter ≠ (c.stopSales.map net).sum := by
  unfold losesProceeds at h
  split at h
  · rename_i r r' b hs hb
    simp only [Bool.and_eq_true, Bool.not_eq_true', decide_eq_true_eq] at h
    obtain ⟨⟨hf, hf'⟩, hne⟩ := h
    exact ⟨r, r', b, hs, hf, hf', hb, hne⟩
  · cases h

theorem stop_in_one_credited :
    ∃ c b, (runner coarse quickLive).Reachable c ∧ lastBuy c.trades = some b ∧
      (c.paper.cash - b.cashAfter = (c.stopSales.map net).sum ↔ ([].map net).sum = 0) := by
  obtain ⟨c, hr, hc⟩ := exists_reachable_of_replay coarse quickLive stopInOne soldByOneStop
    (by decide +kernel)
  obtain ⟨r, hs, hf⟩ := soldByOneStop_spec hc
  obtain ⟨b, hb, hiff⟩ := stop_exit_credit_iff hr hs hf
  exact ⟨c, b, hr, hb, hiff⟩

/-- Half a share at 0.4 is sold by the first stop sale and never credited: the
cash grows by 0.3, the two stop sales took in 0.5. -/
theorem stop_in_two_loses_proceeds :
    ∃ c r r' b, (runner coarse quickLive).Reachable c ∧ c.stopSales = [r, r'] ∧
      r.flat = true ∧ r'.flat = false ∧ lastBuy c.trades = some b ∧
      c.paper.cash - b.cashAfter ≠ (c.stopSales.map net).sum := by
  obtain ⟨c, hr, hc⟩ := exists_reachable_of_replay coarse quickLive stopInTwo losesProceeds
    (by decide +kernel)
  obtain ⟨r, r', b, hs, hf, hf', hb, hne⟩ := losesProceeds_spec hc
  exact ⟨c, r, r', b, hr, hs, hf, hf', hb, hne⟩

end LeadLag.Account
