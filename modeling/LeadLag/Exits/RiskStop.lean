import LeadLag.Runner.HotUpdate
import LeadLag.Runner.Replay

/-!
# Exits under the max-loss cap

`--max-loss-usd` is documented to stop new BUYs, but `schedule` returns before
its exit rules as well, and the BUY that reaches the cap sets `risk_stop` while
its position is open.
-/

namespace LeadLag.Exits
open LeadLag.Execution LeadLag.Interaction LeadLag.Runner

theorem scheduleAt_riskStop {cfg : Config} {v : HotView} {t : Theo} {now : ℤ} {c : Consumer}
    (h : c.paper.riskStop = true) : scheduleAt cfg v t now c = c := by
  simp only [scheduleAt, h, if_true]
  split <;> rfl

theorem scheduleAt_exit {cfg : Config} {v : HotView} {t : Theo} {c : Consumer} (now : ℤ)
    (hn : c.paper.havePos = true) (hp : c.paper.pending = false)
    (hr : c.paper.riskStop = false) (hx : exitSignal cfg v t c.paper = true) :
    ∃ reason, (scheduleAt cfg v t now c).paper =
      c.paper.scheduleSell reason (now + cfg.latNs) := by
  simp only [scheduleAt, hp, hr, hn, Bool.false_eq_true, if_false, if_true, scheduleExit]
  simp only [exitSignal, Bool.or_eq_true] at hx
  split
  · rename_i h
    simp only [Bool.and_eq_true, Bool.not_eq_true'] at h
    rcases hx with hx | hx
    · simp [h.1] at hx
    · simp [h.2] at hx
  · exact ⟨_, rfl⟩

def MakesSellPending (cfg : Config) (v : HotView) (t : Theo) (c : Consumer) (o : Outcome) : Prop :=
  Returns (schedule cfg v t c) fun c' =>
    c'.paper.pending = true ∧ c'.paper.pendingAction = some .sell ∧ c'.paper.pendingSide = some o

theorem makesSellPending_iff {cfg : Config} {v : HotView} {t : Theo} {c : Consumer} {o : Outcome} :
    MakesSellPending cfg v t c o ↔ ∀ now,
      (scheduleAt cfg v t now c).paper.pending = true ∧
        (scheduleAt cfg v t now c).paper.pendingAction = some .sell ∧
        (scheduleAt cfg v t now c).paper.pendingSide = some o := by
  simp only [MakesSellPending, schedule, returns_bind, steadyNs, returns_perform, returns_pure]

/-- With a position on side `o`, nothing pending and an exit signal at its bid,
`schedule` makes the SELL pending exactly when `risk_stop` is not set. -/
theorem schedule_sells_iff {cfg : Config} {v : HotView} {t : Theo} {c : Consumer} {o : Outcome}
    (hn : c.paper.havePos = true) (hp : c.paper.pending = false) (hs : c.paper.side = some o)
    (hx : stopLossSignal cfg c.paper (v.book o).bestBid c.paper.qty = true ∨
      takeProfitSignal cfg (t.of o) (v.book o).bestBid = true) :
    MakesSellPending cfg v t c o ↔ c.paper.riskStop = false := by
  rw [makesSellPending_iff]
  constructor
  · intro h
    by_contra hr
    have h₀ := (h 0).1
    rw [scheduleAt_riskStop (by simpa using hr), hp] at h₀
    cases h₀
  · intro hr now
    have hexit : exitSignal cfg v t c.paper = true := by
      simp only [exitSignal, stopSignal, PaperState.outcome_of_side hs, Bool.or_eq_true]
      rcases hx with hx | hx
      · exact .inl (.inl hx)
      · exact .inr hx
    obtain ⟨reason, hsell⟩ := scheduleAt_exit now hn hp hr hexit
    rw [hsell]
    exact ⟨rfl, rfl, hs⟩

/-! ### Two runs -/

def upStopMet (cfg : Config) (c : Consumer) : Bool :=
  c.paper.havePos && !c.paper.pending && decide (c.paper.side = some .up) &&
    c.hot.view?.any fun v => stopLossSignal cfg c.paper (v.book .up).bestBid c.paper.qty

theorem upStopMet_spec {cfg : Config} {c : Consumer} (h : upStopMet cfg c = true) :
    c.paper.havePos = true ∧ c.paper.pending = false ∧ c.paper.side = some .up ∧
      ∃ v, c.hot.view? = some v ∧
        stopLossSignal cfg c.paper (v.book .up).bestBid c.paper.qty = true := by
  simpa [upStopMet, and_assoc, Option.any_eq_true] using h

theorem schedule_sells_after_drop :
    ∃ c v, (runner coarse quickEntry).Reachable c ∧ c.hot.view? = some v ∧
      (MakesSellPending quickEntry v (v.theo coarse quickEntry) c .up ↔
        c.paper.riskStop = false) := by
  obtain ⟨c, hr, hc⟩ := exists_reachable_of_replay coarse quickEntry (signalUp paperAnswers)
    (fun c => !c.updateDue && upStopMet quickEntry (c.stored (c.hot.storeQuote (dropTo (4 / 10)))))
    (by decide +kernel)
  simp only [Bool.and_eq_true, Bool.not_eq_true'] at hc
  obtain ⟨hn, hp, hs, v, hv, hx⟩ := upStopMet_spec hc.2
  have hstep : Step coarse quickEntry c (.event (.polyQuote (dropTo (4 / 10))) [])
      (c.stored (c.hot.storeQuote (dropTo (4 / 10)))) := .event hc.1 nofun (.done _)
  exact ⟨_, v, hr.step hstep, hv, schedule_sells_iff hn hp hs (.inl hx)⟩

/-- A cap of 0.1 USD, which the BUY at a bid of 0.64 just reaches. -/
def capped : Config := { quickEntry with maxLossUsd := some (1 / 10) }

def cappedRun : List (Event × Script) :=
  (signalUp paperAnswers).dropLast ++
    [(.polyQuote (dropTo (64 / 100)), paperAnswers.script),
     (.polyQuote (dropTo (4 / 10)), paperAnswers.script)]

theorem capped_position_not_sold :
    ∃ c v, (runner coarse capped).Reachable c ∧ c.paper.havePos = true ∧
      c.paper.pending = false ∧ c.paper.side = some .up ∧ c.hot.view? = some v ∧
      stopLossSignal capped c.paper (v.book .up).bestBid c.paper.qty = true ∧
      ¬ MakesSellPending capped v (v.theo coarse capped) c .up := by
  obtain ⟨c, hr, hc⟩ := exists_reachable_of_replay coarse capped cappedRun
    (fun c => c.paper.riskStop && upStopMet capped c) (by decide +kernel)
  simp only [Bool.and_eq_true] at hc
  obtain ⟨hn, hp, hs, v, hv, hx⟩ := upStopMet_spec hc.2
  refine ⟨c, v, hr, hn, hp, hs, hv, hx, fun h => ?_⟩
  have h₀ := (makesSellPending_iff.mp h 0).1
  rw [scheduleAt_riskStop hc.1, hp] at h₀
  cases h₀

end LeadLag.Exits
