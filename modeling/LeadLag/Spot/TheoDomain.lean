import LeadLag.Binance.Messages
import LeadLag.Runner.Replay
import LeadLag.Runner.Ticks

/-!
# The domain of theo (btc_poly_runner.cpp:1587-1601, 2185-2194, 2650-2677)

The strike, the price of an RTDS tick, sigma and the time left are positive by
the checks of the code that finds them. The price of a Binance message is what
the message says.
-/

namespace LeadLag.Spot
open LeadLag.Binance LeadLag.Core LeadLag.Execution LeadLag.Interaction LeadLag.Runner

/-- The arguments of the formula are in its domain. -/
structure InDomain (M : Libm) (cfg : Config) (v : HotView) : Prop where
  spot : 0 < v.bin.mid
  strike : 0 < v.K
  years : 0 < (v.theo M cfg).remS / secondsPerYear
  sigma : 0 < (v.theo M cfg).sigmaUse

/-- An event that the feeds can cause, where the ticks of Binance messages meet `ok`. -/
inductive FromFeeds (outOfRange : ℚ → ℤ) (ok : StreamTick → Prop) : Event → Prop
  | binance (message : Option Json) (tick : StreamTick) (wallMs : ℤ) (e : Event) :
      handle message = some tick → tick.event? wallMs = some e → ok tick →
      FromFeeds outOfRange ok e
  | rtds (message : Option Json) (ts : List Pipeline.Tick) (t : Pipeline.Tick) :
      Rtds.onMessage outOfRange message = some ts → t ∈ ts →
      FromFeeds outOfRange ok (.chainlinkSpot t.tsMs t.px)
  | other (e : Event) : e.isSpot = false → FromFeeds outOfRange ok e

def Fed (outOfRange : ℚ → ℤ) (ok : StreamTick → Prop) (_ : Consumer) : Label → Prop
  | .event e _ => FromFeeds outOfRange ok e
  | .update _ => True

/-! ### The spot and the strike -/

theorem mid_pos_of_priced {tick : StreamTick} {wallMs : ℤ} {e : Event} {tr : Trace}
    {spot : SpotTick} (h : tick.Priced) (he : tick.event? wallMs = some e)
    (ht : (Label.event e tr).spotTick? = some spot) : 0 < spot.mid := by
  cases tick with
  | bookTicker bid ask =>
    obtain ⟨b, a, rfl, rfl, hpos⟩ := h
    cases he
    cases ht
    exact hpos
  | trade price =>
    obtain ⟨p, rfl, hpos⟩ := h
    cases he
    cases ht
    exact hpos

theorem FromFeeds.mid_pos {outOfRange : ℚ → ℤ} {e : Event} {tr : Trace} {spot : SpotTick}
    (h : FromFeeds outOfRange StreamTick.Priced e)
    (ht : (Label.event e tr).spotTick? = some spot) : 0 < spot.mid := by
  cases h with
  | binance _ _ _ _ _ he hok => exact mid_pos_of_priced hok he ht
  | rtds _ _ t _ _ =>
    unfold Label.spotTick? at ht
    split at ht
    · rename_i heq
      cases heq
    · rename_i heq
      cases heq
    · rename_i heq
      cases heq
      cases ht
      exact t.pos
    · cases ht
  | other _ hother =>
    cases e with
    | binBook | binTrade | chainlinkSpot => cases hother
    | polyQuote | rollover | idle | startup => cases ht

theorem pos_of_filter {o : Option ℚ} {K : ℚ} (h : o.filter (0 < ·) = some K) : 0 < K := by
  obtain ⟨-, hpos⟩ := Option.filter_eq_some_iff.mp h
  exact of_decide_eq_true hpos

/-- Startup and rollover drop a strike that is not positive. -/
theorem strikeInvariant (M : Libm) (cfg : Config) :
    RunnerInvariant M cfg fun c => ∀ K, c.hot.K = some K → 0 < K where
  init hist K hK := by cases hK
  spot h f K hK := h K (f.K.symm.trans hK)
  quote {c q} h K hK := by
    refine h K ?_
    rw [← hK]
    show c.hot.K = ((c.hot.storeSide q).adoptBucket q).K
    unfold HotState.adoptBucket HotState.storeSide
    split <;> split <;> rfl
  rollover _ _ K hK := pos_of_filter hK
  startup _ _ K hK := pos_of_filter hK
  done h := h
  schedule {c v now c₁} h _ _ hs K hK := by
    obtain ⟨a, b, hhot⟩ := hs.hot
    rw [hhot] at hK
    exact h K hK
  execute h _ he K hK := by
    rw [he.hot] at hK
    exact h K hK

section Run

variable {M : Libm} {cfg : Config} {outOfRange : ℚ → ℤ} {c : Consumer}

theorem spot_pos_of_fed
    (h : ((runner M cfg).restrict (Fed outOfRange StreamTick.Priced)).Reachable c) :
    ∀ tick, c.hot.bin = some tick → 0 < tick.mid := by
  refine h.invariant (I := fun c => ∀ tick, c.hot.bin = some tick → 0 < tick.mid) ?_ ?_
  · rintro _ ⟨hist, rfl⟩ tick hbin
    cases hbin
  · rintro s l t _ ih ⟨hst, hfed⟩ tick hbin
    cases ht : l.spotTick? with
    | none =>
      rw [(step_noTick hst ht).1] at hbin
      exact ih tick hbin
    | some spot =>
      rw [step_stores hst ht] at hbin
      obtain rfl : spot = tick := Option.some.inj hbin
      cases l with
      | event e tr => exact FromFeeds.mid_pos hfed ht
      | update tr => cases ht

/-- In every run in which the prices of the Binance messages are positive numbers,
every evaluation of the formula is in its domain. -/
theorem theo_inDomain_of_priced (hc : cfg.Accepted)
    (h : ((runner M cfg).restrict (Fed outOfRange StreamTick.Priced)).Reachable c) :
    ∀ v, c.hot.view? = some v → InDomain M cfg v := by
  intro v hv
  have hshown := HotState.view?_spec hv
  constructor
  · exact spot_pos_of_fed h v.bin hshown.bin
  · exact (strikeInvariant M cfg).reachable h.of_restrict v.K hshown.K
  · have hrem : (1 / 1000 : ℚ) ≤ (v.theo M cfg).remS := le_max_left _ _
    have hyear : 0 < secondsPerYear := by
      unfold secondsPerYear
      norm_num
    have hpos : 0 < (v.theo M cfg).remS := by linarith
    exact div_pos hpos hyear
  · have hclamp := (theoPrices_mem (M := M) hc v.activeEpoch v.bin.wallMs v.bin.mid v.K
      v.sigmaBucket).1.1
    exact lt_of_lt_of_le hc.sigmaClamp.1 hclamp

end Run

/-! ### Two runs -/

/-- A label with one of the given events. -/
def isOneOf (es : List Event) : Label → Bool
  | .event e _ => decide (e ∈ es)
  | .update _ => true

theorem exists_fed_of_replay {outOfRange : ℚ → ℤ} {ok : StreamTick → Prop} (cfg : Config)
    (es : List (Event × Script)) (P : Consumer → Bool)
    (hfed : ∀ e ∈ es.map Prod.fst, FromFeeds outOfRange ok e)
    (h : (replayPlain coarse cfg (fun _ => isOneOf (es.map Prod.fst)) es).any
      (fun x => P x.1) = true) :
    ∃ c, ((runner coarse cfg).restrict (Fed outOfRange ok)).Reachable c ∧ P c = true := by
  obtain ⟨c, hr, hP⟩ := exists_checked_of_replay coarse cfg _ es P h
  refine ⟨c, hr.restrict_mono ?_, hP⟩
  intro s l hl
  cases l with
  | event e tr => exact hfed e (of_decide_eq_true hl)
  | update tr => exact trivial

def tradeAt110 : Json :=
  .obj [("e", .str "trade"), ("s", .str "BTCUSDT"), ("p", .str "110"), ("q", .str "1")]

theorem theo_inDomain_signalUp :
    ∃ c v, ((runner coarse quickEntry).restrict (Fed (fun _ => 0) StreamTick.Priced)).Reachable c ∧
      c.hot.view? = some v ∧ InDomain coarse quickEntry v := by
  have hfed : ∀ e ∈ (signalUp paperAnswers).map Prod.fst,
      FromFeeds (fun _ => 0) StreamTick.Priced e := by
    intro e he
    simp only [signalUp, List.map_cons, List.map_nil, List.mem_cons, List.not_mem_nil,
      or_false] at he
    rcases he with rfl | rfl | rfl | rfl | rfl
    · exact .other _ rfl
    · exact .other _ rfl
    · exact .binance (some tradeAt110) (.trade (some 110)) 300500 _ (by decide +kernel) rfl
        ⟨110, rfl, by norm_num⟩
    · exact .other _ rfl
    · exact .other _ rfl
  obtain ⟨c, hr, hview⟩ := exists_fed_of_replay quickEntry (signalUp paperAnswers)
    (fun c => c.hot.view?.isSome) hfed (by decide +kernel)
  obtain ⟨v, hv⟩ := Option.isSome_iff_exists.mp hview
  exact ⟨c, v, hr, hv, theo_inDomain_of_priced quickEntry_accepted hr v hv⟩

/-- As `signalUp`, but the book of the spot is empty and Down is offered at 0.8. -/
def emptySpot : List (Event × Script) :=
  [(.startup "btc-0" 0 (some 100) false, paperAnswers.script),
   (rolloverTo 300 "btc-300" 100 none none, paperAnswers.script),
   (.binBook 0 0 300500, paperAnswers.script),
   (upQuote "up-300" "btc-300" 300 (18 / 100) (2 / 10), paperAnswers.script),
   (downQuote "down-300" "btc-300" 300 (78 / 100) (8 / 10), paperAnswers.script)]

def boughtDownAtZero (c : Consumer) : Bool :=
  (c.hot.view?.any fun v => decide (v.bin.mid = 0)) && c.paper.havePos &&
    decide (c.paper.side = some .down)

/-- The logarithm of zero makes Down certain, and it is bought. -/
theorem emptySpot_buys :
    ∃ c, ((runner coarse quickEntry).restrict (Fed (fun _ => 0) fun _ => True)).Reachable c ∧
      boughtDownAtZero c = true := by
  have hfed : ∀ e ∈ emptySpot.map Prod.fst, FromFeeds (fun _ => 0) (fun _ => True) e := by
    intro e he
    simp only [emptySpot, List.map_cons, List.map_nil, List.mem_cons, List.not_mem_nil,
      or_false] at he
    rcases he with rfl | rfl | rfl | rfl | rfl
    · exact .other _ rfl
    · exact .other _ rfl
    · exact .binance (some emptyBook) (.bookTicker (some 0) (some 0)) 300500 _
        (by decide +kernel) rfl trivial
    · exact .other _ rfl
    · exact .other _ rfl
  exact exists_fed_of_replay quickEntry emptySpot boughtDownAtZero hfed (by decide +kernel)

theorem theo_outside_domain :
    ¬ ∀ (M : Libm) (cfg : Config) (outOfRange : ℚ → ℤ) (c : Consumer), cfg.Accepted →
      ((runner M cfg).restrict (Fed outOfRange fun _ => True)).Reachable c →
        ∀ v, c.hot.view? = some v → InDomain M cfg v := by
  intro h
  obtain ⟨c, hr, hc⟩ := emptySpot_buys
  simp only [boughtDownAtZero, Bool.and_eq_true] at hc
  obtain ⟨v, hv, hzero⟩ := (Option.any_eq_true _ _).mp hc.1.1
  have hspot := (h coarse quickEntry _ c quickEntry_accepted hr v hv).spot
  rw [of_decide_eq_true hzero] at hspot
  exact lt_irrefl _ hspot

end LeadLag.Spot
