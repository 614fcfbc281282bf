import LeadLag.Runner.Orders
import LeadLag.Runner.Replay

/-!
# Quotes of the current bucket

A Rollover replaces the slug, the epoch, the strike and sigma but keeps the two
quotes, and a quote is stored whatever epoch it carries. So a side may hold the
prices of another bucket. Trades use prices of the current bucket in the runs
in which no order falls due on such a side.
-/

namespace LeadLag.Quotes
open LeadLag.Execution LeadLag.Interaction LeadLag.Runner

/-! ### Where the prices come from -/

def QuotedIn (ls : List Label) (epoch : ℤ) (side : Option Outcome) (bid ask : ℚ) : Prop :=
  ∃ q tr, Label.event (.polyQuote q) tr ∈ ls ∧ q.outcome.isSome = true ∧ q.outcome = side ∧
    q.marketBucketEpoch = epoch ∧ q.bestBid = bid ∧ q.bestAsk = ask

def OrderQuotedIn (ls : List Label) (epoch : ℤ) (oi : OrderIntent) : Prop :=
  ∃ q tr, Label.event (.polyQuote q) tr ∈ ls ∧ q.outcome.isSome = true ∧
    q.marketBucketEpoch = epoch ∧ WorstPriceFrom q oi

def RowQuotedIn (ls : List Label) (epoch : ℤ) : TradesRow → Prop
  | .buy r => QuotedIn ls epoch r.side r.bid r.ask
  | .sell r => QuotedIn ls epoch r.side r.bid r.ask
  | _ => True

def Delivered (ls : List Label) (h : HotState) : Prop :=
  ∀ o q, h.book o = some q → q.outcome = some o ∧ ∃ tr, Label.event (.polyQuote q) tr ∈ ls

theorem Delivered.kept {ls : List Label} {h h' : HotState} (hd : Delivered ls h)
    (hb : ∀ o, h'.book o = h.book o) (l : Label) : Delivered (ls ++ [l]) h' := by
  intro o q hq
  rw [hb] at hq
  obtain ⟨ho, tr, htr⟩ := hd o q hq
  exact ⟨ho, tr, List.mem_append_left _ htr⟩

theorem Delivered.storeQuote {ls : List Label} {h : HotState} (hd : Delivered ls h) (q : Quote)
    (tr : Trace) : Delivered (ls ++ [.event (.polyQuote q) tr]) (h.storeQuote q) := by
  intro o q' hq'
  rw [HotState.book_storeQuote] at hq'
  split at hq'
  · rename_i ho
    cases hq'
    exact ⟨ho, tr, List.mem_append_right _ (List.mem_singleton.mpr rfl)⟩
  · obtain ⟨ho, tr', htr'⟩ := hd o q' hq'
    exact ⟨ho, tr', List.mem_append_left _ htr'⟩

theorem Delivered.snoc {M : Libm} {cfg : Config} {ls : List Label} {c c' : Consumer} {l : Label}
    (hd : Delivered ls c.hot) (h : Step M cfg c l c') : Delivered (ls ++ [l]) c'.hot := by
  cases h with
  | update _ he =>
    obtain ⟨a, b, hab⟩ := (onHotUpdate_updated M cfg _ _ _ he).hot
    refine hd.kept (fun o => ?_) _
    rw [hab, HotState.book_withEdges]
    rfl
  | event hdue hstart he =>
    rename_i e tr
    cases take_taken M cfg c _ _ _ he with
    | spot h f => exact hd.kept f.book _
    | rollover ev c₁ hf =>
      refine hd.kept (fun o => ?_) _
      rw [← hf.hot]
      cases o <;> rfl
    | idle => exact hd.kept (fun _ => rfl) _
    | startup => exact hd.kept (fun o => by cases o <;> rfl) _
    | quote q => exact hd.storeQuote q tr

theorem delivered_run {M : Libm} {cfg : Config} {s c : Consumer} {ls : List Label}
    (hs : (runner M cfg).init s) (h : (runner M cfg).Run s ls c) : Delivered ls c.hot := by
  induction h with
  | nil =>
    obtain ⟨hist, rfl⟩ := hs
    intro o q hq
    cases o <;> cases hq
  | snoc _ hst ih => exact ih.snoc hst

/-! ### Trades on fresh sides -/

def ofActiveBucket (h : HotState) (o : Outcome) : Bool :=
  (h.book o).any fun q => decide (q.marketBucketEpoch = h.activeEpoch)

/-- The steps allowed: no order is due on a side whose last quote is of another
bucket. -/
def freshSides (M : Libm) (cfg : Config) (c : Consumer) : Label → Bool
  | .update (⟨.steadyNs, r₁⟩ :: ⟨.steadyNs, r₂⟩ :: _) =>
    (!orderDueOn M cfg c r₁ r₂ .up || ofActiveBucket c.hot .up) &&
      (!orderDueOn M cfg c r₁ r₂ .down || ofActiveBucket c.hot .down)
  | _ => true

theorem freshSides_spec {M : Libm} {cfg : Config} {c : Consumer} {r₁ r₂ : ℤ} {rest : Trace}
    {o : Outcome}
    (h : freshSides M cfg c (.update (⟨.steadyNs, r₁⟩ :: ⟨.steadyNs, r₂⟩ :: rest)) = true)
    (hd : orderDueOn M cfg c r₁ r₂ o = true) :
    ∃ q, c.hot.book o = some q ∧ q.marketBucketEpoch = c.hot.activeEpoch := by
  simp only [freshSides, Bool.and_eq_true, Bool.or_eq_true, Bool.not_eq_true'] at h
  have hfresh : ofActiveBucket c.hot o = true := by
    cases o with
    | up => exact h.1.resolve_left (by simp [hd])
    | down => exact h.2.resolve_left (by simp [hd])
  simpa [ofActiveBucket, Option.any_eq_true] using hfresh

/-- The row is of a trade on the side `o` at the prices stored there. -/
def TradedOn (h : HotState) (o : Outcome) (side : Option Outcome) (bid ask : ℚ) : Prop :=
  side = some o ∧ ∃ q, h.book o = some q ∧ q.bestBid = bid ∧ q.bestAsk = ask

def RowTraded (c : Consumer) : TradesRow → Prop
  | .buy r => TradedOn c.hot c.paper.orderOutcome r.side r.bid r.ask
  | .sell r => TradedOn c.hot c.paper.orderOutcome r.side r.bid r.ask
  | _ => True

theorem tradedOn_view {c : Consumer} {v : HotView} {o : Outcome} {side : Option Outcome}
    (hv : c.hot.view? = some v) (hoo : c.paper.orderOutcome = o) (hs : side = some o) :
    TradedOn c.hot c.paper.orderOutcome side (v.book o).bestBid (v.book o).bestAsk := by
  rw [hoo]
  exact ⟨hs, v.book o, (HotState.view?_spec hv).book o, rfl, rfl⟩

theorem executed_row {M : Libm} {cfg : Config} {c c' : Consumer} {row : TradesRow}
    (hside : SideInv c) (h : Executed M cfg c c') (hrow : c'.trades = row :: c.trades) :
    RowTraded c row := by
  have same {P : Prop} (h : c.trades = row :: c.trades) : P :=
    absurd h.symm (List.cons_ne_self row c.trades)
  cases h with
  | kept | cleared | unknown | riskBlocked | failed | flattened => exact same hrow
  | failedRow | stopIncomplete =>
    obtain ⟨rfl, -⟩ := List.cons.inj hrow
    trivial
  | bought v plan fill tok hp ha hn hv hplan =>
    obtain ⟨rfl, -⟩ := List.cons.inj hrow
    obtain ⟨o, ho⟩ := hside.buy hp ha
    obtain rfl : c.paper.pendingOutcome = o := PaperState.pendingOutcome_of_side ho
    have hoo : c.paper.orderOutcome = c.paper.pendingOutcome := by
      rw [PaperState.orderOutcome, if_pos ha]
    obtain ⟨rfl, -⟩ := buyCheck_order hplan
    exact tradedOn_view hv hoo ho
  | soldByStop v _ _ _ _ ha hn _ hv | soldAtBid v _ _ _ ha hn hv =>
    obtain ⟨rfl, -⟩ := List.cons.inj hrow
    obtain ⟨o, ho⟩ := hside.position hn
    obtain rfl : c.paper.outcome = o := PaperState.outcome_of_side ho
    have hoo : c.paper.orderOutcome = c.paper.outcome := by simp [PaperState.orderOutcome, ha]
    exact tradedOn_view hv hoo ho

theorem freshSides_update {M : Libm} {cfg : Config} {c c' : Consumer} {tr : Trace}
    (hfresh : freshSides M cfg c (.update tr) = true)
    (he : Exec (c.updateDone.onHotUpdate M cfg) tr c') :
    (c'.trades = c.trades ∧ ∀ oi r, (⟨.submit oi, r⟩ : Obs Reply) ∉ tr) ∨
      ∃ (r₁ r₂ : ℤ) (rest : Trace) (c₁ : Consumer) (q : Quote),
        tr = ⟨.steadyNs, r₁⟩ :: ⟨.steadyNs, r₂⟩ :: rest ∧ c₁.paper.pending = true ∧
        Exec (executeDueAt M cfg r₂ c₁) rest c' ∧ SamePosition c.updateDone c₁ ∧
        c.hot.book c₁.paper.orderOutcome = some q ∧ q.marketBucketEpoch = c.hot.activeEpoch := by
  rcases onHotUpdate_due he with ⟨hno, hc'⟩ | ⟨v, r₁, r₂, rest, c₁, hs, hp, hd, rfl, hx⟩
  · refine .inl ⟨?_, hno⟩
    rcases hc' with rfl | ⟨v, t, now, hs⟩
    · rfl
    · exact hs.position.trades
  · obtain ⟨q, hq, hepoch⟩ := freshSides_spec hfresh hd
    exact .inr ⟨r₁, r₂, rest, c₁, q, rfl, hp, hx, hs.position, hq, hepoch⟩

section Quoted

variable {ls : List Label} {c : Consumer} {q : Quote} {o : Outcome}

theorem tradedOn_quotedIn {side : Option Outcome} {bid ask : ℚ} (hd : Delivered ls c.hot)
    (hq : c.hot.book o = some q) (h : TradedOn c.hot o side bid ask) :
    QuotedIn ls q.marketBucketEpoch side bid ask := by
  obtain ⟨hside, q', hq', hb, ha⟩ := h
  obtain rfl : q = q' := Option.some.inj (hq.symm.trans hq')
  obtain ⟨hout, tr, htr⟩ := hd o q hq
  exact ⟨q, tr, htr, by simp [hout], hout.trans hside.symm, rfl, hb, ha⟩

theorem row_quotedIn {row : TradesRow} (hd : Delivered ls c.hot)
    (hq : c.hot.book c.paper.orderOutcome = some q) (h : RowTraded c row) :
    RowQuotedIn ls q.marketBucketEpoch row := by
  cases row with
  | buy r => exact tradedOn_quotedIn hd hq h
  | sell r => exact tradedOn_quotedIn hd hq h
  | forceSell | error | rollover => trivial

theorem order_quotedIn {T : Outcome → String → Prop} {oi : OrderIntent} (hd : Delivered ls c.hot)
    (hq : c.hot.book c.paper.orderOutcome = some q) (h : OrderFor T c oi) :
    OrderQuotedIn ls q.marketBucketEpoch oi := by
  obtain ⟨q', hq', hprice⟩ := h.price
  obtain rfl : q = q' := Option.some.inj (hq.symm.trans hq')
  obtain ⟨hout, tr, htr⟩ := hd _ q hq
  exact ⟨q, tr, htr, by simp [hout], rfl, hprice⟩

end Quoted

/-- In runs in which no order falls due on a side last quoted for another
bucket, a BUY or SELL is made, and every order submitted, at prices that a quote
of the current bucket delivered for its side. -/
theorem trades_quoted_in_bucket {M : Libm} {cfg : Config} {s c c' : Consumer} {ls : List Label}
    {tr : Trace} (hs : (runner M cfg).init s)
    (hrun : ((runner M cfg).restrict fun c l => freshSides M cfg c l = true).Run s ls c)
    (hstep : ((runner M cfg).restrict fun c l => freshSides M cfg c l = true).step c
      (.update tr) c') :
    (∀ row, c'.trades = row :: c.trades → RowQuotedIn ls c'.hot.activeEpoch row) ∧
      ∀ oi r, (⟨.submit oi, r⟩ : Obs Reply) ∈ tr → OrderQuotedIn ls c'.hot.activeEpoch oi := by
  have hdel := delivered_run hs hrun.of_restrict
  have hside := (sideInv_runner M cfg).reachable (hrun.of_restrict.reachable (.init hs))
  obtain ⟨hst, hfresh⟩ := hstep
  cases hst with
  | update _ he =>
    rcases freshSides_update hfresh he with ⟨ht, hno⟩ |
      ⟨r₁, r₂, rest, c₁, q, rfl, hp, hx, hsame, hq, hepoch⟩
    · constructor
      · intro row hrow
        exact absurd (hrow.symm.trans ht) (List.cons_ne_self row c.trades)
      · intro oi r hr
        exact absurd hr (hno oi r)
    · have hexec := executeDueAt_executed hp _ _ hx
      have hdel₁ : Delivered ls c₁.hot := by
        intro o q hq
        exact hdel o q ((hsame.book o).symm.trans hq)
      have hq₁ : c₁.hot.book c₁.paper.orderOutcome = some q := (hsame.book _).trans hq
      have hepoch₁ : c'.hot.activeEpoch = q.marketBucketEpoch := by
        rw [hexec.hot, hsame.activeEpoch, hepoch]
        rfl
      rw [hepoch₁]
      constructor
      · intro row hrow
        have hrow₁ : c'.trades = row :: c₁.trades := by
          rw [hrow, hsame.trades]
          rfl
        exact row_quotedIn hdel₁ hq₁ (executed_row (hsame.sides hside.updateDone) hexec hrow₁)
      · intro oi r hr
        have hrest : (⟨.submit oi, r⟩ : Obs Reply) ∈ rest := by simpa using hr
        have hfor := (executeDueAt_submitted hx fun _ _ hm => hm).1 oi r hrest
        exact order_quotedIn hdel₁ hq₁ hfor

/-! ### Two runs -/

theorem first_buy_quoted_in_bucket :
    ∃ s ls c tr c' r,
      ((runner coarse quickEntry).restrict fun c l => freshSides coarse quickEntry c l = true).Run
        s ls c ∧
      ((runner coarse quickEntry).restrict fun c l => freshSides coarse quickEntry c l = true).step
        c (.update tr) c' ∧
      c'.trades = .buy r :: c.trades ∧ QuotedIn ls c'.hot.activeEpoch r.side r.bid r.ask := by
  obtain ⟨s, ls, c, tr, c', hs, hrun, hstep, hr⟩ := exists_update_of_replay coarse quickEntry
    (freshSides coarse quickEntry) (signalUp paperAnswers).dropLast
    (upQuote "up-300" "btc-300" 300 (78 / 100) (8 / 10)) paperAnswers.script
    (fun c _ c' => (boughtNow c c').isSome) (by decide +kernel)
  obtain ⟨r, hr⟩ := Option.isSome_iff_exists.mp hr
  have hrow := boughtNow_spec hr
  exact ⟨s, ls, c, tr, c', r, hrun, hstep, hrow,
    (trades_quoted_in_bucket hs hrun hstep).1 (.buy r) hrow⟩

/-- The bucket 600 opens at strike 80 with the spot at 90. The last Up quote is of
the bucket 300, and a spot tick buys at its price. -/
def staleQuoteRun : List (Event × Script) :=
  [(.startup "btc-0" 0 (some 100) false, paperAnswers.script),
   (rolloverTo 300 "btc-300" 100 none none, paperAnswers.script),
   (.binTrade 90 300500, paperAnswers.script),
   (downQuote "down-300" "btc-300" 300 (18 / 100) (95 / 100), paperAnswers.script),
   (upQuote "up-300" "btc-300" 300 (78 / 100) (8 / 10), paperAnswers.script),
   (rolloverTo 600 "btc-600" 80 none none, paperAnswers.script)]

def quotesOf (epoch : ℤ) : Label → Bool
  | .event (.polyQuote q) _ => decide (q.marketBucketEpoch = epoch)
  | _ => true

theorem not_quotedIn {ls : List Label} {epoch epoch' : ℤ} {side : Option Outcome} {bid ask : ℚ}
    (h : ∀ l ∈ ls, quotesOf epoch l = true) (hne : epoch ≠ epoch') :
    ¬ QuotedIn ls epoch' side bid ask := by
  rintro ⟨q, tr, hl, -, -, he, -⟩
  have := h _ hl
  simp only [quotesOf, decide_eq_true_eq] at this
  exact hne (this.symm.trans he)

theorem buy_at_stale_quote :
    ∃ s ls c tr c' r, (runner coarse quickEntry).init s ∧ (runner coarse quickEntry).Run s ls c ∧
      (runner coarse quickEntry).step c (.update tr) c' ∧ c'.trades = .buy r :: c.trades ∧
      ¬ QuotedIn ls c'.hot.activeEpoch r.side r.bid r.ask := by
  obtain ⟨s, ls, c, tr, c', hs, hrun, hstep, hr⟩ := exists_update_of_replay coarse quickEntry
    (fun _ => quotesOf 300) staleQuoteRun (.binTrade 90 600500) paperAnswers.script
    (fun c _ c' => (boughtNow c c').isSome && decide (c'.hot.activeEpoch = 600))
    (by decide +kernel)
  simp only [Bool.and_eq_true, decide_eq_true_eq] at hr
  obtain ⟨r, hb⟩ := Option.isSome_iff_exists.mp hr.1
  refine ⟨s, ls, c, tr, c', r, hs, hrun.of_restrict, hstep.1, boughtNow_spec hb, ?_⟩
  rw [hr.2]
  exact not_quotedIn (hrun.forall_labels fun _ _ h => h) (by decide)

end LeadLag.Quotes
