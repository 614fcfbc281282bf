import LeadLag.Quotes.BucketQuotes

/-!
# Which token a sale is priced for

`schedule` and `execute_due` pick the prices of a position by its side alone. A
FORCE_SELL that fails keeps the position while the feeds move on to the tokens
of the next bucket, and from then on the bid of its side is another token's.
-/

namespace LeadLag.Quotes
open LeadLag.Execution LeadLag.Interaction LeadLag.Runner

def OwnQuote (c : Consumer) (q : Quote) : Prop :=
  c.hot.book c.paper.outcome = some q ∧ q.tokenId = c.paper.tokenId

def PricedInv (c : Consumer) : Prop := c.paper.havePos = true → ∃ q, OwnQuote c q

/-! ### The steps allowed

While a position is open, a quote of its side is for its token and so is the
snapshot that a Rollover carries; the feeds report the tokens last quoted. -/

def isFor (tok : String) (q : Option Quote) : Bool := q.any fun q => decide (q.tokenId = tok)

def feedQuoted (h : HotState) : Obs Reply → Bool
  | ⟨.tokenId o, tok⟩ => isFor tok (h.book o)
  | _ => true

def keepsToken (c : Consumer) : Label → Bool
  | .event (.polyQuote q) _ =>
    !c.paper.havePos || decide (q.outcome ≠ some c.paper.outcome) ||
      decide (q.tokenId = c.paper.tokenId)
  | .event (.rollover ev) _ =>
    !c.paper.havePos || isFor c.paper.tokenId (ev.book c.paper.outcome)
  | .update tr => tr.all (feedQuoted c.hot)
  | _ => true

section KeepsToken

variable {c : Consumer} {tr : Trace}

theorem isFor_spec {tok : String} {q : Option Quote} (h : isFor tok q = true) :
    ∃ q', q = some q' ∧ q'.tokenId = tok := by
  obtain ⟨q', hq, ht⟩ := (Option.any_eq_true _ _).mp h
  exact ⟨q', hq, of_decide_eq_true ht⟩

theorem keepsToken_quote {q : Quote} (h : keepsToken c (.event (.polyQuote q) tr) = true)
    (hn : c.paper.havePos = true) (ho : q.outcome = some c.paper.outcome) :
    q.tokenId = c.paper.tokenId := by
  simpa [keepsToken, hn, ho] using h

theorem keepsToken_rollover {ev : Rollover} (h : keepsToken c (.event (.rollover ev) tr) = true)
    (hn : c.paper.havePos = true) :
    ∃ q, ev.book c.paper.outcome = some q ∧ q.tokenId = c.paper.tokenId := by
  refine isFor_spec ?_
  simpa [keepsToken, hn] using h

theorem keepsToken_update {o : Outcome} {tok : String} (h : keepsToken c (.update tr) = true)
    (hm : seen tr o tok) : ∃ q, c.hot.book o = some q ∧ q.tokenId = tok := by
  have hall : ∀ x ∈ tr, feedQuoted c.hot x = true := List.all_eq_true.mp h
  exact isFor_spec (hall _ hm)

end KeepsToken

def tokenRunner (M : Libm) (cfg : Config) : Lts Consumer Label :=
  (runner M cfg).restrict fun c l => keepsToken c l = true

theorem PricedInv.frame {c c' : Consumer} (inv : PricedInv c)
    (hn : c'.paper.havePos = true → c.paper.havePos = true)
    (ho : c'.paper.outcome = c.paper.outcome) (ht : c'.paper.tokenId = c.paper.tokenId)
    (hb : ∀ o, c'.hot.book o = c.hot.book o) : PricedInv c' := by
  intro h
  obtain ⟨q, hq, htok⟩ := inv (hn h)
  refine ⟨q, ?_, htok.trans ht.symm⟩
  rw [hb, ho]
  exact hq

theorem PricedInv.taken {cfg : Config} {c c' : Consumer} {e : Event} {tr : Trace}
    (inv : PricedInv c) (hk : keepsToken c (.event e tr) = true) (h : Taken cfg c e c') :
    PricedInv c' := by
  cases h with
  | spot h f => exact inv.frame id rfl rfl f.book
  | idle => exact inv
  | startup => exact inv.frame id rfl rfl fun o => by cases o <;> rfl
  | quote q =>
    intro (hn : c.paper.havePos = true)
    have hbook : (c.stored (c.hot.storeQuote q)).hot.book c.paper.outcome =
        if q.outcome = some c.paper.outcome then some q else c.hot.book c.paper.outcome :=
      HotState.book_storeQuote c.hot q c.paper.outcome
    by_cases ho : q.outcome = some c.paper.outcome
    · rw [if_pos ho] at hbook
      have htok : q.tokenId = c.paper.tokenId := keepsToken_quote hk hn ho
      exact ⟨q, hbook, htok⟩
    · rw [if_neg ho] at hbook
      obtain ⟨q', hq', ht'⟩ := inv hn
      exact ⟨q', hbook.trans hq', ht'⟩
  | rollover ev c₁ hf =>
    have hbook (o : Outcome) : (c₁.enterBucket cfg ev).hot.book o = c.hot.book o := by
      rw [← hf.hot]
      cases o <;> rfl
    cases hf with
    | noPosition | kept => exact inv.frame id rfl rfl hbook
    | carried | nothingLeft | paperZero | sold => exact nofun

theorem PricedInv.updated {M : Libm} {cfg : Config} {c c' : Consumer} {tr : Trace}
    (hside : SideInv c) (inv : PricedInv c) (hk : keepsToken c (.update tr) = true)
    (he : Exec (c.updateDone.onHotUpdate M cfg) tr c') : PricedInv c' := by
  obtain ⟨-, c₁, hsame, hopen, hexec⟩ := onHotUpdate_orders he
  have inv₁ : PricedInv c₁ := inv.frame (fun h => hsame.havePos.symm.trans h) hsame.outcome
    hsame.tokenId hsame.book
  cases hexec with
  | kept => exact inv₁
  | cleared | unknown | riskBlocked | failed | failedRow | stopIncomplete =>
    exact inv₁.frame id rfl rfl fun _ => rfl
  | flattened | soldByStop | soldAtBid => exact nofun
  | bought v plan fill tok hp ha hn hv =>
    intro _
    obtain ⟨o, hso⟩ := (hsame.sides hside.updateDone).buy hp ha
    obtain rfl : c₁.paper.pendingOutcome = o := PaperState.pendingOutcome_of_side hso
    obtain ⟨q, hq, htok⟩ := keepsToken_update hk (hopen hn rfl)
    refine ⟨q, ?_, htok⟩
    have hout : (c₁.opened cfg v (v.theo M cfg) plan fill tok).paper.outcome =
        c₁.paper.pendingOutcome := PaperState.outcome_of_side hso
    rw [hout]
    exact (hsame.book _).trans hq

theorem pricedInv_reachable {M : Libm} {cfg : Config} {c : Consumer}
    (h : (tokenRunner M cfg).Reachable c) : PricedInv c := by
  refine h.invariant ?_ fun c l c' hr inv hst => ?_
  · rintro _ ⟨hist, rfl⟩
    exact nofun
  · have hside := (sideInv_runner M cfg).reachable hr.of_restrict
    obtain ⟨hstep, hk⟩ := hst
    cases hstep with
    | event _ _ he => exact inv.taken hk (take_taken M cfg c _ _ _ he)
    | update _ he => exact inv.updated hside hk he

/-! ### Sales -/

def BidQuoted (ls : List Label) (tok : String) (bid : ℚ) : Prop :=
  ∃ q tr, Label.event (.polyQuote q) tr ∈ ls ∧ q.tokenId = tok ∧ q.bestBid = bid

def CreditedAtBid (cfg : Config) (r : SellRow) : Prop :=
  SoldAt r.bid cfg.feeRate r.proceeds r.fee ∧ r.cashAfter = r.cashBefore + (r.proceeds - r.fee)

theorem executed_sell {M : Libm} {cfg : Config} {c c' : Consumer} {r : SellRow}
    (h : Executed M cfg c c') (hrow : c'.trades = .sell r :: c.trades) :
    c.paper.havePos = true ∧ r.tokenId = c.paper.tokenId ∧ CreditedAtBid cfg r ∧
      ∀ q, c.hot.book c.paper.outcome = some q → r.bid = q.bestBid := by
  have same {P : Prop} (h : c.trades = .sell r :: c.trades) : P :=
    absurd h.symm (List.cons_ne_self _ c.trades)
  have bookBid {v : HotView} (hv : c.hot.view? = some v) (q : Quote)
      (hq : c.hot.book c.paper.outcome = some q) :
      (v.book c.paper.outcome).bestBid = q.bestBid := by
    have hb := (HotState.view?_spec hv).book c.paper.outcome
    rw [hq] at hb
    cases hb
    rfl
  cases h with
  | kept | cleared | unknown | riskBlocked | failed | flattened => exact same hrow
  | failedRow | stopIncomplete | bought =>
    have hrow' := (List.cons.inj hrow).1
    cases hrow'
  | soldByStop v stop qty _ _ _ hn _ hv _ hsold =>
    have hrow' := (List.cons.inj hrow).1
    cases hrow'
    exact ⟨hn, rfl, ⟨hsold, rfl⟩, bookBid hv⟩
  | soldAtBid v qty clobBalance _ _ hn hv =>
    have hrow' := (List.cons.inj hrow).1
    cases hrow'
    exact ⟨hn, rfl, ⟨.single _ _ _, rfl⟩, bookBid hv⟩

theorem forceSold_row {cfg : Config} {ev : Rollover} {c c₁ : Consumer} {r : ForceSellRow}
    (h : ForceSold cfg ev c c₁)
    (hrow : c₁.trades = .forceSell r :: c.trades) :
    c.paper.havePos = true ∧ r.tokenId = c.paper.tokenId ∧ r.bid = ev.bid c.paper.outcome ∧
      SoldAt r.bid cfg.feeRate r.proceeds r.fee := by
  cases h with
  | noPosition | carried | paperZero =>
    exact absurd hrow.symm (List.cons_ne_self _ c.trades)
  | kept | nothingLeft =>
    have hrow' := (List.cons.inj hrow).1
    cases hrow'
  | sold qty clobBalance hn =>
    have hrow' := (List.cons.inj hrow).1
    cases hrow'
    exact ⟨hn, rfl, rfl, .single _ _ _⟩

/-- The prices of an open position's sale are for its token: those that
`schedule` decides on, the worst price of every order, and the credit. -/
structure PricedForToken (cfg : Config) (ls : List Label) (c : Consumer) (l : Label)
    (c' : Consumer) : Prop where
  decision : ∀ v, c.hot.view? = some v → c.paper.havePos = true →
    (v.book c.paper.outcome).tokenId = c.paper.tokenId ∧
      BidQuoted ls c.paper.tokenId (v.book c.paper.outcome).bestBid
  limit : ∀ tr oi r, l = .update tr → (⟨.submit oi, r⟩ : Obs Reply) ∈ tr → oi.side = .sell →
    oi.marketTokenId = c.paper.tokenId ∧
      ∃ q, OwnQuote c q ∧ WorstPriceFrom q oi ∧ BidQuoted ls c.paper.tokenId q.bestBid
  credit : ∀ r, c'.trades = .sell r :: c.trades →
    r.tokenId = c.paper.tokenId ∧ BidQuoted ls r.tokenId r.bid ∧ CreditedAtBid cfg r
  forceCredit : ∀ ev tr r row, l = .event (.rollover ev) tr →
    c'.trades = row :: .forceSell r :: c.trades →
    r.tokenId = c.paper.tokenId ∧ SoldAt r.bid cfg.feeRate r.proceeds r.fee ∧
      ∃ q, ev.book c.paper.outcome = some q ∧ q.tokenId = r.tokenId ∧ q.bestBid = r.bid

theorem OwnQuote.bidQuoted {ls : List Label} {c : Consumer} {q : Quote}
    (hd : Delivered ls c.hot) (h : OwnQuote c q) : BidQuoted ls c.paper.tokenId q.bestBid := by
  obtain ⟨-, tr, htr⟩ := hd _ q h.1
  exact ⟨q, tr, htr, h.2, rfl⟩

section Priced

variable {M : Libm} {cfg : Config} {ls : List Label} {c c' : Consumer}

theorem priced_decision (hd : Delivered ls c.hot) (inv : PricedInv c) {v : HotView}
    (hv : c.hot.view? = some v) (hn : c.paper.havePos = true) :
    (v.book c.paper.outcome).tokenId = c.paper.tokenId ∧
      BidQuoted ls c.paper.tokenId (v.book c.paper.outcome).bestBid := by
  obtain ⟨q, hq⟩ := inv hn
  have hb := (HotState.view?_spec hv).book c.paper.outcome
  obtain rfl : q = v.book c.paper.outcome := Option.some.inj (hq.1.symm.trans hb)
  exact ⟨hq.2, hq.bidQuoted hd⟩

/-- `schedule` does not touch what `execute_due` prices a sale by. -/
theorem position_book {c₁ : Consumer} (h : SamePosition c.updateDone c₁) :
    c₁.hot.book c₁.paper.outcome = c.hot.book c.paper.outcome := by
  rw [h.outcome]
  exact h.book _

theorem priced_limit (hd : Delivered ls c.hot) (inv : PricedInv c) {tr : Trace}
    (he : Exec (c.updateDone.onHotUpdate M cfg) tr c') {oi : OrderIntent}
    {r : Except String SubmitResp} (hr : (⟨.submit oi, r⟩ : Obs Reply) ∈ tr)
    (hsell : oi.side = .sell) :
    oi.marketTokenId = c.paper.tokenId ∧
      ∃ q, OwnQuote c q ∧ WorstPriceFrom q oi ∧ BidQuoted ls c.paper.tokenId q.bestBid := by
  obtain ⟨horders, -⟩ := onHotUpdate_orders he
  obtain ⟨c₁, hsame, hfor⟩ := horders oi r hr
  have htok := hfor.token
  simp only [TokenOf, hsell] at htok
  obtain ⟨hn, hout, htok⟩ := htok
  obtain ⟨q, hq, hprice⟩ := hfor.price
  obtain ⟨q', hown⟩ := inv (hsame.havePos.symm.trans hn)
  rw [hout, position_book hsame, hown.1] at hq
  cases hq
  exact ⟨htok.trans hsame.tokenId, q, hown, hprice, hown.bidQuoted hd⟩

theorem priced_credit (hd : Delivered ls c.hot) (inv : PricedInv c) {tr : Trace}
    (he : Exec (c.updateDone.onHotUpdate M cfg) tr c') {r : SellRow}
    (hrow : c'.trades = .sell r :: c.trades) :
    r.tokenId = c.paper.tokenId ∧ BidQuoted ls r.tokenId r.bid ∧ CreditedAtBid cfg r := by
  obtain ⟨-, c₁, hsame, -, hexec⟩ := onHotUpdate_orders he
  have htrades : c₁.trades = c.trades := hsame.trades
  rw [← htrades] at hrow
  obtain ⟨hn, htok, hcredit, hbid⟩ := executed_sell hexec hrow
  obtain ⟨q, hown⟩ := inv (hsame.havePos.symm.trans hn)
  have htok' : r.tokenId = c.paper.tokenId := htok.trans hsame.tokenId
  refine ⟨htok', ?_, hcredit⟩
  rw [htok', hbid q ((position_book hsame).trans hown.1)]
  exact hown.bidQuoted hd

/-- Events other than updates write no SELL row, and a Rollover's FORCE_SELL is
credited at the bid of its snapshot. -/
theorem priced_forceSell {e : Event} {tr : Trace}
    (hk : keepsToken c (.event e tr) = true) (h : Taken cfg c e c') :
    (∀ r, c'.trades ≠ .sell r :: c.trades) ∧
      ∀ ev r row, e = .rollover ev → c'.trades = row :: .forceSell r :: c.trades →
        r.tokenId = c.paper.tokenId ∧ SoldAt r.bid cfg.feeRate r.proceeds r.fee ∧
          ∃ q, ev.book c.paper.outcome = some q ∧ q.tokenId = r.tokenId ∧ q.bestBid = r.bid := by
  cases h with
  | spot h f hspot =>
    constructor
    · intro r hrow
      exact List.cons_ne_self _ c.trades hrow.symm
    · intro ev r row he
      subst he
      cases hspot
  | idle | quote | startup =>
    constructor
    · intro r hrow
      exact List.cons_ne_self _ c.trades hrow.symm
    · intro ev r row he
      cases he
  | rollover ev c₁ hf =>
    constructor
    · intro r hrow
      have hrow' := (List.cons.inj hrow).1
      cases hrow'
    · intro ev' r row he hrow
      cases he
      obtain ⟨hn, htok, hbid, hsold⟩ := forceSold_row hf (List.cons.inj hrow).2
      obtain ⟨q, hq, hqt⟩ := keepsToken_rollover hk hn
      refine ⟨htok, hsold, q, hq, hqt.trans htok.symm, ?_⟩
      rw [hbid, Rollover.bid, hq]
      rfl

end Priced

/-- In runs that keep the quotes of an open position's side to its token, all
its sales are priced for that token. -/
theorem sales_priced_for_token {M : Libm} {cfg : Config} {s c c' : Consumer} {ls : List Label}
    {l : Label} (hs : (runner M cfg).init s)
    (hrun : (tokenRunner M cfg).Run s ls c)
    (hstep : (tokenRunner M cfg).step c l c') :
    PricedForToken cfg ls c l c' := by
  have hd : Delivered ls c.hot := delivered_run hs hrun.of_restrict
  have inv : PricedInv c := pricedInv_reachable (hrun.reachable (.init hs))
  obtain ⟨hst, hk⟩ := hstep
  cases hst with
  | update _ he =>
    refine ⟨fun _ => priced_decision hd inv, ?_, ?_, ?_⟩
    · intro tr oi r htr hr hsell
      cases htr
      exact priced_limit hd inv he hr hsell
    · intro r hrow
      exact priced_credit hd inv he hrow
    · intro _ _ _ _ hl
      cases hl
  | event _ _ he =>
    have hforce := priced_forceSell hk (take_taken M cfg c _ _ _ he)
    refine ⟨fun _ => priced_decision hd inv, ?_, ?_, ?_⟩
    · intro _ _ _ hl
      cases hl
    · intro r hrow
      exact absurd hrow (hforce.1 r)
    · intro ev tr r row hl hrow
      cases hl
      exact hforce.2 ev r row rfl hrow

/-! ### Two runs -/

/-- FORCE_SELL fails at the Rollover, and the quotes of the next bucket's Up
token stop the position out. -/
def keptPosition : List (Event × Script) :=
  signalUp fillUp ++ [(rolloverTo 600 "btc-600" 100 (some (dropTo (78 / 100))) none,
    (liveAnswers fun _ => .error "timeout").script)]

def soldNow (c c' : Consumer) : Option SellRow :=
  match c'.trades with
  | .sell r :: rest => if rest = c.trades then some r else none
  | _ => none

theorem soldNow_spec {c c' : Consumer} {r : SellRow} (h : soldNow c c' = some r) :
    c'.trades = .sell r :: c.trades := by
  unfold soldNow at h
  split at h
  · rename_i r' rest ht
    split at h
    · rename_i hrest
      cases h
      rw [ht, hrest]
    · cases h
  · cases h

theorem stop_exit_priced_for_token :
    ∃ s ls c tr c' r, (tokenRunner coarse quickLive).Run s ls c ∧
      (tokenRunner coarse quickLive).step c (.update tr) c' ∧ c'.trades = .sell r :: c.trades ∧
      BidQuoted ls r.tokenId r.bid := by
  obtain ⟨s, ls, c, tr, c', hs, hrun, hstep, hr⟩ := exists_update_of_replay coarse quickLive
    keepsToken (signalUp fillUp) (.polyQuote (dropTo (4 / 10)))
    (liveAnswers fun n => .ok (if n ≤ 3 then 5 / 4 else 0)).script
    (fun c _ c' => (soldNow c c').isSome) (by decide +kernel)
  obtain ⟨r, hr⟩ := Option.isSome_iff_exists.mp hr
  have hrow := soldNow_spec hr
  exact ⟨s, ls, c, tr, c', r, hrun, hstep, hrow,
    ((sales_priced_for_token hs hrun hstep).credit r hrow).2.1⟩

def otherBids : Label → Bool
  | .event (.polyQuote q) _ => decide (q.tokenId = "up-300" → q.bestBid ≠ 4 / 10)
  | _ => true

theorem not_bidQuoted {ls : List Label} (h : ∀ l ∈ ls, otherBids l = true) :
    ¬ BidQuoted ls "up-300" (4 / 10) := by
  rintro ⟨q, tr, hl, ht, hb⟩
  have hq := h _ hl
  simp only [otherBids, decide_eq_true_eq] at hq
  exact hq ht hb

theorem sale_at_other_tokens_bid :
    ∃ s ls c tr c' r, (runner coarse quickLive).init s ∧ (runner coarse quickLive).Run s ls c ∧
      (runner coarse quickLive).step c (.update tr) c' ∧ c'.trades = .sell r :: c.trades ∧
      r.tokenId = c.paper.tokenId ∧ ¬ BidQuoted ls r.tokenId r.bid := by
  obtain ⟨s, ls, c, tr, c', hs, hrun, hstep, hr⟩ := exists_update_of_replay coarse quickLive
    (fun _ => otherBids) keptPosition (upQuote "up-600" "btc-600" 600 (4 / 10) (5 / 10))
    (liveAnswers fun n => .ok (if n ≤ 3 then 5 / 4 else 0)).script
    (fun c _ c' => (soldNow c c').any fun r : SellRow => decide (r.tokenId = c.paper.tokenId) &&
      decide (r.tokenId = "up-300") && decide (r.bid = 4 / 10)) (by decide +kernel)
  obtain ⟨r, hr, hrow⟩ := (Option.any_eq_true _ _).mp hr
  simp only [Bool.and_eq_true, decide_eq_true_eq] at hrow
  obtain ⟨⟨hown, htok⟩, hbid⟩ := hrow
  refine ⟨s, ls, c, tr, c', r, hs, hrun.of_restrict, hstep.1, soldNow_spec hr, hown, ?_⟩
  rw [htok, hbid]
  exact not_bidQuoted (hrun.forall_labels fun _ _ h => h)

end LeadLag.Quotes
