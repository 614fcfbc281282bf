import LeadLag.Runner.HotUpdate

/-!
# The orders of a hot update

Every order that `execute_due` hands to the exchange takes its worst price from
the side it is scheduled for. A sale is of the position's token, a BUY of a
token read from the feed of its side, and so is the token recorded for the
position.
-/

namespace LeadLag.Runner
open LeadLag.Execution LeadLag.Interaction

/-! ### Promises about tokens, guarantees about orders -/

def onToken (T : Outcome → String → Prop) : Obs Reply → Prop
  | ⟨.tokenId o, tok⟩ => T o tok
  | _ => True

def onSubmit (G : OrderIntent → Prop) : Call → Prop
  | .submit oi => G oi
  | _ => True

theorem onSubmit_mono {G G' : OrderIntent → Prop} (h : ∀ oi, G oi → G' oi) {e : Call}
    (he : onSubmit G e) : onSubmit G' e := by
  cases e with
  | submit oi => exact h oi he
  | _ => trivial

abbrev SafeOrders {A : Type} (T : Outcome → String → Prop) (G : OrderIntent → Prop)
    (Q : A → Prop) (p : Prog A) : Prop :=
  Safe (onToken T) (onSubmit G) Q p

section Orders

variable {T : Outcome → String → Prop} {G : OrderIntent → Prop}

theorem safeOrders_bind {A B : Type} {p : Prog A} {f : A → Prog B} {P : A → Prop} {Q : B → Prop}
    (hp : SafeOrders T G P p) (hf : ∀ a, P a → SafeOrders T G Q (f a)) :
    SafeOrders T G Q (p >>= f) :=
  safe_bind.mpr (hp.mono hf)

theorem tokenId_orders (o : Outcome) : SafeOrders T G (T o) (tokenId o) :=
  ⟨trivial, fun _ h => h⟩

theorem queryConditionalBalance_orders (tok : String) :
    SafeOrders T G (fun _ => True) (queryConditionalBalance tok) := ⟨trivial, fun _ _ => trivial⟩

theorem submit_orders {oi : OrderIntent} (h : G oi) :
    SafeOrders T G (fun _ => True) (submit oi) := ⟨h, fun _ _ => trivial⟩

theorem failOrder_orders {ns : ℤ} {c : Consumer} {Q : Consumer → Prop}
    (h : ∀ t, Q (c.coolDown t)) : SafeOrders T G Q (failOrder ns c) :=
  ⟨trivial, fun t _ => h (t + ns)⟩

theorem quietly_orders {A : Type} {p : Prog A} (h : Quietly p) :
    SafeOrders T G (fun _ => True) p := by
  refine h.weaken (fun _ _ => trivial) fun e he => ?_
  cases e with
  | submit oi => exact absurd he id
  | _ => trivial

theorem liveResolveMarketBuyFill_orders (tok id : String) (before spend ask rate : ℚ)
    (resp : Core.Json) :
    SafeOrders T G (fun _ => True)
      (liveResolveMarketBuyFill tok id before spend ask rate resp) := by
  unfold liveResolveMarketBuyFill
  have settle (fp : FillProgress) : SafeOrders T G (fun _ => True) (do
      let after ← queryConditionalBalance tok
      pure (settleBuyFill fp before after spend ask rate)) :=
    safeOrders_bind (queryConditionalBalance_orders tok) fun _ _ => trivial
  split
  · exact settle _
  · exact safeOrders_bind (quietly_orders (pollOrder_quietly id _ _)) fun fp _ => settle fp

theorem stopSellAttempts_orders {tok : String} {bid rate : ℚ}
    (h : ∀ bal, G (stopSellIntent tok bal bid)) (n : ℕ) (out : StopSellUntilFlatResult) :
    SafeOrders T G (fun _ => True) (stopSellAttempts tok bid rate n out) := by
  induction n generalizing out with
  | zero => trivial
  | succ n ih =>
    refine safeOrders_bind (queryConditionalBalance_orders tok) fun bal _ => ?_
    cases bal with
    | error err => exact ih _
    | ok bal =>
      dsimp only
      split
      · trivial
      · refine safeOrders_bind (submit_orders (h bal)) fun resp _ => ?_
        cases resp with
        | error err => exact ih _
        | ok resp =>
          refine safeOrders_bind (quietly_orders (awaitTerminal_quietly _ _)) fun _ _ => ?_
          refine safeOrders_bind (queryConditionalBalance_orders tok) fun after _ => ?_
          cases after with
          | error err => exact ih _
          | ok after =>
            dsimp only
            split
            · trivial
            · exact ih _

theorem liveBuy_orders {cfg : Config} {slug : String} {plan : BuyPlan} {now : ℤ} {c : Consumer}
    (h : ∀ tok, T c.paper.pendingOutcome tok → G (buyIntent now tok plan)) :
    SafeOrders T G (fun
      | .error c' => c'.paper.havePos = c.paper.havePos
      | .ok _ => True) (liveBuy cfg slug plan now c) := by
  have failed {c' : Consumer} (h : c'.paper.havePos = c.paper.havePos) :
      SafeOrders T G (fun
        | .error c' => c'.paper.havePos = c.paper.havePos
        | .ok _ => True) (do
      let c ← failOrder kCooldownNs c'
      pure (Except.error c : Except Consumer LiveMarketBuyFill)) :=
    safeOrders_bind (P := fun c'' => c''.paper.havePos = c.paper.havePos)
      (failOrder_orders fun _ => h) fun _ h => safe_pure.mpr h
  refine safeOrders_bind (tokenId_orders _) fun tok ht => ?_
  refine safeOrders_bind (queryConditionalBalance_orders tok) fun bal _ => ?_
  cases bal with
  | error err => exact failed rfl
  | ok before =>
    refine safeOrders_bind (submit_orders (h tok ht)) fun resp _ => ?_
    cases resp with
    | error err => exact failed rfl
    | ok resp =>
      refine safeOrders_bind (liveResolveMarketBuyFill_orders ..) fun fill _ => ?_
      cases fill with
      | error err => exact failed rfl
      | ok fill => trivial

theorem liveSell_orders {cfg : Config} {v : HotView} {t : Theo} {now : ℤ} {c : Consumer}
    (hstop : ∀ bal, G (stopSellIntent c.paper.tokenId bal (v.book c.paper.outcome).bestBid))
    (h : ∀ qty, G (sellIntent now c.paper.tokenId qty (v.book c.paper.outcome).bestBid)) :
    SafeOrders T G (fun _ => True) (liveSell cfg v t now c) := by
  have failed {ns : ℤ} {c : Consumer} : SafeOrders T G (fun _ => True) (failOrder ns c) :=
    failOrder_orders fun _ => trivial
  refine safeOrders_bind (queryConditionalBalance_orders _) fun bal _ => ?_
  cases bal with
  | error err => exact failed
  | ok clobBalance =>
    dsimp only
    split
    · split
      · trivial
      · exact failed
    · split
      · refine safeOrders_bind (stopSellAttempts_orders hstop _ _) fun r _ => ?_
        split
        · trivial
        · exact failed
      · refine safeOrders_bind (submit_orders (h _)) fun resp _ => ?_
        cases resp with
        | error err => exact failed
        | ok resp => trivial

end Orders

/-! ### What an order names -/

/-- A BUY pays at most the ask; a sale takes the bid or, without one, anything. -/
def WorstPriceFrom (q : Quote) (oi : OrderIntent) : Prop :=
  match oi.side with
  | .buy => oi.marketWorstPrice = q.bestAsk
  | .sell => oi.marketWorstPrice = max (1 / 100) q.bestBid ∨
      (q.bestBid ≤ 0 ∧ oi.marketWorstPrice = 0)

def TokenOf (T : Outcome → String → Prop) (p : PaperState) (oi : OrderIntent) : Prop :=
  match oi.side with
  | .buy => p.havePos = false ∧ T p.orderOutcome oi.marketTokenId
  | .sell => p.havePos = true ∧ p.orderOutcome = p.outcome ∧ oi.marketTokenId = p.tokenId

structure OrderFor (T : Outcome → String → Prop) (c : Consumer) (oi : OrderIntent) : Prop where
  token : TokenOf T c.paper oi
  price : ∃ q, c.hot.book c.paper.orderOutcome = some q ∧ WorstPriceFrom q oi

theorem sellIntent_price {now : ℤ} {tok : String} {qty : ℚ} {q : Quote} :
    WorstPriceFrom q (sellIntent now tok qty q.bestBid) := by
  by_cases hb : 0 < q.bestBid
  · exact .inl (if_pos hb)
  · exact .inr ⟨not_lt.mp hb, if_neg hb⟩

def OpensWith (T : Outcome → String → Prop) (c c' : Consumer) : Prop :=
  c.paper.havePos = false → c'.paper.havePos = true → T c.paper.pendingOutcome c'.paper.tokenId

section ExecuteDue

variable {T : Outcome → String → Prop} {M : Libm} {cfg : Config} {now : ℤ} {c : Consumer}

theorem OpensWith.same {c' : Consumer} (h : c'.paper.havePos = c.paper.havePos) :
    OpensWith T c c' := by
  intro hn hn'
  rw [h, hn] at hn'
  cases hn'

theorem executeBuy_orders {v : HotView} {t : Theo} (ha : c.paper.pendingAction = some .buy)
    (hv : c.hot.view? = some v) :
    SafeOrders T (OrderFor T c) (OpensWith T c) (executeBuy cfg v t now c) := by
  have hoo : c.paper.orderOutcome = c.paper.pendingOutcome := if_pos ha
  have hbook : c.hot.book c.paper.orderOutcome = some (v.book c.paper.pendingOutcome) := by
    rw [hoo]
    exact (HotState.view?_spec hv).book c.paper.pendingOutcome
  unfold executeBuy
  split
  · exact OpensWith.same rfl
  · rename_i hn
    split
    · exact OpensWith.same rfl
    · exact OpensWith.same rfl
    · rename_i plan hplan
      obtain ⟨rfl, -⟩ := buyCheck_order hplan
      refine safeOrders_bind (P := fun
        | .error c' => c'.paper.havePos = c.paper.havePos
        | .ok _ => True) ?_ fun r hr => ?_
      · unfold buyFill
        split
        · refine liveBuy_orders fun tok ht => ?_
          have hflat : c.paper.havePos = false := by simpa using hn
          have htok : T c.paper.orderOutcome tok := by
            rw [hoo]
            exact ht
          exact ⟨⟨hflat, htok⟩, _, hbook, rfl⟩
        · trivial
      · cases r with
        | error c' => exact OpensWith.same hr
        | ok fill => exact safeOrders_bind (tokenId_orders _) fun tok ht _ _ => ht

theorem executeSell_orders {v : HotView} {t : Theo} (ha : c.paper.pendingAction = some .sell)
    (hn : c.paper.havePos = true) (hv : c.hot.view? = some v) :
    SafeOrders T (OrderFor T c) (OpensWith T c) (executeSell cfg v t now c) := by
  have held {c' : Consumer} : OpensWith T c c' := fun h => by simp [hn] at h
  have hoo : c.paper.orderOutcome = c.paper.outcome := if_neg (by simp [ha])
  have hbook : c.hot.book c.paper.orderOutcome = some (v.book c.paper.outcome) := by
    rw [hoo]
    exact (HotState.view?_spec hv).book c.paper.outcome
  have live : SafeOrders T (OrderFor T c) (fun _ => True) (liveSell cfg v t now c) := by
    apply liveSell_orders
    · intro bal
      exact ⟨⟨hn, hoo, rfl⟩, _, hbook, .inl rfl⟩
    · intro qty
      exact ⟨⟨hn, hoo, rfl⟩, _, hbook, sellIntent_price⟩
  unfold executeSell
  dsimp only
  split
  · exact held
  · split
    · exact live.mono fun _ _ => held
    · split
      · exact held
      · exact held

theorem executeDueAt_orders :
    SafeOrders T (OrderFor T c) (OpensWith T c) (executeDueAt M cfg now c) := by
  unfold executeDueAt
  split
  · exact OpensWith.same rfl
  · split
    · exact OpensWith.same rfl
    · rename_i v hv
      split
      · rename_i ha
        exact executeBuy_orders ha hv
      · split
        · rename_i hs
          exact executeSell_orders hs.1 hs.2 hv
        · exact OpensWith.same rfl

theorem executeDueAt_submitted {tr : Trace} {c' : Consumer}
    (h : Exec (executeDueAt M cfg now c) tr c')
    (hT : ∀ o tok, (⟨.tokenId o, tok⟩ : Obs Reply) ∈ tr → T o tok) :
    (∀ oi r, (⟨.submit oi, r⟩ : Obs Reply) ∈ tr → OrderFor T c oi) ∧ OpensWith T c c' := by
  have hrely : ∀ o ∈ tr, onToken T o := by
    rintro ⟨call, reply⟩ ho
    cases call with
    | tokenId o => exact hT o reply ho
    | _ => trivial
  obtain ⟨hg, hq⟩ := executeDueAt_orders.ensures _ _ h hrely
  exact ⟨fun oi r hr => hg _ hr, hq⟩

end ExecuteDue

/-! ### A whole update -/

def seen (tr : Trace) (o : Outcome) (tok : String) : Prop := (⟨.tokenId o, tok⟩ : Obs Reply) ∈ tr

theorem onToken_seen (tr : Trace) : ∀ o ∈ tr, onToken (seen tr) o := by
  rintro ⟨call, reply⟩ ho
  cases call with
  | tokenId o => exact ho
  | _ => trivial

section Update

variable {T : Outcome → String → Prop} {M : Libm} {cfg : Config} {c : Consumer}

/-- An update schedules and then executes: its orders and its result are those of
`execute_due` in a state that `schedule` may have left. -/
theorem onHotUpdate_safe :
    SafeOrders T (fun oi => ∃ c₁, SamePosition c c₁ ∧ OrderFor T c₁ oi)
      (fun c' => ∃ c₁, SamePosition c c₁ ∧ OpensWith T c₁ c' ∧ Executed M cfg c₁ c')
      (c.onHotUpdate M cfg) := by
  have kept {c₁ : Consumer} (h : SamePosition c c₁) :
      ∃ c₂, SamePosition c c₂ ∧ OpensWith T c₂ c₁ ∧ Executed M cfg c₂ c₁ :=
    ⟨c₁, h, .same rfl, .kept⟩
  unfold Consumer.onHotUpdate
  split
  · exact kept (.rfl' c)
  · rename_i v hv
    split
    · refine safeOrders_bind (P := SamePosition c) ⟨trivial, fun now _ => ?_⟩ fun c₁ hsame => ?_
      · exact (scheduleAt_cases cfg v (v.theo M cfg) now c).position
      · unfold executeDue
        split
        · rename_i hp
          refine ⟨trivial, fun now _ => ?_⟩
          have horders : SafeOrders T (OrderFor T c₁) (OpensWith T c₁)
              (executeDueAt M cfg now c₁) := executeDueAt_orders
          have hexec : Returns (executeDueAt M cfg now c₁) (Executed M cfg c₁) :=
            executeDueAt_executed hp
          have hboth := horders.and_returns hexec
          have hguar (e : Call) (he : onSubmit (OrderFor T c₁) e) :
              onSubmit (fun oi => ∃ c₁, SamePosition c c₁ ∧ OrderFor T c₁ oi) e :=
            onSubmit_mono (fun oi ho => ⟨c₁, hsame, ho⟩) he
          exact (hboth.weaken (fun _ h => h) hguar).mono fun c' h => ⟨c₁, hsame, h.1, h.2⟩
        · exact kept hsame
    · exact kept (.rfl' c)

theorem onHotUpdate_orders {c' : Consumer} {tr : Trace} (h : Exec (c.onHotUpdate M cfg) tr c') :
    (∀ oi r, (⟨.submit oi, r⟩ : Obs Reply) ∈ tr →
      ∃ c₁, SamePosition c c₁ ∧ OrderFor (seen tr) c₁ oi) ∧
      ∃ c₁, SamePosition c c₁ ∧ OpensWith (seen tr) c₁ c' ∧ Executed M cfg c₁ c' := by
  obtain ⟨hg, hq⟩ := onHotUpdate_safe.ensures _ _ h (onToken_seen tr)
  exact ⟨fun oi r hr => hg _ hr, hq⟩

theorem liveForceSell_orders {G : OrderIntent → Prop} {ev : Rollover}
    (h : ∀ mono tok qty, G (forceSellIntent mono tok qty)) :
    SafeOrders T G (fun _ => True) (liveForceSell cfg ev c) := by
  refine safeOrders_bind (queryConditionalBalance_orders _) fun bal _ => ?_
  cases bal with
  | error err => trivial
  | ok clobBalance =>
    dsimp only
    split
    · trivial
    · refine safeOrders_bind (quietly_orders ⟨trivial, fun _ _ => trivial⟩) fun mono _ => ?_
      refine safeOrders_bind (submit_orders (h mono _ _)) fun resp _ => ?_
      cases resp with
      | error err => trivial
      | ok resp => trivial

theorem rolloverPosition_orders {G : OrderIntent → Prop} {ev : Rollover}
    (h : ∀ mono tok qty, G (forceSellIntent mono tok qty)) :
    SafeOrders T G (fun _ => True) (rolloverPosition cfg ev c) := by
  unfold rolloverPosition
  split
  · split
    · trivial
    · split
      · exact liveForceSell_orders h
      · split
        · trivial
        · trivial
  · trivial

theorem take_orders {G : OrderIntent → Prop} {e : Event}
    (h : ∀ mono tok qty, G (forceSellIntent mono tok qty)) :
    SafeOrders T G (fun _ => True) (c.take M cfg e) := by
  by_cases hro : ∃ ev, e = .rollover ev
  · obtain ⟨ev, rfl⟩ := hro
    exact safeOrders_bind (rolloverPosition_orders h) fun _ _ => trivial
  · exact quietly_orders (take_quietly M cfg c fun ev hev => hro ⟨ev, hev⟩)

end Update

end LeadLag.Runner
