import LeadLag.Account.Wallet
import LeadLag.Runner.Replay

/-!
# No untracked shares

Between two steps the only token bought of which more than dust may be left is
the one of the open position. The take-profit SELL and FORCE_SELL submit one
order and close the position whatever it filled, so this needs the exchange to
fill them. A stop exit and a Rollover close on a read of dust, so there it needs
the read to be true.
-/

namespace LeadLag.Account
open LeadLag.Execution LeadLag.Interaction LeadLag.Runner

def Tracked (c : Consumer) (w : Wallet) : Prop :=
  ∀ k ∈ w.bought, (c.paper.havePos = true → k ≠ c.paper.tokenId) → w.balance k ≤ kFlatEps

def stopExit (p : PaperState) : Bool :=
  decide (p.pendingAction = some .sell) && p.exitIsStop

theorem AllFlat.tracked {c : Consumer} {w : Wallet} (h : AllFlat w) : Tracked c w :=
  fun k hk _ => h k hk

theorem FlatBut.tracked {c : Consumer} {w : Wallet} {tok : String} (h : FlatBut w tok)
    (hn : c.paper.havePos = true) (ht : c.paper.tokenId = tok) : Tracked c w :=
  fun k hk hkt => h k hk (ht ▸ hkt hn)

theorem Tracked.flatBut {c : Consumer} {w : Wallet} (h : Tracked c w) :
    FlatBut w c.paper.tokenId :=
  fun k hk hkt => h k hk fun _ => hkt

theorem Tracked.allFlat {c : Consumer} {w : Wallet} (h : Tracked c w)
    (hn : c.paper.havePos = false) : AllFlat w :=
  fun k hk => h k hk fun hn' => by simp [hn] at hn'

theorem Tracked.frame {c c' : Consumer} {w : Wallet} (h : Tracked c w)
    (hn : c'.paper.havePos = c.paper.havePos) (ht : c'.paper.tokenId = c.paper.tokenId) :
    Tracked c' w := by
  intro k hk hkt
  rw [hn, ht] at hkt
  exact h k hk hkt

theorem Tracked.same {c : Consumer} {w w' : Wallet} (h : Tracked c w)
    (hb : w'.balance = w.balance) (hl : w'.bought = w.bought) : Tracked c w' := by
  intro k hk hkt
  rw [hl] at hk
  rw [hb]
  exact h k hk hkt

section Programs

variable {closing : Bool} {T : Outcome → String → Prop} {M : Libm} {cfg : Config} {w : Wallet}
  {c : Consumer}

theorem failOrder_wallet {ns : ℤ} (h : Tracked c w) :
    Under (carefulFeeds closing T) w (failOrder ns c) fun w' c' => Tracked c' w' := by
  simp only [failOrder, under_bind, steadyNs, under_perform, under_pure]
  rintro t _ ⟨⟨rfl, -⟩, -⟩
  exact h.frame rfl rfl

/-! ### BUY -/

theorem settle_wallet {w₀ : Wallet} {tok : String} {fp : FillProgress} {spend ask rate : ℚ}
    (hw : FlatBut w₀ tok) (hspend : 0 < spend) (hask : 0 < ask) (hp : Polled w₀ fp w) :
    Under (carefulFeeds closing T) w (do
      let after ← queryConditionalBalance tok
      pure (settleBuyFill fp w₀.lastRead after spend ask rate)) fun w' r =>
        FlatBut w' tok ∧ ∀ err, r = .error err → AllFlat w' := by
  have hw₁ : FlatBut w tok := hw.same hp.balance hp.bought
  simp only [under_bind, queryConditionalBalance, under_perform, under_pure]
  rintro after _ ⟨⟨rfl, hcare⟩, -⟩
  refine ⟨hw₁.read _, fun err herr => ?_⟩
  obtain ⟨hfill, hgrown⟩ := settleBuyFill_error hspend hask herr
  rw [hp.reported] at hfill
  have hunseen : ¬ kShareEps < w.reported := not_lt.mpr hfill
  have hdust : w.balance tok ≤ kFlatEps := by
    cases after with
    | error e => exact (hcare hp.resolving).resolve_left hunseen
    | ok b =>
      have hstill : ¬ kShareEps < b - w.lastRead := by
        rw [hp.lastRead]
        exact not_lt.mpr (hgrown b rfl)
      exact ((hcare.2 hp.resolving).resolve_left hunseen).resolve_left hstill
  exact (hw₁.allFlat fun _ => hdust).read _

theorem liveResolveMarketBuyFill_wallet {tok id : String} {spend ask rate : ℚ} {resp : Core.Json}
    (hw : FlatBut w tok) (hres : w.resolving = true)
    (hrep : ((tryMarketBuyFillFromPostResp resp).map Prod.snd).getD 0 = w.reported)
    (hspend : 0 < spend) (hask : 0 < ask) :
    Under (carefulFeeds closing T) w
      (liveResolveMarketBuyFill tok id w.lastRead spend ask rate resp) fun w' r =>
        FlatBut w' tok ∧ ∀ err, r = .error err → AllFlat w' := by
  unfold liveResolveMarketBuyFill
  dsimp only
  split
  · exact settle_wallet hw hspend hask ⟨rfl, rfl, rfl, hres, hrep⟩
  · simp only [under_bind]
    refine (pollOrder_wallet id _ ⟨rfl, rfl, rfl, hres, hrep⟩).mono fun w₁ fp hp => ?_
    exact under_bind.mp (settle_wallet hw hspend hask hp)

theorem liveBuy_wallet {slug : String} {plan : BuyPlan} {now : ℤ} (hw : AllFlat w)
    (hspend : 0 < plan.spend) (hask : 0 < plan.ask) :
    Under (carefulFeeds closing T) w (liveBuy cfg slug plan now c) fun w' r =>
      match r with
      | .error c' => Tracked c' w'
      | .ok _ => ∃ tok, T c.paper.pendingOutcome tok ∧ FlatBut w' tok := by
  have failed {w : Wallet} (hw : AllFlat w) (c' : Consumer) :
      Under (carefulFeeds closing T) w (do
        let c ← failOrder kCooldownNs c'
        pure (Except.error c : Except Consumer LiveMarketBuyFill)) fun w' r =>
        match r with
        | .error c' => Tracked c' w'
        | .ok _ => ∃ tok, T c.paper.pendingOutcome tok ∧ FlatBut w' tok := by
    simp only [under_bind, under_pure]
    exact failOrder_wallet hw.tracked
  simp only [liveBuy, under_bind, tokenId, queryConditionalBalance, submit, under_perform]
  rintro tok w₁ ⟨⟨h₁, -⟩, htok⟩ bal _ ⟨⟨rfl, -⟩, -⟩
  obtain rfl : w = w₁ := h₁.symm
  cases bal with
  | error err => exact failed (hw.read _) c
  | ok before =>
    simp only [under_bind, under_perform]
    rintro resp w₂ ⟨⟨hfill, -⟩, -⟩
    cases resp with
    | error err =>
      obtain rfl : w₂ = w.read (.ok before) := hfill
      exact failed (hw.read _) _
    | ok resp =>
      obtain ⟨shares, price, -, -, -, -, rfl⟩ := hfill
      have hw₂ : FlatBut ((w.read (.ok before)).receive tok shares resp.resp) tok :=
        (hw.read _).receive shares resp.resp
      simp only [under_bind]
      refine (liveResolveMarketBuyFill_wallet hw₂ rfl rfl hspend hask).mono fun w₃ fill h₃ => ?_
      cases fill with
      | error err => exact failed (h₃.2 err rfl) _
      | ok fill => exact under_pure.mpr ⟨tok, htok, h₃.1⟩

theorem executeBuy_wallet {v : HotView} {t : Theo} {now : ℤ} (hl : cfg.liveExecution = true)
    (hT : ∀ o tok tok', T o tok → T o tok' → tok = tok') (h : Tracked c w) :
    Under (carefulFeeds closing T) w (executeBuy cfg v t now c) fun w' c' => Tracked c' w' := by
  unfold executeBuy
  split
  · exact under_pure.mpr (h.frame rfl rfl)
  · rename_i hn
    split
    · exact under_pure.mpr (h.frame rfl rfl)
    · exact under_pure.mpr (h.frame rfl rfl)
    · rename_i plan hplan
      obtain ⟨rfl, hask, hspend, -⟩ := buyCheck_order hplan
      have hflat : AllFlat w := h.allFlat (by simpa using hn)
      simp only [under_bind, buyFill, hl, if_true]
      refine (liveBuy_wallet hflat (by linarith) (buyRefused_ask_pos hask)).mono fun w₁ r hr => ?_
      cases r with
      | error c' => exact under_pure.mpr hr
      | ok fill =>
        obtain ⟨tok, htok, hw₁⟩ := hr
        simp only [under_bind, tokenId, under_perform, under_pure]
        rintro tok' w₂ ⟨⟨h₂, -⟩, htok'⟩
        obtain rfl : w₁ = w₂ := h₂.symm
        exact hw₁.tracked rfl (hT _ _ _ htok' htok)

/-! ### Sales -/

theorem flat_of_zero {bal : ℚ} (h : max 0 bal ≤ kZeroQty) : bal ≤ kFlatEps := by
  have hz : kZeroQty ≤ kFlatEps := by
    unfold kZeroQty kFlatEps
    norm_num
  exact (le_max_right 0 bal).trans (h.trans hz)

theorem liveSell_wallet {v : HotView} {t : Theo} {now : ℤ}
    (hclose : c.paper.exitIsStop = true → closing = true) (hn : c.paper.havePos = true)
    (h : Tracked c w) :
    Under (carefulFeeds closing T) w (liveSell cfg v t now c) fun w' c' => Tracked c' w' := by
  have hw : FlatBut w c.paper.tokenId := h.flatBut
  have kept {w : Wallet} (hw : FlatBut w c.paper.tokenId) {ns : ℤ} {c' : Consumer}
      (hn' : c'.paper.havePos = c.paper.havePos) (ht : c'.paper.tokenId = c.paper.tokenId) :
      Under (carefulFeeds closing T) w (failOrder ns c') fun w' c' => Tracked c' w' :=
    failOrder_wallet (hw.tracked (hn'.trans hn) ht)
  simp only [liveSell, under_bind, queryConditionalBalance, submit, under_perform]
  rintro bal _ ⟨⟨rfl, hcare⟩, -⟩
  cases bal with
  | error err => exact kept (hw.read _) rfl rfl
  | ok clobBalance =>
    dsimp only
    split
    · rename_i hz
      split
      · rename_i hs
        -- a stop exit gives the position up on this read
        have hflat : AllFlat w :=
          hw.allFlat fun hb => hcare.1 (hclose hs) hb (flat_of_zero hz)
        exact under_pure.mpr (hflat.read _).tracked
      · exact kept (hw.read _) rfl rfl
    · split
      · rename_i hs
        obtain rfl : closing = true := hclose hs
        simp only [under_bind]
        refine (stopSellAttempts_wallet kMaxAttempts (hw.read _) rfl).mono fun w₁ r h₁ => ?_
        split
        · rename_i hflat
          exact under_pure.mpr (h₁.2 hflat).tracked
        · exact kept h₁.1 rfl rfl
      · simp only [under_bind, under_perform]
        rintro resp w₁ ⟨⟨hfill, hsold⟩, -⟩
        cases resp with
        | error err =>
          obtain rfl : w₁ = w.read (.ok clobBalance) := hfill
          exact kept (hw.read _) rfl rfl
        | ok resp =>
          obtain ⟨shares, -, -, -, rfl⟩ := hfill
          have hdust := hsold rfl (by simp [sellIntent])
          have hflat := ((hw.read (.ok clobBalance)).deliver shares).allFlat fun _ => hdust
          exact under_pure.mpr hflat.tracked

theorem executeSell_wallet {v : HotView} {t : Theo} {now : ℤ} (hl : cfg.liveExecution = true)
    (hclose : c.paper.exitIsStop = true → closing = true) (hn : c.paper.havePos = true)
    (h : Tracked c w) :
    Under (carefulFeeds closing T) w (executeSell cfg v t now c) fun w' c' => Tracked c' w' := by
  unfold executeSell
  dsimp only
  split
  · exact under_pure.mpr (h.frame rfl rfl)
  · exact liveSell_wallet hclose hn h

theorem executeDue_wallet (hl : cfg.liveExecution = true)
    (hclose : stopExit c.paper = true → closing = true)
    (hT : ∀ o tok tok', T o tok → T o tok' → tok = tok') (h : Tracked c w) :
    Under (carefulFeeds closing T) w (executeDue M cfg c) fun w' c' => Tracked c' w' := by
  unfold executeDue
  split
  · simp only [under_bind, steadyNs, under_perform]
    rintro now w₁ ⟨⟨h₁, -⟩, -⟩
    obtain rfl : w = w₁ := h₁.symm
    unfold executeDueAt
    split
    · exact under_pure.mpr h
    · split
      · exact under_pure.mpr h
      · split
        · exact executeBuy_wallet hl hT h
        · split
          · rename_i hs
            have hclose' (hstop : c.paper.exitIsStop = true) : closing = true := by
              apply hclose
              simp [stopExit, hs.1, hstop]
            exact executeSell_wallet hl hclose' hs.2 h
          · exact under_pure.mpr (h.frame rfl rfl)
  · exact under_pure.mpr h

theorem liveForceSell_wallet {ev : Rollover} (hn : c.paper.havePos = true) (h : Tracked c w) :
    Under (carefulFeeds true T) w (liveForceSell cfg ev c) fun w' c' => Tracked c' w' := by
  have hw : FlatBut w c.paper.tokenId := h.flatBut
  simp only [liveForceSell, under_bind, queryConditionalBalance, submit, steadyNs, under_perform]
  rintro bal _ ⟨⟨rfl, hcare⟩, -⟩
  cases bal with
  | error err => exact under_pure.mpr ((hw.read _).tracked hn rfl)
  | ok clobBalance =>
    dsimp only
    split
    · rename_i hz
      have hflat : AllFlat w := hw.allFlat fun hb => hcare.1 rfl hb (flat_of_zero hz)
      exact under_pure.mpr (hflat.read _).tracked
    · simp only [under_bind, under_perform]
      rintro mono w₁ ⟨⟨h₁, -⟩, -⟩ resp w₂ ⟨⟨hfill, hsold⟩, -⟩
      obtain rfl : w₁ = w.read (.ok clobBalance) := h₁
      cases resp with
      | error err =>
        obtain rfl : w₂ = w.read (.ok clobBalance) := hfill
        exact under_pure.mpr ((hw.read _).tracked hn rfl)
      | ok resp =>
        obtain ⟨shares, -, -, -, rfl⟩ := hfill
        have hdust := hsold rfl (by simp [forceSellIntent])
        have hflat := ((hw.read (.ok clobBalance)).deliver shares).allFlat fun _ => hdust
        exact under_pure.mpr hflat.tracked

end Programs

/-! ### Runs -/

def noShares (w : Wallet) : Prop := w.bought = [] ∧ ∀ k, w.balance k = 0

def sameFeed : Obs Reply → Obs Reply → Bool
  | ⟨.tokenId o, tok⟩, ⟨.tokenId o', tok'⟩ => decide (o = o' → tok = tok')
  | _, _ => true

def stableFeeds (tr : Trace) : Bool := tr.all fun a => tr.all fun b => sameFeed a b

theorem stableFeeds_spec {tr : Trace} (h : stableFeeds tr = true) (o : Outcome)
    (tok tok' : String) (hm : seen tr o tok) (hm' : seen tr o tok') : tok = tok' := by
  have hall := List.all_eq_true.mp (List.all_eq_true.mp h _ hm) _ hm'
  simpa [sameFeed] using hall

/-- The steps that close the position when a balance read says dust: a Rollover,
and an update that executes a stop exit. -/
def closesOnDust (M : Libm) (cfg : Config) (c : Consumer) : Label → Bool
  | .event _ _ => true
  | .update (⟨.steadyNs, r₁⟩ :: _) => c.hot.view?.any fun v =>
      stopExit (scheduleAt cfg v (v.theo M cfg) r₁ c.updateDone).paper
  | .update _ => false

def carefulRunner (M : Libm) (cfg : Config) : Lts (Consumer × Wallet) Label where
  init := (runnerIn M cfg noShares exchange).init
  step x l y := (runnerIn M cfg noShares (carefulExchange (closesOnDust M cfg x.1 l))).step x l y ∧
    stableFeeds l.trace = true

section Runs

variable {M : Libm} {cfg : Config} {c : Consumer} {w : Wallet}

theorem carefulRunner_exchange {x : Consumer × Wallet} (h : (carefulRunner M cfg).Reachable x) :
    (runnerIn M cfg noShares exchange).Reachable x :=
  h.mono (fun _ hs => hs) fun _ _ _ hst => ⟨hst.1.1, hst.1.2.mono fun _ _ _ ho => ho.1⟩

theorem carefulRunner_of_closing {x : Consumer × Wallet}
    (h : ((runnerIn M cfg noShares (carefulExchange true)).restrict fun _ l =>
      stableFeeds l.trace = true).Reachable x) : (carefulRunner M cfg).Reachable x :=
  h.mono (fun _ hs => hs) fun _ _ _ hst =>
    ⟨⟨hst.1.1, hst.1.2.mono fun _ _ _ ho => carefulExchange_mono ho⟩, hst.2⟩

theorem onRollover_wallet {T : Outcome → String → Prop} {ev : Rollover}
    (hl : cfg.liveExecution = true) (hd : cfg.disableRolloverForceSell = false)
    (h : Tracked c w) :
    Under (carefulFeeds true T) w (onRollover cfg ev c) fun w' c' => Tracked c' w' := by
  have position : Under (carefulFeeds true T) w (rolloverPosition cfg ev c) fun w' c' =>
      Tracked c' w' := by
    simp only [rolloverPosition, hl, hd, Bool.false_eq_true, if_false, if_true]
    split
    · rename_i hn
      exact liveForceSell_wallet hn h
    · exact under_pure.mpr h
  simp only [onRollover, under_bind, under_pure]
  exact position.mono fun w' c' h' => h'.frame rfl rfl

theorem taken_wallet {T : Outcome → String → Prop} {e : Event} (h : Tracked c w)
    (he : ∀ ev, e ≠ .rollover ev) :
    Under (carefulFeeds true T) w (c.take M cfg e) fun w' c' => Tracked c' w' := by
  have kept : ∀ w o w', Quiet o.call → carefulFeeds true T w o w' → Tracked c w →
      Tracked c w' := by
    intro w o w' hq hx ht
    obtain ⟨hb, hl⟩ := exchange_quiet hq hx.1.1
    exact ht.same hb hl
  intro tr c' w' hx hacc
  obtain ⟨ht, -⟩ := (take_quietly M cfg c he).under_kept kept h tr c' w' hx hacc
  cases take_taken M cfg c e tr c' hx with
  | rollover ev => exact absurd rfl (he ev)
  | spot | quote | idle | startup => exact ht.frame rfl rfl

theorem updated_wallet {tr : Trace} {c' : Consumer} {w' : Wallet}
    (hl : cfg.liveExecution = true) (h : Tracked c w)
    (hx : Exec (c.updateDone.onHotUpdate M cfg) tr c')
    (hacc : Accepts (carefulExchange (closesOnDust M cfg c (.update tr))) w tr w')
    (hfeeds : stableFeeds tr = true) : Tracked c' w' := by
  have h₀ : Tracked c.updateDone w := h.frame rfl rfl
  rcases onHotUpdate_executeDue hx with ⟨rfl, rfl, -⟩ | ⟨v, r₁, rest, hv, -, rfl, hdue⟩
  · obtain rfl := accepts_nil.mp hacc
    exact h₀
  · have hfed := hacc.and (onToken_seen _)
    obtain ⟨w₁, ⟨⟨h₁, -⟩, -⟩, hrest⟩ := accepts_cons.mp hfed
    obtain rfl : w = w₁ := h₁.symm
    have hsame := (scheduleAt_cases cfg v (v.theo M cfg) r₁ c.updateDone).position
    have hclose : stopExit (scheduleAt cfg v (v.theo M cfg) r₁ c.updateDone).paper = true →
        closesOnDust M cfg c (.update (⟨.steadyNs, r₁⟩ :: rest)) = true := by
      intro hstop
      have hv' : c.hot.view? = some v := hv
      simpa only [closesOnDust, hv', Option.any_some] using hstop
    exact executeDue_wallet hl hclose (stableFeeds_spec hfeeds)
      (h₀.frame hsame.havePos hsame.tokenId) _ _ _ hdue hrest

theorem tracked_step (hl : cfg.liveExecution = true) (hd : cfg.disableRolloverForceSell = false)
    {x y : Consumer × Wallet} {l : Label} (h : Tracked x.1 x.2)
    (hst : (carefulRunner M cfg).step x l y) : Tracked y.1 y.2 := by
  obtain ⟨⟨hstep, hacc⟩, hfeeds⟩ := hst
  obtain ⟨c, w⟩ := x
  obtain ⟨c', w'⟩ := y
  dsimp only at *
  cases hstep with
  | update hdue he => exact updated_wallet hl h he hacc hfeeds
  | event hdue hstart he =>
    rename_i e tr
    have hfed : Accepts (carefulFeeds true (seen tr)) w tr w' := hacc.and (onToken_seen tr)
    by_cases hro : ∃ ev, e = .rollover ev
    · obtain ⟨ev, rfl⟩ := hro
      exact onRollover_wallet hl hd h _ _ _ he hfed
    · exact taken_wallet h (fun ev hev => hro ⟨ev, hev⟩) _ _ _ he hfed

/-- Where the exchange reads dust truly when a position closes on it, shows what a
BUY filled and fills the sales that close a position, no token bought has more
than dust left while no position is open. -/
theorem no_untracked_shares (hl : cfg.liveExecution = true)
    (hd : cfg.disableRolloverForceSell = false) (h : (carefulRunner M cfg).Reachable (c, w))
    (hn : c.paper.havePos = false) : ∀ k ∈ w.bought, w.balance k ≤ kFlatEps := by
  have htracked : Tracked c w := by
    refine h.invariant (I := fun x => Tracked x.1 x.2) ?_ fun x l y _ inv hst =>
      tracked_step hl hd inv hst
    rintro x ⟨-, hw, -⟩ k hk
    rw [hw] at hk
    cases hk
  exact htracked.allFlat hn

end Runs

/-! ### Two runs -/

/-- An exchange without a choice: a BUY fills at its worst price, of a sale the
share `part` fills, and balances are read as they are. -/
def fillsPart (part : ℚ) (w : Wallet) : Obs Reply → Option Wallet
  | ⟨.queryConditionalBalance tok, .ok b⟩ =>
    if b = w.balance tok then some (w.read (.ok b)) else none
  | ⟨.queryConditionalBalance _, .error _⟩ => none
  | ⟨.queryOrder _, .ok order⟩ => some (w.observe order)
  | ⟨.submit oi, .ok resp⟩ =>
    match oi.side with
    | .buy => if 0 < oi.marketWorstPrice ∧ 0 ≤ oi.qty then
        some (w.receive oi.marketTokenId (oi.qty / oi.marketWorstPrice) resp.resp) else none
    | .sell => if 0 ≤ part ∧ part ≤ 1 ∧ 0 ≤ oi.qty ∧ oi.qty ≤ w.balance oi.marketTokenId then
        some (w.deliver oi.marketTokenId (part * oi.qty)) else none
  | _ => some w

theorem fillsPart_submit {part : ℚ} {w w' : Wallet} {oi : OrderIntent} {resp : SubmitResp}
    (h : fillsPart part w ⟨.submit oi, .ok resp⟩ = some w') : Fills w oi resp.resp w' := by
  simp only [fillsPart] at h
  simp only [Fills]
  cases hside : oi.side with
  | buy =>
    simp only [hside] at h
    split at h
    · rename_i hc
      cases h
      refine ⟨oi.qty / oi.marketWorstPrice, oi.marketWorstPrice, ?_, hc.1, le_rfl, ?_, rfl⟩
      · exact div_nonneg hc.2 hc.1.le
      · rw [div_mul_cancel₀ _ hc.1.ne']
    · cases h
  | sell =>
    simp only [hside] at h
    split at h
    · rename_i hc
      obtain ⟨h₀, h₁, hq, hb⟩ := hc
      cases h
      have hle : part * oi.qty ≤ oi.qty := mul_le_of_le_one_left hq h₁
      exact ⟨part * oi.qty, mul_nonneg h₀ hq, hle, hle.trans hb, rfl⟩
    · cases h

theorem fillsPart_exchange (part : ℚ) (w : Wallet) (o : Obs Reply) (w' : Wallet)
    (h : fillsPart part w o = some w') : exchange w o w' := by
  obtain ⟨call, reply⟩ := o
  cases call with
  | queryConditionalBalance tok =>
    cases reply with
    | error err => cases h
    | ok b =>
      simp only [fillsPart] at h
      split at h
      · cases h
        rfl
      · cases h
  | queryOrder id => cases reply <;> cases h <;> rfl
  | submit oi =>
    cases reply with
    | error err =>
      cases h
      rfl
    | ok resp => exact fillsPart_submit h
  | _ =>
    cases h
    rfl

instance (closing : Bool) (w w' : Wallet) : (o : Obs Reply) → Decidable (Careful closing w w' o)
  | ⟨.queryConditionalBalance tok, .ok b⟩ =>
    inferInstanceAs (Decidable
      ((closing = true → tok ∈ w.bought → b ≤ kFlatEps → w.balance tok ≤ kFlatEps) ∧
        (w.resolving = true → kShareEps < w.reported ∨ kShareEps < b - w.lastRead ∨
          w.balance tok ≤ kFlatEps)))
  | ⟨.queryConditionalBalance tok, .error _⟩ =>
    inferInstanceAs (Decidable
      (w.resolving = true → kShareEps < w.reported ∨ w.balance tok ≤ kFlatEps))
  | ⟨.submit oi, .ok _⟩ =>
    inferInstanceAs (Decidable (oi.side = .sell → oi.marketOrderType ≠ "FAK" →
      w'.balance oi.marketTokenId ≤ kFlatEps))
  | ⟨.submit _, .error _⟩ => isTrue trivial
  | ⟨.steadyNs, _⟩ => isTrue trivial
  | ⟨.systemMs, _⟩ => isTrue trivial
  | ⟨.tokenId _, _⟩ => isTrue trivial
  | ⟨.queryOrder _, _⟩ => isTrue trivial
  | ⟨.queryGarchSigma _ _, _⟩ => isTrue trivial
  | ⟨.loopForever, _⟩ => isTrue trivial

def fillsAll (w : Wallet) (o : Obs Reply) : Option Wallet :=
  (fillsPart 1 w o).filter fun w' => decide (Careful true w w' o)

theorem fillsAll_careful (w : Wallet) (o : Obs Reply) (w' : Wallet)
    (h : fillsAll w o = some w') : carefulExchange true w o w' := by
  obtain ⟨hfill, hcare⟩ := Option.filter_eq_some_iff.mp h
  exact ⟨fillsPart_exchange 1 w o w' hfill, of_decide_eq_true hcare⟩

def boughtThenForceSold : List (Event × Script) :=
  signalUp fillUp ++ [(rolloverTo 600 "btc-600" 100 (some (dropTo (78 / 100))) none,
    (liveAnswers fun _ => .ok (5 / 4)).script)]

theorem force_sold_tracked :
    ∃ c w, (runnerIn coarse quickLive noShares exchange).Reachable (c, w) ∧
      c.paper.havePos = false ∧ "up-300" ∈ w.bought ∧ ∀ k ∈ w.bought, w.balance k ≤ kFlatEps := by
  obtain ⟨⟨c, w⟩, hr, hc⟩ := exists_in_environment coarse quickLive noShares
    (carefulExchange true) (fun _ l => stableFeeds l.trace) (s := {}) boughtThenForceSold
    (fun x => !x.1.paper.havePos && decide ("up-300" ∈ x.2.bought)) fillsAll_careful
    ⟨rfl, fun _ => rfl⟩ (by decide +kernel)
  simp only [Bool.and_eq_true, Bool.not_eq_true', decide_eq_true_eq] at hc
  have hcare : (carefulRunner coarse quickLive).Reachable (c, w) := carefulRunner_of_closing hr
  exact ⟨c, w, carefulRunner_exchange hcare, hc.1, hc.2, no_untracked_shares rfl rfl hcare hc.1⟩

theorem half_filled_force_sell :
    ∃ c w, (runnerIn coarse quickLive noShares exchange).Reachable (c, w) ∧
      c.paper.havePos = false ∧ "up-300" ∈ w.bought ∧ kFlatEps < w.balance "up-300" := by
  obtain ⟨⟨c, w⟩, hr, hc⟩ := exists_in_environment coarse quickLive noShares exchange
    (fun _ _ => true) (s := {}) boughtThenForceSold
    (fun x => !x.1.paper.havePos && decide ("up-300" ∈ x.2.bought) &&
      decide (kFlatEps < x.2.balance "up-300")) (fillsPart_exchange (1 / 2))
    ⟨rfl, fun _ => rfl⟩ (by decide +kernel)
  simp only [Bool.and_eq_true, Bool.not_eq_true', decide_eq_true_eq] at hc
  exact ⟨c, w, hr.of_restrict, hc.1.1, hc.1.2, hc.2⟩

end LeadLag.Account
