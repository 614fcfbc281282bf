import LeadLag.Exits.RiskStop

/-!
# The stop-sell retry flag

`stop_sell_retry` is set by an incomplete stop sale and makes `schedule` treat
the position as stopped. Every SELL that closes the position clears it; the
rollover branches that close the position do not. Where no Rollover closes a
position with the flag set, the flag belongs to the open position.
-/

namespace LeadLag.Exits
open LeadLag.Execution LeadLag.Interaction LeadLag.Runner

def incompleteSinceBuy : List TradesRow → Bool
  | [] => false
  | .buy _ :: _ => false
  | .error e :: rest => decide (e.action = .sellStopIncomplete) || incompleteSinceBuy rest
  | _ :: rest => incompleteSinceBuy rest

/-! ### What a Rollover does with the flag -/

def FailedCall (o : Obs Reply) : Prop :=
  (∃ tok err, o = ⟨.queryConditionalBalance tok, .error err⟩) ∨
    ∃ oi err, o = ⟨.submit oi, .error err⟩

theorem liveForceSell_kept (cfg : Config) (ev : Rollover) (c : Consumer) :
    Ensures (liveForceSell cfg ev c) fun tr c' =>
      (∃ o ∈ tr, FailedCall o) → ∃ e, c' = c.log (.error e) := by
  simp only [liveForceSell, ensures_bind, queryConditionalBalance, ensures_perform]
  intro bal
  cases bal with
  | error err => exact ensures_pure.mpr fun _ => ⟨_, rfl⟩
  | ok clobBalance =>
    dsimp only
    split
    · refine ensures_pure.mpr ?_
      rintro ⟨o, ho, hf⟩
      simp only [List.append_nil, List.mem_singleton] at ho
      simp [FailedCall, ho] at hf
    · simp only [ensures_bind, steadyNs, submit, ensures_perform]
      intro mono resp
      cases resp with
      | error err => exact ensures_pure.mpr fun _ => ⟨_, rfl⟩
      | ok resp =>
        refine ensures_pure.mpr ?_
        rintro ⟨o, ho, hf⟩
        simp only [List.append_nil, List.cons_append, List.nil_append, List.mem_cons,
          List.not_mem_nil, or_false] at ho
        rcases ho with rfl | rfl | rfl <;> simp [FailedCall] at hf

theorem onRollover_kept {cfg : Config} (hd : cfg.disableRolloverForceSell = false)
    (ev : Rollover) (c : Consumer) :
    Ensures (onRollover cfg ev c) fun tr c' =>
      (∃ o ∈ tr, FailedCall o) → ∃ e, c' = (c.log (.error e)).enterBucket cfg ev := by
  have silent (c₁ : Consumer) : Ensures (pure c₁ : Prog Consumer) fun tr c' =>
      (∃ o ∈ tr, FailedCall o) → ∃ e, c' = c.log (.error e) :=
    ensures_pure.mpr fun ⟨_, ho, _⟩ => nomatch ho
  have position : Ensures (rolloverPosition cfg ev c) fun tr c' =>
      (∃ o ∈ tr, FailedCall o) → ∃ e, c' = c.log (.error e) := by
    simp only [rolloverPosition, hd, Bool.false_eq_true, if_false]
    split
    · split
      · exact liveForceSell_kept cfg ev c
      · split
        · exact silent _
        · exact silent _
    · exact silent _
  simp only [onRollover, ensures_bind]
  refine position.mono fun tr c₁ h => ensures_pure.mpr fun hf => ?_
  rw [List.append_nil] at hf
  obtain ⟨e, rfl⟩ := h hf
  exact ⟨e, rfl⟩

/-- The steps allowed: a Rollover that finds the flag set does not close the
position, because FORCE_SELL is enabled and fails. -/
def RetrySurvives (cfg : Config) (c : Consumer) : Label → Prop
  | .event (.rollover _) tr => c.paper.stopSellRetry = true →
      cfg.disableRolloverForceSell = false ∧ ∃ o ∈ tr, FailedCall o
  | _ => True

/-! ### The flag belongs to the position -/

def RetryInv (c : Consumer) : Prop :=
  c.paper.stopSellRetry = true → c.paper.havePos = true ∧ incompleteSinceBuy c.trades = true

theorem retryInv_of_false {c : Consumer} (h : c.paper.stopSellRetry = false) : RetryInv c :=
  fun hr => by simp [h] at hr

theorem RetryInv.frame {c c' : Consumer} (inv : RetryInv c)
    (hr : c'.paper.stopSellRetry = c.paper.stopSellRetry)
    (hn : c'.paper.havePos = c.paper.havePos)
    (ht : incompleteSinceBuy c.trades = true → incompleteSinceBuy c'.trades = true) :
    RetryInv c' := by
  intro h
  rw [hr] at h
  exact ⟨hn.trans (inv h).1, ht (inv h).2⟩

theorem incompleteSinceBuy_error {rows : List TradesRow} (e : ErrorRow)
    (h : incompleteSinceBuy rows = true) : incompleteSinceBuy (.error e :: rows) = true := by
  simp [incompleteSinceBuy, h]

theorem RetryInv.schedule {cfg : Config} {v : HotView} {t : Theo} {now : ℤ} {c c₁ : Consumer}
    (inv : RetryInv c) (h : Scheduled cfg v t now c c₁) : RetryInv c₁ := by
  cases h <;> exact inv.frame rfl rfl id

theorem RetryInv.execute {M : Libm} {cfg : Config} {c c₁ : Consumer} (inv : RetryInv c)
    (h : Executed M cfg c c₁) : RetryInv c₁ := by
  cases h with
  | kept => exact inv
  | cleared | unknown | riskBlocked | failed => exact inv.frame rfl rfl id
  | failedRow _ e => exact inv.frame rfl rfl (incompleteSinceBuy_error e)
  | bought v plan fill tok hp ha hn =>
    refine retryInv_of_false (c := c.opened ..) ?_
    by_contra hr
    have held := (inv (by simpa [Consumer.opened] using hr)).1
    simp [hn] at held
  | flattened | soldByStop | soldAtBid => exact retryInv_of_false rfl
  | stopIncomplete v r untilNs hl hp ha hn =>
    exact fun _ => ⟨hn, by simp [Consumer.coolDown, Consumer.stopIncomplete, Consumer.log,
      incompleteSinceBuy, sellError]⟩

theorem RetryInv.step {M : Libm} {cfg : Config} {c c' : Consumer} {l : Label} (inv : RetryInv c)
    (hl : RetrySurvives cfg c l) (h : Step M cfg c l c') : RetryInv c' := by
  cases h with
  | update _ he =>
    have inv₀ : RetryInv c.updateDone := inv.frame rfl rfl id
    cases onHotUpdate_updated M cfg _ _ _ he with
    | skipped => exact inv₀
    | traded v now c₁ _ hv hen hs he => exact (inv₀.schedule hs).execute he
  | event _ _ he =>
    have ht := take_taken M cfg c _ _ _ he
    cases ht with
    | spot | quote | idle | startup => exact inv.frame rfl rfl id
    | rollover ev c₁ hf =>
      cases hr : c.paper.stopSellRetry with
      | true =>
        -- the condition: the position survives, and the flag with it
        obtain ⟨hd, hfail⟩ := hl hr
        obtain ⟨e, hc⟩ := onRollover_kept hd ev c _ _ he hfail
        rw [hc]
        exact inv.frame rfl rfl (incompleteSinceBuy_error e)
      | false =>
        refine retryInv_of_false ?_
        cases hf <;> exact hr

theorem retryInv_reachable {M : Libm} {cfg : Config} {c : Consumer}
    (h : ((runner M cfg).restrict (RetrySurvives cfg)).Reachable c) : RetryInv c := by
  refine h.invariant ?_ fun c l c' _ inv hst => inv.step hst.2 hst.1
  rintro _ ⟨hist, rfl⟩
  exact retryInv_of_false rfl

/-- In runs in which no Rollover closes a position that has the flag set, the
flag never outlives its position, and a stop-loss SELL is scheduled only on the
position's own stop signal or after an incomplete stop sale of its own. -/
theorem retry_belongs_to_position {M : Libm} {cfg : Config} {c : Consumer}
    (h : ((runner M cfg).restrict (RetrySurvives cfg)).Reachable c) :
    (c.paper.stopSellRetry = true → c.paper.havePos = true) ∧
      ∀ (v : HotView) (t : Theo) (now : ℤ), c.paper.pending = false →
        (scheduleAt cfg v t now c).paper.pending = true →
        (scheduleAt cfg v t now c).paper.pendingAction = some .sell →
        (scheduleAt cfg v t now c).paper.pendingExitReason = some .stopLoss →
        stopLossSignal cfg c.paper (v.book c.paper.outcome).bestBid c.paper.qty = true ∨
          incompleteSinceBuy c.trades = true := by
  have inv := retryInv_reachable h
  refine ⟨fun hr => (inv hr).1, fun v t now hp hpend hact hreason => ?_⟩
  have hs := scheduleAt_cases cfg v t now c
  generalize scheduleAt cfg v t now c = c₁ at *
  cases hs with
  | idle => simp [hp] at hpend
  | buy => simp [PaperState.scheduleBuy] at hact
  | sell _ _ reason _ _ _ _ hstop =>
    have hr : reason = .stopLoss := by simpa [PaperState.scheduleSell] using hreason
    have hsig := hstop.mp hr
    simp only [stopSignal, Bool.or_eq_true] at hsig
    rcases hsig with hsig | hsig
    · exact .inl hsig
    · exact .inr (inv hsig).2

/-! ### Two runs -/

def partialStop : Answers := liveAnswers fun n =>
  if n ≤ 3 then .ok (5 / 4) else if n = 5 then .ok (3 / 4) else .error "timeout"

def incompleteStopRun : List (Event × Script) :=
  signalUp fillUp ++ [(.polyQuote (dropTo (4 / 10)), partialStop.script)]

def noRetryAtRollover (c : Consumer) : Label → Bool
  | .event (.rollover _) _ => !c.paper.stopSellRetry
  | _ => true

theorem noRetryAtRollover_spec (c : Consumer) (l : Label) (h : noRetryAtRollover c l = true) :
    RetrySurvives quickLive c l := by
  unfold RetrySurvives
  split
  · intro hs
    simp [noRetryAtRollover, hs] at h
  · trivial

theorem retry_set_while_held :
    ∃ c, ((runner coarse quickLive).restrict (RetrySurvives quickLive)).Reachable c ∧
      c.paper.stopSellRetry = true ∧ c.paper.havePos = true := by
  obtain ⟨c, hr, hc⟩ := exists_checked_of_replay coarse quickLive noRetryAtRollover
    incompleteStopRun (fun c => c.paper.stopSellRetry) (by decide +kernel)
  have hr' : ((runner coarse quickLive).restrict (RetrySurvives quickLive)).Reachable c :=
    hr.restrict_mono noRetryAtRollover_spec
  exact ⟨c, hr', hc, (retry_belongs_to_position hr').1 hc⟩

theorem retry_outlives_position :
    ∃ c, (runner coarse quickLive).Reachable c ∧
      c.paper.stopSellRetry = true ∧ c.paper.havePos = false := by
  obtain ⟨c, hr, hc⟩ := exists_reachable_of_replay coarse quickLive
    (incompleteStopRun ++ [(rolloverTo 600 "btc-600" 100 (some (dropTo (4 / 10))) none,
      (liveAnswers fun _ => .ok (3 / 4)).script)])
    (fun c => c.paper.stopSellRetry && !c.paper.havePos) (by decide +kernel)
  simp only [Bool.and_eq_true, Bool.not_eq_true'] at hc
  exact ⟨c, hr, hc⟩

end LeadLag.Exits
