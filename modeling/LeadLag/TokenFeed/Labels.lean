import LeadLag.TokenFeed.System

/-!
# The labels of a quote

`emit_quote` copies token and labels in one critical section, but a rollover
changes them in two, and `on_quote` is called outside both. A quote copied in
between has the next market's token and the last one's labels, and a quote
copied before may be delivered after.
-/

namespace LeadLag.TokenFeed
open LeadLag.Interaction

/-! ### Rollovers -/

/-- Every `switch_token` is followed by its `set_market_context`. -/
def inSequence (s : System) : Move → Bool
  | .beginSwitch _ => decide (s.caller = .idle)
  | _ => true

def rollovers (n : ℕ) (listed : Market → Prop) : Lts System Move :=
  (feed n listed).restrict fun s mv => inSequence s mv = true

/-! ### The steps allowed -/

def Task.undelivered? : Task → Option WsQuote
  | .calling q _ => some q
  | _ => none

def Effect.copied? : Effect → Option WsQuote
  | .goes t => t.undelivered?
  | _ => none

/-- No quote is copied between the two critical sections of a rollover, and none
copied earlier is still undelivered at the second. -/
def labelSafe (s : System) : Move → Bool
  | .work i => !s.caller.between || s.active[i]?.all fun t => (t.step s.fields).copied?.isNone
  | .setContext => s.active.all fun t => t.undelivered?.isNone
  | _ => true

/-! ### The invariant -/

def Caller.target? : Caller → Option Market
  | .unsubscribing _ m | .assigning m => some m
  | .snapshotting m | .subscribing m | .returned m | .unchanged m => some m
  | .idle => none

structure LabelInv (listed : Market → Prop) (s : System) : Prop where
  target : ∀ m, s.caller.target? = some m → listed m
  assigned : ∀ m, s.caller.assigned? = some m → s.fields.tokenId = m.tokenId
  fields : s.caller.between = false → listed s.fields.market
  undelivered : ∀ t ∈ s.active, ∀ q, t.undelivered? = some q →
    listed q.market ∧ (s.caller.between = false → q.market = s.fields.market)
  delivered : ∀ q ∈ s.delivered, listed q.market

/-- The quotes not yet delivered after a step of a handler were there before, or
the step has just copied one. -/
theorem undelivered_afterWork {s : System} {i : ℕ} {task t : Task} {q : WsQuote}
    (ht : t ∈ (s.afterWork i (task.step s.fields)).active) (hq : t.undelivered? = some q) :
    t ∈ s.active ∨ (task.step s.fields).copied? = some q ∧ q.market = s.fields.market := by
  have hstep := task.step_stepped s.fields
  generalize task.step s.fields = eff at hstep ht
  have other {t' : Task} (hset : t ∈ s.active.set i t') (hno : t'.undelivered? = none) :
      t ∈ s.active := by
    rcases List.mem_or_eq_of_mem_set hset with hmem | rfl
    · exact hmem
    · rw [hno] at hq
      cases hq
  cases hstep with
  | finished => exact .inl (List.mem_of_mem_eraseIdx ht)
  | threw => exact .inl ht
  | skipped | checked | dropped | suppressed | delivered | stored => exact .inl (other ht rfl)
  | copied bid ask rest =>
    rcases List.mem_or_eq_of_mem_set ht with hmem | rfl
    · exact .inl hmem
    · cases hq
      exact .inr ⟨rfl, rfl⟩

theorem delivered_afterWork {s : System} {i : ℕ} {task : Task} {q : WsQuote}
    (hq : q ∈ (s.afterWork i (task.step s.fields)).delivered) :
    q ∈ s.delivered ∨ task.undelivered? = some q := by
  have hstep := task.step_stepped s.fields
  generalize task.step s.fields = eff at hstep hq
  cases hstep with
  | delivered q' rest =>
    rcases List.mem_append.mp hq with hq | hq
    · exact .inl hq
    · obtain rfl := List.mem_singleton.mp hq
      exact .inr rfl
  | finished | threw | skipped | checked | dropped | suppressed | copied | stored => exact .inl hq

section Step

variable {n : ℕ} {listed : Market → Prop} {s t : System} {mv : Move}

theorem labelInv_start {m : Market} (hm : listed m) : LabelInv listed (.start m) where
  target _ := nofun
  assigned _ := nofun
  fields _ := hm
  undelivered _ ht := absurd ht List.not_mem_nil
  delivered _ hq := absurd hq List.not_mem_nil

/-- A step that leaves the caller, the labels and the deliveries alone. -/
theorem LabelInv.frame (inv : LabelInv listed s) (hcaller : t.caller = s.caller)
    (hmarket : t.fields.market = s.fields.market) (hdelivered : t.delivered = s.delivered)
    (hactive : ∀ task ∈ t.active, task ∈ s.active ∨ task.undelivered? = none) :
    LabelInv listed t where
  target := by
    rw [hcaller]
    exact inv.target
  assigned m hm := by
    rw [hcaller] at hm
    exact (congrArg Market.tokenId hmarket).trans (inv.assigned m hm)
  fields := by
    rw [hcaller, hmarket]
    exact inv.fields
  undelivered task htask q hq := by
    rw [hcaller, hmarket]
    rcases hactive task htask with hmem | hno
    · exact inv.undelivered task hmem q hq
    · rw [hno] at hq
      cases hq
  delivered := by
    rw [hdelivered]
    exact inv.delivered

theorem Caller.target_of_assigned {c : Caller} {m : Market} (h : c.assigned? = some m) :
    c.target? = some m := by
  cases c with
  | idle | unsubscribing | assigning => cases h
  | snapshotting | subscribing | returned | unchanged => exact h

/-- A step of the caller on its way to market `m`. Before the token is assigned
the labels stay. -/
theorem LabelInv.advance (inv : LabelInv listed s) {m : Market}
    (htarget : t.caller.target? = some m) (hm : listed m)
    (hassigned : t.caller.assigned? = some m → t.fields.tokenId = m.tokenId)
    (hbefore : t.caller.between = false →
      s.caller.between = false ∧ t.fields.market = s.fields.market)
    (hactive : t.active = s.active) (hdelivered : t.delivered = s.delivered) :
    LabelInv listed t where
  target m' hm' := by
    rw [htarget] at hm'
    cases hm'
    exact hm
  assigned m' hm' := by
    have heq := Caller.target_of_assigned hm'
    rw [htarget] at heq
    cases heq
    exact hassigned hm'
  fields h := by
    obtain ⟨hs, hmarket⟩ := hbefore h
    rw [hmarket]
    exact inv.fields hs
  undelivered task htask q hq := by
    rw [hactive] at htask
    obtain ⟨hlisted, hlabels⟩ := inv.undelivered task htask q hq
    refine ⟨hlisted, ?_⟩
    intro h
    obtain ⟨hs, hmarket⟩ := hbefore h
    rw [hmarket]
    exact hlabels hs
  delivered := by
    rw [hdelivered]
    exact inv.delivered

theorem LabelInv.work (inv : LabelInv listed s) {i : ℕ} {task : Task}
    (htask : s.active[i]? = some task) (hsafe : labelSafe s (.work i) = true) :
    LabelInv listed (s.afterWork i (task.step s.fields)) := by
  obtain ⟨hmarket, -, -, hcaller, -⟩ := afterWork_frame (s := s) i task
  have hmem : task ∈ s.active := List.mem_of_getElem? htask
  refine ⟨?_, ?_, ?_, ?_, ?_⟩
  · rw [hcaller]
    exact inv.target
  · intro m hm
    rw [hcaller] at hm
    exact (congrArg Market.tokenId hmarket).trans (inv.assigned m hm)
  · rw [hcaller, hmarket]
    exact inv.fields
  · intro t ht q hq
    rw [hcaller, hmarket]
    rcases undelivered_afterWork ht hq with hold | ⟨hcopied, hlabels⟩
    · exact inv.undelivered t hold q hq
    · -- a quote copied now has the labels of now, and no rollover is halfway
      have hbefore : s.caller.between = false := by
        simpa [labelSafe, htask, hcopied] using hsafe
      rw [hlabels]
      exact ⟨inv.fields hbefore, fun _ => rfl⟩
  · intro q hq
    rcases delivered_afterWork hq with hold | hnew
    · exact inv.delivered q hold
    · exact (inv.undelivered task hmem q hnew).1

theorem LabelInv.step (inv : LabelInv listed s) (h : Moved n s mv t)
    (hlisted : ∀ m, mv = .beginSwitch m → listed m) (hseq : inSequence s mv = true)
    (hsafe : labelSafe s mv = true) : LabelInv listed t := by
  cases h with
  | opened | closed | snapshot | send | callback =>
    exact inv.frame rfl rfl rfl fun _ h => .inl h
  | receiveInline msg =>
    refine inv.frame rfl rfl rfl ?_
    intro task htask
    rw [List.mem_singleton.mp htask]
    exact .inr rfl
  | receiveQueued => exact inv.frame rfl rfl rfl fun _ h => .inl h
  | take msg rest =>
    refine inv.frame rfl rfl rfl ?_
    intro task htask
    rcases List.mem_append.mp htask with hmem | hnew
    · exact .inl hmem
    · rw [List.mem_singleton.mp hnew]
      exact .inr rfl
  | work i task htask => exact inv.work htask hsafe
  | sameToken m _ htok =>
    have hidle : s.caller = .idle := of_decide_eq_true hseq
    have hbefore : s.caller.between = false := by
      rw [hidle]
      rfl
    exact inv.advance rfl (hlisted m rfl) (fun _ => htok.symm) (fun _ => ⟨hbefore, rfl⟩) rfl rfl
  | noToken m | begun m =>
    have hidle : s.caller = .idle := of_decide_eq_true hseq
    have hbefore : s.caller.between = false := by
      rw [hidle]
      rfl
    exact inv.advance rfl (hlisted m rfl) nofun (fun _ => ⟨hbefore, rfl⟩) rfl rfl
  | unsubscribe old m hc =>
    have hm : listed m := inv.target m (by rw [hc]; rfl)
    have hbefore : s.caller.between = false := by
      rw [hc]
      rfl
    exact inv.advance rfl hm nofun (fun _ => ⟨hbefore, rfl⟩) rfl rfl
  | assign m hc =>
    have hm : listed m := inv.target m (by rw [hc]; rfl)
    exact inv.advance rfl hm (fun _ => rfl) nofun rfl rfl
  | setSnapshot m hc | subscribe m hc =>
    have hm : listed m := inv.target m (by rw [hc]; rfl)
    have htok : s.fields.tokenId = m.tokenId := inv.assigned m (by rw [hc]; rfl)
    exact inv.advance rfl hm (fun _ => htok) nofun rfl rfl
  | setContext m hc =>
    have hm : listed m := inv.target m (by rcases hc with hc | hc <;> rw [hc] <;> rfl)
    have htok : s.fields.tokenId = m.tokenId :=
      inv.assigned m (by rcases hc with hc | hc <;> rw [hc] <;> rfl)
    have hmarket : (s.fields.setMarketContext m).market = m := by
      rw [Fields.market, Fields.setMarketContext, htok]
    refine ⟨nofun, nofun, ?_, ?_, inv.delivered⟩
    · intro _
      rw [hmarket]
      exact hm
    · intro t ht q hq
      have hnone : t.undelivered? = none := by
        simp only [labelSafe, List.all_eq_true, Option.isNone_iff_eq_none] at hsafe
        exact hsafe t ht
      rw [hnone] at hq
      cases hq

theorem undelivered_of_step {q : WsQuote} (h : Moved n s mv t)
    (hq : t.delivered = s.delivered ++ [q]) :
    ∃ task ∈ s.active, task.undelivered? = some q := by
  have same (heq : t.delivered = s.delivered) : False := by simp [heq] at hq
  cases h with
  | work i task htask =>
    have hstep := task.step_stepped s.fields
    generalize task.step s.fields = eff at hstep hq same
    cases hstep with
    | delivered q' rest =>
      obtain rfl := List.singleton_inj.mp (List.append_cancel_left hq)
      exact ⟨_, List.mem_of_getElem? htask, rfl⟩
    | finished | threw | skipped | checked => exact (same rfl).elim
    | dropped | suppressed | copied | stored => exact (same rfl).elim
  | opened | closed | snapshot | send | callback => exact (same rfl).elim
  | receiveInline | receiveQueued | take => exact (same rfl).elim
  | sameToken | noToken | begun => exact (same rfl).elim
  | unsubscribe | assign | setSnapshot | subscribe | setContext => exact (same rfl).elim

theorem labelInv_reachable
    (h : ((rollovers n listed).restrict fun s mv => labelSafe s mv = true).Reachable s) :
    LabelInv listed s := by
  apply h.invariant
  · rintro _ ⟨m, hm, -, rfl⟩
    exact labelInv_start hm
  · intro s mv t _ inv hst
    obtain ⟨⟨⟨happly, hlisted⟩, hseq⟩, hsafe⟩ := hst
    exact inv.step (apply_moved happly) hlisted hseq hsafe

end Step

/-- In a run of rollovers that copies no quote between `switch_token`'s token and
`set_market_context`'s labels, and has delivered every earlier one by then, each
quote carries token and labels of one market, and outside a rollover those that
were set last. -/
theorem quotes_labelled {n : ℕ} {listed : Market → Prop} {s : System}
    (h : ((rollovers n listed).restrict fun s mv => labelSafe s mv = true).Reachable s) :
    (∀ q ∈ s.delivered, listed q.market) ∧
      (s.caller = .idle → ∀ mv t q, (rollovers n listed).step s mv t →
        t.delivered = s.delivered ++ [q] → q.market = s.fields.market) := by
  have inv := labelInv_reachable h
  refine ⟨inv.delivered, fun hidle mv t q hst hq => ?_⟩
  obtain ⟨task, htask, hundelivered⟩ := undelivered_of_step (apply_moved hst.1.1) hq
  refine (inv.undelivered task htask q hundelivered).2 ?_
  rw [hidle]
  rfl

/-! ### Three runs -/

def rollTo (m : Market) : List Move :=
  [.beginSwitch m, .switch, .switch, .switch, .switch, .setContext]

def quoteOf (m : Market) (bid ask : ℚ) : WsQuote :=
  ⟨m.tokenId, m.eventSlug, m.bucketEpoch, m.outcome, (bid : Price), (ask : Price)⟩

theorem exists_rollover_run (check : System → Move → Bool) (mvs : List Move) (P : System → Bool)
    (h : (Lts.stepAll (checkedApply 0 [bucket0, bucket300] fun s mv =>
      inSequence s mv && check s mv) (.start bucket0) mvs).any P = true) :
    ∃ s, ((rollovers 0 (· ∈ [bucket0, bucket300])).restrict
      fun s mv => check s mv = true).Reachable s ∧ P s = true := by
  obtain ⟨s, hrun, hP⟩ := exists_feed_run 0 [bucket0, bucket300] bucket0 _ mvs P h
  refine ⟨s, ?_, hP⟩
  have hr := hrun.reachable (.init (init_bucket0 0))
  refine hr.mono (fun _ hs => hs) fun s mv t hst => ?_
  have hcheck := (Bool.and_eq_true _ _).mp hst.2
  exact ⟨⟨hst.1, hcheck.1⟩, hcheck.2⟩

/-- A quote of each bucket, handled before and after the rollover. -/
theorem quotes_labelled_in_turn :
    ∃ s t q, (rollovers 0 (· ∈ [bucket0, bucket300])).Reachable s ∧ s.delivered.length = 1 ∧
      (rollovers 0 (· ∈ [bucket0, bucket300])).step s (.work 0) t ∧
      t.delivered = s.delivered ++ [q] ∧ q.market = bucket300 ∧
      ∀ q' ∈ s.delivered, q'.market ∈ [bucket0, bucket300] := by
  obtain ⟨s, hr, hP⟩ := exists_rollover_run labelSafe
    (openSocket ++ bestBidAskMsg "up-0" "0.5" "0.52" :: handled ++ rollTo bucket300 ++
      [bestBidAskMsg "up-300" "0.60" "0.62", .work 0, .work 0])
    (fun s => decide (s.caller = .idle ∧ s.fields.market = bucket300 ∧ s.delivered.length = 1) &&
      (s.apply 0 (.work 0)).any fun t : System =>
        decide (t.delivered = s.delivered ++ [quoteOf bucket300 (6 / 10) (62 / 100)]))
    (by decide +kernel)
  simp only [Bool.and_eq_true, decide_eq_true_eq, Option.any_eq_true] at hP
  obtain ⟨⟨hidle, hmarket, hlen⟩, t, hst, hq⟩ := hP
  have hstep : (rollovers 0 (· ∈ [bucket0, bucket300])).step s (.work 0) t := ⟨⟨hst, nofun⟩, rfl⟩
  obtain ⟨hall, hlast⟩ := quotes_labelled hr
  exact ⟨s, t, _, hr.of_restrict, hlen, hstep, hq, (hlast hidle _ t _ hstep hq).trans hmarket, hall⟩

/-- A message for the next token is handled between the two calls. Or the quote of
the last token is copied before them and delivered after both. -/
theorem mixed_labels :
    (∃ s q, (rollovers 0 (· ∈ [bucket0, bucket300])).Reachable s ∧ q ∈ s.delivered ∧
      q.market ∉ [bucket0, bucket300]) ∧
    ∃ s t q, (rollovers 0 (· ∈ [bucket0, bucket300])).Reachable s ∧ s.caller = .idle ∧
      (rollovers 0 (· ∈ [bucket0, bucket300])).step s (.work 0) t ∧
      t.delivered = s.delivered ++ [q] ∧ s.fields.market = bucket300 ∧ q.market = bucket0 := by
  constructor
  · obtain ⟨s, hr, hP⟩ := exists_rollover_run (fun _ _ => true)
      (openSocket ++ (rollTo bucket300).take 3 ++
        bestBidAskMsg "up-300" "0.60" "0.62" :: handled)
      (fun s => s.delivered.any fun q => decide (q.market ∉ [bucket0, bucket300]))
      (by decide +kernel)
    simp only [List.any_eq_true, decide_eq_true_eq] at hP
    obtain ⟨q, hq, hmixed⟩ := hP
    exact ⟨s, q, hr.of_restrict, hq, hmixed⟩
  · obtain ⟨s, hr, hP⟩ := exists_rollover_run (fun _ _ => true)
      (openSocket ++ [bestBidAskMsg "up-0" "0.5" "0.52", .work 0, .work 0] ++ rollTo bucket300)
      (fun s => decide (s.caller = .idle ∧ s.fields.market = bucket300) &&
        (s.apply 0 (.work 0)).any fun t : System =>
          decide (t.delivered = s.delivered ++ [quoteOf bucket0 (5 / 10) (52 / 100)]))
      (by decide +kernel)
    simp only [Bool.and_eq_true, decide_eq_true_eq, Option.any_eq_true] at hP
    obtain ⟨⟨hidle, hmarket⟩, t, hst, hq⟩ := hP
    exact ⟨s, t, _, hr.of_restrict, hidle, ⟨⟨hst, nofun⟩, rfl⟩, hq, hmarket, rfl⟩

end LeadLag.TokenFeed
