import LeadLag.Interaction.Runs
import LeadLag.Runner.Rollover
import LeadLag.Runner.Spot

/-!
# The consumer thread (btc_poly_runner.cpp:2162-2263, 2325-2850)

One event is taken from the queue at a time. A spot tick or a quote is stored
and then `on_hot_update(true)` runs; the two are separate steps, since `hot.mu`
is released between them. A Rollover is one step. Series rows are not modelled,
so the idle timer, which only samples them, changes nothing.
-/

namespace LeadLag.Runner
open LeadLag.Execution LeadLag.Interaction

/-- Queue events, the idle timer, and the first bucket, which the main thread
writes to `hot` before any Rollover (lines 2923-2936 and 2998-3008). -/
inductive Event where
  | binBook (bidPrice askPrice : ℚ) (localWallMs : ℤ)
  | binTrade (price : ℚ) (localWallMs : ℤ)
  | chainlinkSpot (tsMs : ℤ) (px : ℚ)
  | polyQuote (q : Quote)
  | rollover (ev : Rollover)
  | idle
  | startup (slug : String) (epoch : ℤ) (priceToBeat : Option ℚ) (enable : Bool)
  deriving DecidableEq, Repr

def Event.isSpot : Event → Bool
  | .binBook .. | .binTrade .. | .chainlinkSpot .. => true
  | _ => false

namespace HotState

def storeSide (h : HotState) (q : Quote) : HotState :=
  match q.outcome with
  | some .up => { h with up := some q }
  | some .down => { h with down := some q }
  | none => h

def adoptBucket (h : HotState) (q : Quote) : HotState :=
  if 0 ≤ q.marketBucketEpoch ∧ h.activeEpoch < 0 then
    { h with activeEpoch := q.marketBucketEpoch, slug := q.eventSlug }.withEdges (-1) (-1)
  else h

def storeQuote (h : HotState) (q : Quote) : HotState := (h.storeSide q).adoptBucket q

theorem activeEpoch_storeSide (h : HotState) (q : Quote) :
    (h.storeSide q).activeEpoch = h.activeEpoch := by
  unfold storeSide
  split <;> rfl

theorem slug_storeSide (h : HotState) (q : Quote) : (h.storeSide q).slug = h.slug := by
  unfold storeSide
  split <;> rfl

theorem storeQuote_bucket {h : HotState} (q : Quote) (he : 0 ≤ h.activeEpoch) :
    (h.storeQuote q).activeEpoch = h.activeEpoch ∧ (h.storeQuote q).slug = h.slug := by
  have hn : ¬ (0 ≤ q.marketBucketEpoch ∧ (h.storeSide q).activeEpoch < 0) := by
    rw [activeEpoch_storeSide]
    omega
  rw [storeQuote, adoptBucket, if_neg hn]
  exact ⟨activeEpoch_storeSide h q, slug_storeSide h q⟩

theorem book_storeQuote (h : HotState) (q : Quote) (o : Outcome) :
    (h.storeQuote q).book o = if q.outcome = some o then some q else h.book o := by
  have side : (h.storeQuote q).book o = (h.storeSide q).book o := by
    unfold storeQuote adoptBucket
    split
    · cases o <;> rfl
    · rfl
  rw [side, storeSide]
  split <;> rename_i hq <;> cases o <;> simp [hq, book]

end HotState

namespace Consumer

def stored (c : Consumer) (h : HotState) : Consumer := { c with hot := h, updateDue := true }

def started (c : Consumer) (slug : String) (epoch : ℤ) (priceToBeat : Option ℚ)
    (enable : Bool) : Consumer :=
  { c with
    hot := { c.hot with slug := slug, activeEpoch := epoch, K := priceToBeat.filter (0 < ·) }
    tradingEnabled := enable }

def onSpot (M : Libm) (cfg : Config) (tick : SpotTick) (c : Consumer) : Prog Consumer := do
  let h ← ingestSpot M cfg tick c.hot
  pure (c.stored h)

def take (M : Libm) (cfg : Config) (c : Consumer) : Event → Prog Consumer
  | .binBook bidPrice askPrice localWallMs =>
    c.onSpot M cfg
      { mid := 1 / 2 * (bidPrice + askPrice), wallMs := localWallMs
        entryClockWallMs := localWallMs }
  | .binTrade price localWallMs =>
    c.onSpot M cfg { mid := price, wallMs := localWallMs, entryClockWallMs := localWallMs }
  | .chainlinkSpot tsMs px => do
    -- the payload time prices the option, the local clock opens the entry window
    let wall ← systemMs
    c.onSpot M cfg { mid := px, wallMs := tsMs, entryClockWallMs := wall }
  | .polyQuote q => pure (c.stored (c.hot.storeQuote q))
  | .rollover ev => onRollover cfg ev c
  | .idle => pure c
  | .startup slug epoch priceToBeat enable => pure (c.started slug epoch priceToBeat enable)

def onHotUpdate (M : Libm) (cfg : Config) (c : Consumer) : Prog Consumer :=
  match c.hot.view? with
  | none => pure c
  | some v =>
    if c.tradingEnabled then do
      let c ← schedule cfg v (v.theo M cfg) c
      executeDue M cfg c
    else pure c

def updateDone (c : Consumer) : Consumer := { c with updateDue := false }

end Consumer

/-! ### Runs -/

inductive Label where
  | event (e : Event) (tr : Trace)
  | update (tr : Trace)

def Label.trace : Label → Trace
  | .event _ tr => tr
  | .update tr => tr

def Event.isStartup : Event → Bool
  | .startup .. => true
  | _ => false

inductive Step (M : Libm) (cfg : Config) : Consumer → Label → Consumer → Prop where
  | event {c c' : Consumer} {e : Event} {tr : Trace} :
      c.updateDue = false → (e.isStartup = true → c.tradingEnabled = false) →
      Exec (c.take M cfg e) tr c' → Step M cfg c (.event e tr) c'
  | update {c c' : Consumer} {tr : Trace} :
      c.updateDue = true → Exec (c.updateDone.onHotUpdate M cfg) tr c' →
      Step M cfg c (.update tr) c'

theorem Step.deterministic {M : Libm} {cfg : Config} (c : Consumer) (l : Label)
    (c₁ c₂ : Consumer) (h₁ : Step M cfg c l c₁) (h₂ : Step M cfg c l c₂) : c₁ = c₂ := by
  cases h₁ with
  | event _ _ he₁ =>
    cases h₂ with
    | event _ _ he₂ => exact he₁.deterministic he₂
  | update _ he₁ =>
    cases h₂ with
    | update _ he₂ => exact he₁.deterministic he₂

def runner (M : Libm) (cfg : Config) : Lts Consumer Label where
  init c := ∃ hist, c = .start cfg hist
  step := Step M cfg

def runnerIn {σ : Type} (M : Libm) (cfg : Config) (start : σ → Prop)
    (env : σ → Obs Reply → σ → Prop) : Lts (Consumer × σ) Label where
  init x := (∃ hist, x.1 = .start cfg hist) ∧ start x.2
  step x l y := Step M cfg x.1 l y.1 ∧ Accepts env x.2 l.trace y.2

theorem runnerIn_run {σ : Type} {M : Libm} {cfg : Config} {start : σ → Prop}
    {env : σ → Obs Reply → σ → Prop} {x y : Consumer × σ} {ls : List Label}
    (h : (runnerIn M cfg start env).Run x ls y) : (runner M cfg).Run x.1 ls y.1 := by
  induction h with
  | nil => exact .nil
  | snoc _ hst ih => exact .snoc ih hst.1

theorem runnerIn_restrict {σ : Type} {M : Libm} {cfg : Config} {start : σ → Prop}
    {env : σ → Obs Reply → σ → Prop} {cond : Consumer → Label → Prop} {x : Consumer × σ}
    (h : ((runnerIn M cfg start env).restrict fun x l => cond x.1 l).Reachable x) :
    ((runner M cfg).restrict cond).Reachable x.1 := by
  induction h with
  | init h => exact .init h.1
  | step _ hst ih => exact ih.step ⟨hst.1.1, hst.2⟩

/-! ### What a step can do -/

inductive Taken (cfg : Config) (c : Consumer) : Event → Consumer → Prop
  | spot {e : Event} (h : HotState) :
      SpotFrame c.hot h → e.isSpot = true → Taken cfg c e (c.stored h)
  | quote (q : Quote) : Taken cfg c (.polyQuote q) (c.stored (c.hot.storeQuote q))
  | rollover (ev : Rollover) (c₁ : Consumer) :
      ForceSold cfg ev c c₁ → Taken cfg c (.rollover ev) (c₁.enterBucket cfg ev)
  | idle : Taken cfg c .idle c
  | startup (slug : String) (epoch : ℤ) (priceToBeat : Option ℚ) (enable : Bool) :
      Taken cfg c (.startup slug epoch priceToBeat enable)
        (c.started slug epoch priceToBeat enable)

theorem onSpot_taken {M : Libm} {cfg : Config} {tick : SpotTick} {c : Consumer} {e : Event}
    (hs : e.isSpot = true) :
    Returns (c.onSpot M cfg tick) (Taken cfg c e) := by
  simp only [Consumer.onSpot, returns_bind, returns_pure]
  exact (ingestSpot_frame M cfg tick c.hot).mono fun h f => .spot h f hs

theorem take_taken (M : Libm) (cfg : Config) (c : Consumer) (e : Event) :
    Returns (c.take M cfg e) (Taken cfg c e) := by
  cases e with
  | binBook | binTrade => exact onSpot_taken rfl
  | chainlinkSpot tsMs px =>
    simp only [Consumer.take, returns_bind, systemMs, returns_perform]
    exact fun wall => onSpot_taken rfl
  | polyQuote q => exact returns_pure.mpr (.quote q)
  | rollover ev =>
    refine (onRollover_cases cfg ev c).mono fun c' h => ?_
    obtain ⟨c₁, h₁, rfl⟩ := h
    exact .rollover ev c₁ h₁
  | idle => exact returns_pure.mpr .idle
  | startup => exact returns_pure.mpr (.startup ..)

theorem take_quietly (M : Libm) (cfg : Config) (c : Consumer) {e : Event}
    (h : ∀ ev, e ≠ .rollover ev) : Quietly (c.take M cfg e) := by
  have spot (tick : SpotTick) : Quietly (c.onSpot M cfg tick) :=
    quietly_bind (ingestSpot_quietly M cfg tick c.hot) fun _ => trivial
  cases e with
  | binBook | binTrade => exact spot _
  | chainlinkSpot tsMs px => exact quietly_bind ⟨trivial, fun _ _ => trivial⟩ fun wall => spot _
  | rollover ev => exact absurd rfl (h ev)
  | polyQuote | idle | startup => trivial

inductive Updated (M : Libm) (cfg : Config) (c : Consumer) : Consumer → Prop
  | skipped : Updated M cfg c c
  | traded (v : HotView) (now : ℤ) (c₁ c₂ : Consumer) :
      c.hot.view? = some v → c.tradingEnabled = true →
      Scheduled cfg v (v.theo M cfg) now c c₁ → Executed M cfg c₁ c₂ → Updated M cfg c c₂

theorem onHotUpdate_updated (M : Libm) (cfg : Config) (c : Consumer) :
    Returns (c.onHotUpdate M cfg) (Updated M cfg c) := by
  unfold Consumer.onHotUpdate
  split
  · exact returns_pure.mpr .skipped
  · rename_i v hv
    split
    · rename_i hen
      simp only [schedule, returns_bind, steadyNs, returns_perform, returns_pure]
      intro now
      refine (executeDue_executed M cfg _).mono fun c₂ h₂ => ?_
      exact .traded v now _ c₂ hv hen (scheduleAt_cases cfg v _ now c) h₂
    · exact returns_pure.mpr .skipped

/-! ### Invariants -/

structure RunnerInvariant (M : Libm) (cfg : Config) (I : Consumer → Prop) : Prop where
  init : ∀ hist, I (.start cfg hist)
  spot : ∀ {c h}, I c → SpotFrame c.hot h → I (c.stored h)
  quote : ∀ {c q}, I c → I (c.stored (c.hot.storeQuote q))
  rollover : ∀ {c ev c₁}, I c → ForceSold cfg ev c c₁ → I (c₁.enterBucket cfg ev)
  startup : ∀ {c slug epoch priceToBeat enable}, I c → c.tradingEnabled = false →
    I (c.started slug epoch priceToBeat enable)
  done : ∀ {c}, I c → I c.updateDone
  schedule : ∀ {c v now c₁}, I c → c.hot.view? = some v → c.tradingEnabled = true →
    Scheduled cfg v (v.theo M cfg) now c c₁ → I c₁
  execute : ∀ {c c₁}, I c → c.tradingEnabled = true → Executed M cfg c c₁ → I c₁

theorem Scheduled.tradingEnabled {cfg : Config} {v : HotView} {t : Theo} {now : ℤ}
    {c c₁ : Consumer} (h : Scheduled cfg v t now c c₁) : c₁.tradingEnabled = c.tradingEnabled := by
  cases h <;> rfl

section Invariant

variable {M : Libm} {cfg : Config} {I : Consumer → Prop}

theorem RunnerInvariant.taken (inv : RunnerInvariant M cfg I) {c c' : Consumer} {e : Event}
    (hi : I c) (hs : e.isStartup = true → c.tradingEnabled = false) (h : Taken cfg c e c') :
    I c' := by
  cases h with
  | spot h f => exact inv.spot hi f
  | quote q => exact inv.quote hi
  | rollover ev c₁ h => exact inv.rollover hi h
  | idle => exact hi
  | startup => exact inv.startup hi (hs rfl)

theorem RunnerInvariant.updated (inv : RunnerInvariant M cfg I) {c c' : Consumer} (hi : I c)
    (h : Updated M cfg c c') : I c' := by
  cases h with
  | skipped => exact hi
  | traded v now c₁ _ hv hen hs he =>
    have h₁ := inv.schedule hi hv hen hs
    exact inv.execute h₁ (hs.tradingEnabled.trans hen) he

theorem RunnerInvariant.step (inv : RunnerInvariant M cfg I) {c c' : Consumer} {l : Label}
    (hi : I c) (h : Step M cfg c l c') : I c' := by
  cases h with
  | event _ hs he => exact inv.taken hi hs (take_taken M cfg c _ _ _ he)
  | update _ he => exact inv.updated (inv.done hi) (onHotUpdate_updated M cfg _ _ _ he)

theorem RunnerInvariant.reachable (inv : RunnerInvariant M cfg I) {c : Consumer}
    (h : (runner M cfg).Reachable c) : I c := by
  refine h.invariant ?_ fun s l t _ hi hst => inv.step hi hst
  rintro _ ⟨hist, rfl⟩
  exact inv.init hist

end Invariant

end LeadLag.Runner
