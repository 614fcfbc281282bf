import LeadLag.Runner.HotUpdate
import LeadLag.Runner.Replay

/-!
# Orders and the bucket they were scheduled in

A Rollover that closes a position drops the pending order with it. One that
finds a pending BUY and no position leaves it pending, and it is executed in the
next bucket. In the runs in which no Rollover finds such an order, orders are
executed in the bucket in which `schedule` made them pending.
-/

namespace LeadLag.Orders
open LeadLag.Execution LeadLag.Interaction LeadLag.Runner

/-! ### The Rollover -/

def strayOrder (c : Consumer) : Bool := c.paper.pending && !c.paper.havePos

theorem forceSold_pending {cfg : Config} {ev : Rollover} {c c₁ : Consumer}
    (hl : cfg.liveExecution = false) (h : ForceSold cfg ev c c₁) :
    c₁.paper.pending = strayOrder c := by
  unfold strayOrder
  cases h with
  | noPosition hn => simp [hn]
  | carried hn | paperZero hn | sold _ _ hn =>
    rw [hn, Bool.not_true, Bool.and_false]
    rfl
  | kept _ _ _ hl' | nothingLeft _ _ _ hl' => simp [hl] at hl'

/-- The steps allowed: no Rollover finds a pending order without a position. -/
def noStrayOrder (c : Consumer) : Label → Bool
  | .event (.rollover _) _ => !strayOrder c
  | _ => true

abbrev tidyRunner (M : Libm) (cfg : Config) : Lts Consumer Label :=
  (runner M cfg).restrict fun c l => noStrayOrder c l = true

/-! ### While an order is pending -/

structure Waiting (c : Consumer) : Prop where
  pending : c.paper.pending = true
  bucket : 0 ≤ c.hot.activeEpoch
  enabled : c.tradingEnabled = true

theorem scheduled_pending {cfg : Config} {v : HotView} {t : Theo} {now : ℤ} {c c₁ : Consumer}
    (h : Scheduled cfg v t now c c₁) (hp : c.paper.pending = true) : c₁.paper = c.paper := by
  cases h with
  | idle => rfl
  | buy _ _ _ hn | sell _ _ _ hn => simp [hp] at hn

theorem taken_waiting {cfg : Config} {c c' : Consumer} {e : Event} {tr : Trace}
    (hl : cfg.liveExecution = false) (hc : noStrayOrder c (.event e tr) = true)
    (hs : e.isStartup = true → c.tradingEnabled = false) (h : Taken cfg c e c')
    (hw : Waiting c) (hp : c'.paper.pending = true) :
    c'.paper = c.paper ∧ c'.hot.activeEpoch = c.hot.activeEpoch ∧ c'.tradingEnabled = true := by
  cases h with
  | spot h f => exact ⟨rfl, f.activeEpoch, hw.enabled⟩
  | quote q => exact ⟨rfl, (HotState.storeQuote_bucket q hw.bucket).1, hw.enabled⟩
  | idle => exact ⟨rfl, rfl, hw.enabled⟩
  | startup => exact absurd (hs rfl) (by simp [hw.enabled])
  | rollover ev c₁ hf =>
    have hstray : c₁.paper.pending = strayOrder c := forceSold_pending hl hf
    have hp₁ : c₁.paper.pending = true := hp
    simp [noStrayOrder, ← hstray, hp₁] at hc

theorem updated_waiting {M : Libm} {cfg : Config} {c c' : Consumer} (h : Updated M cfg c c')
    (hw : Waiting c) (hp : c'.paper.pending = true) :
    c'.paper = c.paper ∧ c'.hot.activeEpoch = c.hot.activeEpoch ∧ c'.tradingEnabled = true := by
  cases h with
  | skipped => exact ⟨rfl, rfl, hw.enabled⟩
  | traded v now c₁ _ hv hen hs hx =>
    obtain rfl := hx.stillPending hp
    obtain ⟨a, b, hhot⟩ := hs.hot
    have hepoch : c'.hot.activeEpoch = c.hot.activeEpoch := by
      rw [hhot, HotState.activeEpoch_withEdges]
    exact ⟨scheduled_pending hs hw.pending, hepoch, hs.tradingEnabled.trans hen⟩

theorem step_waiting {M : Libm} {cfg : Config} {c c' : Consumer} {l : Label}
    (hl : cfg.liveExecution = false) (h : (tidyRunner M cfg).step c l c') (hw : Waiting c)
    (hp : c'.paper.pending = true) :
    c'.paper = c.paper ∧ c'.hot.activeEpoch = c.hot.activeEpoch ∧ Waiting c' := by
  obtain ⟨hst, hc⟩ := h
  have kept : c'.paper = c.paper ∧ c'.hot.activeEpoch = c.hot.activeEpoch ∧
      c'.tradingEnabled = true := by
    cases hst with
    | event _ hs he => exact taken_waiting hl hc hs (take_taken M cfg c _ _ _ he) hw hp
    | update _ he =>
      exact updated_waiting (c := c.updateDone) (onHotUpdate_updated M cfg _ _ _ he)
        ⟨hw.pending, hw.bucket, hw.enabled⟩ hp
  obtain ⟨hpaper, hepoch, hen⟩ := kept
  exact ⟨hpaper, hepoch, hp, hepoch ▸ hw.bucket, hen⟩

/-- As long as an order stays pending, the account and the bucket do not change. -/
theorem run_waiting {M : Libm} {cfg : Config} {b c : Consumer} {ls : List Label}
    (hl : cfg.liveExecution = false)
    (h : ((tidyRunner M cfg).restrict fun c _ => c.paper.pending = true).Run b ls c)
    (hw : Waiting b) (hp : c.paper.pending = true) :
    c.paper = b.paper ∧ c.hot.activeEpoch = b.hot.activeEpoch ∧ Waiting c := by
  induction h with
  | nil => exact ⟨rfl, rfl, hw⟩
  | snoc _ hst ih =>
    obtain ⟨hpaper, hepoch, hw₁⟩ := ih hst.2
    obtain ⟨hpaper', hepoch', hw₂⟩ := step_waiting hl hst.1 hw₁ hp
    exact ⟨hpaper'.trans hpaper, hepoch'.trans hepoch, hw₂⟩

/-! ### Where an order comes from -/

/-- In the state `a` no order is pending and `schedule` makes the one of `p` pending. -/
structure ScheduledAt (M : Libm) (cfg : Config) (a : Consumer) (p : PaperState) : Prop where
  free : a.paper.pending = false
  pending : p.pending = true
  scheduled : ∃ v now c₁, a.hot.view? = some v ∧ a.tradingEnabled = true ∧
    Scheduled cfg v (v.theo M cfg) now a.updateDone c₁ ∧ c₁.paper = p

/-- The order of `p`, scheduled by the update in `a`, is executed in that update
or has been pending since. -/
inductive PendingFrom (M : Libm) (cfg : Config) (a : Consumer) (p : PaperState) :
    List Label → Consumer → Prop
  | now : PendingFrom M cfg a p [] a
  | since {tr : Trace} {ls : List Label} {b c : Consumer} :
      (runner M cfg).step a (.update tr) b → b.paper = p →
      ((runner M cfg).restrict fun c _ => c.paper.pending = true).Run b ls c →
      PendingFrom M cfg a p (.update tr :: ls) c

/-- The row is of the execution of the order pending in `p`. -/
def Fills (p : PaperState) : TradesRow → Prop
  | .buy r => p.pendingAction = some .buy ∧ r.side = p.pendingSide
  | .sell r => p.pendingAction = some .sell ∧ r.side = p.side ∧
      r.exitReason = p.pendingExitReason.getD .takeProfit
  | _ => True

theorem executed_fills {M : Libm} {cfg : Config} {c c' : Consumer} (h : Executed M cfg c c') :
    NewRows (Fills c.paper) c c' := by
  cases h with
  | kept | cleared | unknown | riskBlocked | failed | flattened => exact .same rfl
  | failedRow | stopIncomplete => exact .one rfl trivial
  | bought _ _ _ _ _ ha => exact .one rfl ⟨ha, rfl⟩
  | soldByStop _ _ _ _ _ ha | soldAtBid _ _ _ _ ha => exact .one rfl ⟨ha, rfl, rfl⟩

theorem scheduledAt_of_step {M : Libm} {cfg : Config} {a b : Consumer} {l : Label}
    (hl : cfg.liveExecution = false) (h : (tidyRunner M cfg).step a l b)
    (ha : a.paper.pending = false) (hb : b.paper.pending = true) :
    (∃ tr, l = .update tr) ∧ ScheduledAt M cfg a b.paper ∧
      b.hot.activeEpoch = a.hot.activeEpoch ∧ Waiting b := by
  obtain ⟨hst, hc⟩ := h
  cases hst with
  | event _ _ he =>
    exfalso
    cases take_taken M cfg a _ _ _ he with
    | spot | quote | idle | startup =>
      change a.paper.pending = true at hb
      exact absurd (ha.symm.trans hb) (by decide)
    | rollover ev c₁ hf =>
      have hstray : c₁.paper.pending = strayOrder a := forceSold_pending hl hf
      have hb₁ : c₁.paper.pending = true := hb
      simp [noStrayOrder, ← hstray, hb₁] at hc
  | update _ he =>
    rename_i tr _
    refine ⟨⟨tr, rfl⟩, ?_⟩
    cases onHotUpdate_updated M cfg _ _ _ he with
    | skipped =>
      change a.paper.pending = true at hb
      exact absurd (ha.symm.trans hb) (by decide)
    | traded v now c₁ _ hv hen hs hx =>
      obtain rfl := hx.stillPending hb
      obtain ⟨x, y, hhot⟩ := hs.hot
      have hepoch : b.hot.activeEpoch = a.hot.activeEpoch := by
        rw [hhot, HotState.activeEpoch_withEdges]
        rfl
      have hbucket : 0 ≤ a.hot.activeEpoch := (HotState.view?_spec hv).epoch
      exact ⟨⟨ha, hb, v, now, b, hv, hen, hs, rfl⟩, hepoch,
        hb, hepoch ▸ hbucket, hs.tradingEnabled.trans hen⟩

theorem pendingFrom_of_run {M : Libm} {cfg : Config} {s c : Consumer} {ls : List Label}
    (hl : cfg.liveExecution = false) (hs : (runner M cfg).init s)
    (h : (tidyRunner M cfg).Run s ls c) (hp : c.paper.pending = true) :
    ∃ ls₁ a ls₂, ls = ls₁ ++ ls₂ ∧ (runner M cfg).Run s ls₁ a ∧ ScheduledAt M cfg a c.paper ∧
      PendingFrom M cfg a c.paper ls₂ c ∧ a.hot.activeEpoch = c.hot.activeEpoch := by
  have hfree : ¬ s.paper.pending = true := by
    obtain ⟨hist, rfl⟩ := hs
    exact Bool.false_ne_true
  obtain ⟨ls₁, a, l, b, ls₂, rfl, ha, hna, hab, hb, hrest⟩ :=
    h.since (P := fun c => c.paper.pending = true) hfree hp
  obtain ⟨⟨tr, rfl⟩, hsch, hepoch, hw⟩ := scheduledAt_of_step hl hab (by simpa using hna) hb
  obtain ⟨hpaper, hepoch', -⟩ := run_waiting hl hrest hw hp
  rw [hpaper]
  have hpend : ((runner M cfg).restrict fun c _ => c.paper.pending = true).Run b ls₂ c :=
    hrest.mono fun _ _ _ hst => ⟨hst.1.1, hst.2⟩
  exact ⟨ls₁, a, _, rfl, ha.of_restrict, hsch, .since hab.1 rfl hpend,
    (hepoch'.trans hepoch).symm⟩

/-! ### The theorem -/

/-- The order of the row was scheduled, in the run `ls` from `s` to `c`, while
`active_epoch` was `epoch`, and was pending until now. -/
def OrderedIn (M : Libm) (cfg : Config) (s : Consumer) (ls : List Label) (c : Consumer)
    (epoch : ℤ) (row : TradesRow) : Prop :=
  ∃ ls₁ a p ls₂, ls = ls₁ ++ ls₂ ∧ (runner M cfg).Run s ls₁ a ∧ ScheduledAt M cfg a p ∧
    PendingFrom M cfg a p ls₂ c ∧ a.hot.activeEpoch = epoch ∧ Fills p row

theorem update_ordered {M : Libm} {cfg : Config} {s c c' : Consumer} {ls : List Label}
    (hl : cfg.liveExecution = false) (hs : (runner M cfg).init s)
    (hrun : (tidyRunner M cfg).Run s ls c) (h : Updated M cfg c.updateDone c') :
    NewRows (fun row => row.isOrder = true → OrderedIn M cfg s ls c c'.hot.activeEpoch row)
      c c' := by
  have hepoch : c'.hot.activeEpoch = c.hot.activeEpoch := by
    obtain ⟨x, y, hhot⟩ := h.hot
    rw [hhot, HotState.activeEpoch_withEdges]
    rfl
  rw [hepoch]
  cases h with
  | skipped => exact .same rfl
  | traded v now c₁ _ hv hen hsch hx =>
    have hrows : NewRows (Fills c₁.paper) c c' := by
      have hsame : NewRows (Fills c₁.paper) c c₁ := .same hsch.trades
      exact hsame.trans (executed_fills hx)
    by_cases hp : c.paper.pending = true
    · have hpaper : c₁.paper = c.paper := scheduled_pending (c := c.updateDone) hsch hp
      obtain ⟨ls₁, a, ls₂, hls, ha, hat, hfrom, hbucket⟩ := pendingFrom_of_run hl hs hrun hp
      rw [hpaper] at hrows
      exact hrows.mono fun row hrow _ => ⟨ls₁, a, _, ls₂, hls, ha, hat, hfrom, hbucket, hrow⟩
    · have hfree : c.paper.pending = false := by simpa using hp
      by_cases hp₁ : c₁.paper.pending = true
      · have hat : ScheduledAt M cfg c c₁.paper := ⟨hfree, hp₁, v, now, c₁, hv, hen, hsch, rfl⟩
        exact hrows.mono fun row hrow _ =>
          ⟨ls, c, _, [], (List.append_nil ls).symm, hrun.of_restrict, hat, .now, rfl, hrow⟩
      · obtain rfl := hx.idle (by simpa using hp₁)
        exact .same hsch.trades

/-- In a paper run a Rollover leaves no order pending exactly when it does not
find one without a position. In runs in which no Rollover finds one, every BUY
and SELL was scheduled while `active_epoch` had the value it has at execution. -/
theorem orders_stay_in_bucket {M : Libm} {cfg : Config} (hl : cfg.liveExecution = false) :
    (∀ c ev tr c', (runner M cfg).Reachable c →
      (runner M cfg).step c (.event (.rollover ev) tr) c' →
      (c'.paper.pending = false ↔ strayOrder c = false)) ∧
    ∀ s ls c l c', (runner M cfg).init s → (tidyRunner M cfg).Run s ls c →
      (tidyRunner M cfg).step c l c' →
      (∀ ev tr, l = .event (.rollover ev) tr → c'.paper.pending = false) ∧
      NewRows (fun row => row.isOrder = true → OrderedIn M cfg s ls c c'.hot.activeEpoch row)
        c c' := by
  have rollover (c : Consumer) (ev : Rollover) (tr : Trace) (c' : Consumer)
      (h : (runner M cfg).step c (.event (.rollover ev) tr) c') :
      c'.paper.pending = strayOrder c := by
    cases h with
    | event _ _ he =>
      cases take_taken M cfg c _ _ _ he with
      | spot _ _ h => cases h
      | rollover _ c₁ hf =>
        have hstray : c₁.paper.pending = strayOrder c := forceSold_pending hl hf
        exact hstray
  constructor
  · intro c ev tr c' _ h
    rw [rollover c ev tr c' h]
  · intro s ls c l c' hs hrun hstep
    obtain ⟨hst, hc⟩ := hstep
    constructor
    · rintro ev tr rfl
      rw [rollover c ev tr c' hst]
      simpa [noStrayOrder] using hc
    · cases hst with
      | event _ _ he =>
        refine (take_taken M cfg c _ _ _ he).newRows.mono fun row hno hord => ?_
        exact absurd (hno.symm.trans hord) (by decide)
      | update _ he => exact update_ordered hl hs hrun (onHotUpdate_updated M cfg _ _ _ he)

/-! ### Two runs -/

/-- Orders are executed one millisecond after they are scheduled. -/
def lateEntry : Config := { quickEntry with latMs := 1 }

def later : Answers := { paperAnswers with now := 2000000 }

theorem late_buy_in_bucket :
    ∃ s ls c tr c' r, (tidyRunner coarse lateEntry).Run s ls c ∧
      (tidyRunner coarse lateEntry).step c (.update tr) c' ∧ c.paper.pending = true ∧
      c'.trades = .buy r :: c.trades ∧
      OrderedIn coarse lateEntry s ls c c'.hot.activeEpoch (.buy r) := by
  obtain ⟨s, ls, c, tr, c', hs, hrun, hstep, hr⟩ := exists_update_of_replay coarse lateEntry
    noStrayOrder (signalUp paperAnswers) (.binTrade 110 300600) later.script
    (fun c _ c' => c.paper.pending && (boughtNow c c').isSome) (by decide +kernel)
  simp only [Bool.and_eq_true] at hr
  obtain ⟨r, hb⟩ := Option.isSome_iff_exists.mp hr.2
  have hrow := boughtNow_spec hb
  have hord := ((orders_stay_in_bucket rfl).2 s ls c _ c' hs hrun hstep).2.head hrow
  exact ⟨s, ls, c, tr, c', r, hrun, hstep, hr.1, hrow, hord rfl⟩

/-- Whether an order pending at a Rollover from bucket 300 to 600 is still
pending after it and a BUY at the first spot tick of 600. -/
def outlives (cfg : Config) (a : Consumer) : Bool :=
  decide (a.hot.activeEpoch = 300) &&
    (replayTake coarse cfg a (rolloverTo 600 "btc-600" 100 none none) paperAnswers.script).any
      fun (_, b) => b.paper.pending &&
        (replayTake coarse cfg b (.binTrade 110 600500) later.script).any fun (_, c) =>
          c.paper.pending && (replayDue coarse cfg c later.script).any fun (_, c') =>
            (boughtNow c c').isSome && decide (c'.hot.activeEpoch = 600)

/-- The BUY scheduled in bucket 300 is still pending at the Rollover to 600 and
is executed there, at the first spot tick. -/
theorem buy_outlives_bucket :
    ∃ a ev tr b e tr₁ c tr₂ c' r, (runner coarse lateEntry).Reachable a ∧
      (runner coarse lateEntry).step a (.event (.rollover ev) tr) b ∧
      a.hot.activeEpoch = 300 ∧ b.paper.pending = true ∧
      (runner coarse lateEntry).step b (.event e tr₁) c ∧ c.paper.pending = true ∧
      (runner coarse lateEntry).step c (.update tr₂) c' ∧
      c'.trades = .buy r :: c.trades ∧ c'.hot.activeEpoch = 600 := by
  obtain ⟨a, ha, hout⟩ := exists_reachable_of_replay coarse lateEntry (signalUp paperAnswers)
    (outlives lateEntry) (by decide +kernel)
  simp only [outlives, Bool.and_eq_true, decide_eq_true_eq, Option.any_eq_true] at hout
  obtain ⟨hepoch, ⟨tr, b⟩, hb, hpb, ⟨tr₁, c⟩, hc, hpc, ⟨tr₂, c'⟩, hc', hbuy, hepoch'⟩ := hout
  obtain ⟨r, hr⟩ := Option.isSome_iff_exists.mp hbuy
  exact ⟨a, _, tr, b, _, tr₁, c, tr₂, c', r, ha, replayTake_step hb, hepoch, hpb,
    replayTake_step hc, hpc, replayDue_step hc', boughtNow_spec hr, hepoch'⟩

end LeadLag.Orders
