import LeadLag.Rtds.Watchdog

/-!
# Periods after a failed reconnect

A reconnect that does not open the socket in time clears `started_`, and the
watchdog passes over every period that finds it cleared. Only `ensure_started`
sets it again.
-/

namespace LeadLag.Rtds
open LeadLag.Interaction

def WatchdogPhase.isGuarded : WatchdogPhase → Bool
  | .guarded _ => true
  | _ => false

namespace FeedState

/-- There is a watchdog, or the caller that starts it has stored `started_`. -/
def spawned (s : FeedState) : Prop :=
  s.watchdog ≠ .absent ∨ s.startMu = some (.starter .marked)

/-- What a step does to `started_`, `stop_feed_`, the history and the threads. -/
inductive Effect (s t : FeedState) : Prop where
  | quiet (history : t.history = s.history) (stopFeed : t.stopFeed = s.stopFeed)
      (started : t.started = s.started ∨ s.stop.isSome = true)
      (guarded : t.watchdog.isGuarded = true → s.watchdog.isGuarded = true ∨ s.stopFeed = false)
      (spawned : t.spawned → s.spawned) (stop : t.stop.isSome = true → s.stop.isSome = true)
  | started (history : t.history = .started :: s.history) (stopFeed : t.stopFeed = s.stopFeed)
      (started : t.started = true) (watchdog : t.watchdog = s.watchdog) (stop : t.stop = s.stop)
  | failed (history : t.history = .reconnectFailed :: s.history)
      (stopFeed : t.stopFeed = s.stopFeed) (started : t.started = false)
      (spawned : s.watchdog ≠ .absent) (watchdog : t.watchdog = .sleeping) (stop : t.stop = s.stop)
  | stopCalled (history : t.history = .stopCalled :: s.history) (stopFeed : t.stopFeed = true)
      (watchdog : t.watchdog = s.watchdog) (spawned : t.spawned → s.spawned)
  | skipped (socketOpen : Bool) (history : t.history = .period socketOpen false :: s.history)
      (stopFeed : t.stopFeed = s.stopFeed) (started : t.started = s.started)
      (reason : socketOpen = true ∨ s.stopFeed = true ∨ s.started = false)
      (spawned : s.watchdog ≠ .absent) (watchdog : t.watchdog = .sleeping) (stop : t.stop = s.stop)
  | tried (socketOpen : Bool) (history : t.history = .period socketOpen true :: s.history)
      (stopFeed : t.stopFeed = s.stopFeed) (started : t.started = s.started)
      (isStarted : s.started = true) (guarded : s.watchdog.isGuarded = true)
      (watchdog : t.watchdog = .reopening) (stop : t.stop = s.stop)

section Effect

variable {s t : FeedState}

/-- A step of another thread than the watchdog that logs nothing. -/
theorem Effect.ofStarter (hhistory : t.history = s.history) (hflag : t.stopFeed = s.stopFeed)
    (hstarted : t.started = s.started) (hwatchdog : t.watchdog = s.watchdog)
    (hstop : t.stop.isSome = true → s.stop.isSome = true)
    (hmu : t.startMu = some (.starter .marked) → s.startMu = some (.starter .marked)) :
    Effect s t := by
  apply Effect.quiet hhistory hflag (.inl hstarted)
  · intro hguarded
    rw [hwatchdog] at hguarded
    exact .inl hguarded
  · intro hspawned
    rcases hspawned with h | h
    · rw [hwatchdog] at h
      exact .inl h
    · exact .inr (hmu h)
  · exact hstop

/-- A step of the watchdog that logs nothing. -/
theorem Effect.ofWatchdog (hhistory : t.history = s.history) (hflag : t.stopFeed = s.stopFeed)
    (hstarted : t.started = s.started) (hthread : s.watchdog ≠ .absent)
    (hguarded : t.watchdog.isGuarded = true → s.stopFeed = false) (hstop : t.stop = s.stop) :
    Effect s t := by
  apply Effect.quiet hhistory hflag (.inl hstarted)
  · intro h
    exact .inr (hguarded h)
  · intro _
    exact .inl hthread
  · intro h
    rw [← hstop]
    exact h

/-- The watchdog goes on outside the guarded part. -/
theorem Effect.moved (hhistory : t.history = s.history) (hflag : t.stopFeed = s.stopFeed)
    (hstarted : t.started = s.started) (hthread : s.watchdog ≠ .absent)
    (hwatchdog : t.watchdog.isGuarded = false) (hstop : t.stop = s.stop) : Effect s t := by
  apply Effect.ofWatchdog hhistory hflag hstarted hthread _ hstop
  intro hguarded
  rw [hwatchdog] at hguarded
  cases hguarded

/-- A period without a reconnect. -/
theorem Effect.skip {socketOpen : Bool}
    (hreason : socketOpen = true ∨ s.stopFeed = true ∨ s.started = false)
    (hthread : s.watchdog ≠ .absent) : Effect s (s.skip socketOpen) :=
  .skipped socketOpen rfl rfl rfl hreason hthread rfl rfl

theorem Effect.skip_release {socketOpen : Bool}
    (hreason : socketOpen = true ∨ s.stopFeed = true ∨ s.started = false)
    (hthread : s.watchdog ≠ .absent) : Effect s (s.skip socketOpen).release :=
  .skipped socketOpen rfl rfl rfl hreason hthread rfl rfl

theorem starterStep_effect {p : StartPhase} (h : s.startMu = some (.starter p)) (now : ℤ) :
    Effect s (s.starterStep now p) := by
  cases p with
  | entered =>
    simp only [starterStep]
    split
    · exact .ofStarter rfl rfl rfl rfl id (by simp [release])
    · exact .ofStarter rfl rfl rfl rfl id (by simp)
  | connecting =>
    simp only [starterStep]
    split
    · exact .ofStarter rfl rfl rfl rfl id (by simp)
    · exact .ofStarter rfl rfl rfl rfl id (by simp [release])
  | connected => exact .ofStarter rfl rfl rfl rfl id (by simp [starterStep])
  | recorded => exact .started rfl rfl rfl rfl rfl
  | marked =>
    simp only [starterStep]
    split
    · refine Effect.quiet rfl rfl (.inl rfl) ?_ ?_ ?_
      · intro hguarded
        cases hguarded
      · intro _
        exact .inr h
      · exact id
    · exact .ofStarter rfl rfl rfl rfl id (by simp [release])

theorem reconnectWhy_eq_none {isOpen ever : Bool} {now last sess : ℤ}
    (h : reconnectWhy isOpen ever now last sess = none) : isOpen = true := by
  cases isOpen with
  | true => rfl
  | false => simp [reconnectWhy] at h

theorem watchdogStep_present {now : ℤ} (h : s.watchdogStep now s.watchdog = some t) :
    s.watchdog ≠ .absent := by
  intro habsent
  rw [habsent] at h
  cases h

theorem watchdogStep_effect {now : ℤ} (h : s.watchdogStep now s.watchdog = some t) :
    Effect s t := by
  have hthread := watchdogStep_present h
  cases hphase : s.watchdog with
  | absent => exact absurd hphase hthread
  | exited => simp [hphase, watchdogStep] at h
  | sleeping =>
    simp only [hphase, watchdogStep, Option.some.injEq] at h
    subst h
    refine .moved rfl rfl rfl hthread ?_ rfl
    cases s.watchdogStop <;> rfl
  | awake =>
    simp only [hphase, watchdogStep, Option.some.injEq] at h
    split at h
    · subst h
      exact .moved rfl rfl rfl hthread rfl rfl
    · rename_i hstarted
      subst h
      exact .skip (.inr (.inr (by simpa using hstarted))) hthread
  | startedSeen =>
    simp only [hphase, watchdogStep, Option.some.injEq] at h
    split at h
    · rename_i hflag
      subst h
      exact .skip (.inr (.inl hflag)) hthread
    · subst h
      exact .moved rfl rfl rfl hthread rfl rfl
  | stopSeen =>
    simp only [hphase, watchdogStep, Option.some.injEq] at h
    subst h
    exact .moved rfl rfl rfl hthread rfl rfl
  | looked now last sess ever =>
    simp only [hphase, watchdogStep] at h
    split at h
    · obtain rfl := Option.some.inj h
      exact .moved rfl rfl rfl hthread rfl rfl
    · rename_i hwhy
      obtain rfl := Option.some.inj h
      exact .skip (.inl (reconnectWhy_eq_none hwhy)) hthread
  | reconnecting socketOpen why =>
    simp only [hphase, watchdogStep] at h
    split at h
    · obtain rfl := Option.some.inj h
      exact .moved rfl rfl rfl hthread rfl rfl
    · cases h
  | locked socketOpen =>
    simp only [hphase, watchdogStep, Option.some.injEq] at h
    split at h
    · rename_i hflag
      subst h
      exact .skip_release (.inr (.inl hflag)) hthread
    · rename_i hflag
      subst h
      exact .ofWatchdog rfl rfl rfl hthread (fun _ => by simpa using hflag) rfl
  | guarded socketOpen =>
    simp only [hphase, watchdogStep, Option.some.injEq] at h
    split at h
    · rename_i hstarted
      subst h
      exact .tried socketOpen rfl rfl rfl hstarted (by rw [hphase]; rfl) rfl rfl
    · rename_i hstarted
      subst h
      exact .skip_release (.inr (.inr (by simpa using hstarted))) hthread
  | reopening =>
    simp only [hphase, watchdogStep, Option.some.injEq] at h
    split at h
    · subst h
      exact .moved rfl rfl rfl hthread rfl rfl
    · subst h
      exact .failed rfl rfl rfl hthread rfl rfl

theorem stopStep_effect (h : s.stopStep s.stop = some t) : Effect s t := by
  cases hstop : s.stop with
  | none =>
    simp only [hstop, stopStep, Option.some.injEq] at h
    subst h
    exact .stopCalled rfl rfl rfl id
  | some phase =>
    have hcalled : s.stop.isSome = true := by simp [hstop]
    cases phase with
    | flagged =>
      simp only [hstop, stopStep, Option.some.injEq] at h
      subst h
      exact .ofStarter rfl rfl rfl rfl (fun _ => hcalled) id
    | joining =>
      simp only [hstop, stopStep] at h
      split at h
      · obtain rfl := Option.some.inj h
        refine Effect.quiet rfl rfl (.inl rfl) ?_ ?_ ?_
        · intro hguarded
          cases hguarded
        · intro hspawned
          rcases hspawned with hs | hs
          · exact absurd rfl hs
          · exact .inr hs
        · exact fun _ => hcalled
      · cases h
    | joined =>
      simp only [hstop, stopStep, Option.some.injEq] at h
      subst h
      exact .ofStarter rfl rfl rfl rfl (fun _ => hcalled) id
    | closed =>
      simp only [hstop, stopStep, Option.some.injEq] at h
      subst h
      exact .quiet rfl rfl (.inr hcalled) .inl id (fun hnone => by cases hnone)

theorem apply_effect {mv : FeedMove} (h : s.apply mv = some t) : Effect s t := by
  cases mv with
  | socket isOpen =>
    obtain rfl := Option.some.inj h
    exact .ofStarter rfl rfl rfl rfl id id
  | ticks now =>
    obtain rfl := Option.some.inj h
    exact .ofStarter rfl rfl rfl rfl id id
  | ensureStarted =>
    simp only [apply] at h
    split at h
    · obtain rfl := Option.some.inj h
      exact .ofStarter rfl rfl rfl rfl id (by simp)
    · cases h
  | starter now =>
    simp only [apply] at h
    split at h
    · rename_i p hp
      obtain rfl := Option.some.inj h
      exact starterStep_effect hp now
    · cases h
  | watchdog now => exact watchdogStep_effect h
  | stop => exact stopStep_effect h

end Effect

/-! ### What the fields say about the history -/

structure Inv (s : FeedState) : Prop where
  stopFeed : s.stopFeed = true ↔ .stopCalled ∈ s.history
  stop : s.stop.isSome = true → .stopCalled ∈ s.history
  started : .stopCalled ∉ s.history → s.started = upSinceStart s.history
  spawned : s.spawned → .started ∈ s.history
  guarded : s.watchdog.isGuarded = true → .stopCalled ∉ s.history
  periods : ∀ newer older tried, s.history = newer ++ .period false tried :: older →
    (tried = true ↔ upSinceStart older = true ∧ .stopCalled ∉ older)

theorem inv_init : Inv {} := by
  constructor <;> simp [upSinceStart, spawned, WatchdogPhase.isGuarded]

theorem periods_cons {e : Event} {history : List Event} {P : List Event → Bool → Prop}
    (hold : ∀ newer older tried, history = newer ++ .period false tried :: older → P older tried)
    (hnew : ∀ tried, e = .period false tried → P history tried) :
    ∀ newer older tried, e :: history = newer ++ .period false tried :: older → P older tried := by
  intro newer older tried hsplit
  cases newer with
  | nil =>
    obtain ⟨hhead, rfl⟩ := List.cons.inj hsplit
    exact hnew tried hhead
  | cons _ newer =>
    obtain ⟨-, hrest⟩ := List.cons.inj hsplit
    exact hold newer older tried hrest

/-- A step that logs an event other than a call of `stop`. -/
theorem Inv.logged {s t : FeedState} {e : Event} (h : Inv s) (hhistory : t.history = e :: s.history)
    (he : e ≠ .stopCalled) (hflag : t.stopFeed = s.stopFeed) (hstop : t.stop = s.stop)
    (hstarted : .stopCalled ∉ s.history → t.started = upSinceStart (e :: s.history))
    (hspawned : .started ∈ e :: s.history)
    (hguarded : t.watchdog.isGuarded = true → .stopCalled ∉ s.history)
    (hperiod : ∀ tried, e = .period false tried →
      (tried = true ↔ upSinceStart s.history = true ∧ .stopCalled ∉ s.history)) : Inv t := by
  have hmem : .stopCalled ∈ e :: s.history ↔ .stopCalled ∈ s.history := by
    simp [he.symm]
  constructor <;> simp only [hhistory, hflag, hstop, hmem]
  · exact h.stopFeed
  · exact h.stop
  · exact hstarted
  · exact fun _ => hspawned
  · exact hguarded
  · exact periods_cons h.periods hperiod

theorem Inv.period {s t : FeedState} {socketOpen tried : Bool} (h : Inv s)
    (hhistory : t.history = .period socketOpen tried :: s.history) (hflag : t.stopFeed = s.stopFeed)
    (hstarted : t.started = s.started) (hthread : s.watchdog ≠ .absent)
    (hwatchdog : t.watchdog.isGuarded = false) (hstop : t.stop = s.stop)
    (htried : socketOpen = false →
      (tried = true ↔ upSinceStart s.history = true ∧ .stopCalled ∉ s.history)) : Inv t := by
  apply h.logged hhistory (by simp) hflag hstop
  · intro hno
    rw [hstarted]
    exact h.started hno
  · exact List.mem_cons_of_mem _ (h.spawned (.inl hthread))
  · intro hguarded
    rw [hwatchdog] at hguarded
    cases hguarded
  · intro tried' hperiod
    obtain ⟨hopen, htried'⟩ := Event.period.inj hperiod
    rw [← htried']
    exact htried hopen

/-- One step keeps the invariant, unless it is a call of `stop` after a start. -/
theorem Inv.step {s t : FeedState} (h : Inv s) (he : Effect s t) (hstopped : NotStopped t.history) :
    Inv t := by
  cases he with
  | quiet hhistory hflag hstarted hguarded hspawned hstop =>
    constructor <;> simp only [hhistory, hflag]
    · exact h.stopFeed
    · exact fun hs => h.stop (hstop hs)
    · intro hno
      rcases hstarted with hst | hst
      · rw [hst]
        exact h.started hno
      · exact absurd (h.stop hst) hno
    · exact fun hs => h.spawned (hspawned hs)
    · intro hg
      rcases hguarded hg with hs | hs
      · exact h.guarded hs
      · intro hmem
        rw [h.stopFeed.mpr hmem] at hs
        cases hs
    · exact h.periods
  | started hhistory hflag hstarted hwatchdog hstop =>
    apply h.logged hhistory (by simp) hflag hstop
    · exact fun _ => hstarted
    · exact List.mem_cons_self
    · rw [hwatchdog]
      exact h.guarded
    · simp
  | failed hhistory hflag hstarted hthread hwatchdog hstop =>
    apply h.logged hhistory (by simp) hflag hstop
    · exact fun _ => hstarted
    · exact List.mem_cons_of_mem _ (h.spawned (.inl hthread))
    · simp [hwatchdog, WatchdogPhase.isGuarded]
    · simp
  | stopCalled hhistory hflag hwatchdog hspawned =>
    rw [hhistory] at hstopped
    have hnone : ¬ s.spawned := fun hs => hstopped.not_mem (h.spawned hs)
    constructor <;> simp only [hhistory, hflag, hwatchdog]
    · simp
    · simp
    · simp
    · exact fun hs => absurd (hspawned hs) hnone
    · intro hg
      have habsent : s.watchdog = .absent := by
        by_contra hne
        exact hnone (.inl hne)
      rw [habsent] at hg
      cases hg
    · exact periods_cons h.periods (by simp)
  | skipped socketOpen hhistory hflag hstarted hreason hthread hwatchdog hstop =>
    apply h.period hhistory hflag hstarted hthread (by rw [hwatchdog]; rfl) hstop
    intro hclosed
    rcases hreason with hr | hr | hr
    · rw [hclosed] at hr
      cases hr
    · simp [h.stopFeed.mp hr]
    · constructor
      · intro hfalse
        cases hfalse
      · intro hboth
        obtain ⟨hup, hno⟩ := hboth
        rw [← h.started hno, hr] at hup
        cases hup
  | tried socketOpen hhistory hflag hstarted hon hg hwatchdog hstop =>
    have hno := h.guarded hg
    have hthread : s.watchdog ≠ .absent := by
      intro habsent
      rw [habsent] at hg
      cases hg
    apply h.period hhistory hflag hstarted hthread (by rw [hwatchdog]; rfl) hstop
    intro _
    have hup : upSinceStart s.history = true := by rw [← h.started hno, hon]
    exact ⟨fun _ => ⟨hup, hno⟩, fun _ => rfl⟩

theorem Effect.history {s t : FeedState} (he : Effect s t) :
    t.history = s.history ∨ ∃ e, t.history = e :: s.history := by
  cases he with
  | quiet h => exact .inl h
  | started h => exact .inr ⟨_, h⟩
  | failed h => exact .inr ⟨_, h⟩
  | stopCalled h => exact .inr ⟨_, h⟩
  | skipped _ h => exact .inr ⟨_, h⟩
  | tried _ h => exact .inr ⟨_, h⟩

theorem Inv.of_reachable {s : FeedState} (h : rtdsFeed.Reachable s) (hs : NotStopped s.history) :
    Inv s := by
  induction h with
  | init hinit =>
    obtain rfl := hinit
    exact inv_init
  | step _ hstep ih =>
    have heffect := apply_effect hstep
    apply Inv.step (ih _) heffect hs
    rcases heffect.history with hsame | ⟨e, hcons⟩
    · rw [← hsame]
      exact hs
    · rw [hcons] at hs
      exact hs.tail

end FeedState

/-- In a run in which `stop` is not called after a successful start, every period
that finds the socket not open reconnects exactly when no such period comes
after a failed reconnect that no successful start followed, or after an earlier
`stop`. -/
theorem neverGivesUp_iff {s : FeedState} (h : rtdsFeed.Reachable s)
    (hs : NotStopped s.history) : NeverGivesUp s.history ↔ NoneAfterFailure s.history := by
  have hperiods := (FeedState.Inv.of_reachable h hs).periods
  constructor
  · intro hnever newer older tried hsplit
    have hmem : Event.period false tried ∈ s.history := by
      rw [hsplit]
      exact List.mem_append_right _ List.mem_cons_self
    exact (hperiods newer older tried hsplit).mp (hnever tried hmem)
  · intro hnone tried hmem
    obtain ⟨newer, older, hsplit⟩ := List.append_of_mem hmem
    exact (hperiods newer older tried hsplit).mpr (hnone newer older tried hsplit)

/-! ### A reconnect that does not open in time -/

/-- The first start succeeds. -/
def firstStart : List FeedMove :=
  [.ensureStarted, .starter 0, .socket true] ++ List.replicate 4 (.starter 0)

/-- The period that loses the connection, and the next one. -/
def lostConnection : List FeedMove :=
  .socket false :: List.replicate 9 (.watchdog 10000) ++ List.replicate 2 (.watchdog 50000)

def givenUp : List Event :=
  [.period false false, .reconnectFailed, .period false true, .started]

theorem notStopped_of_not_mem {history : List Event} (h : .stopCalled ∉ history) :
    NotStopped history := by
  intro newer older hsplit
  apply absurd _ h
  rw [hsplit]
  exact List.mem_append_right _ List.mem_cons_self

theorem exists_givenUp : ∃ s, rtdsFeed.Run {} (firstStart ++ lostConnection) s ∧
    s.history = givenUp := by
  have hrun : ((Lts.stepAll FeedState.apply {} (firstStart ++ lostConnection)).any
      fun s => decide (s.history = givenUp)) = true := by decide
  obtain ⟨s, hs, hhistory⟩ := Lts.exists_run_stepAll (m := rtdsFeed) (fun _ _ _ h => h) hrun
  exact ⟨s, hs, of_decide_eq_true hhistory⟩

theorem watchdog_gives_up :
    ¬ ∀ s, rtdsFeed.Reachable s → NotStopped s.history → NeverGivesUp s.history := by
  intro h
  obtain ⟨s, hrun, hhistory⟩ := exists_givenUp
  have hstopped : NotStopped s.history := notStopped_of_not_mem (by rw [hhistory]; decide)
  have hnever := h s (hrun.reachable (.init rfl)) hstopped false
  rw [hhistory] at hnever
  cases hnever List.mem_cons_self

/-- The same run up to the period that reconnects. -/
theorem neverGivesUp_iff_firstPeriod :
    ∃ s, rtdsFeed.Run {} (firstStart ++ .socket false :: List.replicate 8 (.watchdog 10000)) s ∧
      (NeverGivesUp s.history ↔ NoneAfterFailure s.history) ∧ NeverGivesUp s.history := by
  have hrun : ((Lts.stepAll FeedState.apply {}
      (firstStart ++ .socket false :: List.replicate 8 (.watchdog 10000))).any
        fun s => decide (s.history = [.period false true, .started])) = true := by decide
  obtain ⟨s, hr, hhistory⟩ := Lts.exists_run_stepAll (m := rtdsFeed) (fun _ _ _ h => h) hrun
  have hhistory := of_decide_eq_true hhistory
  have hstopped : NotStopped s.history := notStopped_of_not_mem (by rw [hhistory]; decide)
  have hnever : NeverGivesUp s.history := by
    intro tried hmem
    rw [hhistory] at hmem
    simpa using hmem
  exact ⟨s, hr, neverGivesUp_iff (hr.reachable (.init rfl)) hstopped, hnever⟩

end LeadLag.Rtds
