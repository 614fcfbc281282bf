import LeadLag.Pool.Conservation

/-!
# Completion (thread_pool.cpp:17-63)

`~ThreadPool` returns after every task dispatched has been executed, and
`wait_idle` returns after an instant at which none was left.
-/

namespace LeadLag.Pool
open LeadLag.Interaction

def Destructor.joined {n : ℕ} (i : Fin n) : Destructor n → Prop
  | .joining rest => i ∉ rest
  | .returned => True
  | .absent | .stopped => False

namespace State
variable {n : ℕ} {C : Type} {s t : State n C} {m : Move n C}

/-- Workers return when the queue is empty and the pool is being destroyed; only
running tasks still use it then. -/
structure Closing (s : State n C) : Prop where
  stop : s.stop = true → s.destructor ≠ .absent
  returned : ∀ i, s.worker i = .returned → s.destructor ≠ .absent
  clients : s.destructor ≠ .absent → ∀ c, s.call (.client c) = .out
  callers : ∀ i, s.call (.worker i) ≠ .out → (s.worker i).isRunning = true
  drained : (∀ i, s.worker i = .returned) → s.tasks = []
  joined : ∀ i, s.destructor.joined i → s.worker i = .returned

/-- The counters, the logs and `idle_mu_` play no part. -/
theorem Closing.frame (h : s.Closing) (hstop : t.stop = s.stop) (htasks : t.tasks = s.tasks)
    (hworker : t.worker = s.worker) (hcall : t.call = s.call)
    (hdestructor : t.destructor = s.destructor) : t.Closing := by
  refine ⟨?_, ?_, ?_, ?_, ?_, ?_⟩
  · rw [hstop, hdestructor]
    exact h.stop
  · rw [hworker, hdestructor]
    exact h.returned
  · rw [hcall, hdestructor]
    exact h.clients
  · rw [hcall, hworker]
    exact h.callers
  · rw [hworker, htasks]
    exact h.drained
  · rw [hworker, hdestructor]
    exact h.joined

theorem Closing.call_eq_out {i : Fin n} (h : s.Closing)
    (hi : (s.worker i).isRunning = false) : s.call (.worker i) = .out := by
  by_contra hcall
  rw [h.callers i hcall] at hi
  cases hi

theorem Closing.exists_not_returned [NeZero n] {th : Thread n C} (h : s.Closing)
    (hth : s.call th ≠ .out) : ∃ i, s.worker i ≠ .returned := by
  by_contra hall
  push Not at hall
  cases th with
  | worker i =>
    have hrun := h.callers i hth
    rw [hall i] at hrun
    cases hrun
  | client c => exact hth (h.clients (h.returned 0 (hall 0)) c)

theorem Closing.callers_setWorker {i : Fin n} {w : Worker} (h : s.Closing)
    (hcall : s.call (.worker i) = .out) :
    ∀ j, s.call (.worker j) ≠ .out → ((s.setWorker i w).worker j).isRunning = true := by
  intro j hj
  have hji : j ≠ i := by
    rintro rfl
    exact hj hcall
  simpa only [State.setWorker, Function.update_of_ne hji] using h.callers j hj

theorem Closing.setWorker {i : Fin n} {w : Worker} (h : s.Closing)
    (hi : s.worker i ≠ .returned) (hcall : s.call (.worker i) = .out) (hw : w ≠ .returned) :
    (s.setWorker i w).Closing := by
  have hsame : ∀ j, (s.setWorker i w).worker j = .returned → s.worker j = .returned := by
    intro j hj
    by_cases hji : j = i
    · subst hji
      simp only [State.setWorker, Function.update_self] at hj
      exact absurd hj hw
    · simpa only [State.setWorker, Function.update_of_ne hji] using hj
  refine ⟨h.stop, ?_, h.clients, h.callers_setWorker hcall, ?_, ?_⟩
  · intro j hj
    exact h.returned j (hsame j hj)
  · intro hall
    exact h.drained fun j => hsame j (hall j)
  · intro j hj
    have hji : j ≠ i := by
      rintro rfl
      exact hi (h.joined j hj)
    simpa only [State.setWorker, Function.update_of_ne hji] using h.joined j hj

theorem Closing.look {i : Fin n} (h : s.Closing) (hi : s.worker i = .looking) :
    (s.workerLook i).Closing := by
  have hne : s.worker i ≠ .returned := by simp [hi]
  have hcall : s.call (.worker i) = .out := h.call_eq_out (by rw [hi]; rfl)
  unfold workerLook
  split
  · rename_i hpred
    cases hq : s.tasks with
    | nil =>
      have hstop : s.stop = true := by simpa [hq] using hpred
      refine ⟨h.stop, fun _ _ => h.stop hstop, h.clients, h.callers_setWorker hcall,
        fun _ => hq, ?_⟩
      · intro j hj
        by_cases hji : j = i
        · subst hji
          simp only [State.setWorker, Function.update_self]
        · simpa only [State.setWorker, Function.update_of_ne hji] using h.joined j hj
    | cons task rest =>
      obtain ⟨hstop, hreturned, hclients, hcallers, -, hjoined⟩ :=
        h.setWorker (w := .running task) hne hcall (by simp)
      refine ⟨hstop, hreturned, hclients, hcallers, ?_, hjoined⟩
      intro hall
      have hself := hall i
      simp only [State.setWorker, Function.update_self] at hself
      cases hself
  · exact h.setWorker hne hcall (by simp)

theorem Closing.wakeWaiters (h : s.Closing) : s.wakeWaiters.Closing := by
  have hout : ∀ th, s.wakeWaiters.call th ≠ .out → s.call th ≠ .out := by
    intro th hth hcall
    simp [State.wakeWaiters, hcall] at hth
  refine ⟨h.stop, h.returned, ?_, ?_, h.drained, h.joined⟩
  · intro hd c
    by_contra hc
    exact hout _ hc (h.clients hd c)
  · intro i hi
    exact h.callers i (hout _ hi)

theorem Closing.notifyWorkers (h : s.Closing) (hd : s.destructor = .stopped) :
    ({ s.wakeWorkers with destructor := .joining (List.finRange n) } : State n C).Closing := by
  have hne : s.destructor ≠ .absent := by simp [hd]
  have hreturned : ∀ i, s.wakeWorkers.worker i = .returned → s.worker i = .returned := by
    intro i hi
    simp only [State.wakeWorkers] at hi
    split at hi
    · cases hi
    · exact hi
  refine ⟨by simp, by simp, fun _ => h.clients hne, ?_, ?_, ?_⟩
  · intro i hi
    have hrun := h.callers i hi
    simp only [State.wakeWorkers]
    split
    · rename_i hasleep
      rw [hasleep] at hrun
      cases hrun
    · exact hrun
  · intro hall
    exact h.drained fun i => hreturned i (hall i)
  · intro i hi
    exact absurd (List.mem_finRange i) hi

theorem Closing.join (h : s.Closing) (hd : s.destructor.canJoin s.worker) :
    (match s.destructor with
      | .joining (_ :: rest) => { s with destructor := .joining rest }
      | _ => { s with destructor := .returned } : State n C).Closing := by
  cases hs : s.destructor with
  | absent => simp [hs, Destructor.canJoin] at hd
  | stopped => simp [hs, Destructor.canJoin] at hd
  | returned => simp [hs, Destructor.canJoin] at hd
  | joining rest =>
    have hne : s.destructor ≠ .absent := by
      rw [hs]
      exact nofun
    have hjoined : ∀ i, i ∉ rest → s.worker i = .returned := by
      intro i hi
      exact h.joined i (by rw [hs]; exact hi)
    cases rest with
    | nil =>
      refine ⟨fun _ => nofun, fun _ _ => nofun, fun _ => h.clients hne, h.callers, h.drained, ?_⟩
      intro i _
      exact hjoined i List.not_mem_nil
    | cons k rest =>
      have hk : s.worker k = .returned := by simpa [hs, Destructor.canJoin] using hd
      refine ⟨fun _ => nofun, fun _ _ => nofun, fun _ => h.clients hne, h.callers, h.drained, ?_⟩
      intro i hi
      by_cases hik : i = k
      · rw [hik, hk]
      · exact hjoined i (by simp only [List.mem_cons, hik, false_or]; exact hi)

variable [DecidableEq C]

theorem Closing.setCall {th : Thread n C} {c : Call} (h : s.Closing)
    (hth : s.call th ≠ .out ∨ s.canCall th) : (s.setCall th c).Closing := by
  refine ⟨h.stop, h.returned, ?_, ?_, h.drained, h.joined⟩
  · intro hd c'
    have hne : Thread.client c' ≠ th := by
      rintro rfl
      rcases hth with hth | hth
      · exact hth (h.clients hd c')
      · exact hd hth
    simpa only [State.setCall, Function.update_of_ne hne] using h.clients hd c'
  · intro i hi
    by_cases hne : Thread.worker i = th
    · subst hne
      rcases hth with hth | hth
      · exact h.callers i hth
      · exact hth
    · simp only [State.setCall, Function.update_of_ne hne] at hi
      exact h.callers i hi

theorem Closing.push [NeZero n] {th : Thread n C} {task : ℕ} (h : s.Closing)
    (hth : s.call th = .added task) : (s.next (.push th task)).Closing := by
  have hne : s.call th ≠ .out := by
    rw [hth]
    exact nofun
  obtain ⟨hstop, hreturned, hclients, hcallers, -, hjoined⟩ := h.setCall (c := .pushed) (.inl hne)
  refine ⟨hstop, hreturned, hclients, hcallers, ?_, hjoined⟩
  intro hall
  obtain ⟨i, hi⟩ := h.exists_not_returned hne
  exact absurd (hall i) hi

theorem Closing.next [NeZero n] (h : s.Closing) (hm : s.enabled m) : (s.next m).Closing := by
  have hset : ∀ {th c c'}, s.call th = c → c ≠ .out → (s.setCall th c').Closing := by
    intro th c c' hth hc
    exact h.setCall (.inl (by rw [hth]; exact hc))
  cases m with
  | dispatch th =>
    have hadded : (s.setCall th (.added s.begun)).Closing := h.setCall (.inr hm.2)
    exact hadded.frame rfl rfl rfl rfl rfl
  | push th task => exact h.push hm
  | notifyOne th woken =>
    cases woken with
    | none => exact hset hm.1 nofun
    | some i =>
      have hi : (s.setCall th .out).worker i = .asleep := hm.2
      have hout : (s.setCall th .out).Closing := hset hm.1 nofun
      exact hout.setWorker (by rw [hi]; exact nofun) (hout.call_eq_out (by rw [hi]; rfl)) nofun
  | waitIdle th => exact h.setCall (.inr hm.2)
  | lock th =>
    have hout : (s.setCall th .locked).Closing := hset hm.1 nofun
    exact hout.frame rfl rfl rfl rfl rfl
  | evaluate th => exact hset hm nofun
  | block th =>
    have hout : (s.setCall th .blocked).Closing := hset hm nofun
    exact hout.frame rfl rfl rfl rfl rfl
  | wake th => exact hset hm nofun
  | leave th =>
    have hout : (s.setCall th .out).Closing := hset hm nofun
    exact hout.frame rfl rfl rfl rfl rfl
  | look i => exact h.look hm
  | stir i =>
    have hi : s.worker i = .asleep := hm
    exact h.setWorker (by rw [hi]; exact nofun) (h.call_eq_out (by rw [hi]; rfl)) nofun
  | ran i task =>
    have hi : s.worker i = .running task := hm.1
    have hw : (s.setWorker i (.ran task)).Closing :=
      h.setWorker (by rw [hi]; exact nofun) hm.2 nofun
    exact hw.frame rfl rfl rfl rfl rfl
  | subtract i task =>
    have hi : s.worker i = .ran task := hm
    have hw : (s.setWorker i .subtracted).Closing :=
      h.setWorker (by rw [hi]; exact nofun) (h.call_eq_out (by rw [hi]; rfl)) nofun
    exact hw.frame rfl rfl rfl rfl rfl
  | notifyAll i =>
    have hi : s.wakeWaiters.worker i = .subtracted := hm
    exact h.wakeWaiters.setWorker (by rw [hi]; exact nofun)
      (h.wakeWaiters.call_eq_out (by rw [hi]; rfl)) nofun
  | stop =>
    have hd : s.destructor = .absent := hm.1
    refine ⟨fun _ => nofun, fun _ _ => nofun, fun _ => hm.2, h.callers, h.drained, nofun⟩
  | notifyWorkers => exact h.notifyWorkers hm
  | join => exact h.join hm

theorem closing [NeZero n] (h : (pool n C).Reachable s) : s.Closing := by
  refine h.invariant ?_ ?_
  · rintro _ rfl
    exact ⟨nofun, nofun, fun _ _ => rfl, fun _ hi => absurd rfl hi, fun _ => rfl, nofun⟩
  · rintro _ m _ - hc ⟨hm, rfl⟩
    exact hc.next hm

/-! ### After the destructor, after wait_idle -/

theorem executed_of_returned [NeZero n] [Fintype C] (h : (pool n C).Reachable s)
    (hd : s.destructor = .returned) : s.executed.Perm (List.range s.begun) := by
  have hclosing := closing h
  have hworkers : ∀ i, s.worker i = .returned := by
    intro i
    exact hclosing.joined i (by rw [hd]; trivial)
  have htasks : s.tasks = [] := hclosing.drained hworkers
  have hadding : held Call.adding s.call = 0 := by
    refine held_eq_zero.mpr fun th => ?_
    have hout : s.call th = .out := by
      cases th with
      | worker i => exact hclosing.call_eq_out (by rw [hworkers i]; rfl)
      | client c => exact hclosing.clients (by rw [hd]; exact nofun) c
    rw [hout]
    rfl
  have hruns : s.running = 0 := held_eq_zero.mpr fun i => by rw [hworkers i]; rfl
  have hall := (conserved h).tasks
  rw [hadding, hruns, htasks] at hall
  simp only [Multiset.coe_nil, zero_add] at hall
  exact (Multiset.coe_eq_coe.mp hall).symm

theorem executed_nodup [Fintype C] (h : (pool n C).Reachable s) : s.executed.Nodup := by
  have hall := (conserved h).tasks
  have hle : (↑s.executed : Multiset ℕ) ≤ Multiset.range s.begun := by
    rw [hall]
    exact Multiset.le_add_left _ _
  exact Multiset.coe_nodup.mp (Multiset.nodup_of_le hle (Multiset.nodup_range _))

theorem call_of_setCall {th th' : Thread n C} {v : Call} (c : Call) (hc : c ≠ v)
    (h : (s.setCall th' c).call th = v) : s.call th = v := by
  by_cases hth : th = th'
  · subst hth
    simp only [State.setCall, Function.update_self] at h
    exact absurd h hc
  · simpa only [State.setCall, Function.update_of_ne hth] using h

/-- A thread sees the pool idle only where `inflight_` reads 0. -/
theorem evaluated_true_of_next {th : Thread n C}
    (h : (s.next m).call th = .evaluated true) : s.call th = .evaluated true ∨ s.inflight = 0 := by
  cases m with
  | dispatch th' => exact .inl (call_of_setCall (.added s.begun) nofun h)
  | push th' task => exact .inl (call_of_setCall .pushed nofun h)
  | notifyOne th' woken =>
    cases woken with
    | none => exact .inl (call_of_setCall .out nofun h)
    | some i => exact .inl (call_of_setCall .out nofun h)
  | waitIdle th' => exact .inl (call_of_setCall .entered nofun h)
  | lock th' => exact .inl (call_of_setCall .locked nofun h)
  | evaluate th' =>
    by_cases hzero : s.inflight = 0
    · exact .inr hzero
    · have hne : Call.evaluated (s.inflight == 0) ≠ .evaluated true := by simpa using hzero
      exact .inl (call_of_setCall _ hne h)
  | block th' => exact .inl (call_of_setCall .blocked nofun h)
  | wake th' => exact .inl (call_of_setCall .entered nofun h)
  | leave th' => exact .inl (call_of_setCall .out nofun h)
  | look i =>
    simp only [next, workerLook] at h
    split at h
    · split at h <;> exact .inl h
    · exact .inl h
  | notifyAll i =>
    simp only [next, wakeWaiters, State.setWorker] at h
    split at h
    · cases h
    · exact .inl h
  | join =>
    simp only [next] at h
    split at h <;> exact .inl h
  | _ => exact .inl h

theorem idle_of_inFlight_eq_zero [Fintype C] (h : (pool n C).Reachable s) (hs : s.inFlight = 0) :
    s.tasks = [] ∧ s.running = 0 := by
  have hle := queued_add_running_le h
  constructor
  · exact List.length_eq_zero_iff.mp (by omega)
  · exact Multiset.card_eq_zero.mp (by omega)

/-- Between the call of `wait_idle` and its return there is an instant at which
the number in flight was 0 as an `int`. -/
theorem exists_idle_of_leave [Fintype C] {th : Thread n C} {ls : List (Move n C)}
    {a b u : State n C} (ha : (pool n C).Reachable a) (hcall : (pool n C).step a (.waitIdle th) b)
    (hrun : (pool n C).Run b ls t) (hleave : (pool n C).step t (.leave th) u) :
    ∃ ls₁ m ls₂, ls = ls₁ ++ ls₂ ∧ (pool n C).Run b ls₁ m ∧ (pool n C).Run m ls₂ t ∧
      2 ^ 32 ∣ m.inFlight := by
  have hb : (pool n C).Reachable b := .step ha hcall
  have hentered : b.call th ≠ .evaluated true := by
    rw [hcall.2]
    simp [next, State.setCall]
  have hevaluated : t.call th = .evaluated true := hleave.1
  obtain ⟨ls₁, m, l, b', ls₂, rfl, hm, hnot, hstep, hat, hrest⟩ :=
    hrun.since (P := fun s => s.call th = .evaluated true) hentered hevaluated
  refine ⟨ls₁, m, l :: ls₂, rfl, hm, Lts.run_cons.mpr ⟨b', hstep, hrest.of_restrict⟩, ?_⟩
  have hzero : m.inflight = 0 := by
    rw [hstep.2] at hat
    exact (evaluated_true_of_next hat).resolve_left hnot
  have hnat := congrArg BitVec.toNat (inflight_eq_ofNat (hm.reachable hb))
  rw [hzero] at hnat
  simp only [BitVec.toNat_ofNat] at hnat
  exact Nat.dvd_of_mod_eq_zero (by simpa using hnat.symm)

theorem begun_sub_finished [Fintype C] (h : (pool n C).Reachable s) :
    (s.begun : ℤ) - s.finished = s.inFlight := by
  have hbegun := (conserved h).begun_eq
  unfold inFlight
  omega

theorem inflight_toInt [Fintype C] (h : (pool n C).Reachable s)
    (hlt : (s.begun : ℤ) - s.finished < 2 ^ 31) : s.inflight.toInt = s.begun - s.finished := by
  have hsplit := begun_sub_finished h
  have hsmall : 2 * s.inFlight < 2 ^ 32 := by omega
  rw [inflight_eq_ofNat h, BitVec.toInt_ofNat', Int.bmod_eq_of_le_mul_two (by omega) (by omega)]
  omega

end State

open State

/-- Every dispatched task is executed exactly once by the end of the destructor,
`inflight_` counts the tasks begun and not finished as a 32-bit `int`, and
`wait_idle` does not return before an instant of the call at which their number
is a multiple of 2^32, so that none is left if they are fewer. -/
theorem pool_conserves {n : ℕ} {C : Type} [NeZero n] [Fintype C] [DecidableEq C] {s : State n C}
    (h : (pool n C).Reachable s) :
    s.executed.Nodup ∧
      (s.destructor = .returned → s.executed.Perm (List.range s.begun)) ∧
      s.inflight = BitVec.ofNat 32 s.begun - BitVec.ofNat 32 s.finished ∧
      ((s.begun : ℤ) - s.finished < 2 ^ 31 →
        s.inflight.toInt = s.begun - s.finished ∧
          s.tasks.length + s.running.card ≤ s.inflight.toInt) ∧
      ∀ th ls b t u, (pool n C).step s (.waitIdle th) b → (pool n C).Run b ls t →
        (pool n C).step t (.leave th) u →
        ∃ ls₁ m ls₂, ls = ls₁ ++ ls₂ ∧ (pool n C).Run b ls₁ m ∧ (pool n C).Run m ls₂ t ∧
          2 ^ 32 ∣ (m.begun : ℤ) - m.finished ∧
          ((m.begun : ℤ) - m.finished < 2 ^ 32 → m.tasks = [] ∧ m.running = 0) := by
  refine ⟨executed_nodup h, executed_of_returned h, inflight_eq h, ?_, ?_⟩
  · intro hlt
    have hcount := inflight_toInt h hlt
    have hle := queued_add_running_le h
    have hbegun := (conserved h).begun_eq
    refine ⟨hcount, ?_⟩
    rw [hcount]
    unfold inFlight at hle
    omega
  · intro th ls b t u hcall hrun hleave
    obtain ⟨ls₁, m, ls₂, hls, hm, hrest, hdvd⟩ := exists_idle_of_leave h hcall hrun hleave
    have hreach : (pool n C).Reachable m := hm.reachable (.step h hcall)
    have hcount : (m.begun : ℤ) - m.finished = m.inFlight := begun_sub_finished hreach
    refine ⟨ls₁, m, ls₂, hls, hm, hrest, ?_, fun hlt => ?_⟩
    · rw [hcount]
      exact_mod_cast hdvd
    · refine idle_of_inFlight_eq_zero hreach (Nat.eq_zero_of_dvd_of_lt hdvd ?_)
      omega

theorem begun_le_of_run {n : ℕ} {C : Type} [DecidableEq C] {s t : State n C}
    {ls : List (Move n C)} (h : (pool n C).Run s ls t) : s.begun ≤ t.begun := by
  refine h.invariant (I := fun t => s.begun ≤ t.begun) le_rfl ?_
  rintro a m _ ha ⟨-, rfl⟩
  cases m with
  | dispatch th => exact Nat.le_succ_of_le ha
  | notifyOne th woken => cases woken <;> exact ha
  | look i =>
    simp only [next, workerLook]
    split
    · split <;> exact ha
    · exact ha
  | join =>
    simp only [next]
    split <;> exact ha
  | _ => exact ha

/-- One worker; a thread dispatches a task, waits and destroys the pool. -/
theorem task_executed_once :
    ∃ s m, (pool 1 Unit).Reachable s ∧ s.destructor = .returned ∧ s.begun = 1 ∧
      s.executed.Perm (List.range s.begun) ∧ s.inflight.toInt = s.begun - s.finished ∧
      (pool 1 Unit).Reachable m ∧ m.tasks = [] ∧ m.running = 0 := by
  obtain ⟨s, hrun, hP⟩ := exists_pool_run (start : State 1 Unit) (fun _ _ => true)
    ([.dispatch (.client ()), .push (.client ()) 0, .notifyOne (.client ()) none] ++
      .waitIdle (.client ()) :: ([.lock (.client ()), .look 0, .ran 0 0, .subtract 0 0,
        .evaluate (.client ()), .notifyAll 0] ++ .leave (.client ()) :: [.look 0, .stop,
        .notifyWorkers, .look 0, .join, .join]))
    (fun s => decide (s.destructor = .returned ∧ s.begun = 1)) (by decide +kernel)
  obtain ⟨hd, hbegun⟩ := of_decide_eq_true hP
  obtain ⟨a, ha, hrest⟩ := Lts.run_append.mp hrun.of_restrict
  obtain ⟨b, hcall, hrest⟩ := Lts.run_cons.mp hrest
  obtain ⟨t, hmid, hrest⟩ := Lts.run_append.mp hrest
  obtain ⟨u, hleave, hpost⟩ := Lts.run_cons.mp hrest
  have hreach : (pool 1 Unit).Reachable s := hrun.of_restrict.reachable (.init rfl)
  have hwait : (pool 1 Unit).Reachable a := ha.reachable (.init rfl)
  obtain ⟨ls₁, m, ls₂, hls, hm, hmt, -, hidle⟩ :=
    (pool_conserves hwait).2.2.2.2 _ _ _ _ _ hcall hmid hleave
  have hle : m.begun ≤ 1 := by
    have hmt := begun_le_of_run hmt
    have htu := begun_le_of_run (Lts.run_singleton.mpr hleave)
    have hus := begun_le_of_run hpost
    omega
  have hnone := hidle (by omega)
  have hcount := ((pool_conserves hreach).2.2.2.1 (by omega)).1
  exact ⟨s, m, hreach, hd, hbegun, (pool_conserves hreach).2.1 hd, hcount,
    hm.reachable (.step hwait hcall), hnone⟩

/-! ### More dispatches than an int counts -/

/-- After `k` dispatches, before the worker has looked at the queue. -/
def backlog (k : ℕ) : State 1 Unit :=
  { start with inflight := BitVec.ofNat 32 k, tasks := List.range k, begun := k }

theorem dispatch_backlog (k : ℕ) :
    (((backlog k).next (.dispatch (.client ()))).next (.push (.client ()) k)).next
      (.notifyOne (.client ()) none) = backlog (k + 1) := by
  have hcall (th : Thread 1 Unit) : Function.update (Function.update (Function.update
      (fun _ => Call.out) th (.added k)) th .pushed) th .out = fun _ => .out := by
    rw [Function.update_idem, Function.update_idem, Function.update_eq_self_iff]
  have hcount : BitVec.ofNat 32 k + 1 = BitVec.ofNat 32 (k + 1) := by
    rw [BitVec.ofNat_add]
    rfl
  simp only [next, State.setCall, backlog, start, hcall, hcount, List.range_succ]

theorem backlog_reachable (k : ℕ) : (pool 1 Unit).Reachable (backlog k) := by
  induction k with
  | zero => exact .init rfl
  | succ k ih =>
    have hadded := reachable_next (.dispatch (.client ())) ih ⟨rfl, rfl⟩
    have hpushed := reachable_next (.push (.client ()) k) hadded rfl
    have hout := reachable_next (.notifyOne (.client ()) none) hpushed ⟨rfl, fun _ => nofun⟩
    rwa [dispatch_backlog k] at hout

theorem inflight_wraps :
    ∃ s : State 1 Unit, (pool 1 Unit).Reachable s ∧
      s.inflight.toInt ≠ (s.begun : ℤ) - s.finished := by
  refine ⟨backlog (2 ^ 31), backlog_reachable _, ?_⟩
  have hwrap : (BitVec.ofNat 32 (2 ^ 31)).toInt = -2 ^ 31 := by decide
  have hcount : ((2 ^ 31 : ℕ) : ℤ) - (0 : ℕ) = 2 ^ 31 := by norm_num
  change (BitVec.ofNat 32 (2 ^ 31)).toInt ≠ ((2 ^ 31 : ℕ) : ℤ) - (0 : ℕ)
  rw [hwrap, hcount]
  decide

end LeadLag.Pool
