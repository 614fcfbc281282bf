import LeadLag.Pool.Completion

/-!
# Waking from wait_idle (thread_pool.cpp:42-63)

A worker changes `inflight_` and notifies `idle_cv_` without `idle_mu_`. It can do
both between the evaluation of a waiter's predicate and the waiter's block, and
then nothing wakes the waiter any more.
-/

namespace LeadLag.Pool
open LeadLag.Interaction

def Worker.waiting : Worker → Bool
  | .looking | .asleep => true
  | .running _ | .ran _ | .subtracted | .returned => false

namespace State
variable {n : ℕ} {C : Type} {s t : State n C} {m : Move n C}

/-- A thread is blocked in `wait_idle` with nothing left to wait for. -/
def Hung (s : State n C) : Prop :=
  (∃ th, s.call th = .blocked) ∧ s.inflight = 0 ∧ s.tasks = [] ∧ ∀ i, (s.worker i).waiting = true

/-- No step takes `inflight_` to 0 while a thread has found it nonzero and is not
yet blocked; and `inflight_` does not wrap to 0. -/
def keepsWaiters (s : State n C) : Move n C → Prop
  | .subtract _ _ => s.inflight = 1 → ∀ th, s.call th ≠ .evaluated false
  | .dispatch _ => s.inflight ≠ -1
  | _ => True

instance [Fintype C] (s : State n C) (m : Move n C) : Decidable (s.keepsWaiters m) :=
  match m with
  | .subtract _ _ =>
    inferInstanceAs (Decidable (s.inflight = 1 → ∀ th, s.call th ≠ .evaluated false))
  | .dispatch _ => inferInstanceAs (Decidable (s.inflight ≠ -1))
  | .push .. | .notifyOne .. | .waitIdle _ | .lock _ | .evaluate _ | .block _ | .wake _ | .leave _
  | .look _ | .stir _ | .ran .. | .notifyAll _ | .stop | .notifyWorkers | .join => .isTrue trivial

structure Woken (s : State n C) : Prop where
  evaluated : ∀ th, s.call th = .evaluated false → s.inflight ≠ 0
  blocked : ∀ th, s.call th = .blocked → s.inflight ≠ 0 ∨ ∃ i, s.worker i = .subtracted

theorem Woken.setWorker {i : Fin n} {w : Worker} (h : s.Woken)
    (hi : s.worker i ≠ .subtracted) : (s.setWorker i w).Woken := by
  refine ⟨h.evaluated, ?_⟩
  intro th hth
  rcases h.blocked th hth with hne | ⟨j, hj⟩
  · exact .inl hne
  · have hji : j ≠ i := by
      rintro rfl
      exact hi hj
    exact .inr ⟨j, by simpa only [State.setWorker, Function.update_of_ne hji] using hj⟩

theorem Woken.look {i : Fin n} (h : s.Woken) (hi : s.worker i = .looking) :
    (s.workerLook i).Woken := by
  have hne : s.worker i ≠ .subtracted := by
    rw [hi]
    exact nofun
  unfold workerLook
  split
  · split
    · exact h.setWorker hne
    · rename_i task rest _
      have hw := h.setWorker (w := .running task) hne
      exact ⟨hw.evaluated, hw.blocked⟩
  · exact h.setWorker hne

theorem Woken.wakeWorkers (h : s.Woken) : s.wakeWorkers.Woken := by
  refine ⟨h.evaluated, ?_⟩
  intro th hth
  rcases h.blocked th hth with hne | ⟨i, hi⟩
  · exact .inl hne
  · exact .inr ⟨i, by simp [State.wakeWorkers, hi]⟩

/-- `notify_all` leaves no thread blocked. -/
theorem Woken.notifyAll {i : Fin n} (h : s.Woken) : (s.wakeWaiters.setWorker i .looking).Woken := by
  refine ⟨?_, ?_⟩
  · intro th hth
    simp only [State.wakeWaiters, State.setWorker] at hth
    split at hth
    · cases hth
    · exact h.evaluated th hth
  · intro th hth
    simp only [State.wakeWaiters, State.setWorker] at hth
    split at hth
    · cases hth
    · rename_i hne
      exact absurd hth hne

/-- The waiters after `fetch_sub`: its worker still has to notify them. -/
theorem woken_subtract {i : Fin n} {task : ℕ} [DecidableEq C]
    (hc : s.keepsWaiters (.subtract i task)) : (s.next (.subtract i task)).Woken := by
  refine ⟨?_, ?_⟩
  · intro th hth hzero
    have hone : s.inflight = 1 := by
      simp only [next, State.setWorker] at hzero
      exact BitVec.sub_eq_iff_eq_add.mp hzero
    exact hc hone th hth
  · intro th _
    exact .inr ⟨i, by simp only [next, State.setWorker, Function.update_self]⟩

variable [DecidableEq C]

theorem Woken.setCall {th : Thread n C} {c : Call} (h : s.Woken)
    (hc : c ≠ .evaluated false ∨ s.inflight ≠ 0) (hb : c ≠ .blocked ∨ s.inflight ≠ 0) :
    (s.setCall th c).Woken := by
  refine ⟨?_, ?_⟩
  · intro th' hth'
    rcases hc with hc | hne
    · exact h.evaluated th' (call_of_setCall c hc hth')
    · exact hne
  · intro th' hth'
    rcases hb with hb | hne
    · exact h.blocked th' (call_of_setCall c hb hth')
    · exact .inl hne

theorem woken_dispatch {th : Thread n C} (hc : s.keepsWaiters (.dispatch th)) :
    (s.next (.dispatch th)).Woken := by
  have hne : s.inflight + 1 ≠ 0 := by
    intro hzero
    exact hc (by rw [← BitVec.sub_eq_iff_eq_add.mpr hzero.symm]; rfl)
  exact ⟨fun _ _ => hne, fun _ _ => .inl hne⟩

theorem Woken.next (h : s.Woken) (hm : s.enabled m) (hc : s.keepsWaiters m) :
    (s.next m).Woken := by
  cases m with
  | dispatch th => exact woken_dispatch hc
  | push th task =>
    have hset : (s.setCall th .pushed).Woken := h.setCall (.inl nofun) (.inl nofun)
    exact ⟨hset.evaluated, hset.blocked⟩
  | notifyOne th woken =>
    have hset : (s.setCall th .out).Woken := h.setCall (.inl nofun) (.inl nofun)
    cases woken with
    | none => exact hset
    | some i =>
      have hi : (s.setCall th .out).worker i = .asleep := hm.2
      exact hset.setWorker (by rw [hi]; exact nofun)
  | waitIdle th => exact h.setCall (.inl nofun) (.inl nofun)
  | lock th =>
    have hset : (s.setCall th .locked).Woken := h.setCall (.inl nofun) (.inl nofun)
    exact ⟨hset.evaluated, hset.blocked⟩
  | evaluate th =>
    refine h.setCall ?_ (.inl nofun)
    by_cases hzero : s.inflight = 0
    · exact .inl (by simpa using hzero)
    · exact .inr hzero
  | block th =>
    have hne : s.inflight ≠ 0 := h.evaluated th hm
    have hset : (s.setCall th .blocked).Woken := h.setCall (.inl nofun) (.inr hne)
    exact ⟨hset.evaluated, hset.blocked⟩
  | wake th => exact h.setCall (.inl nofun) (.inl nofun)
  | leave th =>
    have hset : (s.setCall th .out).Woken := h.setCall (.inl nofun) (.inl nofun)
    exact ⟨hset.evaluated, hset.blocked⟩
  | look i => exact h.look hm
  | stir i =>
    have hi : s.worker i = .asleep := hm
    exact h.setWorker (by rw [hi]; exact nofun)
  | ran i task =>
    have hi : s.worker i = .running task := hm.1
    have hw := h.setWorker (i := i) (w := .ran task) (by rw [hi]; exact nofun)
    exact ⟨hw.evaluated, hw.blocked⟩
  | subtract i task => exact woken_subtract hc
  | notifyAll i => exact h.notifyAll
  | stop => exact ⟨h.evaluated, h.blocked⟩
  | notifyWorkers => exact ⟨h.wakeWorkers.evaluated, h.wakeWorkers.blocked⟩
  | join =>
    simp only [State.next]
    split
    · exact ⟨h.evaluated, h.blocked⟩
    · exact ⟨h.evaluated, h.blocked⟩

theorem woken (h : ((pool n C).restrict keepsWaiters).Reachable s) : s.Woken := by
  refine h.invariant ?_ ?_
  · rintro _ rfl
    exact ⟨nofun, nofun⟩
  · rintro _ m _ - ha ⟨⟨hm, rfl⟩, hc⟩
    exact ha.next hm hc

end State

open State

theorem wait_idle_wakes {n : ℕ} {C : Type} [DecidableEq C] {s : State n C}
    (h : ((pool n C).restrict State.keepsWaiters).Reachable s) : ¬ s.Hung := by
  rintro ⟨⟨th, hth⟩, hzero, -, hwaiting⟩
  rcases (woken h).blocked th hth with hne | ⟨i, hi⟩
  · exact hne hzero
  · have hi' := hwaiting i
    rw [hi] at hi'
    cases hi'

/-- A waiter that blocks before the last task is done and is woken by it. -/
theorem waiter_woken :
    ∃ s : State 1 Unit, s.call (.client ()) = .blocked ∧ s.worker 0 = .subtracted ∧
      s.inflight = 0 ∧ ¬ s.Hung ∧ ¬ (s.next (.notifyAll 0)).Hung := by
  obtain ⟨s, hrun, hP⟩ := exists_pool_run (start : State 1 Unit)
    (fun s m => decide (s.keepsWaiters m))
    [.dispatch (.client ()), .push (.client ()) 0, .notifyOne (.client ()) none,
      .waitIdle (.client ()), .lock (.client ()), .evaluate (.client ()), .look 0, .ran 0 0,
      .block (.client ()), .subtract 0 0]
    (fun s => decide (s.call (.client ()) = .blocked ∧ s.worker 0 = .subtracted ∧
      s.inflight = 0)) (by decide +kernel)
  obtain ⟨hblocked, hsub, hzero⟩ := of_decide_eq_true hP
  have hreach : ((pool 1 Unit).restrict State.keepsWaiters).Reachable s :=
    (hrun.reachable (.init rfl)).restrict_mono fun _ _ hm => of_decide_eq_true hm
  have hstep : ((pool 1 Unit).restrict State.keepsWaiters).step s (.notifyAll 0)
      (s.next (.notifyAll 0)) := ⟨⟨hsub, rfl⟩, trivial⟩
  exact ⟨s, hblocked, hsub, hzero, wait_idle_wakes hreach, wait_idle_wakes (.step hreach hstep)⟩

/-- The worker subtracts and notifies between the waiter's predicate and its block. -/
theorem wait_idle_hangs : ∃ s : State 1 Unit, (pool 1 Unit).Reachable s ∧ s.Hung := by
  obtain ⟨s, hrun, hP⟩ := exists_pool_run (start : State 1 Unit) (fun _ _ => true)
    [.dispatch (.client ()), .push (.client ()) 0, .notifyOne (.client ()) none, .look 0,
      .ran 0 0, .waitIdle (.client ()), .lock (.client ()), .evaluate (.client ()),
      .subtract 0 0, .notifyAll 0, .block (.client ()), .look 0]
    (fun s => decide (s.call (.client ()) = .blocked ∧ s.inflight = 0 ∧ s.tasks = [] ∧
      ∀ i, (s.worker i).waiting = true)) (by decide +kernel)
  obtain ⟨hblocked, hrest⟩ := of_decide_eq_true hP
  exact ⟨s, hrun.of_restrict.reachable (.init rfl), ⟨_, hblocked⟩, hrest⟩

end LeadLag.Pool
