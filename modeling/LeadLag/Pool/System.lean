import LeadLag.Interaction.Runs
import Mathlib.Data.Fintype.Sum
import Mathlib.Logic.Function.Basic
import Mathlib.Tactic.DeriveFintype

/-!
# ThreadPool (thread_pool.hpp:22-64, thread_pool.cpp:9-63)

Workers, callers of `dispatch` and `wait_idle` and the destructor, one step at a
time. A critical section of `mu_` is one step, since `tasks_` and `stop_` are
touched under `mu_` only. `idle_mu_` has a holder, because `wait_idle` keeps it
from the evaluation of its predicate until it blocks and the workers never take
it. A task is the number of its dispatch.
-/

namespace LeadLag.Pool
open LeadLag.Interaction

/-- A running task may call the pool as well; its thread is the worker's. -/
inductive Thread (n : ℕ) (C : Type) where
  | worker (i : Fin n)
  | client (c : C)
  deriving DecidableEq, Fintype

/-- Where a thread stands in `dispatch` or in `wait_idle`. -/
inductive Call where
  | out
  | added (task : ℕ)
  | pushed
  | entered
  | locked
  | evaluated (idle : Bool)
  | blocked
  deriving DecidableEq, Repr

/-- Where a worker stands in `worker_loop`; `asleep` is blocked on `cv_`. -/
inductive Worker where
  | looking
  | asleep
  | running (task : ℕ)
  | ran (task : ℕ)
  | subtracted
  | returned
  deriving DecidableEq, Repr

def Worker.isRunning : Worker → Bool
  | .running _ => true
  | _ => false

/-- `joining rest`: the threads `~ThreadPool` has still to join. -/
inductive Destructor (n : ℕ) where
  | absent
  | stopped
  | joining (rest : List (Fin n))
  | returned
  deriving DecidableEq

/-- The loop of `join`s goes on when the next worker has returned. -/
def Destructor.canJoin {n : ℕ} (worker : Fin n → Worker) : Destructor n → Prop
  | .joining (i :: _) => worker i = .returned
  | .joining [] => True
  | .absent | .stopped | .returned => False

instance {n : ℕ} (worker : Fin n → Worker) (d : Destructor n) : Decidable (d.canJoin worker) :=
  match d with
  | .joining (i :: _) => inferInstanceAs (Decidable (worker i = .returned))
  | .joining [] => .isTrue trivial
  | .absent | .stopped | .returned => .isFalse id

/-- `inflight_` is an `int`. `begun`, `executed` and `finished` are not read by
the code: the dispatches begun, the tasks whose `job()` returned, in order, and
the number of those whose `fetch_sub` was made. -/
structure State (n : ℕ) (C : Type) where
  inflight : BitVec 32
  tasks : List ℕ
  stop : Bool
  worker : Fin n → Worker
  call : Thread n C → Call
  idleMu : Option (Thread n C)
  destructor : Destructor n
  begun : ℕ
  executed : List ℕ
  finished : ℕ

inductive Move (n : ℕ) (C : Type) where
  | dispatch (th : Thread n C)
  | push (th : Thread n C) (task : ℕ)
  | notifyOne (th : Thread n C) (woken : Option (Fin n))
  | waitIdle (th : Thread n C)
  | lock (th : Thread n C)
  | evaluate (th : Thread n C)
  | block (th : Thread n C)
  | wake (th : Thread n C)
  | leave (th : Thread n C)
  | look (i : Fin n)
  | stir (i : Fin n)
  | ran (i : Fin n) (task : ℕ)
  | subtract (i : Fin n) (task : ℕ)
  | notifyAll (i : Fin n)
  | stop
  | notifyWorkers
  | join

namespace State
variable {n : ℕ} {C : Type} [DecidableEq C]

def start : State n C :=
  { inflight := 0, tasks := [], stop := false, worker := fun _ => .looking, call := fun _ => .out
    idleMu := none, destructor := .absent, begun := 0, executed := [], finished := 0 }

def setCall (s : State n C) (th : Thread n C) (c : Call) : State n C :=
  { s with call := Function.update s.call th c }

def setWorker (s : State n C) (i : Fin n) (w : Worker) : State n C :=
  { s with worker := Function.update s.worker i w }

/-- No thread other than a running task may use a pool that is being destroyed. -/
def canCall (s : State n C) : Thread n C → Prop
  | .worker i => (s.worker i).isRunning = true
  | .client _ => s.destructor = .absent

/-- The critical section of `worker_loop`. -/
def workerLook (s : State n C) (i : Fin n) : State n C :=
  if s.stop || !s.tasks.isEmpty then
    match s.tasks with
    | [] => s.setWorker i .returned
    | task :: rest => { s.setWorker i (.running task) with tasks := rest }
  else s.setWorker i .asleep

def wakeWaiters (s : State n C) : State n C :=
  { s with call := fun th => if s.call th = .blocked then .entered else s.call th }

def wakeWorkers (s : State n C) : State n C :=
  { s with worker := fun i => if s.worker i = .asleep then .looking else s.worker i }

def enabled (s : State n C) : Move n C → Prop
  | .dispatch th => s.call th = .out ∧ s.canCall th
  | .push th task => s.call th = .added task
  | .notifyOne th (some i) => s.call th = .pushed ∧ s.worker i = .asleep
  | .notifyOne th none => s.call th = .pushed ∧ ∀ i, s.worker i ≠ .asleep
  | .waitIdle th => s.call th = .out ∧ s.canCall th
  | .lock th => s.call th = .entered ∧ s.idleMu = none
  | .evaluate th => s.call th = .locked
  | .block th => s.call th = .evaluated false
  | .wake th => s.call th = .blocked
  | .leave th => s.call th = .evaluated true
  | .look i => s.worker i = .looking
  | .stir i => s.worker i = .asleep
  | .ran i task => s.worker i = .running task ∧ s.call (.worker i) = .out
  | .subtract i task => s.worker i = .ran task
  | .notifyAll i => s.worker i = .subtracted
  | .stop => s.destructor = .absent ∧ ∀ c, s.call (.client c) = .out
  | .notifyWorkers => s.destructor = .stopped
  | .join => s.destructor.canJoin s.worker

def next (s : State n C) : Move n C → State n C
  | .dispatch th =>
    { s.setCall th (.added s.begun) with inflight := s.inflight + 1, begun := s.begun + 1 }
  | .push th task => { s.setCall th .pushed with tasks := s.tasks ++ [task] }
  | .notifyOne th (some i) => (s.setCall th .out).setWorker i .looking
  | .notifyOne th none => s.setCall th .out
  | .waitIdle th => s.setCall th .entered
  | .lock th => { s.setCall th .locked with idleMu := some th }
  | .evaluate th => s.setCall th (.evaluated (s.inflight == 0))
  | .block th => { s.setCall th .blocked with idleMu := none }
  -- a spurious wakeup; `idle_mu_` has to be taken again
  | .wake th => s.setCall th .entered
  | .leave th => { s.setCall th .out with idleMu := none }
  | .look i => s.workerLook i
  | .stir i => s.setWorker i .looking
  | .ran i task => { s.setWorker i (.ran task) with executed := s.executed ++ [task] }
  | .subtract i _ =>
    { s.setWorker i .subtracted with inflight := s.inflight - 1, finished := s.finished + 1 }
  | .notifyAll i => s.wakeWaiters.setWorker i .looking
  | .stop => { s with stop := true, destructor := .stopped }
  | .notifyWorkers => { s.wakeWorkers with destructor := .joining (List.finRange n) }
  | .join =>
    match s.destructor with
    | .joining (_ :: rest) => { s with destructor := .joining rest }
    | _ => { s with destructor := .returned }

instance (s : State n C) (th : Thread n C) : Decidable (s.canCall th) :=
  match th with
  | .worker i => inferInstanceAs (Decidable ((s.worker i).isRunning = true))
  | .client _ => inferInstanceAs (Decidable (s.destructor = .absent))

instance [Fintype C] (s : State n C) (m : Move n C) : Decidable (s.enabled m) :=
  match m with
  | .dispatch th => inferInstanceAs (Decidable (s.call th = .out ∧ s.canCall th))
  | .push th task => inferInstanceAs (Decidable (s.call th = .added task))
  | .notifyOne th (some i) =>
    inferInstanceAs (Decidable (s.call th = .pushed ∧ s.worker i = .asleep))
  | .notifyOne th none =>
    inferInstanceAs (Decidable (s.call th = .pushed ∧ ∀ i, s.worker i ≠ .asleep))
  | .waitIdle th => inferInstanceAs (Decidable (s.call th = .out ∧ s.canCall th))
  | .lock th => inferInstanceAs (Decidable (s.call th = .entered ∧ s.idleMu = none))
  | .evaluate th => inferInstanceAs (Decidable (s.call th = .locked))
  | .block th => inferInstanceAs (Decidable (s.call th = .evaluated false))
  | .wake th => inferInstanceAs (Decidable (s.call th = .blocked))
  | .leave th => inferInstanceAs (Decidable (s.call th = .evaluated true))
  | .look i => inferInstanceAs (Decidable (s.worker i = .looking))
  | .stir i => inferInstanceAs (Decidable (s.worker i = .asleep))
  | .ran i task =>
    inferInstanceAs (Decidable (s.worker i = .running task ∧ s.call (.worker i) = .out))
  | .subtract i task => inferInstanceAs (Decidable (s.worker i = .ran task))
  | .notifyAll i => inferInstanceAs (Decidable (s.worker i = .subtracted))
  | .stop =>
    inferInstanceAs (Decidable (s.destructor = .absent ∧ ∀ c, s.call (.client c) = .out))
  | .notifyWorkers => inferInstanceAs (Decidable (s.destructor = .stopped))
  | .join => inferInstanceAs (Decidable (s.destructor.canJoin s.worker))

def apply [Fintype C] (s : State n C) (m : Move n C) : Option (State n C) :=
  if s.enabled m then some (s.next m) else none

end State

/-- The pool with `n` workers, used by the threads `C` and by its own tasks. -/
def pool (n : ℕ) (C : Type) [DecidableEq C] : Lts (State n C) (Move n C) where
  init s := s = State.start
  step s m t := s.enabled m ∧ t = s.next m

theorem reachable_next {n : ℕ} {C : Type} [DecidableEq C] {s : State n C} (m : Move n C)
    (h : (pool n C).Reachable s) (hm : s.enabled m) : (pool n C).Reachable (s.next m) :=
  .step h ⟨hm, rfl⟩

/-- A run computed by `apply`, every step of which passes a check. -/
theorem exists_pool_run {n : ℕ} {C : Type} [DecidableEq C] [Fintype C] (s : State n C)
    (check : State n C → Move n C → Bool) (moves : List (Move n C)) (P : State n C → Bool)
    (h : (Lts.stepAll (fun s m => if check s m then s.apply m else none) s moves).any P = true) :
    ∃ t, ((pool n C).restrict fun s m => check s m = true).Run s moves t ∧ P t = true := by
  refine Lts.exists_run_stepAll (fun s m t hst => ?_) h
  obtain ⟨hcheck, happly⟩ := Option.ite_none_right_eq_some.mp hst
  obtain ⟨hm, hnext⟩ := Option.ite_none_right_eq_some.mp happly
  exact ⟨⟨hm, (Option.some.inj hnext).symm⟩, hcheck⟩

end LeadLag.Pool
