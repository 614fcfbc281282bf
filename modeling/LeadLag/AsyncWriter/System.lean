import LeadLag.Interaction.Runs
import Mathlib.Data.Fintype.Basic
import Mathlib.Logic.Function.Basic

/-!
# AsyncJsonlWriter (live_pipeline.cpp:158-220, jsonl_writer.cpp)

Producers in `enqueue`, the thread in `run` and one call of `stop_and_flush`,
one step at a time. A critical section of `mu_` is one step, and a wait is the
evaluation of its predicate and, where it is false, the blocking that goes with
it. `R` are the rows and `dumps` says for which of them `dump` does not throw. No write
to the file fails: the code does not look at the state of its stream.
-/

namespace LeadLag.AsyncWriter
open LeadLag.Interaction

/-- Where a producer stands in `enqueue`; `blocked` is on `cv_not_full_`. -/
inductive Producer (R : Type) where
  | out
  | entering (row : R)
  | blocked (row : R)
  | pushed
  deriving DecidableEq

def Producer.isBlocked {R : Type} : Producer R → Bool
  | .blocked _ => true
  | .out | .entering _ | .pushed => false

/-- The mutex has to be taken and the predicate evaluated again. -/
def Producer.wake {R : Type} : Producer R → Producer R
  | .blocked row => .entering row
  | p => p

/-- Where the thread stands in `run`; `asleep` is on `cv_`. -/
inductive Writer (R : Type) where
  | looking
  | asleep
  | popped (row : R)
  | notified (row : R)
  | returned
  deriving DecidableEq

def Writer.wake {R : Type} : Writer R → Writer R
  | .asleep => .looking
  | w => w

/-- The row that is in neither the queue nor the file. -/
def Writer.inHand {R : Type} : Writer R → List R
  | .popped row | .notified row => [row]
  | .looking | .asleep | .returned => []

/-- Where the one call of `stop_and_flush` stands. -/
inductive Stopper where
  | absent
  | stopped
  | notifiedWriter
  | joining
  | joined
  | returned
  deriving DecidableEq

/-- `accepted` is not read by the code: the rows pushed, in order. `terminated`:
an exception has left `run`. -/
structure State (C R : Type) where
  queue : List R
  stop : Bool
  producer : C → Producer R
  writer : Writer R
  stopper : Stopper
  file : List R
  terminated : Bool
  accepted : List R

inductive Move (C R : Type) where
  | enqueue (c : C) (row : R)
  | look (c : C) (row : R)
  | notifyOne (c : C)
  | stir (c : C)
  | take
  | stirWriter
  | notifyNotFull (row : R) (woken : Option C)
  | append (row : R)
  | stop
  | notifyAll
  | notifyAllNotFull
  | join
  | flush

namespace State
variable {C R : Type} [DecidableEq C]

def start : State C R :=
  { queue := [], stop := false, producer := fun _ => .out, writer := .looking, stopper := .absent
    file := [], terminated := false, accepted := [] }

def setProducer (s : State C R) (c : C) (p : Producer R) : State C R :=
  { s with producer := Function.update s.producer c p }

/-- The critical section of `enqueue`. -/
def producerLook (maxQueue : ℕ) (s : State C R) (c : C) (row : R) : State C R :=
  if s.stop then s.setProducer c .out
  else if s.queue.length < maxQueue then
    { s.setProducer c .pushed with queue := s.queue ++ [row], accepted := s.accepted ++ [row] }
  else s.setProducer c (.blocked row)

/-- The critical section of `run`. -/
def writerTake (s : State C R) : State C R :=
  if s.stop || !s.queue.isEmpty then
    match s.queue with
    | [] => { s with writer := .returned }
    | row :: rest => { s with queue := rest, writer := .popped row }
  else { s with writer := .asleep }

def enabled (s : State C R) : Move C R → Prop
  | .enqueue c _ => s.producer c = .out
  | .look c row => s.producer c = .entering row
  | .notifyOne c => s.producer c = .pushed
  | .stir c => (s.producer c).isBlocked = true
  | .take => s.writer = .looking
  | .stirWriter => s.writer = .asleep
  | .notifyNotFull row (some c) => s.writer = .popped row ∧ (s.producer c).isBlocked = true
  | .notifyNotFull row none => s.writer = .popped row ∧ ∀ c, (s.producer c).isBlocked = false
  | .append row => s.writer = .notified row
  | .stop => s.stopper = .absent
  | .notifyAll => s.stopper = .stopped
  | .notifyAllNotFull => s.stopper = .notifiedWriter
  | .join => s.stopper = .joining ∧ s.writer = .returned
  | .flush => s.stopper = .joined

def next (maxQueue : ℕ) (dumps : R → Bool) (s : State C R) : Move C R → State C R
  | .enqueue c row => s.setProducer c (.entering row)
  | .look c row => s.producerLook maxQueue c row
  -- only the thread in `run` waits on `cv_`
  | .notifyOne c => { s.setProducer c .out with writer := s.writer.wake }
  | .stir c => s.setProducer c (s.producer c).wake
  | .take => s.writerTake
  | .stirWriter => { s with writer := .looking }
  | .notifyNotFull row (some c) =>
    { s.setProducer c (s.producer c).wake with writer := .notified row }
  | .notifyNotFull row none => { s with writer := .notified row }
  | .append row =>
    if dumps row then { s with writer := .looking, file := s.file ++ [row] }
    else { s with terminated := true }
  | .stop => { s with stop := true, stopper := .stopped }
  | .notifyAll => { s with writer := s.writer.wake, stopper := .notifiedWriter }
  | .notifyAllNotFull =>
    { s with producer := fun c => (s.producer c).wake, stopper := .joining }
  | .join => { s with stopper := .joined }
  -- each append has flushed what it wrote
  | .flush => { s with stopper := .returned }

instance [Fintype C] [DecidableEq R] (s : State C R) (m : Move C R) : Decidable (s.enabled m) :=
  match m with
  | .enqueue c _ => inferInstanceAs (Decidable (s.producer c = .out))
  | .look c row => inferInstanceAs (Decidable (s.producer c = .entering row))
  | .notifyOne c => inferInstanceAs (Decidable (s.producer c = .pushed))
  | .stir c => inferInstanceAs (Decidable ((s.producer c).isBlocked = true))
  | .take => inferInstanceAs (Decidable (s.writer = .looking))
  | .stirWriter => inferInstanceAs (Decidable (s.writer = .asleep))
  | .notifyNotFull row (some c) =>
    inferInstanceAs (Decidable (s.writer = .popped row ∧ (s.producer c).isBlocked = true))
  | .notifyNotFull row none =>
    inferInstanceAs (Decidable (s.writer = .popped row ∧ ∀ c, (s.producer c).isBlocked = false))
  | .append row => inferInstanceAs (Decidable (s.writer = .notified row))
  | .stop => inferInstanceAs (Decidable (s.stopper = .absent))
  | .notifyAll => inferInstanceAs (Decidable (s.stopper = .stopped))
  | .notifyAllNotFull => inferInstanceAs (Decidable (s.stopper = .notifiedWriter))
  | .join => inferInstanceAs (Decidable (s.stopper = .joining ∧ s.writer = .returned))
  | .flush => inferInstanceAs (Decidable (s.stopper = .joined))

def apply [Fintype C] [DecidableEq R] (maxQueue : ℕ) (dumps : R → Bool) (s : State C R)
    (m : Move C R) : Option (State C R) :=
  if s.terminated = false ∧ s.enabled m then some (s.next maxQueue dumps m) else none

end State

/-- The writer of `max_queue` rows, with the producers `C`. -/
def asyncWriter (C R : Type) [DecidableEq C] (maxQueue : ℕ) (dumps : R → Bool) :
    Lts (State C R) (Move C R) where
  init s := s = State.start
  step s m t := (s.terminated = false ∧ s.enabled m) ∧ t = s.next maxQueue dumps m

end LeadLag.AsyncWriter
