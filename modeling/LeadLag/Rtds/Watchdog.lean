import LeadLag.Interaction.Runs
import Mathlib.Data.Int.Notation

/-!
# The watchdog (rtds_chainlink_feed.cpp:300-311, 399-528)

The threads of the feed, one read or write of a shared field at a time: the
socket, callers of `ensure_started`, the watchdog and a caller of `stop`.
`start_mu_` has a holder, and a caller that has not taken it yet has done
nothing but read `started_`. A wait ends by the step that follows it. The
history, newest first, is not read by the code: the successful starts, the
failed reconnects, the calls of `stop` and the watchdog periods, each with the
state of the socket when the period was decided and whether it reconnected.
-/

namespace LeadLag.Rtds
open LeadLag.Interaction

inductive Event where
  | started
  | reconnectFailed
  | stopCalled
  | period (socketOpen tried : Bool)
  deriving DecidableEq, Repr

/-! ### A period's reason to reconnect -/

inductive Why where
  | wsNotOpen
  | staleTicks
  | noTicksAfterOpen
  deriving DecidableEq, Repr

def kStaleTickMs : ℤ := 120000
def kNoTickAfterOpenMs : ℤ := 90000

def reconnectWhy (socketOpen ever : Bool) (now last sess : ℤ) : Option Why :=
  if !socketOpen then some .wsNotOpen
  else if ever ∧ 0 < last ∧ kStaleTickMs < now - last then some .staleTicks
  else if !ever ∧ 0 < sess ∧ kNoTickAfterOpenMs < now - sess then some .noTicksAfterOpen
  else none

/-! ### Threads -/

/-- Where the caller of `ensure_started` that holds `start_mu_` stands. -/
inductive StartPhase where
  | entered
  | connecting
  | connected
  | recorded
  | marked
  deriving DecidableEq, Repr

inductive Holder where
  | starter (p : StartPhase)
  | watchdog
  deriving DecidableEq, Repr

/-- Where the watchdog stands; `absent` is a thread that is not joinable. -/
inductive WatchdogPhase where
  | absent
  | sleeping
  | awake
  | startedSeen
  | stopSeen
  | looked (now last sess : ℤ) (ever : Bool)
  | reconnecting (socketOpen : Bool) (why : Why)
  | locked (socketOpen : Bool)
  | guarded (socketOpen : Bool)
  | reopening
  | exited
  deriving DecidableEq, Repr

inductive StopPhase where
  | flagged
  | joining
  | joined
  | closed
  deriving DecidableEq, Repr

structure FeedState where
  started : Bool := false
  stopFeed : Bool := false
  watchdogStop : Bool := false
  socketOpen : Bool := false
  everGotTick : Bool := false
  lastTickWallMs : ℤ := 0
  sessionStartWallMs : ℤ := 0
  startMu : Option Holder := none
  watchdog : WatchdogPhase := .absent
  stop : Option StopPhase := none
  history : List Event := []

inductive FeedMove where
  | socket (isOpen : Bool)
  | ticks (now : ℤ)
  | ensureStarted
  | starter (now : ℤ)
  | watchdog (now : ℤ)
  | stop
  deriving DecidableEq, Repr

namespace FeedState

def log (s : FeedState) (e : Event) : FeedState := { s with history := e :: s.history }

/-- The period ends without a reconnect. -/
def skip (s : FeedState) (socketOpen : Bool) : FeedState :=
  { s with watchdog := .sleeping }.log (.period socketOpen false)

def release (s : FeedState) : FeedState := { s with startMu := none }

/-- `ensure_started_inner` once it holds `start_mu_`. -/
def starterStep (s : FeedState) (now : ℤ) : StartPhase → FeedState
  | .entered => if s.started then s.release else { s with startMu := some (.starter .connecting) }
  | .connecting => if s.socketOpen then { s with startMu := some (.starter .connected) }
      else s.release
  | .connected => { s with sessionStartWallMs := now, startMu := some (.starter .recorded) }
  | .recorded => { s with started := true, startMu := some (.starter .marked) }.log .started
  | .marked =>
    if s.watchdog = .absent then
      { s with watchdogStop := false, watchdog := .sleeping }.release
    else s.release

/-- `run_watchdog` and the `reconnect_inner` it calls. -/
def watchdogStep (s : FeedState) (now : ℤ) : WatchdogPhase → Option FeedState
  | .absent => none
  | .sleeping => some { s with watchdog := if s.watchdogStop then .exited else .awake }
  | .awake => some (if s.started then { s with watchdog := .startedSeen } else s.skip s.socketOpen)
  | .startedSeen =>
    some (if s.stopFeed then s.skip s.socketOpen else { s with watchdog := .stopSeen })
  | .stopSeen => some { s with
      watchdog := .looked now s.lastTickWallMs s.sessionStartWallMs s.everGotTick }
  | .looked now last sess ever =>
    match reconnectWhy s.socketOpen ever now last sess with
    | some why => some { s with watchdog := .reconnecting s.socketOpen why }
    | none => some (s.skip s.socketOpen)
  | .reconnecting socketOpen _ =>
    if s.startMu = none then
      some { s with startMu := some .watchdog, watchdog := .locked socketOpen }
    else none
  | .locked socketOpen =>
    some (if s.stopFeed then (s.skip socketOpen).release
      else { s with watchdog := .guarded socketOpen })
  | .guarded socketOpen =>
    some (if s.started then
        { s with everGotTick := false, lastTickWallMs := 0, sessionStartWallMs := 0
                 socketOpen := false, watchdog := .reopening }.log (.period socketOpen true)
      else (s.skip socketOpen).release)
  | .reopening =>
    some (if s.socketOpen then { s with sessionStartWallMs := now, watchdog := .sleeping }.release
      else ({ s with started := false, watchdog := .sleeping }.log .reconnectFailed).release)
  | .exited => none

def stopStep (s : FeedState) : Option StopPhase → Option FeedState
  | none => some ({ s with stopFeed := true, stop := some .flagged }.log .stopCalled)
  | some .flagged => some { s with watchdogStop := true, stop := some .joining }
  | some .joining =>
    if s.watchdog = .absent ∨ s.watchdog = .exited then
      some { s with watchdog := .absent, stop := some .joined }
    else none
  | some .joined => some { s with socketOpen := false, stop := some .closed }
  | some .closed => some { s with
      started := false, everGotTick := false, lastTickWallMs := 0, sessionStartWallMs := 0
      stop := none }

def apply (s : FeedState) : FeedMove → Option FeedState
  | .socket isOpen => some { s with socketOpen := isOpen }
  | .ticks now => some { s with everGotTick := true, lastTickWallMs := now }
  | .ensureStarted =>
    if s.startMu = none then some { s with startMu := some (.starter .entered) } else none
  | .starter now =>
    match s.startMu with
    | some (.starter p) => some (s.starterStep now p)
    | _ => none
  | .watchdog now => s.watchdogStep now s.watchdog
  | .stop => s.stopStep s.stop

end FeedState

def rtdsFeed : Lts FeedState FeedMove where
  init s := s = {}
  step s mv t := s.apply mv = some t

/-! ### What the history says -/

/-- The last start that succeeded has not been followed by a failed reconnect. -/
def upSinceStart : List Event → Bool
  | [] => false
  | .started :: _ => true
  | .reconnectFailed :: _ => false
  | _ :: older => upSinceStart older

/-- `stop` was not called after a successful start. -/
def NotStopped (history : List Event) : Prop :=
  ∀ newer older, history = newer ++ .stopCalled :: older → .started ∉ older

/-- Every period that found the socket not open reconnected. -/
def NeverGivesUp (history : List Event) : Prop :=
  ∀ tried, .period false tried ∈ history → tried = true

/-- Every period that found the socket not open came after a successful start
with no failed reconnect since, in a feed that was not stopped before. -/
def NoneAfterFailure (history : List Event) : Prop :=
  ∀ newer older tried, history = newer ++ .period false tried :: older →
    upSinceStart older = true ∧ .stopCalled ∉ older

theorem NotStopped.tail {e : Event} {history : List Event} (h : NotStopped (e :: history)) :
    NotStopped history := by
  intro newer older hsplit
  exact h (e :: newer) older (by rw [hsplit, List.cons_append])

theorem NotStopped.not_mem {history : List Event} (h : NotStopped (.stopCalled :: history)) :
    .started ∉ history :=
  h [] history rfl

end LeadLag.Rtds
