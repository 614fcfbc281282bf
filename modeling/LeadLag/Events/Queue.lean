import LeadLag.Interaction.ClosedQueue
import LeadLag.Runner.Replay

/-!
# The event queue (btc_poly_runner.cpp:1352-1385, 2325-2350, 2850-2903, 3017-3127)

Callbacks and the monitor push events, one thread handles them. The main thread
leaves its loop, stops the feeds, pushes Stop and joins that thread. The feed of
RTDS is not stopped, and without discovery the loop is left at once.
-/

namespace LeadLag.Events
open LeadLag.Execution LeadLag.Interaction LeadLag.Runner

structure Options where
  polyDiscover : Bool := true
  spotFeedChainlink : Bool := false

inductive Producer where
  | feedUp
  | feedDown
  | binance
  | rtds
  | monitor
  deriving DecidableEq

/-- Where the main thread is; `leaving` runs until the feeds have stopped. -/
inductive Main where
  | running
  | leaving
  | feedsStopped
  | stopPushed
  | joined
  deriving DecidableEq

structure State where
  consumer : Consumer
  q : ClosedQueue Event := {}
  main : Main := .running

def State.feedsUp (s : State) : Bool := s.main = .running ∨ s.main = .leaving

/-- A thread that has not been stopped. -/
def State.alive (opts : Options) (s : State) : Producer → Bool
  | .feedUp => s.feedsUp
  | .feedDown => s.feedsUp || !opts.polyDiscover
  | .binance => !opts.spotFeedChainlink && s.feedsUp
  | .rtds => opts.spotFeedChainlink
  | .monitor => opts.polyDiscover && decide (s.main = .running)

def Producer.sends : Producer → Event → Bool
  | .feedUp, .polyQuote _ | .feedDown, .polyQuote _ => true
  | .binance, .binBook .. | .binance, .binTrade .. => true
  | .rtds, .chainlinkSpot .. => true
  | .monitor, .rollover _ => true
  | _, _ => false

/-- Of the events of the runner those that go through the queue. -/
def isQueued : Event → Bool
  | .idle | .startup .. => false
  | _ => true

theorem isQueued_of_sends {p : Producer} {e : Event} (h : p.sends e = true) :
    isQueued e = true := by
  cases e with
  | idle | startup => cases p <;> cases h
  | _ => rfl

inductive Move where
  | push (p : Producer) (e : Event)
  | interrupt
  | startup (e : Event) (tr : Trace)
  | leave
  | stopFeeds
  | pushStop
  | join
  | take (tr : Trace)
  | update (tr : Trace)
  | findEmpty
  | timeout (tr : Trace)
  | quit

inductive Moved (M : Libm) (cfg : Config) (opts : Options) : State → Move → State → Prop where
  | push {s : State} {p : Producer} {e : Event} :
      s.alive opts p = true → p.sends e = true → s.main ≠ .joined →
      Moved M cfg opts s (.push p e) { s with q := s.q.push e }
  | interrupt {s : State} : Moved M cfg opts s .interrupt { s with q := s.q.stop }
  -- the main thread writes the first bucket to `hot` before its loop
  | startup {s : State} {e : Event} {tr : Trace} {c' : Consumer} :
      s.main = .running → e.isStartup = true → Step M cfg s.consumer (.event e tr) c' →
      Moved M cfg opts s (.startup e tr) { s with consumer := c' }
  | leave {s : State} : s.main = .running → (s.q.stopped = true ∨ opts.polyDiscover = false) →
      Moved M cfg opts s .leave { s with main := .leaving }
  -- the thread of the Binance client waits for `g_stop`
  | stopFeeds {s : State} : s.main = .leaving →
      (s.q.stopped = true ∨ opts.spotFeedChainlink = true) →
      Moved M cfg opts s .stopFeeds { s with main := .feedsStopped }
  | pushStop {s : State} : s.main = .feedsStopped →
      Moved M cfg opts s .pushStop { s with q := s.q.pushMarker, main := .stopPushed }
  | join {s : State} : s.main = .stopPushed → s.q.returned = true →
      Moved M cfg opts s .join { s with main := .joined }
  | take {s : State} {e : Event} {rest : List (Option Event)} {tr : Trace} {c' : Consumer} :
      s.q.returned = false → s.q.found = none → s.q.queue = some e :: rest →
      Step M cfg s.consumer (.event e tr) c' →
      Moved M cfg opts s (.take tr) { s with consumer := c', q := s.q.pop (some e) rest }
  | takeStop {s : State} {rest : List (Option Event)} :
      s.q.returned = false → s.q.found = none → s.consumer.updateDue = false →
      s.q.queue = none :: rest →
      Moved M cfg opts s (.take []) { s with q := s.q.pop none rest }
  | update {s : State} {tr : Trace} {c' : Consumer} :
      s.q.returned = false → s.q.found = none → Step M cfg s.consumer (.update tr) c' →
      Moved M cfg opts s (.update tr) { s with consumer := c' }
  -- the lock is given back before `g_stop` is read
  | findEmpty {s : State} :
      s.q.returned = false → s.q.found = none → s.consumer.updateDue = false →
      s.q.queue = [] → Moved M cfg opts s .findEmpty { s with q := s.q.findEmpty }
  | timeout {s : State} {tr : Trace} {c' : Consumer} :
      s.q.returned = false → s.q.found.isSome = true → s.q.stopped = false →
      Step M cfg s.consumer (.event .idle tr) c' →
      Moved M cfg opts s (.timeout tr) { s with consumer := c', q := s.q.goOn }
  | quit {s : State} :
      s.q.returned = false → s.q.found.isSome = true → s.q.stopped = true →
      Moved M cfg opts s .quit { s with q := s.q.quit }

def strategy (M : Libm) (cfg : Config) (opts : Options) : Lts State Move where
  init s := ∃ hist, s = { consumer := .start cfg hist }
  step := Moved M cfg opts

/-! ### Order -/

def queued? : Label → Option Event
  | .event e _ => if isQueued e then some e else none
  | .update _ => none

theorem queued?_startup {e : Event} (h : e.isStartup = true) (tr : Trace) :
    queued? (.event e tr) = none := by
  cases e with
  | startup => rfl
  | _ => cases h

/-- The events handled, without Stop. -/
def handled (q : ClosedQueue Event) : List Event := q.popped.filterMap id

/-- The consumer is where the runner is after the events that were popped. -/
structure Handles (M : Libm) (cfg : Config) (s : State) : Prop where
  queue : s.q.Inv
  queued : ∀ e, some e ∈ s.q.pushed → isQueued e = true
  run : ∃ hist ls, (runner M cfg).Run (.start cfg hist) ls s.consumer ∧
    ls.filterMap queued? = handled s.q

section Handles

variable {M : Libm} {cfg : Config} {opts : Options} {s t : State} {l : Move}

/-- A step of the consumer on an event that is not from the queue. -/
theorem Handles.silent {label : Label} {c' : Consumer} (inv : Handles M cfg s)
    (hstep : Step M cfg s.consumer label c') (hl : queued? label = none) :
    Handles M cfg { s with consumer := c' } where
  queue := inv.queue
  queued := inv.queued
  run := by
    obtain ⟨hist, ls, hrun, hls⟩ := inv.run
    refine ⟨hist, ls ++ [label], .snoc hrun hstep, ?_⟩
    rw [List.filterMap_append, hls]
    simp [hl]

theorem Handles.withQueue {q : ClosedQueue Event} (inv : Handles M cfg s) (hq : q.Inv)
    (hqueued : ∀ e, some e ∈ q.pushed → isQueued e = true) (hpopped : q.popped = s.q.popped) :
    Handles M cfg { s with q } where
  queue := hq
  queued := hqueued
  run := by
    obtain ⟨hist, ls, hrun, hls⟩ := inv.run
    refine ⟨hist, ls, hrun, ?_⟩
    rw [hls]
    show handled s.q = q.popped.filterMap id
    rw [hpopped, handled]

theorem Handles.popped {e : Event} {rest : List (Option Event)} {tr : Trace} {c' : Consumer}
    (inv : Handles M cfg s) (hrunning : s.q.returned = false) (hfound : s.q.found = none)
    (hqueue : s.q.queue = some e :: rest) (hstep : Step M cfg s.consumer (.event e tr) c') :
    Handles M cfg { s with consumer := c', q := s.q.pop (some e) rest } where
  queue := inv.queue.pop hqueue hrunning hfound
  queued := inv.queued
  run := by
    obtain ⟨hist, ls, hrun, hls⟩ := inv.run
    have hmem : some e ∈ s.q.pushed := by
      rw [inv.queue.split, hqueue]
      simp
    have hlabel : queued? (Label.event e tr) = some e := if_pos (inv.queued e hmem)
    refine ⟨hist, ls ++ [Label.event e tr], .snoc hrun hstep, ?_⟩
    show (ls ++ [Label.event e tr]).filterMap queued? = (s.q.popped ++ [some e]).filterMap id
    rw [List.filterMap_append, List.filterMap_append, hls, handled]
    simp [hlabel]

theorem Handles.step (inv : Handles M cfg s) (h : Moved M cfg opts s l t) :
    Handles M cfg t := by
  cases h with
  | push _ hsends _ =>
    refine inv.withQueue inv.queue.push ?_ rfl
    intro e he
    rcases List.mem_append.mp he with he | he
    · exact inv.queued e he
    · obtain rfl := Option.some.inj (List.mem_singleton.mp he)
      exact isQueued_of_sends hsends
  | interrupt => exact inv.withQueue inv.queue.stop inv.queued rfl
  | startup _ hstartup hstep =>
    exact inv.silent hstep (queued?_startup hstartup _)
  | leave | stopFeeds | join => exact ⟨inv.queue, inv.queued, inv.run⟩
  | pushStop _ =>
    have hwith := inv.withQueue inv.queue.pushMarker ?_ rfl
    · exact ⟨hwith.queue, hwith.queued, hwith.run⟩
    · intro e he
      rcases List.mem_append.mp he with he | he
      · exact inv.queued e he
      · cases List.mem_singleton.mp he
  | take hrunning hfound hqueue hstep => exact inv.popped hrunning hfound hqueue hstep
  | takeStop hrunning hfound _ hqueue =>
    obtain ⟨hist, ls, hrun, hls⟩ := inv.run
    refine ⟨inv.queue.pop hqueue hrunning hfound, inv.queued, hist, ls, hrun, ?_⟩
    show _ = (s.q.popped ++ [none]).filterMap id
    rw [List.filterMap_append, hls, handled]
    simp
  | update _ _ hstep => exact inv.silent hstep rfl
  | findEmpty hrunning _ _ hempty =>
    exact inv.withQueue (inv.queue.findEmpty hempty hrunning) inv.queued rfl
  | timeout hrunning _ _ hstep =>
    have hidle := inv.silent hstep rfl
    exact hidle.withQueue (inv.queue.goOn hrunning) inv.queued rfl
  | quit _ hfound hstopped =>
    exact inv.withQueue (inv.queue.quit hstopped hfound) inv.queued rfl

theorem handles_of_reachable (h : (strategy M cfg opts).Reachable s) : Handles M cfg s := by
  refine h.invariant ?_ fun s l t _ inv hst => inv.step hst
  intro s hs
  obtain ⟨hist, rfl⟩ : ∃ hist, s = { consumer := Consumer.start cfg hist } := hs
  exact ⟨ClosedQueue.inv_empty, fun e he => absurd he List.not_mem_nil, hist, [], .nil, rfl⟩

/-- Events are handled once each, in the order in which they were pushed,
whatever the interleaving: the consumer has made a run of the runner on a prefix
of what was pushed, and the rest is in the queue. -/
theorem events_handled_in_order (h : (strategy M cfg opts).Reachable s) :
    s.q.pushed = s.q.popped ++ s.q.queue ∧
      ∃ hist ls, (runner M cfg).Run (.start cfg hist) ls s.consumer ∧
        ls.filterMap queued? = handled s.q :=
  ⟨(handles_of_reachable h).queue.split, (handles_of_reachable h).run⟩

end Handles

/-! ### Two quotes -/

def quoteUp : Event := upQuote "up-300" "btc-300" 300 (78 / 100) (8 / 10)

def quoteDown : Event := downQuote "down-300" "btc-300" 300 (18 / 100) (2 / 10)

/-- An event of the queue and the update behind it. -/
def handle (c : Consumer) (e : Event) : Option (Trace × Trace × Consumer) :=
  (replayTake coarse quickEntry c e paperAnswers.script).bind fun taken =>
    (replayDue coarse quickEntry taken.2 paperAnswers.script).map fun updated =>
      (taken.1, updated.1, updated.2)

theorem handle_steps {c : Consumer} {e : Event} {x : Trace × Trace × Consumer}
    (h : handle c e = some x) : ∃ c₁, Step coarse quickEntry c (.event e x.1) c₁ ∧
      Step coarse quickEntry c₁ (.update x.2.1) x.2.2 := by
  obtain ⟨taken, htake, hrest⟩ := Option.bind_eq_some_iff.mp h
  obtain ⟨updated, hdue, rfl⟩ := Option.map_eq_some_iff.mp hrest
  exact ⟨taken.2, replayTake_step htake, replayDue_step hdue⟩

theorem handle_two : ∃ x y, handle (.start quickEntry []) quoteUp = some x ∧
    handle x.2.2 quoteDown = some y ∧ y.2.2.updateDue = false := by
  have hreplay : ((handle (.start quickEntry []) quoteUp).any fun x =>
      (handle x.2.2 quoteDown).any fun y => !y.2.2.updateDue) = true := by decide +kernel
  obtain ⟨x, hx, hrest⟩ := (Option.any_eq_true _ _).mp hreplay
  obtain ⟨y, hy, hdone⟩ := (Option.any_eq_true _ _).mp hrest
  exact ⟨x, y, hx, hy, by simpa using hdone⟩

/-- Both feeds push before the first quote is taken. -/
theorem events_handled_in_order_sample : ∃ s : State, handled s.q = [quoteUp, quoteDown] ∧
    s.q.pushed = s.q.popped ++ s.q.queue ∧
      ∃ hist ls, (runner coarse quickEntry).Run (.start quickEntry hist) ls s.consumer ∧
        ls.filterMap queued? = handled s.q := by
  obtain ⟨x, y, hx, hy, -⟩ := handle_two
  obtain ⟨c₁, htake₁, hupdate₁⟩ := handle_steps hx
  obtain ⟨c₂, htake₂, hupdate₂⟩ := handle_steps hy
  have hstart : (strategy coarse quickEntry {}).Reachable
      { consumer := .start quickEntry [] } := .init ⟨[], rfl⟩
  have hup := hstart.step (.push (p := .feedUp) (e := quoteUp) rfl rfl nofun)
  have hdown := hup.step (.push (p := .feedDown) (e := quoteDown) rfl rfl nofun)
  have hfirst := (hdown.step (.take rfl rfl rfl htake₁)).step (.update rfl rfl hupdate₁)
  have hsecond := (hfirst.step (.take rfl rfl rfl htake₂)).step (.update rfl rfl hupdate₂)
  exact ⟨_, rfl, events_handled_in_order hsecond⟩

end LeadLag.Events
