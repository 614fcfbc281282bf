import LeadLag.Events.Queue

/-!
# The end of a run (btc_poly_runner.cpp:2325-2350, 3110-3123)

The consumer returns at Stop, or at an empty queue once `g_stop` is set. It has then
handled what was in the queue when the run began to end. There is one gap: between its
look at the queue and its look at `g_stop` an event may be pushed and `g_stop` be set,
and that event is lost.
-/

namespace LeadLag.Events
open LeadLag.Execution LeadLag.Interaction LeadLag.Runner

/-- What has to be so before Stop is pushed: `g_stop`, unless nothing waits for it. -/
def MayStop (opts : Options) (q : ClosedQueue Event) : Prop :=
  q.stopped = true ∨ opts.polyDiscover = false ∧ opts.spotFeedChainlink = true

structure Ending (opts : Options) (s : State) : Prop where
  leaving : s.main ≠ .running → s.q.stopped = true ∨ opts.polyDiscover = false
  feedsStopped : s.main ≠ .running → s.main ≠ .leaving → MayStop opts s.q
  marker : none ∈ s.q.pushed → s.main = .stopPushed ∨ s.main = .joined
  returned : s.q.returned = true → MayStop opts s.q
  joined : s.main = .joined → s.q.returned = true

section Ending

variable {M : Libm} {cfg : Config} {opts : Options} {s t : State} {l : Move}

theorem Ending.consumer (inv : Ending opts s) (c' : Consumer) :
    Ending opts { s with consumer := c' } :=
  ⟨inv.leaving, inv.feedsStopped, inv.marker, inv.returned, inv.joined⟩

theorem Ending.pop {x : Option Event} {rest : List (Option Event)} (hq : s.q.Inv)
    (inv : Ending opts s) (hqueue : s.q.queue = x :: rest) :
    Ending opts { s with q := s.q.pop x rest } where
  leaving := inv.leaving
  feedsStopped := inv.feedsStopped
  marker := inv.marker
  returned h := by
    have hcase : (s.q.returned || x.isNone) = true := h
    rcases Bool.or_eq_true_iff.mp hcase with hret | hnone
    · exact inv.returned hret
    · obtain rfl := Option.isNone_iff_eq_none.mp hnone
      have hmem : none ∈ s.q.pushed := by
        rw [hq.split, hqueue]
        simp
      refine inv.feedsStopped ?_ ?_
      · intro hmain
        rcases inv.marker hmem with h | h <;> simp [h] at hmain
      · intro hmain
        rcases inv.marker hmem with h | h <;> simp [h] at hmain
  joined h := by
    show (s.q.returned || x.isNone) = true
    rw [inv.joined h]
    rfl

theorem Ending.step (hq : s.q.Inv) (inv : Ending opts s) (h : Moved M cfg opts s l t) :
    Ending opts t := by
  cases h with
  | push _ _ _ =>
    refine ⟨inv.leaving, inv.feedsStopped, ?_, inv.returned, inv.joined⟩
    intro hmem
    rcases List.mem_append.mp hmem with hmem | hmem
    · exact inv.marker hmem
    · cases List.mem_singleton.mp hmem
  | interrupt =>
    exact ⟨fun _ => .inl rfl, fun _ _ => .inl rfl, inv.marker, fun _ => .inl rfl, inv.joined⟩
  | startup _ _ _ => exact inv.consumer _
  | leave hmain hready =>
    refine ⟨fun _ => hready, fun _ h => absurd rfl h, ?_, inv.returned, nofun⟩
    intro hmem
    rcases inv.marker hmem with h | h <;> simp [h] at hmain
  | stopFeeds hmain hready =>
    have hleft : s.q.stopped = true ∨ opts.polyDiscover = false :=
      inv.leaving (by simp [hmain])
    refine ⟨fun _ => hleft, fun _ _ => ?_, ?_, inv.returned, nofun⟩
    · rcases hready with hstop | hchain
      · exact .inl hstop
      · rcases hleft with hstop | hdisc
        · exact .inl hstop
        · exact .inr ⟨hdisc, hchain⟩
    · intro hmem
      rcases inv.marker hmem with h | h <;> simp [h] at hmain
  | pushStop hmain =>
    have hready : MayStop opts s.q := inv.feedsStopped (by simp [hmain]) (by simp [hmain])
    exact ⟨fun _ => inv.leaving (by simp [hmain]), fun _ _ => hready, fun _ => .inl rfl,
      inv.returned, nofun⟩
  | join hmain hret =>
    have hready : MayStop opts s.q := inv.feedsStopped (by simp [hmain]) (by simp [hmain])
    exact ⟨fun _ => inv.leaving (by simp [hmain]), fun _ _ => hready, fun _ => .inr rfl,
      inv.returned, fun _ => hret⟩
  | take _ _ hqueue _ =>
    have hpop := Ending.pop hq inv hqueue
    exact ⟨hpop.leaving, hpop.feedsStopped, hpop.marker, hpop.returned, hpop.joined⟩
  | takeStop _ _ _ hqueue => exact Ending.pop hq inv hqueue
  | update _ _ _ => exact inv.consumer _
  | findEmpty _ _ _ _ =>
    exact ⟨inv.leaving, inv.feedsStopped, inv.marker, inv.returned, inv.joined⟩
  | timeout _ _ _ _ =>
    exact ⟨inv.leaving, inv.feedsStopped, inv.marker, inv.returned, inv.joined⟩
  | quit _ _ hstopped =>
    exact ⟨inv.leaving, inv.feedsStopped, inv.marker, fun _ => .inl hstopped, fun _ => rfl⟩

theorem ending_of_reachable (h : (strategy M cfg opts).Reachable s) : Ending opts s := by
  refine h.invariant ?_ fun s l t hr inv hst => inv.step (handles_of_reachable hr).queue hst
  intro s hs
  obtain ⟨hist, rfl⟩ : ∃ hist, s = { consumer := Consumer.start cfg hist } := hs
  refine ⟨fun h => absurd rfl h, fun h => absurd rfl h, ?_, ?_, ?_⟩
  · intro hmem
    exact absurd hmem List.not_mem_nil
  · intro hret
    cases hret
  · intro hmain
    cases hmain

/-- When the consumer has returned, it has handled every event that was pushed
before `g_stop` was set, or before Stop was pushed where that came first, which
takes a run without discovery and without the Binance client; or else it found the
queue empty before that, and has handled every event that was pushed before it did. It
handles none that was pushed behind Stop, and the main thread joins it only then. -/
theorem stop_drains (h : (strategy M cfg opts).Reachable s) :
    (s.q.returned = true → MayStop opts s.q ∧
        ∃ k, s.q.closing = some k ∧
          (k ≤ s.q.popped.length ∨ s.q.found = some s.q.popped.length)) ∧
      (∀ pre post, s.q.pushed = pre ++ none :: post → s.q.popped.length ≤ pre.length + 1) ∧
      (s.main = .joined → s.q.returned = true) := by
  have hq := (handles_of_reachable h).queue
  have hend := ending_of_reachable h
  refine ⟨?_, ?_, hend.joined⟩
  · intro hret
    exact ⟨hend.returned hret, hq.returned hret⟩
  · intro pre post hpushed
    exact hq.popped_le_marker hpushed

end Ending

/-- Quotes that are pushed before the interrupt are handled before Stop, but a quote that
is pushed behind the look at the queue is not. -/
theorem stop_drains_sample :
    (∃ s : State, s.main = .joined ∧ handled s.q = [quoteUp, quoteDown] ∧
      s.q.returned = true ∧ ∃ k, s.q.closing = some k ∧
        (k ≤ s.q.popped.length ∨ s.q.found = some s.q.popped.length)) ∧
    ∃ s : State, s.q.pushed = [some quoteUp] ∧ handled s.q = [] ∧ s.q.returned = true ∧
      ∃ k, s.q.closing = some k ∧
        (k ≤ s.q.popped.length ∨ s.q.found = some s.q.popped.length) := by
  have hstart : (strategy coarse quickEntry {}).Reachable
      { consumer := .start quickEntry [] } := .init ⟨[], rfl⟩
  constructor
  · obtain ⟨x, y, hx, hy, hdone⟩ := handle_two
    obtain ⟨c₁, htake₁, hupdate₁⟩ := handle_steps hx
    obtain ⟨c₂, htake₂, hupdate₂⟩ := handle_steps hy
    have hup := hstart.step (.push (p := .feedUp) (e := quoteUp) rfl rfl nofun)
    have hdown := hup.step (.push (p := .feedDown) (e := quoteDown) rfl rfl nofun)
    have hleft := (hdown.step .interrupt).step (.leave rfl (.inl rfl))
    have hstop := (hleft.step (.stopFeeds rfl (.inl rfl))).step (.pushStop rfl)
    have hfirst := (hstop.step (.take rfl rfl rfl htake₁)).step (.update rfl rfl hupdate₁)
    have hsecond := (hfirst.step (.take rfl rfl rfl htake₂)).step (.update rfl rfl hupdate₂)
    have hreturned := hsecond.step (.takeStop rfl rfl hdone rfl)
    have hdrained := stop_drains (hreturned.step (.join rfl rfl))
    exact ⟨_, rfl, rfl, hdrained.2.2 rfl, (hdrained.1 rfl).2⟩
  · have hempty := hstart.step (.findEmpty rfl rfl rfl rfl)
    have hpush := hempty.step (.push (p := .feedUp) (e := quoteUp) rfl rfl nofun)
    have hquit := (hpush.step .interrupt).step (.quit rfl rfl rfl)
    have hdrained := stop_drains hquit
    exact ⟨_, rfl, rfl, rfl, (hdrained.1 rfl).2⟩

end LeadLag.Events
