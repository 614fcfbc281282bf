import LeadLag.TokenFeed.System

/-!
# The subscription of the current token

`switch_token` replaces the snapshot before it subscribes. If the socket is open
at the subscribe, the session gets the token then. If not, a later session copies
the new snapshot. An older copy, sent late, only adds a token.
-/

namespace LeadLag.TokenFeed
open LeadLag.Interaction

/-- The session has the token, or its open handler will still subscribe it. -/
def Socket.WillHold (sock : Socket) (tok : String) : Prop :=
  match sock.handler with
  | .snapshot => True
  | .send ids => tok ∈ sock.subscribed ∨ tok ∈ ids
  | .callback | .finished => tok ∈ sock.subscribed

theorem Socket.willHold_of_mem {sock : Socket} {tok : String} (h : tok ∈ sock.subscribed) :
    sock.WillHold tok := by
  unfold WillHold
  split
  · trivial
  · exact .inl h
  · exact h
  · exact h

theorem Socket.mem_subscribe {sock : Socket} {ids : List String} {tok : String}
    (hopen : sock.isOpen = true) (h : tok ∈ sock.subscribed ∨ tok ∈ ids) :
    tok ∈ (sock.subscribe ids).subscribed := by
  rw [subscribe, if_pos hopen]
  exact List.mem_append.mpr h

theorem Socket.isOpen_subscribe (sock : Socket) (ids : List String) :
    (sock.subscribe ids).isOpen = sock.isOpen := by
  unfold subscribe
  split <;> rfl

namespace Caller

/-- The old token may be unsubscribed and the new one is not yet subscribed. -/
def unsubscribed : Caller → Bool
  | .assigning _ | .snapshotting _ | .subscribing _ => true
  | .idle | .unsubscribing .. | .returned _ | .unchanged _ => false

def isSnapshotting : Caller → Bool
  | .snapshotting _ => true
  | _ => false

variable {c : Caller}

theorem subscribed_of_not_inSwitch (h : c.inSwitch = false) : c.unsubscribed = false := by
  cases c with
  | assigning | snapshotting | subscribing => cases h
  | idle | unsubscribing | returned | unchanged => rfl

theorem not_snapshotting (h : c.unsubscribed = false) : c.isSnapshotting = false := by
  cases c with
  | snapshotting => cases h
  | idle | unsubscribing | assigning | subscribing | returned | unchanged => rfl

end Caller

structure SubscriptionInv (s : System) : Prop where
  snapshot : s.caller.isSnapshotting = false → s.snapshotIds = [s.fields.tokenId]
  target : ∀ m, s.caller.assigned? = some m → s.fields.tokenId = m.tokenId
  held : s.caller.unsubscribed = false → s.socket.isOpen = true →
    s.socket.WillHold s.fields.tokenId

section Step

variable {n : ℕ} {s t : System} {mv : Move}

theorem subscriptionInv_start (m : Market) : SubscriptionInv (.start m) where
  snapshot _ := rfl
  target _ := nofun
  held _ := nofun

theorem SubscriptionInv.frame (inv : SubscriptionInv s) (hcaller : t.caller = s.caller)
    (hids : t.snapshotIds = s.snapshotIds) (hsocket : t.socket = s.socket)
    (htok : t.fields.tokenId = s.fields.tokenId) : SubscriptionInv t where
  snapshot := by
    rw [hcaller, hids, htok]
    exact inv.snapshot
  target := by
    rw [hcaller, htok]
    exact inv.target
  held := by
    rw [hcaller, hsocket, htok]
    exact inv.held

/-- Outside a switch the next call keeps what holds. -/
theorem SubscriptionInv.begin (inv : SubscriptionInv s) (hin : s.caller.inSwitch = false)
    {caller : Caller} (htarget : ∀ m, caller.assigned? = some m → s.fields.tokenId = m.tokenId) :
    SubscriptionInv { s with caller := caller } where
  snapshot _ := inv.snapshot (Caller.not_snapshotting (Caller.subscribed_of_not_inSwitch hin))
  target := htarget
  held _ := inv.held (Caller.subscribed_of_not_inSwitch hin)

theorem SubscriptionInv.step (inv : SubscriptionInv s) (h : Moved n s mv t) :
    SubscriptionInv t := by
  cases h with
  | opened => exact ⟨inv.snapshot, inv.target, fun _ _ => trivial⟩
  | closed => exact ⟨inv.snapshot, inv.target, fun _ => nofun⟩
  | snapshot hh =>
    refine ⟨inv.snapshot, inv.target, ?_⟩
    intro hc _
    have hids : s.snapshotIds = [s.fields.tokenId] := inv.snapshot (Caller.not_snapshotting hc)
    simp [hids, Socket.afterSnapshot, Socket.WillHold]
  | send ids hh =>
    refine ⟨inv.snapshot, inv.target, ?_⟩
    intro hc hopen
    have hold : s.socket.isOpen = true := (s.socket.isOpen_subscribe ids).symm.trans hopen
    have hwill := inv.held hc hold
    rw [Socket.WillHold, hh] at hwill
    exact Socket.mem_subscribe hold hwill
  | callback hh =>
    refine ⟨inv.snapshot, inv.target, ?_⟩
    intro hc hopen
    have hwill := inv.held hc hopen
    rw [Socket.WillHold, hh] at hwill
    exact hwill
  | receiveInline | receiveQueued | take => exact inv.frame rfl rfl rfl rfl
  | work i task =>
    obtain ⟨hmarket, hids, hsocket, hcaller, -⟩ := afterWork_frame (s := s) i task
    exact inv.frame hcaller hids hsocket (congrArg Market.tokenId hmarket)
  | sameToken m hin htok =>
    apply inv.begin hin
    intro m' hm
    cases hm
    exact htok.symm
  | noToken m hin => exact inv.begin hin nofun
  | begun m hin => exact inv.begin hin nofun
  | unsubscribe old m hc =>
    have hids : s.snapshotIds = [s.fields.tokenId] := inv.snapshot (by rw [hc]; rfl)
    exact ⟨fun _ => hids, nofun, nofun⟩
  | assign m =>
    refine ⟨nofun, ?_, nofun⟩
    intro m' hm
    cases hm
    rfl
  | setSnapshot m hc =>
    have htok : s.fields.tokenId = m.tokenId := inv.target m (by rw [hc]; rfl)
    refine ⟨?_, ?_, nofun⟩
    · intro _
      rw [htok]
    · intro m' hm
      cases hm
      exact htok
  | subscribe m hc =>
    have htok : s.fields.tokenId = m.tokenId := inv.target m (by rw [hc]; rfl)
    have hids : s.snapshotIds = [s.fields.tokenId] := inv.snapshot (by rw [hc]; rfl)
    refine ⟨fun _ => hids, ?_, ?_⟩
    · intro m' hm
      cases hm
      exact htok
    · intro _ hopen
      have hold : s.socket.isOpen = true := (s.socket.isOpen_subscribe _).symm.trans hopen
      exact Socket.willHold_of_mem (Socket.mem_subscribe hold (.inr (by simp [htok])))
  | setContext m hc =>
    have hin : s.caller.inSwitch = false := by rcases hc with hc | hc <;> rw [hc] <;> rfl
    have hdone := Caller.subscribed_of_not_inSwitch hin
    have hids := inv.snapshot (Caller.not_snapshotting hdone)
    exact ⟨fun _ => hids, nofun, fun _ => inv.held hdone⟩

end Step

theorem subscriptionInv_reachable {n : ℕ} {listed : Market → Prop} {s : System}
    (h : (feed n listed).Reachable s) : SubscriptionInv s := by
  apply h.invariant
  · rintro _ ⟨m, -, -, rfl⟩
    exact subscriptionInv_start m
  · intro s mv t _ inv hst
    exact inv.step (apply_moved hst.1)

/-- Whenever no switch is in progress, the socket is open and its open handler has
finished, the current token is subscribed in the session. -/
theorem token_subscribed {n : ℕ} {listed : Market → Prop} {s : System}
    (h : (feed n listed).Reachable s) (hcaller : s.caller.inSwitch = false)
    (hopen : s.socket.isOpen = true) (hfinished : s.socket.handler = .finished) :
    s.fields.tokenId ∈ s.socket.subscribed := by
  have hwill := (subscriptionInv_reachable h).held (Caller.subscribed_of_not_inSwitch hcaller) hopen
  rw [Socket.WillHold, hfinished] at hwill
  exact hwill

/-- The socket closes after the unsubscribe, and the next open handler copies the
old snapshot and sends it during the rest of the switch. -/
theorem subscribed_after_reconnect :
    ∃ s, (feed 0 (· ∈ [bucket0, bucket300])).Reachable s ∧ s.fields.tokenId = "up-300" ∧
      s.socket.subscribed = ["up-0", "up-300"] ∧ s.fields.tokenId ∈ s.socket.subscribed := by
  obtain ⟨s, hrun, hP⟩ := exists_feed_run 0 [bucket0, bucket300] bucket0 (fun _ _ => true)
    [.opened, .handler, .handler, .handler, .beginSwitch bucket300, .switch, .closed, .opened,
      .handler, .switch, .switch, .handler, .switch, .handler]
    (fun s => decide (s.fields.tokenId = "up-300" ∧ s.socket.subscribed = ["up-0", "up-300"] ∧
      s.caller.inSwitch = false ∧ s.socket.isOpen = true ∧ s.socket.handler = .finished))
    (by decide +kernel)
  obtain ⟨htok, hids, hcaller, hopen, hfinished⟩ := of_decide_eq_true hP
  have hr := hrun.of_restrict.reachable (.init (init_bucket0 0))
  exact ⟨s, hr, htok, hids, token_subscribed hr hcaller hopen hfinished⟩

end LeadLag.TokenFeed
