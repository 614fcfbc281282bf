import LeadLag.Interaction.Runs
import LeadLag.TokenFeed.Message

/-!
# A quote feed and its threads (ws_fixed_token_feed.cpp:110-379,
ws_market_client.cpp:43-99, thread_pool.cpp:33-63)

The socket thread runs the open handler and receives messages. With parse
workers it queues them and each worker handles one at a time, without it handles
them itself. Another thread calls `switch_token` and `set_market_context`. A step
is one critical section, one send or one call of `on_quote`.
-/

namespace LeadLag.TokenFeed
open LeadLag.Interaction

structure Market where
  tokenId : String
  eventSlug : String
  bucketEpoch : ℤ
  outcome : String
  deriving DecidableEq, Repr

/-- `PolymarketWsQuote` without its two clock readings. -/
structure WsQuote where
  tokenId : String
  eventSlug : String
  marketBucketEpoch : ℤ
  outcome : String
  bestBid : Price
  bestAsk : Price
  deriving DecidableEq

namespace WsQuote

def market (q : WsQuote) : Market := ⟨q.tokenId, q.eventSlug, q.marketBucketEpoch, q.outcome⟩

def top (q : WsQuote) : Price × Price := (q.bestBid, q.bestAsk)

end WsQuote

/-- What `sub_mu_` guards; `lastEmitted` is `none` without a last emitted quote. -/
structure Fields where
  tokenId : String
  quoteEventSlug : String
  quoteMarketBucketEpoch : ℤ
  quoteOutcome : String
  lastEmitted : Option (Price × Price)
  deriving DecidableEq

namespace Fields

def market (f : Fields) : Market :=
  ⟨f.tokenId, f.quoteEventSlug, f.quoteMarketBucketEpoch, f.quoteOutcome⟩

def quote (f : Fields) (bid ask : Price) : WsQuote :=
  { tokenId := f.tokenId, eventSlug := f.quoteEventSlug
    marketBucketEpoch := f.quoteMarketBucketEpoch, outcome := f.quoteOutcome
    bestBid := bid, bestAsk := ask }

def setMarketContext (f : Fields) (m : Market) : Fields :=
  { f with
    quoteEventSlug := m.eventSlug, quoteMarketBucketEpoch := m.bucketEpoch
    quoteOutcome := m.outcome }

def setToken (f : Fields) (tok : String) : Fields := { f with tokenId := tok, lastEmitted := none }

def forgetLast (f : Fields) : Fields := { f with lastEmitted := none }

/-- The second critical section of `emit_quote`. -/
def noteEmitted (f : Fields) (q : WsQuote) : Fields :=
  if q.tokenId = f.tokenId then { f with lastEmitted := some q.top } else f

theorem market_noteEmitted (f : Fields) (q : WsQuote) : (f.noteEmitted q).market = f.market := by
  unfold noteEmitted
  split <;> rfl

end Fields

/-! ### Handling a message -/

/-- `on_ws_message_inner` before the next entry, in `emit_quote` before its first
critical section, before `on_quote`, and before its second critical section. -/
inductive Task where
  | scanning (rest : List Item)
  | emitting (assetId : String) (bid ask : Option Price) (rest : List Item)
  | calling (q : WsQuote) (rest : List Item)
  | storing (q : WsQuote) (rest : List Item)
  deriving DecidableEq

inductive Effect where
  | goes (t : Task)
  | delivers (q : WsQuote) (t : Task)
  | stores (f : Fields) (t : Task)
  | finishes
  | throws
  deriving DecidableEq

/-- The first critical section of `emit_quote`. -/
def emitQuote (f : Fields) (assetId : String) (bid ask : Option Price) (rest : List Item) : Task :=
  if assetId = f.tokenId then
    match bid, ask with
    | some bid, some ask =>
      if f.lastEmitted = some (bid, ask) then .scanning rest else .calling (f.quote bid ask) rest
    | _, _ => .scanning rest
  else .scanning rest

def Task.step (f : Fields) : Task → Effect
  | .scanning [] => .finishes
  | .scanning (.throws :: _) => .throws
  | .scanning (.entry aid top :: rest) =>
    if aid = f.tokenId then
      match top with
      | .prices bid ask => .goes (.emitting aid bid ask rest)
      | .nothing => .goes (.scanning rest)
      | .throws => .throws
    else .goes (.scanning rest)
  | .emitting aid bid ask rest => .goes (emitQuote f aid bid ask rest)
  | .calling q rest => .delivers q (.storing q rest)
  | .storing q rest => .stores (f.noteEmitted q) (.scanning rest)

/-- The top of book an entry offers for the token: both prices, and no NaN. -/
def Item.offer? (tok : String) : Item → Option (Price × Price)
  | .entry aid (.prices (some bid) (some ask)) => if aid = tok then some (bid, ask) else none
  | _ => none

inductive Stepped (f : Fields) : Task → Effect → Prop where
  | finished : Stepped f (.scanning []) .finishes
  | threw (item : Item) (rest : List Item) : Stepped f (.scanning (item :: rest)) .throws
  | skipped (item : Item) (rest : List Item) : item.offer? f.tokenId = none →
      Stepped f (.scanning (item :: rest)) (.goes (.scanning rest))
  | checked (bid ask : Option Price) (rest : List Item) :
      Stepped f (.scanning (.entry f.tokenId (.prices bid ask) :: rest))
        (.goes (.emitting f.tokenId bid ask rest))
  | dropped (aid : String) (bid ask : Option Price) (rest : List Item) :
      (Item.entry aid (.prices bid ask)).offer? f.tokenId = none →
      Stepped f (.emitting aid bid ask rest) (.goes (.scanning rest))
  | suppressed (bid ask : Price) (rest : List Item) : f.lastEmitted = some (bid, ask) →
      Stepped f (.emitting f.tokenId (some bid) (some ask) rest) (.goes (.scanning rest))
  | copied (bid ask : Price) (rest : List Item) : f.lastEmitted ≠ some (bid, ask) →
      Stepped f (.emitting f.tokenId (some bid) (some ask) rest)
        (.goes (.calling (f.quote bid ask) rest))
  | delivered (q : WsQuote) (rest : List Item) :
      Stepped f (.calling q rest) (.delivers q (.storing q rest))
  | stored (q : WsQuote) (rest : List Item) :
      Stepped f (.storing q rest) (.stores (f.noteEmitted q) (.scanning rest))

theorem emitQuote_stepped (f : Fields) (aid : String) (bid ask : Option Price)
    (rest : List Item) :
    Stepped f (.emitting aid bid ask rest) (.goes (emitQuote f aid bid ask rest)) := by
  unfold emitQuote
  split
  · rename_i haid
    subst haid
    split
    · split
      · exact .suppressed _ _ rest ‹_›
      · exact .copied _ _ rest ‹_›
    · refine .dropped f.tokenId bid ask rest ?_
      cases bid with
      | none => rfl
      | some bid =>
        cases ask with
        | none => rfl
        | some ask => rename_i hnan; exact absurd rfl (hnan bid ask rfl)
  · rename_i haid
    refine .dropped aid bid ask rest ?_
    cases bid with
    | none => rfl
    | some bid =>
      cases ask with
      | none => rfl
      | some ask => exact if_neg haid

theorem Task.step_stepped (f : Fields) (t : Task) : Stepped f t (t.step f) := by
  cases t with
  | emitting aid bid ask rest => exact emitQuote_stepped f aid bid ask rest
  | calling q rest => exact .delivered q rest
  | storing q rest => exact .stored q rest
  | scanning rest =>
    cases rest with
    | nil => exact .finished
    | cons item rest =>
      cases item with
      | throws => exact .threw .throws rest
      | entry aid top =>
        simp only [Task.step]
        split
        · rename_i haid
          subst haid
          cases top with
          | prices bid ask => exact .checked bid ask rest
          | nothing => exact .skipped _ rest rfl
          | throws => exact .threw _ rest
        · rename_i haid
          refine .skipped _ rest ?_
          unfold Item.offer?
          split
          · rename_i heq
            cases heq
            exact if_neg haid
          · rfl

/-! ### The connection -/

/-- The open handler: about to copy the snapshot, to send the copy, to run the
callback of the feed, and not running. -/
inductive Handler where
  | snapshot
  | send (ids : List String)
  | callback
  | finished
  deriving DecidableEq, Repr

/-- A send succeeds while the socket is open. The server keeps the ids
subscribed in the session. -/
structure Socket where
  isOpen : Bool
  subscribed : List String
  handler : Handler
  deriving DecidableEq, Repr

namespace Socket

def subscribe (s : Socket) (ids : List String) : Socket :=
  if s.isOpen then { s with subscribed := s.subscribed ++ ids } else s

def unsubscribe (s : Socket) (tok : String) : Socket :=
  if s.isOpen then { s with subscribed := s.subscribed.filter (· ≠ tok) } else s

def afterSnapshot (s : Socket) (ids : List String) : Socket :=
  { s with handler := if ids = [] then .callback else .send ids }

end Socket

/-! ### The calling thread -/

/-- Where `switch_token` is on its way to market `m`: about to unsubscribe, to
assign the token, to replace the snapshot, to subscribe, returned, and returned
because `m` has the token already. -/
inductive Caller where
  | idle
  | unsubscribing (old : String) (m : Market)
  | assigning (m : Market)
  | snapshotting (m : Market)
  | subscribing (m : Market)
  | returned (m : Market)
  | unchanged (m : Market)
  deriving DecidableEq, Repr

namespace Caller

def inSwitch : Caller → Bool
  | .unsubscribing .. | .assigning _ | .snapshotting _ | .subscribing _ => true
  | .idle | .returned _ | .unchanged _ => false

/-- The token is that of the next market already, the labels are not yet. -/
def between : Caller → Bool
  | .snapshotting _ | .subscribing _ | .returned _ => true
  | .idle | .unsubscribing .. | .assigning _ | .unchanged _ => false

/-- The market whose token the feed has by now. -/
def assigned? : Caller → Option Market
  | .snapshotting m | .subscribing m | .returned m | .unchanged m => some m
  | .idle | .unsubscribing .. | .assigning _ => none

end Caller

/-! ### Moves -/

/-- `active` are the messages being handled, in the order in which they were
received, and `delivered` the quotes passed to `on_quote`. -/
structure System where
  fields : Fields
  snapshotIds : List String
  socket : Socket
  caller : Caller
  queue : List (List Item)
  active : List Task
  delivered : List WsQuote
  terminated : Bool

inductive Move where
  | opened
  | closed
  | handler
  | receive (msg : Option Core.Json)
  | take
  | work (i : ℕ)
  | beginSwitch (m : Market)
  | switch
  | setContext

namespace System

def start (m : Market) : System where
  fields := { tokenId := m.tokenId, quoteEventSlug := m.eventSlug
              quoteMarketBucketEpoch := m.bucketEpoch, quoteOutcome := m.outcome
              lastEmitted := none }
  snapshotIds := [m.tokenId]
  socket := { isOpen := false, subscribed := [], handler := .finished }
  caller := .idle
  queue := []
  active := []
  delivered := []
  terminated := false

/-- The socket thread is in no callback. Without workers it handles messages too. -/
def socketFree (n : ℕ) (s : System) : Bool :=
  decide (s.socket.handler = .finished) && (n != 0 || s.active.isEmpty)

/-- Steps of the socket thread and of the peer. Messages that arrived before a
close are still received. -/
def connect (n : ℕ) (s : System) : Move → Option System
  | .opened =>
    if s.socket.isOpen = false ∧ s.socketFree n = true then
      some { s with socket := { isOpen := true, subscribed := [], handler := .snapshot } }
    else none
  | .closed =>
    if s.socket.isOpen then some { s with socket := { s.socket with isOpen := false } } else none
  | .handler =>
    match s.socket.handler with
    | .snapshot => some { s with socket := s.socket.afterSnapshot s.snapshotIds }
    | .send ids =>
      some { s with socket := { s.socket.subscribe ids with handler := .callback } }
    | .callback =>
      some { s with
        fields := s.fields.forgetLast, socket := { s.socket with handler := .finished } }
    | .finished => none
  | .receive msg =>
    if s.socketFree n then
      if n = 0 then some { s with active := [.scanning (items msg)] }
      else some { s with queue := s.queue ++ [items msg] }
    else none
  | _ => none

def afterWork (s : System) (i : ℕ) : Effect → System
  | .goes t => { s with active := s.active.set i t }
  | .delivers q t => { s with active := s.active.set i t, delivered := s.delivered ++ [q] }
  | .stores f t => { s with active := s.active.set i t, fields := f }
  | .finishes => { s with active := s.active.eraseIdx i }
  -- the exception leaves the thread and ends the process
  | .throws => { s with terminated := true }

def handle (n : ℕ) (s : System) : Move → Option System
  | .take =>
    match s.queue with
    | [] => none
    | msg :: rest =>
      if s.active.length < n then
        some { s with queue := rest, active := s.active ++ [.scanning msg] }
      else none
  | .work i => s.active[i]?.map fun t => s.afterWork i (t.step s.fields)
  | _ => none

/-- `switch_token` of a running feed up to its first step; an empty token is
refused. -/
def beginSwitch (s : System) (m : Market) : Option System :=
  if m.tokenId = "" then none
  else if m.tokenId = s.fields.tokenId then some { s with caller := .unchanged m }
  else if s.fields.tokenId = "" then some { s with caller := .assigning m }
  else some { s with caller := .unsubscribing s.fields.tokenId m }

def call (s : System) : Move → Option System
  | .beginSwitch m => if s.caller.inSwitch then none else s.beginSwitch m
  | .switch =>
    match s.caller with
    | .unsubscribing old m =>
      some { s with socket := s.socket.unsubscribe old, caller := .assigning m }
    | .assigning m =>
      some { s with fields := s.fields.setToken m.tokenId, caller := .snapshotting m }
    | .snapshotting m => some { s with snapshotIds := [m.tokenId], caller := .subscribing m }
    | .subscribing m =>
      some { s with socket := s.socket.subscribe [m.tokenId], caller := .returned m }
    | .idle | .returned _ | .unchanged _ => none
  | .setContext =>
    match s.caller with
    | .returned m | .unchanged m =>
      some { s with fields := s.fields.setMarketContext m, caller := .idle }
    | _ => none
  | _ => none

/-- `n` parse workers. -/
def apply (n : ℕ) (s : System) (mv : Move) : Option System :=
  if s.terminated then none
  else
    match mv with
    | .opened | .closed | .handler | .receive _ => s.connect n mv
    | .take | .work _ => s.handle n mv
    | .beginSwitch _ | .switch | .setContext => s.call mv

end System

/-- A feed started on a market of the listing; a caller that calls
`switch_token` again need not set the context in between. -/
def feed (n : ℕ) (listed : Market → Prop) : Lts System Move where
  init s := ∃ m, listed m ∧ m.tokenId ≠ "" ∧ s = .start m
  step s mv t := s.apply n mv = some t ∧ ∀ m, mv = .beginSwitch m → listed m

/-! ### What a move does -/

inductive Moved (n : ℕ) (s : System) : Move → System → Prop where
  | opened : s.socket.isOpen = false → s.socketFree n = true →
      Moved n s .opened
        { s with socket := { isOpen := true, subscribed := [], handler := .snapshot } }
  | closed : s.socket.isOpen = true →
      Moved n s .closed { s with socket := { s.socket with isOpen := false } }
  | snapshot : s.socket.handler = .snapshot →
      Moved n s .handler { s with socket := s.socket.afterSnapshot s.snapshotIds }
  | send (ids : List String) : s.socket.handler = .send ids →
      Moved n s .handler
        { s with socket := { s.socket.subscribe ids with handler := .callback } }
  | callback : s.socket.handler = .callback →
      Moved n s .handler { s with
        fields := s.fields.forgetLast, socket := { s.socket with handler := .finished } }
  | receiveInline (msg : Option Core.Json) : n = 0 → s.active = [] →
      Moved n s (.receive msg) { s with active := [.scanning (items msg)] }
  | receiveQueued (msg : Option Core.Json) : n ≠ 0 →
      Moved n s (.receive msg) { s with queue := s.queue ++ [items msg] }
  | take (msg : List Item) (rest : List (List Item)) : s.queue = msg :: rest →
      s.active.length < n →
      Moved n s .take { s with queue := rest, active := s.active ++ [.scanning msg] }
  | work (i : ℕ) (t : Task) : s.active[i]? = some t →
      Moved n s (.work i) (s.afterWork i (t.step s.fields))
  | sameToken (m : Market) : s.caller.inSwitch = false → m.tokenId = s.fields.tokenId →
      Moved n s (.beginSwitch m) { s with caller := .unchanged m }
  | noToken (m : Market) : s.caller.inSwitch = false → s.fields.tokenId = "" →
      Moved n s (.beginSwitch m) { s with caller := .assigning m }
  | begun (m : Market) : s.caller.inSwitch = false → m.tokenId ≠ s.fields.tokenId →
      Moved n s (.beginSwitch m) { s with caller := .unsubscribing s.fields.tokenId m }
  | unsubscribe (old : String) (m : Market) : s.caller = .unsubscribing old m →
      Moved n s .switch { s with socket := s.socket.unsubscribe old, caller := .assigning m }
  | assign (m : Market) : s.caller = .assigning m →
      Moved n s .switch { s with fields := s.fields.setToken m.tokenId, caller := .snapshotting m }
  | setSnapshot (m : Market) : s.caller = .snapshotting m →
      Moved n s .switch { s with snapshotIds := [m.tokenId], caller := .subscribing m }
  | subscribe (m : Market) : s.caller = .subscribing m →
      Moved n s .switch { s with socket := s.socket.subscribe [m.tokenId], caller := .returned m }
  | setContext (m : Market) : s.caller = .returned m ∨ s.caller = .unchanged m →
      Moved n s .setContext { s with fields := s.fields.setMarketContext m, caller := .idle }

section Moved

variable {n : ℕ} {s t : System} {mv : Move}

theorem connect_moved (h : s.connect n mv = some t) : Moved n s mv t := by
  cases mv with
  | opened =>
    obtain ⟨hc, h⟩ := Option.ite_none_right_eq_some.mp h
    cases h
    exact .opened hc.1 hc.2
  | closed =>
    obtain ⟨hc, h⟩ := Option.ite_none_right_eq_some.mp h
    cases h
    exact .closed hc
  | handler =>
    simp only [System.connect] at h
    split at h
    · cases h
      exact .snapshot ‹_›
    · cases h
      exact .send _ ‹_›
    · cases h
      exact .callback ‹_›
    · cases h
  | receive msg =>
    obtain ⟨hfree, h⟩ := Option.ite_none_right_eq_some.mp h
    split at h
    · rename_i hn
      cases h
      simp [System.socketFree, hn] at hfree
      exact .receiveInline msg hn hfree.2
    · rename_i hn
      cases h
      exact .receiveQueued msg hn
  | take | work | beginSwitch | switch | setContext => cases h

theorem handle_moved (h : s.handle n mv = some t) : Moved n s mv t := by
  cases mv with
  | take =>
    simp only [System.handle] at h
    split at h
    · cases h
    · rename_i msg rest hq
      obtain ⟨hlt, h⟩ := Option.ite_none_right_eq_some.mp h
      cases h
      exact .take msg rest hq hlt
  | work i =>
    obtain ⟨task, htask, rfl⟩ := Option.map_eq_some_iff.mp h
    exact .work i task htask
  | opened | closed | handler | receive | beginSwitch | switch | setContext => cases h

theorem call_moved (h : s.call mv = some t) : Moved n s mv t := by
  cases mv with
  | beginSwitch m =>
    obtain ⟨hin, h⟩ := Option.ite_none_left_eq_some.mp h
    rw [Bool.not_eq_true] at hin
    simp only [System.beginSwitch] at h
    split at h
    · cases h
    · split at h
      · cases h
        exact .sameToken m hin ‹_›
      · split at h
        · cases h
          exact .noToken m hin ‹_›
        · cases h
          exact .begun m hin ‹_›
  | switch =>
    simp only [System.call] at h
    split at h
    · cases h
      exact .unsubscribe _ _ ‹_›
    · cases h
      exact .assign _ ‹_›
    · cases h
      exact .setSnapshot _ ‹_›
    · cases h
      exact .subscribe _ ‹_›
    all_goals cases h
  | setContext =>
    simp only [System.call] at h
    split at h
    · cases h
      exact .setContext _ (.inl ‹_›)
    · cases h
      exact .setContext _ (.inr ‹_›)
    · cases h
  | opened | closed | handler | receive | take | work => cases h

theorem apply_moved (h : s.apply n mv = some t) : Moved n s mv t := by
  obtain ⟨-, h⟩ := Option.ite_none_left_eq_some.mp h
  cases mv with
  | opened | closed | handler | receive => exact connect_moved h
  | take | work => exact handle_moved h
  | beginSwitch | switch | setContext => exact call_moved h

theorem afterWork_frame (i : ℕ) (task : Task) :
    (s.afterWork i (task.step s.fields)).fields.market = s.fields.market ∧
      (s.afterWork i (task.step s.fields)).snapshotIds = s.snapshotIds ∧
      (s.afterWork i (task.step s.fields)).socket = s.socket ∧
      (s.afterWork i (task.step s.fields)).caller = s.caller ∧
      (s.afterWork i (task.step s.fields)).queue = s.queue := by
  have hstep := task.step_stepped s.fields
  generalize task.step s.fields = eff at hstep
  cases hstep with
  | stored q rest => exact ⟨s.fields.market_noteEmitted q, rfl, rfl, rfl, rfl⟩
  | finished | threw | skipped | checked => exact ⟨rfl, rfl, rfl, rfl, rfl⟩
  | dropped | suppressed | copied | delivered => exact ⟨rfl, rfl, rfl, rfl, rfl⟩

end Moved

/-! ### Computed runs -/

def listedMove (markets : List Market) : Move → Bool
  | .beginSwitch m => decide (m ∈ markets)
  | _ => true

def checkedApply (n : ℕ) (markets : List Market) (check : System → Move → Bool) (s : System)
    (mv : Move) : Option System :=
  if listedMove markets mv && check s mv then s.apply n mv else none

theorem exists_feed_run (n : ℕ) (markets : List Market) (m : Market)
    (check : System → Move → Bool) (mvs : List Move) (P : System → Bool)
    (h : (Lts.stepAll (checkedApply n markets check) (.start m) mvs).any P = true) :
    ∃ s, ((feed n (· ∈ markets)).restrict fun s mv => check s mv = true).Run (.start m) mvs s ∧
      P s = true := by
  refine Lts.exists_run_stepAll (fun s mv t hst => ?_) h
  obtain ⟨hcheck, hst⟩ := Option.ite_none_right_eq_some.mp hst
  rw [Bool.and_eq_true] at hcheck
  refine ⟨⟨hst, fun m hm => ?_⟩, hcheck.2⟩
  rw [hm] at hcheck
  exact of_decide_eq_true hcheck.1

def bucket0 : Market := ⟨"up-0", "btc-0", 0, "Up"⟩

def bucket300 : Market := ⟨"up-300", "btc-300", 300, "Up"⟩

def openSocket : List Move := [.opened, .handler, .handler, .handler]

def bestBidAskMsg (tok bid ask : String) : Move :=
  .receive (some (.obj [("event_type", .str "best_bid_ask"), ("asset_id", .str tok),
    ("best_bid", .str bid), ("best_ask", .str ask)]))

/-- What one message that is emitted takes without workers. -/
def handled : List Move := List.replicate 5 (.work 0)

theorem init_bucket0 (n : ℕ) : (feed n (· ∈ [bucket0, bucket300])).init (.start bucket0) :=
  ⟨bucket0, List.mem_cons_self, by decide, rfl⟩

end LeadLag.TokenFeed
