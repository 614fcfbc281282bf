import LeadLag.Pipeline.Main
import LeadLag.Runner.Replay

/-!
# The threads of live_pipeline (live_pipeline.cpp:477-809, rtds_chainlink_feed.cpp:286-317,
399-424, 530-598, ws_fixed_token_feed.cpp:99-110, 286-379)

The main thread, the RTDS thread and the socket threads of the two quote feeds,
which have no parse workers. A step is one critical section, one send, one call
of a callback or one reply to the main thread. A clock reading is an `int64_t`
and not negative.
-/

namespace LeadLag.Pipeline
open LeadLag.Core LeadLag.Execution LeadLag.Interaction
open LeadLag.Gamma (BtcFiveMinuteBucketDiscovery slugForBucket)
open LeadLag.Runner (Libm coarse)

def kLivePipeRtdsTimeoutMs : ℤ := 15000
def kLivePipeRtdsMaxSkewMs : ℤ := 180000

/-- Where the main thread is in the call it makes, if inside. -/
inductive Busy where
  | free
  | waiting (deadlineMs : ℤ)
  | switching
  deriving DecidableEq, Repr

/-- What the last `wait_strike` returned, and what for. -/
structure Pick where
  boundaryMs : ℤ
  slug : String
  tick : Tick
  deriving DecidableEq, Repr

/-- `main` is what is left of the iteration and `activeEpoch` the variable of the
loop that the quote callbacks read. `callbacks` are the ticks of the last batch
that `on_tick` has not been called with. `pick` is no variable of the program:
it is set while the loop has a strike from RTDS that is not installed yet. -/
structure State where
  main : Prog Loop
  busy : Busy
  activeEpoch : ℤ
  steadyMs : ℤ
  hot : HotState
  feed : Outcome → TokenFeed.System
  buffer : List Tick
  callbacks : List Tick
  pick : Option Pick

inductive Move where
  | elapse (ms : ℕ)
  | receiveTicks (batch : List Tick)
  | onTick
  | reconnect
  | feed (o : Outcome) (mv : TokenFeed.Move)
  | answer (replies : (c : Gamma.Call) → Option (Gamma.Reply c))
  | rtdsDown
  | main

def possible : Obs Gamma.Reply → Bool
  | ⟨.systemSeconds, s⟩ => decide (0 ≤ s) && fitsInt64 s
  | _ => true

def Loop.holdsRtdsStrike (loop : Loop) : Bool :=
  loop.next.any fun n => n.strike.any (·.fromRtds)

namespace State

def setFeed (s : State) (o : Outcome) (f : TokenFeed.System) : State :=
  { s with feed := Function.update s.feed o f }

/-- `on_quote` is called with what the step delivers. -/
def afterFeed (s : State) (o : Outcome) (f : TokenFeed.System) : State :=
  { s.setFeed o f with
    hot := (f.delivered.drop (s.feed o).delivered.length).foldl
      (HotState.onQuote s.activeEpoch o) s.hot }

def callbackMove (cfg : Config) (M : Libm) (s : State) : Move → Option State
  | .elapse ms => some { s with steadyMs := s.steadyMs + ms }
  | .receiveTicks batch =>
    if s.callbacks = [] then
      some { s with buffer := pushTicks s.buffer batch, callbacks := batch }
    else none
  | .onTick =>
    match s.callbacks with
    | [] => none
    | t :: rest =>
      some { s with callbacks := rest, hot := s.hot.onTick M cfg.sigmaStepMs t }
  | .reconnect => some { s with buffer := [] }
  | .feed o mv =>
    match mv with
    | .beginSwitch _ | .switch | .setContext => none
    | mv => ((s.feed o).apply 0 mv).map (s.afterFeed o)
  | _ => none

def strikeReply (s : State) (boundaryMs : ℤ) (slug : String) (k : Option Tick → Prog Loop)
    (t : Option Tick) : State :=
  { s with main := k t, busy := .free, pick := t.map fun t => ⟨boundaryMs, slug, t⟩ }

/-- The loop of `wait_strike_inner`, and the fallback after it. -/
def waitStrike (s : State) (boundaryMs : ℤ) (slug : String) (k : Option Tick → Prog Loop) :
    Option State :=
  match s.busy with
  | .free => some { s with busy := .waiting (s.steadyMs + kLivePipeRtdsTimeoutMs) }
  | .waiting deadlineMs =>
    let sel := select boundaryMs kLivePipeRtdsMaxSkewMs s.buffer
    if sel.after.isSome ∨ deadlineMs ≤ s.steadyMs then
      some (s.strikeReply boundaryMs slug k
        (sel.assignFallback boundaryMs kLivePipeRtdsMaxSkewMs))
    else none
  | .switching => none

def switchToken (s : State) (o : Outcome) (m : TokenFeed.Market) (k : Bool → Prog Loop) :
    Option State :=
  match s.busy with
  | .free =>
    if m.tokenId = "" then some { s with main := k false }
    else ((s.feed o).apply 0 (.beginSwitch m)).map fun f =>
      { s.setFeed o f with busy := .switching }
  | .switching =>
    if (s.feed o).caller.inSwitch then ((s.feed o).apply 0 .switch).map (s.setFeed o)
    else some { s with main := k true, busy := .free }
  | .waiting _ => none

def setMarketContext (s : State) (o : Outcome) (m : TokenFeed.Market) : State :=
  s.setFeed o { s.feed o with fields := (s.feed o).fields.setMarketContext m, caller := .idle }

def mainMove (cfg : Config) (s : State) : Option State :=
  match s.main with
  | .done loop =>
    some { s with
      main := iteration cfg loop, activeEpoch := loop.activeEpoch
      pick := if loop.holdsRtdsStrike then s.pick else none }
  | .call .steadyMs k => some { s with main := k s.steadyMs }
  | .call (.outside _) _ => none
  | .call (.waitStrike boundaryMs slug) k => s.waitStrike boundaryMs slug k
  | .call (.switchToken o m) k => s.switchToken o m k
  | .call (.setMarketContext o m) k => some { s.setMarketContext o m with main := k () }
  | .call (.install slug epoch K) k =>
    some { s with main := k (), hot := s.hot.install slug epoch K, pick := none }

def answerMove (s : State) (replies : (c : Gamma.Call) → Option (Gamma.Reply c)) :
    Option State :=
  match s.main with
  | .call (.outside c) k =>
    match replies c with
    | none => none
    | some r => if possible ⟨c, r⟩ then some { s with main := k r } else none
  | _ => none

/-- `wait_strike` when RTDS cannot be started. -/
def rtdsDownMove (s : State) : Option State :=
  match s.main, s.busy with
  | .call (.waitStrike boundaryMs slug) k, .free => some (s.strikeReply boundaryMs slug k none)
  | _, _ => none

def apply (cfg : Config) (M : Libm) (s : State) (mv : Move) : Option State :=
  if (s.feed .up).terminated || (s.feed .down).terminated then none
  else
    match mv with
    | .answer replies => s.answerMove replies
    | .rtdsDown => s.rtdsDownMove
    | .main => s.mainMove cfg
    | mv => s.callbackMove cfg M mv

def start (d : BtcFiveMinuteBucketDiscovery) (activeEpoch lastPrefetchMs steadyMs : ℤ)
    (buffer : List Tick) : State where
  main := .done { activeEpoch := activeEpoch, nextEpoch := activeEpoch + 300, next_eq := rfl
                  currentSlug := d.confirmedSlug, next := none, lastPrefetchMs := lastPrefetchMs }
  busy := .free
  activeEpoch := activeEpoch
  steadyMs := steadyMs
  hot := { activeEpoch := activeEpoch, slug := d.confirmedSlug, K := strikeOf d }
  feed := fun
    | .up => .start ⟨d.upTokenId, d.confirmedSlug, activeEpoch, "Up"⟩
    | .down => .start ⟨d.downTokenId, d.confirmedSlug, activeEpoch, "Down"⟩
  buffer := buffer
  callbacks := []
  pick := none

end State

def outsidePossible : Obs Reply → Bool
  | ⟨.outside c, r⟩ => possible ⟨c, r⟩
  | _ => true

/-- The buffer may have been filled by the discovery at the start. -/
def pipeline (cfg : Config) (M : Libm) : Lts State Move where
  init s := ∃ tr d activeEpoch lastPrefetchMs steadyMs buffer,
    Exec (startup cfg) tr (some (d, activeEpoch)) ∧ (∀ o ∈ tr, outsidePossible o = true) ∧
      lastPrefetchMs + 10000 ≤ steadyMs ∧ buffer.length ≤ kMaxBuffer ∧
      s = .start d activeEpoch lastPrefetchMs steadyMs buffer
  step s mv t := s.apply cfg M mv = some t

/-! ### What a move does -/

def isCallerMove : TokenFeed.Move → Bool
  | .beginSwitch _ | .switch | .setContext => true
  | _ => false

inductive Moved (cfg : Config) (M : Libm) (s : State) : Move → State → Prop where
  | elapse (ms : ℕ) : Moved cfg M s (.elapse ms) { s with steadyMs := s.steadyMs + ms }
  | receiveTicks (batch : List Tick) : Moved cfg M s (.receiveTicks batch)
      { s with buffer := pushTicks s.buffer batch, callbacks := batch }
  | onTick (t : Tick) (rest : List Tick) : s.callbacks = t :: rest →
      Moved cfg M s .onTick { s with callbacks := rest, hot := s.hot.onTick M cfg.sigmaStepMs t }
  | reconnect : Moved cfg M s .reconnect { s with buffer := [] }
  | feed (o : Outcome) (mv : TokenFeed.Move) (f : TokenFeed.System) : isCallerMove mv = false →
      (s.feed o).apply 0 mv = some f → Moved cfg M s (.feed o mv) (s.afterFeed o f)
  | answer (replies : (c : Gamma.Call) → Option (Gamma.Reply c)) (c : Gamma.Call)
      (r : Gamma.Reply c) (k : Gamma.Reply c → Prog Loop) : s.main = .call (.outside c) k →
      possible ⟨c, r⟩ = true → Moved cfg M s (.answer replies) { s with main := k r }
  | rtdsDown (boundaryMs : ℤ) (slug : String) (k : Option Tick → Prog Loop) :
      s.main = .call (.waitStrike boundaryMs slug) k →
      Moved cfg M s .rtdsDown (s.strikeReply boundaryMs slug k none)
  | next (loop : Loop) : s.main = .done loop → Moved cfg M s .main
      { s with
        main := iteration cfg loop, activeEpoch := loop.activeEpoch
        pick := if loop.holdsRtdsStrike then s.pick else none }
  | steadyMs (k : ℤ → Prog Loop) : s.main = .call .steadyMs k →
      Moved cfg M s .main { s with main := k s.steadyMs }
  | waits (deadlineMs : ℤ) : Moved cfg M s .main { s with busy := .waiting deadlineMs }
  | strike (boundaryMs : ℤ) (slug : String) (k : Option Tick → Prog Loop) :
      s.main = .call (.waitStrike boundaryMs slug) k → Moved cfg M s .main
        (s.strikeReply boundaryMs slug k ((select boundaryMs kLivePipeRtdsMaxSkewMs
          s.buffer).assignFallback boundaryMs kLivePipeRtdsMaxSkewMs))
  | begins (o : Outcome) (m : TokenFeed.Market) (f : TokenFeed.System) :
      (s.feed o).apply 0 (.beginSwitch m) = some f →
      Moved cfg M s .main { s.setFeed o f with busy := .switching }
  | switches (o : Outcome) (f : TokenFeed.System) : (s.feed o).apply 0 .switch = some f →
      Moved cfg M s .main (s.setFeed o f)
  | switched (o : Outcome) (m : TokenFeed.Market) (k : Bool → Prog Loop) (r : Bool) :
      s.main = .call (.switchToken o m) k →
      Moved cfg M s .main { s with main := k r, busy := .free }
  | setMarketContext (o : Outcome) (m : TokenFeed.Market) (k : Unit → Prog Loop) :
      s.main = .call (.setMarketContext o m) k →
      Moved cfg M s .main { s.setMarketContext o m with main := k () }
  | install (slug : String) (epoch : ℤ) (K : Option Strike) (k : Unit → Prog Loop) :
      s.main = .call (.install slug epoch K) k → Moved cfg M s .main
        { s with main := k (), hot := s.hot.install slug epoch K, pick := none }

section Moved

variable {cfg : Config} {M : Libm} {s t : State} {mv : Move}

theorem callback_moved (h : s.callbackMove cfg M mv = some t) : Moved cfg M s mv t := by
  cases mv with
  | elapse ms =>
    cases h
    exact .elapse ms
  | receiveTicks batch =>
    obtain ⟨-, h⟩ := Option.ite_none_right_eq_some.mp h
    cases h
    exact .receiveTicks batch
  | onTick =>
    simp only [State.callbackMove] at h
    split at h
    · cases h
    · rename_i tick rest htick
      cases h
      exact .onTick tick rest htick
  | reconnect =>
    cases h
    exact .reconnect
  | feed o mv =>
    cases mv with
    | beginSwitch | switch | setContext => cases h
    | opened | closed | handler | receive | take | work =>
      obtain ⟨f, hf, rfl⟩ := Option.map_eq_some_iff.mp h
      exact .feed o _ f rfl hf
  | answer | rtdsDown | main => cases h

theorem waitStrike_moved {boundaryMs : ℤ} {slug : String} {k : Option Tick → Prog Loop}
    (hmain : s.main = .call (.waitStrike boundaryMs slug) k)
    (h : s.waitStrike boundaryMs slug k = some t) : Moved cfg M s .main t := by
  unfold State.waitStrike at h
  split at h
  · cases h
    exact .waits _
  · obtain ⟨-, h⟩ := Option.ite_none_right_eq_some.mp h
    cases h
    exact .strike boundaryMs slug k hmain
  · cases h

theorem switchToken_moved {o : Outcome} {m : TokenFeed.Market} {k : Bool → Prog Loop}
    (hmain : s.main = .call (.switchToken o m) k) (h : s.switchToken o m k = some t) :
    Moved cfg M s .main t := by
  unfold State.switchToken at h
  split at h
  · rename_i hfree
    split at h
    · cases h
      have hmoved : Moved cfg M s .main { s with main := k false, busy := .free } :=
        .switched o m k false hmain
      rw [← hfree] at hmoved
      exact hmoved
    · obtain ⟨f, hf, rfl⟩ := Option.map_eq_some_iff.mp h
      exact .begins o m f hf
  · split at h
    · obtain ⟨f, hf, rfl⟩ := Option.map_eq_some_iff.mp h
      exact .switches o f hf
    · cases h
      exact .switched o m k true hmain
  · cases h

theorem main_moved (h : s.mainMove cfg = some t) : Moved cfg M s .main t := by
  unfold State.mainMove at h
  split at h
  · cases h
    exact .next _ ‹_›
  · cases h
    exact .steadyMs _ ‹_›
  · cases h
  · exact waitStrike_moved ‹_› h
  · exact switchToken_moved ‹_› h
  · cases h
    exact .setMarketContext _ _ _ ‹_›
  · cases h
    exact .install _ _ _ _ ‹_›

theorem answer_moved {replies : (c : Gamma.Call) → Option (Gamma.Reply c)}
    (h : s.answerMove replies = some t) : Moved cfg M s (.answer replies) t := by
  unfold State.answerMove at h
  split at h
  · split at h
    · cases h
    · obtain ⟨hpossible, h⟩ := Option.ite_none_right_eq_some.mp h
      cases h
      exact .answer replies _ _ _ ‹_› hpossible
  · cases h

theorem rtdsDown_moved (h : s.rtdsDownMove = some t) : Moved cfg M s .rtdsDown t := by
  unfold State.rtdsDownMove at h
  split at h
  · cases h
    exact .rtdsDown _ _ _ ‹_›
  · cases h

theorem apply_moved (h : s.apply cfg M mv = some t) : Moved cfg M s mv t := by
  obtain ⟨-, h⟩ := Option.ite_none_left_eq_some.mp h
  cases mv with
  | answer replies => exact answer_moved h
  | rtdsDown => exact rtdsDown_moved h
  | main => exact main_moved h
  | elapse | receiveTicks | onTick | reconnect | feed => exact callback_moved h

end Moved

/-! ### Computed runs -/

def config300 : Config :=
  { parse := fun _ => none, polyRolloverWebPtb := false, sigmaStepMs := 1000, manual := none }

def bucketEvent (epoch : ℤ) (priceToBeat : Option ℤ) : Json :=
  let status := [("slug", Json.str (slugForBucket epoch)), ("active", Json.bool true),
    ("closed", Json.bool false)]
  let toks := [Json.str ("up-" ++ toString epoch), .str ("down-" ++ toString epoch)]
  let market := Json.obj (status ++ [("outcomes", .arr [.str "Up", .str "Down"]),
    ("clobTokenIds", .arr toks)])
  let metadata := priceToBeat.toList.map fun p =>
    ("eventMetadata", Json.obj [("priceToBeat", .int p)])
  .obj (status ++ ("markets", .arr [market]) :: metadata)

/-- Gamma lists the buckets 300 and 600. -/
def gammaReplies (wallS : ℤ) (priceToBeat : ℤ → Option ℤ) :
    (c : Gamma.Call) → Option (Gamma.Reply c)
  | .systemSeconds => some wallS
  | .eventsBySlug slug =>
    some (([300, 600].find? fun e => slug = slugForBucket e).map fun e =>
      [bucketEvent e (priceToBeat e)])
  | .eventsById _ => some none
  | .webPriceToBeat _ => some none
  | _ => none

def atStart (_ : ℕ) : (c : Call) → Option (Reply c)
  | .outside c => gammaReplies 480 (fun _ => some 100) c
  | _ => none

def discovery300 : BtcFiveMinuteBucketDiscovery :=
  { confirmedSlug := "btc-updown-5m-300", bucketEpochSeconds := 300, upTokenId := "up-300"
    downTokenId := "down-300", priceToBeat := 100, eventStartWallMs := 300000 }

def start300 : State := .start discovery300 300 (-10000) 0 []

theorem init_start300 : (pipeline config300 coarse).init start300 := by
  have hx : ((startup config300).replay atStart 0).any (fun r =>
      decide (r.2 = some (discovery300, 300)) && r.1.all outsidePossible) = true := by
    decide +kernel
  obtain ⟨⟨tr, r⟩, hr, hcheck⟩ := (Option.any_eq_true _ _).mp hx
  obtain ⟨hd, hpossible⟩ := (Bool.and_eq_true _ _).mp hcheck
  have hd : r = some (discovery300, 300) := of_decide_eq_true hd
  subst hd
  exact ⟨tr, discovery300, 300, -10000, 0, [], exec_replay hr, List.all_eq_true.mp hpossible,
    by decide, by decide, rfl⟩

def checkedApply (check : State → Move → Bool) (s : State) (mv : Move) : Option State :=
  if check s mv then s.apply config300 coarse mv else none

theorem exists_pipeline_run (check : State → Move → Bool) (mvs : List Move) (P : State → Bool)
    (h : (Lts.stepAll (checkedApply check) start300 mvs).any P = true) :
    ∃ s, ((pipeline config300 coarse).restrict fun s mv => check s mv = true).Reachable s ∧
      P s = true := by
  have hstep : ∀ s mv t, checkedApply check s mv = some t →
      ((pipeline config300 coarse).restrict fun s mv => check s mv = true).step s mv t := by
    intro s mv t hst
    obtain ⟨hcheck, hst⟩ := Option.ite_none_right_eq_some.mp hst
    exact ⟨hst, hcheck⟩
  obtain ⟨s, hrun, hP⟩ := Lts.exists_run_stepAll hstep h
  exact ⟨s, hrun.reachable (.init init_start300), hP⟩

end LeadLag.Pipeline
