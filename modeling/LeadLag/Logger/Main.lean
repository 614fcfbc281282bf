import LeadLag.Pipeline.Markets
import LeadLag.TokenFeed.Labels

/-!
# The quote logger (polymarket_logger.cpp:42-79, 107-130, 143-160, 178-281)

The main thread of `polymarket_logger --discover` as a program over its calls, and
the threads around it: the sockets of the two feeds, which have no parse workers,
the signal handler and the two loggers of quotes. A step is one critical section,
one send, one append to the file or one reply to the main thread. Both feeds have been
started, and no write to the file fails: the code does not look at the state of its
stream. The clock readings beside the fields of a row are left out.
-/

namespace LeadLag.Logger
open LeadLag.Core LeadLag.Execution LeadLag.Interaction
open LeadLag.Gamma (BtcFiveMinuteBucketDiscovery slugForBucket epochOf)
open LeadLag.Pipeline (bucketEpoch? possible isCallerMove)
open LeadLag.TokenFeed (Market WsQuote Price)

/-! ### Rows -/

structure QuoteRow where
  eventSlug : String
  outcome : String
  marketBucketEpoch : Option ℤ
  symbolOrMarketId : String
  seq : ℕ
  bestBid : Price
  bestAsk : Price
  deriving DecidableEq

def quoteRow (seq : ℕ) (q : WsQuote) : QuoteRow :=
  { eventSlug := q.eventSlug, outcome := q.outcome
    marketBucketEpoch := if 0 ≤ q.marketBucketEpoch then some q.marketBucketEpoch else none
    symbolOrMarketId := q.tokenId, seq := seq, bestBid := q.bestBid, bestAsk := q.bestAsk }

structure MarketRollover where
  oldSlug : String
  newSlug : String
  oldUpTokenId : String
  newUpTokenId : String
  oldDownTokenId : String
  newDownTokenId : String
  deriving DecidableEq, Repr

inductive Row where
  | quote (r : QuoteRow)
  | marketRollover (r : MarketRollover)
  deriving DecidableEq

namespace Row

def quote? : Row → Option QuoteRow
  | .quote r => some r
  | .marketRollover _ => none

def marketRollover? : Row → Option MarketRollover
  | .quote _ => none
  | .marketRollover r => some r

end Row

/-! ### Calls of the main thread -/

inductive Call where
  | stopRequested
  | steadyNs
  | outside (c : Gamma.Call)
  | tokenId (o : Outcome)
  | switchToken (o : Outcome) (m : Market)
  | setMarketContext (o : Outcome) (m : Market)
  | append (r : MarketRollover)
  | stop (o : Outcome)

abbrev Reply : Call → Type
  | .stopRequested => Bool
  | .steadyNs => ℤ
  | .outside c => Gamma.Reply c
  | .tokenId _ => String
  | .switchToken .. => Bool
  | .setMarketContext .. => Unit
  | .append _ => Unit
  | .stop _ => Unit

abbrev Prog (A : Type) : Type := Interaction.Prog Reply A

def lookup {A : Type} (p : Gamma.Prog A) : Prog A := p.embed Call.outside fun _ r => r

/-! ### The main thread -/

/-- The `next_*` variables while `next_ready` is set. -/
structure Next where
  upToken : String
  downToken : String
  confirmedSlug : String

/-- `next_epoch` is set beside `active_epoch` everywhere. -/
structure Loop where
  activeEpoch : ℤ
  nextEpoch : ℤ
  next_sub : nextEpoch - activeEpoch = 300
  currentSlug : String
  next : Option Next
  lastPrefetchNs : ℤ

def kPrefetchIntervalNs : ℤ := 3000000000

/-- The discovery and `active_epoch`, or exit code 1. -/
def startup (parse : String → Option Json) :
    Gamma.Prog (Option (BtcFiveMinuteBucketDiscovery × ℤ)) := do
  let (found, d) ← Gamma.discoverActiveBtcUpdown5mViaBucket parse {}
  if !found || d.upTokenId = "" || d.downTokenId = "" then return none
  return (bucketEpoch? d).map fun activeEpoch => (d, activeEpoch)

def prefetch (parse : String → Option Json) (nowNs : ℤ) (loop : Loop) : Prog Loop := do
  if loop.next.isSome ∨ nowNs - loop.lastPrefetchNs < kPrefetchIntervalNs then return loop
  let loop := { loop with lastPrefetchNs := nowNs }
  let (found, nd) ← lookup
    (Gamma.discoverBtcUpdown5mForExactSlug parse (slugForBucket loop.nextEpoch) {})
  if !found || nd.upTokenId = "" || nd.downTokenId = "" then return loop
  return { loop with next := some { upToken := nd.upTokenId, downToken := nd.downTokenId
                                    confirmedSlug := nd.confirmedSlug } }

/-- The variables `new_up`, `new_down`, `new_slug` and `new_active`. -/
structure Target where
  upToken : String
  downToken : String
  slug : String
  epoch : ℤ

/-- The exact slug of `next_epoch` is accepted without a look at the clock. -/
def discoveredTarget (parse : String → Option Json) (nextEpoch : ℤ) : Prog (Option Target) := do
  let (found, d2) ← lookup
    (Gamma.discoverBtcUpdown5mForExactSlug parse (slugForBucket nextEpoch) {})
  if found then
    return some { upToken := d2.upTokenId, downToken := d2.downTokenId, slug := d2.confirmedSlug
                  epoch := if 0 ≤ d2.bucketEpochSeconds then d2.bucketEpochSeconds
                    else nextEpoch }
  let (found, d2) ← lookup (Gamma.discoverActiveBtcUpdown5mViaBucket parse d2)
  if !found then return none
  return some { upToken := d2.upTokenId, downToken := d2.downTokenId, slug := d2.confirmedSlug
                epoch := epochOf (-1) d2 }

def attach (loop : Loop) (t : Target) : Prog Loop := do
  if t.upToken = "" ∨ t.downToken = "" ∨ t.epoch < 0 ∨ t.slug = "" then return loop
  let oldUp ← Prog.perform (Call.tokenId .up)
  let oldDown ← Prog.perform (Call.tokenId .down)
  let up : Market := ⟨t.upToken, t.slug, t.epoch, "Up"⟩
  let down : Market := ⟨t.downToken, t.slug, t.epoch, "Down"⟩
  let upSwitched ← Prog.perform (Call.switchToken .up up)
  if !upSwitched then return loop
  let downSwitched ← Prog.perform (Call.switchToken .down down)
  if !downSwitched then return loop
  Prog.perform (Call.setMarketContext .up up)
  Prog.perform (Call.setMarketContext .down down)
  Prog.perform (Call.append
    { oldSlug := loop.currentSlug, newSlug := t.slug, oldUpTokenId := oldUp
      newUpTokenId := t.upToken, oldDownTokenId := oldDown, newDownTokenId := t.downToken })
  return { activeEpoch := t.epoch, nextEpoch := t.epoch + 300, next_sub := by omega
           currentSlug := t.slug, next := none, lastPrefetchNs := loop.lastPrefetchNs }

def rollover (parse : String → Option Json) (wallNow : ℤ) (loop : Loop) : Prog Loop := do
  let next := if loop.nextEpoch + 300 ≤ wallNow then none else loop.next
  let loop := { loop with next := next }
  match next with
  | some n =>
    attach loop { upToken := n.upToken, downToken := n.downToken, epoch := loop.nextEpoch
                  slug := if n.confirmedSlug = "" then slugForBucket loop.nextEpoch
                    else n.confirmedSlug }
  | none => do
    let some target ← discoveredTarget parse loop.nextEpoch | return loop
    attach loop target

/-- `none` when `main` returns. -/
def iteration (parse : String → Option Json) (loop : Loop) : Prog (Option Loop) := do
  let stop ← Prog.perform Call.stopRequested
  if stop then
    Prog.perform (Call.stop .up)
    Prog.perform (Call.stop .down)
    return none
  let nowNs ← Prog.perform Call.steadyNs
  let wallNow ← lookup Gamma.systemSeconds
  let loop ← prefetch parse nowNs loop
  if loop.activeEpoch + 300 ≤ wallNow then
    let loop ← rollover parse wallNow loop
    return some loop
  else return some loop

/-! ### The threads -/

/-- `writing` is the row of a quote whose `seq` is taken and that is not yet in the
file; until it is, the feed's thread is in `on_quote`. `wallS` is no variable of the
program but the last reading of the wall clock. -/
structure State where
  main : Prog (Option Loop)
  switching : Bool
  gStop : Bool
  wallS : ℤ
  running : Outcome → Bool
  feed : Outcome → TokenFeed.System
  writing : Outcome → Option QuoteRow
  seq : ℕ
  file : List Row

inductive Move where
  | signal
  | feed (o : Outcome) (mv : TokenFeed.Move)
  | append (o : Outcome)
  | answer (replies : (c : Call) → Option (Reply c))
  | main

/-- The peer closes the connection whatever the feed's thread does. -/
def isPeerMove : TokenFeed.Move → Bool
  | .closed => true
  | _ => false

def outsidePossible : Obs Reply → Bool
  | ⟨.outside c, r⟩ => possible ⟨c, r⟩
  | _ => true

/-- The wall clock after a reply. -/
def wallAfter (wallS : ℤ) : Obs Reply → ℤ
  | ⟨.outside .systemSeconds, s⟩ => s
  | _ => wallS

namespace State

def setFeed (s : State) (o : Outcome) (f : TokenFeed.System) : State :=
  { s with feed := Function.update s.feed o f }

def setWriting (s : State) (o : Outcome) (r : Option QuoteRow) : State :=
  { s with writing := Function.update s.writing o r }

/-- A quote that the step delivers takes the next `seq`. -/
def afterFeed (s : State) (o : Outcome) (f : TokenFeed.System) : State :=
  match f.delivered.drop (s.feed o).delivered.length with
  | [] => s.setFeed o f
  | q :: _ => { (s.setFeed o f).setWriting o (some (quoteRow (s.seq + 1) q)) with
      seq := s.seq + 1 }

def feedMove (s : State) (o : Outcome) (mv : TokenFeed.Move) : Option State :=
  if isCallerMove mv ∨ s.running o = false ∨ ((s.writing o).isSome ∧ isPeerMove mv = false) then
    none
  else ((s.feed o).apply 0 mv).map (s.afterFeed o)

def appendMove (s : State) (o : Outcome) : Option State :=
  (s.writing o).map fun r => { s.setWriting o none with file := s.file ++ [.quote r] }

def switchToken (s : State) (o : Outcome) (m : Market) (k : Bool → Prog (Option Loop)) :
    Option State :=
  if s.switching then
    if (s.feed o).caller.inSwitch then ((s.feed o).apply 0 .switch).map (s.setFeed o)
    else some { s with main := k true, switching := false }
  else if s.running o = false ∨ m.tokenId = "" then some { s with main := k false }
  else ((s.feed o).apply 0 (.beginSwitch m)).map fun f =>
    { s.setFeed o f with switching := true }

def setMarketContext (s : State) (o : Outcome) (m : Market) : State :=
  s.setFeed o { s.feed o with fields := (s.feed o).fields.setMarketContext m, caller := .idle }

/-- `stop` of a feed joins its thread, which is in no `on_quote` then. -/
def stop (s : State) (o : Outcome) : State :=
  { s.setFeed o { s.feed o with fields := (s.feed o).fields.setToken "" } with
    running := Function.update s.running o false }

def mainMove (parse : String → Option Json) (s : State) : Option State :=
  match s.main with
  | .done none => none
  | .done (some loop) => some { s with main := iteration parse loop }
  | .call .stopRequested k => some { s with main := k s.gStop }
  | .call .steadyNs _ => none
  | .call (.outside _) _ => none
  | .call (.tokenId o) k => some { s with main := k (s.feed o).fields.tokenId }
  | .call (.switchToken o m) k => s.switchToken o m k
  | .call (.setMarketContext o m) k => some { s.setMarketContext o m with main := k () }
  | .call (.append r) k =>
    some { s with main := k (), file := s.file ++ [.marketRollover r] }
  | .call (.stop o) k =>
    if (s.writing o).isSome then none else some { s.stop o with main := k () }

/-- The replies of the clocks and of Gamma. -/
def answerMove (s : State) (replies : (c : Call) → Option (Reply c)) : Option State :=
  match s.main with
  | .call .steadyNs k => (replies .steadyNs).map fun r => { s with main := k r }
  | .call (.outside c) k =>
    match replies (.outside c) with
    | none => none
    | some r =>
      if possible ⟨c, r⟩ then
        some { s with main := k r, wallS := wallAfter s.wallS ⟨.outside c, r⟩ }
      else none
  | _ => none

def apply (parse : String → Option Json) (s : State) (mv : Move) : Option State :=
  if (s.feed .up).terminated || (s.feed .down).terminated then none
  else
    match mv with
    | .signal => some { s with gStop := true }
    | .feed o mv => s.feedMove o mv
    | .append o => s.appendMove o
    | .answer replies => s.answerMove replies
    | .main => s.mainMove parse

theorem next_sub (activeEpoch : ℤ) : activeEpoch + 300 - activeEpoch = 300 := by
  omega

def start (d : BtcFiveMinuteBucketDiscovery) (activeEpoch lastPrefetchNs wallS : ℤ) : State where
  main := .done (some
    { activeEpoch := activeEpoch, nextEpoch := activeEpoch + 300, next_sub := next_sub activeEpoch
      currentSlug := d.confirmedSlug, next := none, lastPrefetchNs := lastPrefetchNs })
  switching := false
  gStop := false
  wallS := wallS
  running _ := true
  feed := fun
    | .up => .start ⟨d.upTokenId, d.confirmedSlug, activeEpoch, "Up"⟩
    | .down => .start ⟨d.downTokenId, d.confirmedSlug, activeEpoch, "Down"⟩
  writing _ := none
  seq := 0
  file := []

def quotes (s : State) : List QuoteRow := s.file.filterMap Row.quote?

def rollovers (s : State) : List MarketRollover := s.file.filterMap Row.marketRollover?

end State

/-- Started once the feeds are; `wallS` is the reading the discovery was made at. -/
def logger (parse : String → Option Json) : Lts State Move where
  init s := ∃ tr d activeEpoch lastPrefetchNs wallS,
    Exec (startup parse) tr (some (d, activeEpoch)) ∧ (∀ o ∈ tr, possible o = true) ∧
      ⟨.systemSeconds, wallS⟩ ∈ tr ∧ s = .start d activeEpoch lastPrefetchNs wallS
  step s mv t := s.apply parse mv = some t

/-- The wall clock does not go back. -/
def clockForward (s : State) : Move → Bool
  | .answer replies =>
    match s.main with
    | .call (.outside .systemSeconds) _ =>
      (replies (.outside .systemSeconds)).all fun r => decide (s.wallS ≤ r)
    | _ => true
  | _ => true

end LeadLag.Logger
