import LeadLag.Runner.Orders
import Mathlib.Logic.Function.Basic

/-!
# Consumer, feeds and rollover monitor (btc_poly_runner.cpp:2856-2889, 3062-3107,
ws_fixed_token_feed.cpp:286-379)

Three threads and the queue between them, one step at a time. The consumer is in
the middle of a function between two of its calls, and the other threads move
meanwhile. The monitor switches the two feeds, renames their quotes and pushes
the Rollover, each in a step of its own.
-/

namespace LeadLag.Feeds
open LeadLag.Execution LeadLag.Interaction LeadLag.Runner

structure Feed where
  tokenId : String
  quoteEventSlug : String
  quoteMarketBucketEpoch : ℤ
  deriving DecidableEq, Repr

/-- `switch_token` of a running feed; `none` is the refusal of an empty token. -/
def Feed.switchToken (f : Feed) (tok : String) : Option Feed :=
  if tok = "" then none else some { f with tokenId := tok }

def Feed.setMarketContext (f : Feed) (slug : String) (epoch : ℤ) : Feed :=
  { f with quoteEventSlug := slug, quoteMarketBucketEpoch := epoch }

def Feed.quote (f : Feed) (o : Outcome) (bid ask : ℚ) : Quote :=
  { tokenId := f.tokenId, eventSlug := f.quoteEventSlug
    marketBucketEpoch := f.quoteMarketBucketEpoch, outcome := some o
    bestBid := bid, bestAsk := ask }

/-- `BtcFiveMinuteBucketDiscovery`; `none` when no strike was found. -/
structure Discovery where
  confirmedSlug : String
  bucketEpochSeconds : ℤ
  upTokenId : String
  downTokenId : String
  priceToBeat : Option ℚ
  deriving DecidableEq, Repr

def Discovery.ofMarket (market : String → Outcome → String) (d : Discovery) : Bool :=
  decide (d.upTokenId = "" ∨ d.upTokenId = market d.confirmedSlug .up) &&
    decide (d.downTokenId = "" ∨ d.downTokenId = market d.confirmedSlug .down)

def Discovery.rollover (d : Discovery) (up down : Option Quote) : Rollover :=
  { epoch := d.bucketEpochSeconds, slug := d.confirmedSlug, priceToBeat := d.priceToBeat
    up := up, down := down }

inductive Stage where
  | discovered
  | upSwitched
  | downSwitched
  | upNamed
  | downNamed
  deriving DecidableEq, Repr

inductive Monitor where
  | polling
  | rolling (stage : Stage) (d : Discovery) (ev : Rollover)
  deriving DecidableEq, Repr

/-- The consumer thread: at its control point, or inside the function for an
event or, without one, for a hot update; `c` is the state it started from. -/
inductive Thread where
  | idle (c : Consumer)
  | busy (c : Consumer) (work : Option Event) (p : Prog Consumer)

/-- `sending` are the quotes parsed but not yet pushed; `nextEpoch` is the monitor's. -/
structure System where
  thread : Thread
  queue : List Event
  sending : List Quote
  feed : Outcome → Feed
  monitor : Monitor
  nextEpoch : ℤ

/-! ### Moves -/

inductive Move where
  | take
  | timeout
  | update
  | call (script : (e : Call) → Option (Reply e))
  | finish
  | spot (e : Event)
  | parse (o : Outcome) (bid ask : ℚ)
  | deliver (n : ℕ)
  | discover (d : Discovery) (up down : Option Quote)
  | switchUp
  | switchDown
  | nameUp
  | nameDown
  | push

namespace System

def setFeed (s : System) (o : Outcome) (f : Feed) : System :=
  { s with feed := Function.update s.feed o f }

def answer (s : System) (script : (e : Call) → Option (Reply e)) : (e : Call) → Option (Reply e)
  | .tokenId o => some (s.feed o).tokenId
  | e => script e

def startWork (M : Libm) (cfg : Config) (s : System) (e : Event) (queue : List Event) :
    Option System :=
  match s.thread with
  | .idle c =>
    if c.updateDue then none
    else some { s with thread := .busy c (some e) (c.take M cfg e), queue := queue }
  | .busy .. => none

def consume (M : Libm) (cfg : Config) (s : System) : Move → Option System
  | .take =>
    match s.queue with
    | [] => none
    | e :: rest => s.startWork M cfg e rest
  | .timeout => s.startWork M cfg .idle s.queue
  | .update =>
    match s.thread with
    | .idle c =>
      if c.updateDue then
        some { s with thread := .busy c none (c.updateDone.onHotUpdate M cfg) }
      else none
    | .busy .. => none
  | .call script =>
    match s.thread with
    | .busy c work (.call e k) =>
      (s.answer script e).map fun r => { s with thread := .busy c work (k r) }
    | _ => none
  | .finish =>
    match s.thread with
    | .busy _ _ (.done c') => some { s with thread := .idle c' }
    | _ => none
  | _ => none

def supply (s : System) : Move → Option System
  | .spot e => if e.isSpot then some { s with queue := s.queue ++ [e] } else none
  | .parse o bid ask => some { s with sending := s.sending ++ [(s.feed o).quote o bid ask] }
  | .deliver n =>
    s.sending[n]?.map fun q =>
      { s with queue := s.queue ++ [.polyQuote q], sending := s.sending.eraseIdx n }
  | _ => none

/-- Steps of the rollover monitor. The quotes it copies from `hot` are not
related to the consumer's here. -/
def rollOver (market : String → Outcome → String) (s : System) : Move → Option System
  | .discover d up down =>
    if s.monitor = .polling ∧ s.nextEpoch ≤ d.bucketEpochSeconds ∧ d.ofMarket market = true then
      some { s with monitor := .rolling .discovered d (d.rollover up down) }
    else none
  | .switchUp =>
    match s.monitor with
    | .rolling .discovered d ev =>
      match (s.feed .up).switchToken d.upTokenId with
      | some f => some { s.setFeed .up f with monitor := .rolling .upSwitched d ev }
      | none => some { s with monitor := .polling }
    | _ => none
  | .switchDown =>
    match s.monitor with
    | .rolling .upSwitched d ev =>
      match (s.feed .down).switchToken d.downTokenId with
      | some f => some { s.setFeed .down f with
          monitor := .rolling .downSwitched d ev, nextEpoch := d.bucketEpochSeconds + 300 }
      -- Up stays on the new token and no Rollover is pushed
      | none => some { s with monitor := .polling }
    | _ => none
  | .nameUp =>
    match s.monitor with
    | .rolling .downSwitched d ev =>
      some { s.setFeed .up ((s.feed .up).setMarketContext d.confirmedSlug d.bucketEpochSeconds) with
        monitor := .rolling .upNamed d ev }
    | _ => none
  | .nameDown =>
    match s.monitor with
    | .rolling .upNamed d ev =>
      some { s.setFeed .down
          ((s.feed .down).setMarketContext d.confirmedSlug d.bucketEpochSeconds) with
        monitor := .rolling .downNamed d ev }
    | _ => none
  | .push =>
    match s.monitor with
    | .rolling .downNamed _ ev =>
      some { s with monitor := .polling, queue := s.queue ++ [.rollover ev] }
    | _ => none
  | _ => none

def apply (M : Libm) (cfg : Config) (market : String → Outcome → String) (s : System)
    (m : Move) : Option System :=
  match m with
  | .take | .timeout | .update | .call _ | .finish => s.consume M cfg m
  | .spot _ | .parse .. | .deliver _ => s.supply m
  | _ => s.rollOver market m

end System

/-! ### Runs -/

/-- The main thread has started the feeds on the market of the first bucket and
written it to `hot`; until then the consumer could not trade. -/
structure Started (market : String → Outcome → String) (s : System) : Prop where
  thread : ∃ (c : Consumer) (slug : String) (epoch : ℤ) (priceToBeat : Option ℚ) (enable : Bool),
    0 ≤ epoch ∧ s.nextEpoch = epoch + 300 ∧ c.tradingEnabled = false ∧
    c.paper.havePos = false ∧ c.paper.pending = false ∧
    s.thread = .idle (c.started slug epoch priceToBeat enable) ∧
    ∀ o, s.feed o = ⟨market slug o, slug, epoch⟩
  queue : ∀ e ∈ s.queue, e.isSpot = true ∨ ∃ q, e = .polyQuote q
  monitor : s.monitor = .polling

def threads (M : Libm) (cfg : Config) (market : String → Outcome → String) :
    Lts System Move where
  init := Started market
  step s m t := s.apply M cfg market m = some t

end LeadLag.Feeds
