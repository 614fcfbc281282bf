import LeadLag.Core.Double
import LeadLag.Runner.Rollover
import LeadLag.Runner.Spot
import LeadLag.TokenFeed.Message

/-!
# The paper account in doubles (btc_poly_runner.cpp:914-1183, 1350-1412)

`Runner` has the options, the prices and the account as rationals. Here they are
doubles, as `std::stod` reads the options: an infinity or NaN too. Orders are paper
orders. The history of the spot and sigma are those of `Runner.HotState`.
-/

namespace LeadLag.Paper
open LeadLag.Core LeadLag.Execution
open LeadLag.Runner (HotState SpotTick Action ExitReason)

/-! ### Options -/

structure Options where
  disableRolloverForceSell : Bool := false
  initialCash : Double := .round 100
  riskFrac : Double := .round (1 / 100)
  entry : Double := .round (15 / 100)
  closeEps : Double := 0
  closeEarlyThreshold : Double := 0
  useEntryElapsedWindow : Bool := true
  entryElapsedMinSec : Double := .round 260
  entryElapsedMaxSec : Double := .round 300
  edgePersistMs : ℤ := 500
  latMs : ℤ := 0
  feeRate : Double := 0
  stopLossFrac : Double := .round (4 / 10)
  maxLossUsd : Double := .inf false
  fixedSpendUsd : Double := 1
  useBuyAskRange : Bool := true
  buyAskMin : Double := .round (6 / 10)
  buyAskMax : Double := .round (9 / 10)
  deriving DecidableEq, Repr

def Options.edgePersistNs (opts : Options) : ℤ :=
  if opts.edgePersistMs > 0 then opts.edgePersistMs * 1000000 else 0

def Options.latNs (opts : Options) : ℤ := opts.latMs * 1000000

/-! ### Market data -/

/-- What is read of a `PolymarketWsQuote`. -/
structure Quote where
  eventSlug : String
  marketBucketEpoch : ℤ
  outcome : Option Outcome
  bestBid : TokenFeed.Price
  bestAsk : TokenFeed.Price
  deriving DecidableEq

def Quote.bid (q : Quote) : Double := .ofExtended q.bestBid

def Quote.ask (q : Quote) : Double := .ofExtended q.bestAsk

def Quote.mid (q : Quote) : Double := .round (1 / 2) * (q.bid + q.ask)

/-- What `schedule` and `execute_due` read of `hot` besides the theo prices. -/
structure View where
  slug : String
  activeEpoch : ℤ
  entryClockWallMs : ℤ
  up : Quote
  down : Quote
  deriving DecidableEq

def View.book (v : View) : Outcome → Quote
  | .up => v.up
  | .down => v.down

/-! ### The account -/

structure PaperState where
  havePos : Bool := false
  side : Option Outcome := none
  tokenId : String := ""
  slug : String := ""
  qty : Double := 0
  posCostBasis : Double := 0
  entryFillPrice : Double := 0
  cash : Double
  pending : Bool := false
  pendingAction : Option Action := none
  pendingSide : Option Outcome := none
  pendingExitReason : Option ExitReason := none
  dueNs : ℤ := 0
  riskStop : Bool := false
  stopSellRetry : Bool := false
  deriving DecidableEq, Repr

def PaperState.outcome (p : PaperState) : Outcome := if p.side = some .up then .up else .down

def PaperState.closed (p : PaperState) : PaperState :=
  { p with havePos := false, pending := false, qty := 0, posCostBasis := 0, entryFillPrice := 0
           side := none, slug := "", tokenId := "" }

/-- `std::round`; an integer next to a double is one. -/
def stdRound : Double → Double
  | .finite x => .finite (roundHalfAway x)
  | x => x

def polyTakerFee (notionalUsdc price feeRate : Double) : Double :=
  let raw := notionalUsdc * feeRate * price * (1 - price)
  let fee := stdRound (raw * .round (10 ^ 5)) / .round (10 ^ 5)
  if .round (1 / 10 ^ 5) ≤ fee then fee else 0

/-! ### Rows of the trades file -/

structure BuyRow where
  slug : String
  side : Option Outcome
  tokenId : String
  theo : Double
  bid : Double
  ask : Double
  fillPrice : Double
  mid : Double
  edge : Double
  qty : Double
  cost : Double
  fee : Double
  spendTarget : Double
  posCostBasis : Double
  cashBefore : Double
  cashAfter : Double
  deriving DecidableEq, Repr

structure SellRow where
  exitReason : ExitReason
  slug : String
  side : Option Outcome
  tokenId : String
  theo : Double
  bid : Double
  ask : Double
  mid : Double
  edge : Double
  qty : Double
  proceeds : Double
  fee : Double
  cashBefore : Double
  cashAfter : Double
  deriving DecidableEq, Repr

structure ForceSellRow where
  slug : String
  side : Option Outcome
  tokenId : String
  bid : Double
  qty : Double
  proceeds : Double
  fee : Double
  cashBefore : Double
  cashAfter : Double
  deriving DecidableEq, Repr

structure RolloverRow where
  newSlug : String
  newEpoch : ℤ
  priceToBeat : Option ℚ
  disableForceSell : Bool
  cash : Double
  havePos : Bool
  posSide : Option Outcome
  posQty : Double
  posSlug : String
  posTokenId : String
  deriving DecidableEq, Repr

inductive TradesRow where
  | buy (r : BuyRow)
  | sell (r : SellRow)
  | forceSell (r : ForceSellRow)
  | rollover (r : RolloverRow)
  deriving DecidableEq, Repr

/-! ### The consumer -/

/-- The book of `hot` stays empty: the quotes are in `up` and `down`. `trades` is the
trades file, newest row first. -/
structure Consumer where
  hot : HotState := {}
  up : Option Quote := none
  down : Option Quote := none
  paper : PaperState
  tradingEnabled : Bool := false
  updateDue : Bool := false
  trades : List TradesRow := []

namespace Consumer

def start (opts : Options) (hist : Runner.History) : Consumer :=
  { hot := { binHist := hist }, paper := { cash := opts.initialCash } }

def book (c : Consumer) : Outcome → Option Quote
  | .up => c.up
  | .down => c.down

def view? (c : Consumer) : Option View :=
  match c.hot.bin, c.hot.K, c.up, c.down with
  | some bin, some _, some up, some down =>
    if c.hot.activeEpoch < 0 then none
    else some { slug := c.hot.slug, activeEpoch := c.hot.activeEpoch
                entryClockWallMs := bin.entryClockWallMs, up := up, down := down }
  | _, _, _, _ => none

def clearPending (c : Consumer) : Consumer :=
  { c with paper := { c.paper with pending := false } }

theorem view?_spec {c : Consumer} {v : View} (hv : c.view? = some v) :
    v.slug = c.hot.slug ∧ 0 ≤ c.hot.activeEpoch ∧ ∀ o, c.book o = some (v.book o) := by
  unfold view? at hv
  split at hv
  · rename_i bin K up down hbin hK hup hdown
    split at hv
    · cases hv
    · cases hv
      refine ⟨rfl, by omega, ?_⟩
      intro o
      cases o with
      | up => exact hup
      | down => exact hdown
  · cases hv

end Consumer

end LeadLag.Paper
