import LeadLag.Execution.StopSell
import LeadLag.Runner.Volatility

/-!
# State of the consumer thread (btc_poly_runner.cpp:354-388, 1350-1412)
-/

namespace LeadLag.Runner
open LeadLag.Execution

/-! ### Market data -/

/-- `PolymarketWsQuote`; an outcome that is neither "Up" nor "Down" is `none`. -/
structure Quote where
  tokenId : String
  eventSlug : String
  marketBucketEpoch : ℤ
  outcome : Option Outcome
  bestBid : ℚ
  bestAsk : ℚ
  deriving DecidableEq, Repr

def Quote.mid (q : Quote) : ℚ := 1 / 2 * (q.bestBid + q.bestAsk)

structure SpotTick where
  mid : ℚ
  wallMs : ℤ
  entryClockWallMs : ℤ
  deriving DecidableEq, Repr

/-- `HotState`. A `have_` flag and the fields it guards are one `Option`, and a
side of the book is the whole quote whose prices were last stored there: the
code keeps `best_bid` and `best_ask` of it and reads nothing else. -/
structure HotState where
  activeEpoch : ℤ := -1
  slug : String := ""
  bin : Option SpotTick := none
  binHist : History := []
  K : Option ℚ := none
  sigmaBucket : Option ℚ := none
  up : Option Quote := none
  down : Option Quote := none
  edgeUpOkSinceMonoNs : ℤ := -1
  edgeDnOkSinceMonoNs : ℤ := -1
  deriving DecidableEq, Repr

def HotState.book (h : HotState) : Outcome → Option Quote
  | .up => h.up
  | .down => h.down

structure HotView where
  slug : String
  activeEpoch : ℤ
  bin : SpotTick
  K : ℚ
  sigmaBucket : Option ℚ
  up : Quote
  down : Quote
  deriving DecidableEq, Repr

def HotView.book (v : HotView) : Outcome → Quote
  | .up => v.up
  | .down => v.down

def HotView.theo (M : Libm) (cfg : Config) (v : HotView) : Theo :=
  theoPrices M cfg v.activeEpoch v.bin.wallMs v.bin.mid v.K v.sigmaBucket

def HotState.view? (h : HotState) : Option HotView :=
  match h.bin, h.K, h.up, h.down with
  | some bin, some K, some up, some down =>
    if h.activeEpoch < 0 then none
    else some { slug := h.slug, activeEpoch := h.activeEpoch, bin := bin, K := K
                sigmaBucket := h.sigmaBucket, up := up, down := down }
  | _, _, _, _ => none

structure HotState.ShownBy (h : HotState) (v : HotView) : Prop where
  epoch : 0 ≤ h.activeEpoch
  activeEpoch : v.activeEpoch = h.activeEpoch
  slug : v.slug = h.slug
  bin : h.bin = some v.bin
  K : h.K = some v.K
  sigmaBucket : v.sigmaBucket = h.sigmaBucket
  book : ∀ o, h.book o = some (v.book o)

theorem HotState.view?_spec {h : HotState} {v : HotView} (hv : h.view? = some v) :
    h.ShownBy v := by
  unfold view? at hv
  split at hv
  · rename_i bin K up down hbin hK hup hdown
    split at hv
    · cases hv
    · cases hv
      refine ⟨by omega, rfl, rfl, hbin, hK, rfl, fun o => ?_⟩
      cases o with
      | up => exact hup
      | down => exact hdown
  · cases hv

theorem HotState.view?_isSome {h : HotState} :
    h.view?.isSome = true ↔ h.bin.isSome = true ∧ h.K.isSome = true ∧ h.up.isSome = true ∧
      h.down.isSome = true ∧ 0 ≤ h.activeEpoch := by
  unfold view?
  split
  · rename_i hbin hK hup hdown
    simp [hbin, hK, hup, hdown, apply_ite]
  · rename_i hnone
    simp only [Option.isSome_none, Bool.false_eq_true, Option.isSome_iff_exists, false_iff]
    rintro ⟨⟨bin, hbin⟩, ⟨K, hK⟩, ⟨up, hup⟩, ⟨down, hdown⟩, -⟩
    exact hnone bin K up down hbin hK hup hdown

def HotState.withEdges (h : HotState) (up down : ℤ) : HotState :=
  { h with edgeUpOkSinceMonoNs := up, edgeDnOkSinceMonoNs := down }

@[simp] theorem HotState.book_withEdges (h : HotState) (up down : ℤ) (o : Outcome) :
    (h.withEdges up down).book o = h.book o := by cases o <;> rfl
@[simp] theorem HotState.activeEpoch_withEdges (h : HotState) (up down : ℤ) :
    (h.withEdges up down).activeEpoch = h.activeEpoch := rfl
@[simp] theorem HotState.slug_withEdges (h : HotState) (up down : ℤ) :
    (h.withEdges up down).slug = h.slug := rfl

@[simp] theorem HotState.view?_withEdges (h : HotState) (up down : ℤ) :
    (h.withEdges up down).view? = h.view? := rfl

/-! ### The paper account -/

inductive Action where
  | buy
  | sell
  deriving DecidableEq, Repr

inductive ExitReason where
  | takeProfit
  | stopLoss
  deriving DecidableEq, Repr

/-- `PaperState`; an empty string is `none`. -/
structure PaperState where
  havePos : Bool := false
  side : Option Outcome := none
  tokenId : String := ""
  slug : String := ""
  qty : ℚ := 0
  posCostBasis : ℚ := 0
  entryFillPrice : ℚ := 0
  cash : ℚ
  pending : Bool := false
  pendingAction : Option Action := none
  pendingSide : Option Outcome := none
  pendingExitReason : Option ExitReason := none
  dueNs : ℤ := 0
  riskStop : Bool := false
  cooldownUntilNs : ℤ := 0
  stopSellRetry : Bool := false
  deriving DecidableEq, Repr

/-- The book the code reads for the position: Down unless the side is "Up". -/
def PaperState.outcome (p : PaperState) : Outcome := if p.side = some .up then .up else .down

/-- The assignments common to the six places that close the position. -/
def PaperState.closed (p : PaperState) : PaperState :=
  { p with havePos := false, pending := false, qty := 0, posCostBasis := 0, entryFillPrice := 0
           side := none, slug := "", tokenId := "" }

/-! ### Rows of the trades file

Time stamps, latencies and the sigma diagnostics are not modelled. -/

structure BuyRow where
  slug : String
  side : Option Outcome
  tokenId : String
  S : ℚ
  K : ℚ
  remS : ℚ
  sigma : ℚ
  theo : Option ℚ
  bid : ℚ
  ask : ℚ
  fillPrice : ℚ
  mid : ℚ
  edge : Option ℚ
  qty : ℚ
  cost : ℚ
  fee : ℚ
  spendTarget : ℚ
  fillPriceEstimated : Bool
  posCostBasis : ℚ
  cashBefore : ℚ
  cashAfter : ℚ
  deriving DecidableEq, Repr

structure SellRow where
  exitReason : ExitReason
  slug : String
  side : Option Outcome
  tokenId : String
  S : ℚ
  K : ℚ
  remS : ℚ
  sigma : ℚ
  theo : Option ℚ
  bid : ℚ
  ask : ℚ
  mid : ℚ
  edge : Option ℚ
  qty : ℚ
  strategyQty : ℚ
  clobBalanceShares : Option ℚ
  stopSellAttempts : ℕ
  proceeds : ℚ
  fee : ℚ
  cashBefore : ℚ
  cashAfter : ℚ
  deriving DecidableEq, Repr

structure ForceSellRow where
  slug : String
  side : Option Outcome
  tokenId : String
  bid : ℚ
  qty : ℚ
  strategyQty : ℚ
  clobBalanceShares : Option ℚ
  proceeds : ℚ
  fee : ℚ
  cashBefore : ℚ
  cashAfter : ℚ
  deriving DecidableEq, Repr

inductive ErrorAction where
  | buy
  | buyNoFill
  | sellBalanceQuery
  | sellSkippedZero
  | sellStopIncomplete
  | sell
  | forceSellBalanceQuery
  | forceSellSkippedZero
  | forceSell
  deriving DecidableEq, Repr

/-- `amount` is the row's `spend` for a BUY and its `strategy_qty` for a sale. -/
structure ErrorRow where
  action : ErrorAction
  slug : String
  side : Option Outcome
  tokenId : String
  error : String
  amount : ℚ
  clobBalance : Option ℚ := none
  deriving DecidableEq, Repr

structure RolloverRow where
  newSlug : String
  newEpoch : ℤ
  priceToBeat : Option ℚ
  disableForceSell : Bool
  cash : ℚ
  havePos : Bool
  posSide : Option Outcome
  posQty : ℚ
  posSlug : String
  posTokenId : String
  deriving DecidableEq, Repr

inductive TradesRow where
  | buy (r : BuyRow)
  | sell (r : SellRow)
  | forceSell (r : ForceSellRow)
  | error (r : ErrorRow)
  | rollover (r : RolloverRow)
  deriving DecidableEq, Repr

/-! ### The consumer -/

/-- Everything the consumer thread owns. `trades` is the trades file, newest row
first. `updateDue` is its control point: the event taken from the queue has
been stored and `on_hot_update(true)` is next. `stopSales` is a history variable,
the stop sales made for the open position, newest first; no function reads it. -/
structure Consumer where
  hot : HotState := {}
  paper : PaperState
  tradingEnabled : Bool := false
  updateDue : Bool := false
  trades : List TradesRow := []
  stopSales : List StopSellUntilFlatResult := []
  deriving DecidableEq, Repr

namespace Consumer

def start (cfg : Config) (hist : History) : Consumer :=
  { hot := { binHist := hist }, paper := { cash := cfg.initialCash } }

def log (c : Consumer) (r : TradesRow) : Consumer := { c with trades := r :: c.trades }

def clearPending (c : Consumer) : Consumer :=
  { c with paper := { c.paper with pending := false } }

def coolDown (c : Consumer) (untilNs : ℤ) : Consumer :=
  { c with paper := { c.paper with cooldownUntilNs := untilNs, pending := false } }

end Consumer

end LeadLag.Runner
