import LeadLag.Runner.State

/-!
# `schedule` (btc_poly_runner.cpp:1433-1553)

The signals are predicates of the prices and the account, `schedule` combines
them. `scheduleAt_cases` says all it can do; later modules use nothing else.
-/

namespace LeadLag.Runner
open LeadLag.Execution LeadLag.Interaction

/-! ### Signals -/

def stopLossSignal (cfg : Config) (p : PaperState) (bid qty : ℚ) : Bool :=
  if cfg.stopLossFrac ≤ 0 ∨ p.posCostBasis ≤ 0 ∨ qty ≤ 0 then false
  else if bid ≤ 0 then false
  else
    let proceeds := qty * bid
    let fee := polyTakerFee proceeds bid cfg.feeRate
    decide ((proceeds - fee - p.posCostBasis) / p.posCostBasis ≤ -cfg.stopLossFrac)

def entryElapsedOk (cfg : Config) (activeEpoch entryClockWallMs : ℤ) : Bool :=
  if !cfg.useEntryElapsedWindow then true
  else if activeEpoch < 0 then false
  else
    let elapsedSec : ℚ := ((entryClockWallMs - activeEpoch * 1000 : ℤ) : ℚ) / 1000
    decide (cfg.entryElapsedMinSec ≤ elapsedSec ∧ elapsedSec ≤ cfg.entryElapsedMaxSec)

def buyAskOk (cfg : Config) (ask : ℚ) : Bool :=
  if ask ≤ 0 then false
  else if cfg.useBuyAskRange then decide (cfg.buyAskMin ≤ ask ∧ ask ≤ cfg.buyAskMax)
  else decide (2 / 100 ≤ ask)

/-- `theo - ask`; a NaN theo makes it NaN and every comparison with it false. -/
def edge (theo : Option ℚ) (ask : ℚ) : Option ℚ := theo.map (· - ask)

def edgeRaw (cfg : Config) (theo : Option ℚ) (ask : ℚ) : Bool :=
  (edge theo ask).any (fun e => decide (cfg.entry ≤ e)) && buyAskOk cfg ask

def edgeSince (raw : Bool) (since now : ℤ) : ℤ :=
  if raw then (if since < 0 then now else since) else -1

def edgePersisted (cfg : Config) (raw : Bool) (since now : ℤ) : Bool :=
  raw && decide (cfg.edgePersistNs ≤ 0 ∨ cfg.edgePersistNs ≤ now - since)

def edgeGe : Option ℚ → Option ℚ → Bool
  | some a, some b => decide (b ≤ a)
  | _, _ => false

def buySide (upOk dnOk : Bool) (eUp eDn : Option ℚ) : Option Outcome :=
  if upOk && dnOk then some (if edgeGe eUp eDn then .up else .down)
  else if upOk then some .up
  else if dnOk then some .down
  else none

def takeProfitSignal (cfg : Config) (theo : Option ℚ) (bid : ℚ) : Bool :=
  theo.any fun x => decide (x - cfg.closeEps - cfg.closeEarlyThreshold ≤ bid)

/-- `stop` after the retry flag has been taken into account. -/
def stopSignal (cfg : Config) (p : PaperState) (bid : ℚ) : Bool :=
  stopLossSignal cfg p bid p.qty || p.stopSellRetry

/-! ### The function -/

def PaperState.scheduleBuy (p : PaperState) (o : Outcome) (dueNs : ℤ) : PaperState :=
  { p with pending := true, pendingAction := some .buy, pendingSide := some o, dueNs := dueNs }

def PaperState.scheduleSell (p : PaperState) (reason : ExitReason) (dueNs : ℤ) : PaperState :=
  { p with pending := true, pendingAction := some .sell, pendingSide := p.side
           pendingExitReason := some reason, dueNs := dueNs }

def placeBuy (cfg : Config) (v : HotView) (now : ℤ) (c : Consumer) (o : Outcome) : Consumer :=
  if entryElapsedOk cfg v.activeEpoch v.bin.entryClockWallMs then
    { c with paper := c.paper.scheduleBuy o (now + cfg.latNs) }
  else c

def scheduleEntry (cfg : Config) (v : HotView) (t : Theo) (now : ℤ) (c : Consumer) : Consumer :=
  if !c.tradingEnabled then { c with hot := c.hot.withEdges (-1) (-1) }
  else
    let rawUp := edgeRaw cfg t.up v.up.bestAsk
    let rawDn := edgeRaw cfg t.down v.down.bestAsk
    let sinceUp := edgeSince rawUp c.hot.edgeUpOkSinceMonoNs now
    let sinceDn := edgeSince rawDn c.hot.edgeDnOkSinceMonoNs now
    let c := { c with hot := c.hot.withEdges sinceUp sinceDn }
    match buySide (edgePersisted cfg rawUp sinceUp now) (edgePersisted cfg rawDn sinceDn now)
        (edge t.up v.up.bestAsk) (edge t.down v.down.bestAsk) with
    | none => c
    | some o => placeBuy cfg v now c o

def scheduleExit (cfg : Config) (v : HotView) (t : Theo) (now : ℤ) (c : Consumer) : Consumer :=
  let bid := (v.book c.paper.outcome).bestBid
  let stop := stopSignal cfg c.paper bid
  let takeProfit := takeProfitSignal cfg (t.of c.paper.outcome) bid
  if !stop && !takeProfit then c
  else
    let reason := if stop then .stopLoss else .takeProfit
    { c with paper := c.paper.scheduleSell reason (now + cfg.latNs) }

def scheduleAt (cfg : Config) (v : HotView) (t : Theo) (now : ℤ) (c : Consumer) : Consumer :=
  if c.paper.pending then c
  else if c.paper.riskStop then c
  else if c.paper.havePos then scheduleExit cfg v t now { c with hot := c.hot.withEdges (-1) (-1) }
  else scheduleEntry cfg v t now c

def schedule (cfg : Config) (v : HotView) (t : Theo) (c : Consumer) : Prog Consumer := do
  let now ← steadyNs
  pure (scheduleAt cfg v t now c)

/-! ### What it can do -/

def HotState.edgeOkSinceMonoNs (h : HotState) : Outcome → ℤ
  | .up => h.edgeUpOkSinceMonoNs
  | .down => h.edgeDnOkSinceMonoNs

def entrySignal (cfg : Config) (v : HotView) (t : Theo) (now : ℤ) (h : HotState)
    (o : Outcome) : Bool :=
  let raw := edgeRaw cfg (t.of o) (v.book o).bestAsk
  edgePersisted cfg raw (edgeSince raw (h.edgeOkSinceMonoNs o) now) now &&
    entryElapsedOk cfg v.activeEpoch v.bin.entryClockWallMs

def exitSignal (cfg : Config) (v : HotView) (t : Theo) (p : PaperState) : Bool :=
  stopSignal cfg p (v.book p.outcome).bestBid ||
    takeProfitSignal cfg (t.of p.outcome) (v.book p.outcome).bestBid

inductive Scheduled (cfg : Config) (v : HotView) (t : Theo) (now : ℤ) (c : Consumer) :
    Consumer → Prop
  | idle (a b : ℤ) : Scheduled cfg v t now c { c with hot := c.hot.withEdges a b }
  | buy (a b : ℤ) (o : Outcome) :
      c.paper.pending = false → c.paper.riskStop = false → c.paper.havePos = false →
      c.tradingEnabled = true → entrySignal cfg v t now c.hot o = true →
      Scheduled cfg v t now c { c with hot := c.hot.withEdges a b
                                       paper := c.paper.scheduleBuy o (now + cfg.latNs) }
  | sell (a b : ℤ) (reason : ExitReason) :
      c.paper.pending = false → c.paper.riskStop = false → c.paper.havePos = true →
      exitSignal cfg v t c.paper = true →
      (reason = .stopLoss ↔ stopSignal cfg c.paper (v.book c.paper.outcome).bestBid = true) →
      Scheduled cfg v t now c { c with hot := c.hot.withEdges a b
                                       paper := c.paper.scheduleSell reason (now + cfg.latNs) }

theorem Scheduled.unchanged (cfg : Config) (v : HotView) (t : Theo) (now : ℤ) (c : Consumer) :
    Scheduled cfg v t now c c := .idle c.hot.edgeUpOkSinceMonoNs c.hot.edgeDnOkSinceMonoNs

theorem buySide_ok {upOk dnOk : Bool} {eUp eDn : Option ℚ} {o : Outcome}
    (h : buySide upOk dnOk eUp eDn = some o) :
    (o = .up → upOk = true) ∧ (o = .down → dnOk = true) := by
  simp only [buySide] at h
  cases o <;> cases upOk <;> cases dnOk <;> simp_all

theorem scheduleEntry_cases {cfg : Config} {v : HotView} {t : Theo} {now : ℤ} {c : Consumer}
    (hp : c.paper.pending = false) (hr : c.paper.riskStop = false)
    (hn : c.paper.havePos = false) : Scheduled cfg v t now c (scheduleEntry cfg v t now c) := by
  unfold scheduleEntry
  split
  · exact .idle _ _
  · rename_i hen
    dsimp only
    split
    · exact .idle _ _
    · rename_i o ho
      unfold placeBuy
      split
      · rename_i hel
        have ok := buySide_ok ho
        refine .buy _ _ o hp hr hn (by simpa using hen) ?_
        simp only [entrySignal, hel, Bool.and_true]
        cases o with
        | up => exact ok.1 rfl
        | down => exact ok.2 rfl
      · exact .idle _ _

theorem scheduleExit_cases {cfg : Config} {v : HotView} {t : Theo} {now : ℤ} {c : Consumer}
    (hp : c.paper.pending = false) (hr : c.paper.riskStop = false)
    (hn : c.paper.havePos = true) :
    Scheduled cfg v t now c
      (scheduleExit cfg v t now { c with hot := c.hot.withEdges (-1) (-1) }) := by
  unfold scheduleExit
  simp only
  split
  · exact .idle _ _
  · rename_i hs
    refine .sell _ _ _ hp hr hn ?_ ?_
    · simpa [exitSignal, imp_iff_not_or] using hs
    · split <;> simp_all

theorem scheduleAt_cases (cfg : Config) (v : HotView) (t : Theo) (now : ℤ) (c : Consumer) :
    Scheduled cfg v t now c (scheduleAt cfg v t now c) := by
  unfold scheduleAt
  split
  · exact .unchanged ..
  · rename_i hp
    split
    · exact .unchanged ..
    · rename_i hr
      split
      · rename_i hn
        exact scheduleExit_cases (by simpa using hp) (by simpa using hr) hn
      · rename_i hn
        exact scheduleEntry_cases (by simpa using hp) (by simpa using hr) (by simpa using hn)

end LeadLag.Runner
