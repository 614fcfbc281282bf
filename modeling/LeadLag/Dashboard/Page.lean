import LeadLag.Core.Keyed
import LeadLag.Dashboard.Rows
import LeadLag.Interaction.Runs
import Mathlib.Logic.Function.Basic

/-!
# The web dashboard (live_web_dashboard.py:185-385)

One thread reads on in three files that the strategy appends to and updates the
page, another serves it. Every update of the page is made under one lock. What
escapes from an update ends the reading thread and leaves the page as it is.
-/

namespace LeadLag.Dashboard
open LeadLag.Interaction

abbrev Line := List Char

/-- `--max-points`, and which of the optional files were found at the start. -/
structure Options where
  maxPoints : ℕ := 4000
  useChain : Bool := true
  haveTrades : Bool := true

/-! ### Trade markers -/

abbrev MarkKey := ℤ × Kind × String

def TradeMarker.key (m : TradeMarker) : MarkKey := (m.wallMs, m.kind, m.side)

/-- `marker_seen` and the lists of points that are cleared with it. -/
structure Marks where
  markerSeen : List MarkKey := []
  buX : List ℚ := []
  buY : List ℚ := []
  suX : List ℚ := []
  suY : List ℚ := []
  bdX : List ℚ := []
  bdY : List ℚ := []
  sdX : List ℚ := []
  sdY : List ℚ := []
  btcBx : List ℚ := []
  btcBy : List ℚ := []
  btcSx : List ℚ := []
  btcSy : List ℚ := []
  deriving DecidableEq, Repr

namespace Marks

def addSide (m : TradeMarker) (rs : ℚ) (k : Marks) : Marks :=
  match m.mid with
  | .finite mid =>
    if m.side = "Up" then
      match m.kind with
      | .buy => { k with buX := k.buX ++ [rs], buY := k.buY ++ [mid] }
      | .sell => { k with suX := k.suX ++ [rs], suY := k.suY ++ [mid] }
    else if m.side = "Down" then
      match m.kind with
      | .buy => { k with bdX := k.bdX ++ [rs], bdY := k.bdY ++ [mid] }
      | .sell => { k with sdX := k.sdX ++ [rs], sdY := k.sdY ++ [mid] }
    else k
  | .inf _ | .nan => k

def addBtc (m : TradeMarker) (rs : ℚ) (k : Marks) : Marks :=
  match m.S with
  | .finite S =>
    match m.kind with
    | .buy => { k with btcBx := k.btcBx ++ [rs], btcBy := k.btcBy ++ [S] }
    | .sell => { k with btcSx := k.btcSx ++ [rs], btcSy := k.btcSy ++ [S] }
  | .inf _ | .nan => k

/-- `apply_trade_marker`; what it raises leaves the marker among those seen. -/
def applyTradeMarker (m : TradeMarker) (k : Marks) : Marks × Option PyError :=
  if m.key ∈ k.markerSeen then (k, none)
  else
    let k := { k with markerSeen := k.markerSeen ++ [m.key] }
    match relSInBucket m.wallMs with
    | .error e => (k, some e)
    | .ok (_, rs) => ((k.addSide m rs).addBtc m rs, none)

def applyAll (k : Marks) : List TradeMarker → Marks × Option PyError
  | [] => (k, none)
  | m :: ms =>
    match k.applyTradeMarker m with
    | (k, none) => applyAll k ms
    | (k, some e) => (k, some e)

end Marks

def iterTradeMarkersFromFile (py : Python) (bucketEpoch : ℤ) :
    List Line → Raises (List TradeMarker)
  | [] => .ok []
  | line :: rest => do
    let m ← parseTradeLine py line
    let out ← iterTradeMarkersFromFile py bucketEpoch rest
    return (m.filter fun m => m.bucket = bucketEpoch).toList ++ out

/-! ### The page -/

/-- What `tail_loop` and `build_json` share. -/
structure Page where
  lastBucket : Option ℤ := none
  slug : String := ""
  latestSigma : PyFloat := .nan
  latestSigmaWindowFull : Bool := false
  latestSigmaSlugReady : Bool := false
  latestSigmaFallback : Bool := true
  dqX : List ℚ := []
  dqTu : List PyFloat := []
  dqUm : List PyFloat := []
  dqTd : List PyFloat := []
  dqDm : List PyFloat := []
  dqCx : List ℚ := []
  dqCy : List PyFloat := []
  dqSx : List ℚ := []
  dqSy : List PyFloat := []
  marks : Marks := {}
  deriving DecidableEq, Repr

/-- `append` to a `deque(maxlen=…)`. -/
def push {A : Type} (maxlen : ℕ) (q : List A) (x : A) : List A := (q ++ [x]).rtake maxlen

theorem push_rtake {A : Type} (n : ℕ) (xs : List A) (x : A) :
    push n (xs.rtake n) x = (xs ++ [x]).rtake n := by
  unfold push List.rtake
  have hle : xs.length - n ≤ xs.length := Nat.sub_le _ _
  rw [← List.drop_append_of_le_length hle, List.drop_drop]
  congr 1
  simp only [List.length_append, List.length_drop, List.length_singleton]
  omega

namespace Page

/-- The queues and the markers are cleared. -/
def cleared (b : ℤ) (p : Page) : Page :=
  { p with
    lastBucket := some b, slug := "btc-updown-5m-" ++ toString b
    dqX := [], dqTu := [], dqUm := [], dqTd := [], dqDm := [], dqCx := [], dqCy := []
    dqSx := [], dqSy := [], marks := {} }

def sigmaReset (p : Page) : Page :=
  { p with latestSigma := .nan, latestSigmaWindowFull := false, latestSigmaSlugReady := false
           latestSigmaFallback := true }

def backfillTrades (py : Python) (cfg : Options) (trades : List Line) (b : ℤ) (p : Page) :
    Page × Option PyError :=
  if !cfg.haveTrades then (p, none)
  else
    match iterTradeMarkersFromFile py b trades with
    | .error e => (p, some e)
    | .ok ms =>
      let (marks, raised) := p.marks.applyAll ms
      ({ p with marks }, raised)

/-- The change of bucket before a row of another bucket is drawn. -/
def enterBucket (py : Python) (cfg : Options) (trades : List Line) (b : ℤ) (p : Page) :
    Page × Option PyError :=
  match (p.cleared b).backfillTrades py cfg trades b with
  | (p, some e) => (p, some e)
  | (p, none) => (p.sigmaReset, none)

def drawSeries (cfg : Options) (row : SeriesRow) (rs : ℚ) (p : Page) : Page :=
  { p with
    dqX := push cfg.maxPoints p.dqX rs
    dqTu := push cfg.maxPoints p.dqTu row.theoUp
    dqUm := push cfg.maxPoints p.dqUm row.upMid
    dqTd := push cfg.maxPoints p.dqTd row.theoDn
    dqDm := push cfg.maxPoints p.dqDm row.dnMid
    latestSigma := if finite row.sigma then row.sigma else p.latestSigma
    latestSigmaWindowFull := row.sigmaVolWindowFull
    latestSigmaSlugReady := row.sigmaSlugReady
    latestSigmaFallback := row.sigmaFallback
    dqSx := if !cfg.useChain && finite row.S then push cfg.maxPoints p.dqSx rs else p.dqSx
    dqSy := if !cfg.useChain && finite row.S then push cfg.maxPoints p.dqSy row.S else p.dqSy }

def onSeriesRow (py : Python) (cfg : Options) (trades : List Line) (row : SeriesRow) (p : Page) :
    Page × Option PyError :=
  let entered :=
    if p.lastBucket = some row.bucket then (p, none) else p.enterBucket py cfg trades row.bucket
  match entered with
  | (p, some e) => (p, some e)
  | (p, none) =>
    match relSInBucket row.wallMs with
    | .error e => (p, some e)
    | .ok (_, rs) => (p.drawSeries cfg row rs, none)

def onChainRow (cfg : Options) (row : ChainRow) (p : Page) : Page × Option PyError :=
  match p.lastBucket with
  | none => (p, none)
  | some lastBucket =>
    match relSInBucket row.wallMs with
    | .error e => (p, some e)
    | .ok (b, rs) =>
      if b = lastBucket then
        ({ p with dqCx := push cfg.maxPoints p.dqCx rs, dqCy := push cfg.maxPoints p.dqCy row.px },
          none)
      else (p, none)

def onTradeMarker (m : TradeMarker) (p : Page) : Page × Option PyError :=
  if p.lastBucket = some m.bucket then
    let (marks, raised) := p.marks.applyTradeMarker m
    ({ p with marks }, raised)
  else (p, none)

theorem onTradeMarker_ok {m : TradeMarker} {p p' : Page} (h : p.onTradeMarker m = (p', none)) :
    p.lastBucket ≠ some m.bucket ∧ p' = p ∨
      p.lastBucket = some m.bucket ∧
        ∃ marks, p.marks.applyTradeMarker m = (marks, none) ∧ p' = { p with marks } := by
  unfold onTradeMarker at h
  by_cases hsame : p.lastBucket = some m.bucket
  · rw [if_pos hsame] at h
    have hmarks : p.marks.applyTradeMarker m = ((p.marks.applyTradeMarker m).1, none) :=
      Prod.ext rfl (Prod.mk.inj h).2
    exact .inr ⟨hsame, _, hmarks, (Prod.mk.inj h).1.symm⟩
  · rw [if_neg hsame] at h
    exact .inl ⟨hsame, (Prod.mk.inj h).1.symm⟩

/-- `if not row: continue`, after the parser. -/
def onParsed {A : Type} (p : Page) (parsed : Raises (Option A)) (f : A → Page × Option PyError) :
    Page × Option PyError :=
  match parsed with
  | .error e => (p, some e)
  | .ok none => (p, none)
  | .ok (some row) => f row

theorem onParsed_ok {A : Type} {p p' : Page} {parsed : Raises (Option A)}
    {f : A → Page × Option PyError} (h : p.onParsed parsed f = (p', none)) :
    parsed = .ok none ∧ p' = p ∨ ∃ row, parsed = .ok (some row) ∧ f row = (p', none) := by
  match parsed, h with
  | .ok none, h => exact .inl ⟨rfl, (Prod.mk.inj h).1.symm⟩
  | .ok (some row), h => exact .inr ⟨row, rfl, h⟩

/-- A line of the trades file changes the markers only. -/
theorem onParsed_trade {p p' : Page} {parsed : Raises (Option TradeMarker)}
    (h : (p.onParsed parsed fun m => p.onTradeMarker m) = (p', none)) :
    ∃ marks, p' = { p with marks } := by
  rcases onParsed_ok h with ⟨-, hpage⟩ | ⟨m, -, hm⟩
  · exact ⟨p.marks, hpage⟩
  · rcases onTradeMarker_ok hm with ⟨-, hpage⟩ | ⟨-, marks, -, hpage⟩
    · exact ⟨p.marks, hpage⟩
    · exact ⟨marks, hpage⟩

end Page

/-! ### What is served -/

/-- The fields of `/data.json`, without `sigma_status`. -/
structure DataJson where
  slug : String
  sigma : Option ℚ
  sigmaVolWindowFull : Bool
  sigmaSlugReady : Bool
  sigmaFallback : Bool
  xs : List ℚ
  theoUp : List PyFloat
  upMid : List PyFloat
  theoDn : List PyFloat
  dnMid : List PyFloat
  btcX : List ℚ
  btcY : List PyFloat
  btcLabel : String
  marks : Marks

def buildJson (p : Page) : DataJson :=
  let chain := !p.dqCx.isEmpty && !p.dqCy.isEmpty
  { slug := p.slug
    sigma := match p.latestSigma with
      | .finite x => some x
      | .inf _ | .nan => none
    sigmaVolWindowFull := p.latestSigmaWindowFull
    sigmaSlugReady := p.latestSigmaSlugReady
    sigmaFallback := p.latestSigmaFallback
    xs := p.dqX, theoUp := p.dqTu, upMid := p.dqUm, theoDn := p.dqTd, dnMid := p.dqDm
    btcX := if chain then p.dqCx else p.dqSx
    btcY := if chain then p.dqCy else p.dqSy
    btcLabel := if chain then "BTC (Chainlink jsonl)"
      else if !p.dqSy.isEmpty then "BTC (series S)" else ""
    marks := p.marks }

/-! ### The reading thread -/

inductive File where
  | series
  | chain
  | trades
  deriving DecidableEq, Repr

/-- The order in which `tail_loop` polls. -/
def File.next : File → File
  | .series => .chain
  | .chain => .trades
  | .trades => .series

def Options.reads (cfg : Options) : File → Bool
  | .series => true
  | .chain => cfg.useChain
  | .trades => cfg.haveTrades

/-- `tail` is how many lines of a file have been polled, `pending` what is left
of the last poll. A file is its non-blank lines, and whole lines are appended: a poll
that cuts a line is left aside. `chainFrom` and `tradesUpTo` are history: how many
Chainlink lines had been taken when the bucket last changed, and how many lines the
trades file had then. -/
structure State where
  file : File → List Line := fun _ => []
  tail : File → ℕ := fun _ => 0
  phase : File := .trades
  pending : List Line := []
  page : Page := {}
  raised : Option PyError := none
  chainFrom : ℕ := 0
  tradesUpTo : ℕ := 0

inductive Label where
  | append (f : File) (line : Line)
  | poll
  | line

namespace State

def append (f : File) (line : Line) (s : State) : State :=
  { s with file := Function.update s.file f (s.file f ++ [line]) }

/-- `lines_since_last` of the next file. -/
def poll (cfg : Options) (s : State) : State :=
  let f := s.phase.next
  if cfg.reads f then
    { s with phase := f, pending := (s.file f).drop (s.tail f)
             tail := Function.update s.tail f (s.file f).length }
  else { s with phase := f, pending := [] }

/-- One round of the loop over the lines of a poll. -/
def update (py : Python) (cfg : Options) (line : Line) (s : State) : Page × Option PyError :=
  match s.phase with
  | .series =>
    s.page.onParsed (parseSeriesLine py line)
      fun row => s.page.onSeriesRow py cfg (s.file .trades) row
  | .chain => s.page.onParsed (parseChainlinkLine py line) fun row => s.page.onChainRow cfg row
  | .trades => s.page.onParsed (parseTradeLine py line) fun m => s.page.onTradeMarker m

def takeLine (py : Python) (cfg : Options) (line : Line) (rest : List Line) (s : State) : State :=
  let (page, raised) := s.update py cfg line
  let same := decide (page.lastBucket = s.page.lastBucket)
  { s with
    pending := rest, page, raised
    chainFrom := if same then s.chainFrom else s.tail .chain
    tradesUpTo := if same then s.tradesUpTo else (s.file .trades).length }

def next (py : Python) (cfg : Options) (s : State) : Label → Option State
  | .append f line => some (s.append f line)
  | .poll => if s.raised.isNone && s.pending.isEmpty then some (s.poll cfg) else none
  | .line =>
    match s.raised, s.pending with
    | none, line :: rest => some (s.takeLine py cfg line rest)
    | _, _ => none

end State

def dashboard (py : Python) (cfg : Options) : Lts State Label where
  init s := s = {}
  step s l t := s.next py cfg l = some t

end LeadLag.Dashboard
