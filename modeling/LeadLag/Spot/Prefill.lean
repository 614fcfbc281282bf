import LeadLag.Core.SplitOn
import LeadLag.Runner.Ticks
import LeadLag.Sim.LatencySweep
import LeadLag.Timeline.LastWrites
import LeadLag.Timeline.Trim

/-!
# Ticks of the last session (btc_poly_runner.cpp:161-257, 1199-1211, 2634-2650)

Every Chainlink tick is recorded in the file of the session, and a start fills the
history from such files. A byte is a character; what `json::parse` accepts is a
parameter.
-/

namespace LeadLag.Spot
open LeadLag.Core LeadLag.Interaction LeadLag.Runner LeadLag.Timeline
open LeadLag.Rtds (jsonToMs)
open LeadLag.Sim (getDouble)
open LeadLag.TokenFeed (stringValue)
open Std (TreeMap)

/-- `json::parse`, and the conversion to an integer of a double out of range. -/
structure Reader where
  parse : List Char → Option Json
  outOfRange : ℚ → ℤ

/-! ### Reading the files -/

/-- `none` is false or an exception; both skip the line. -/
def parseChainlinkJsonlRow (rd : Reader) (j : Json) : Option (ℤ × ℚ) :=
  if j.isObject then do
    let eventType ← stringValue "event_type" j
    if eventType ≠ "chainlink" then none
    else do
      let payloadTsMs ← (← j.field? "payload_ts_ms") |> jsonToMs rd.outOfRange
      let payload ← j.field? "payload"
      let px ← (← payload.field? "price") |> getDouble
      if 0 < payloadTsMs ∧ 0 < px then some (payloadTsMs, px) else none
  else none

/-- What a line adds to `by_ts`. -/
def lineTick? (rd : Reader) (minPayloadTsMs : ℤ) (line : List Char) : Option (ℤ × ℚ) :=
  if line = [] then none
  else ((rd.parse line).bind (parseChainlinkJsonlRow rd)).filter fun p =>
    decide (minPayloadTsMs ≤ p.1)

def ingestLine (rd : Reader) (minPayloadTsMs : ℤ) (byTs : TreeMap ℤ ℚ) (line : List Char) :
    TreeMap ℤ ℚ :=
  match lineTick? rd minPayloadTsMs line with
  | some (tsMs, px) => byTs.insert tsMs px
  | none => byTs

def isNewline (c : Char) : Bool := c = '\n'

/-- `std::getline` until the end of the blob. -/
def ingestChainlinkJsonlLines (rd : Reader) (minPayloadTsMs : ℤ) (byTs : TreeMap ℤ ℚ)
    (blob : List Char) : TreeMap ℤ ℚ :=
  (blob.splitOnP isNewline).foldl (ingestLine rd minPayloadTsMs) byTs

def kMaxTailBytes : ℕ := 12 * 1024 * 1024

/-- The end of the file, from the start of a line. -/
def tailOf (content : List Char) : List Char :=
  if content.length ≤ kMaxTailBytes then content
  else
    let blob := content.drop (content.length - kMaxTailBytes)
    if '\n' ∈ blob then afterFirst isNewline blob else blob

/-- `none` is a file that is not there or cannot be opened. -/
def ingestChainlinkJsonlFile (rd : Reader) (minPayloadTsMs : ℤ) (byTs : TreeMap ℤ ℚ) :
    Option (List Char) → TreeMap ℤ ℚ
  | none => byTs
  | some content => ingestChainlinkJsonlLines rd minPayloadTsMs byTs (tailOf content)

def prefillBinHistFromChainlinkJsonl (rd : Reader) (nowMs : ℤ) (files : List (Option (List Char)))
    (hist : History) : History :=
  hist ++ (files.foldl (ingestChainlinkJsonlFile rd (nowMs - oneHourMs)) ∅).toList

/-! ### What was read -/

/-- The ticks of a file that are read. -/
def fileTicks (rd : Reader) (minPayloadTsMs : ℤ) : Option (List Char) → List (ℤ × ℚ)
  | none => []
  | some content =>
    ((tailOf content).splitOnP isNewline).filterMap (lineTick? rd minPayloadTsMs)

section Ingest

variable {rd : Reader} {minTs : ℤ} {byTs : TreeMap ℤ ℚ} {line : List Char}

theorem foldl_ingestLine (lines : List (List Char)) :
    lines.foldl (ingestLine rd minTs) byTs =
      byTs.insertMany (lines.filterMap (lineTick? rd minTs)) := by
  induction lines generalizing byTs with
  | nil => exact TreeMap.insertMany_nil.symm
  | cons line lines ih =>
    rw [List.foldl_cons, ih]
    cases hline : lineTick? rd minTs line with
    | none =>
      rw [List.filterMap_cons_none hline]
      show (match lineTick? rd minTs line with
        | some (tsMs, px) => byTs.insert tsMs px
        | none => byTs).insertMany _ = _
      rw [hline]
    | some p =>
      rw [List.filterMap_cons_some hline, TreeMap.insertMany_cons]
      show (match lineTick? rd minTs line with
        | some (tsMs, px) => byTs.insert tsMs px
        | none => byTs).insertMany _ = _
      rw [hline]

theorem foldl_ingestFile (files : List (Option (List Char))) :
    files.foldl (ingestChainlinkJsonlFile rd minTs) byTs =
      byTs.insertMany (files.flatMap (fileTicks rd minTs)) := by
  induction files generalizing byTs with
  | nil => exact TreeMap.insertMany_nil.symm
  | cons file files ih =>
    have hfile : ingestChainlinkJsonlFile rd minTs byTs file =
        byTs.insertMany (fileTicks rd minTs file) := by
      cases file with
      | none => exact TreeMap.insertMany_nil.symm
      | some content => exact foldl_ingestLine _
    rw [List.foldl_cons, hfile, ih, List.flatMap_cons, TreeMap.insertMany_append]

theorem prefill_eq (rd : Reader) (nowMs : ℤ) (files : List (Option (List Char))) :
    prefillBinHistFromChainlinkJsonl rd nowMs files [] =
      lastWrites (files.flatMap (fileTicks rd (nowMs - oneHourMs))) := by
  show [] ++ (files.foldl (ingestChainlinkJsonlFile rd (nowMs - oneHourMs)) ∅).toList = _
  rw [List.nil_append, foldl_ingestFile, lastWrites]

theorem lineTick?_range {p : ℤ × ℚ} (h : lineTick? rd minTs line = some p) :
    minTs ≤ p.1 ∧ 0 < p.1 ∧ 0 < p.2 := by
  unfold lineTick? at h
  split at h
  · cases h
  · obtain ⟨hrow, hmin⟩ := Option.filter_eq_some_iff.mp h
    obtain ⟨j, -, hj⟩ := Option.bind_eq_some_iff.mp hrow
    unfold parseChainlinkJsonlRow at hj
    split at hj
    · obtain ⟨eventType, -, hj⟩ := Option.bind_eq_some_iff.mp hj
      split at hj
      · cases hj
      · obtain ⟨ts, -, hj⟩ := Option.bind_eq_some_iff.mp hj
        obtain ⟨tsMs, -, hj⟩ := Option.bind_eq_some_iff.mp hj
        obtain ⟨payload, -, hj⟩ := Option.bind_eq_some_iff.mp hj
        obtain ⟨price, -, hj⟩ := Option.bind_eq_some_iff.mp hj
        obtain ⟨px, -, hj⟩ := Option.bind_eq_some_iff.mp hj
        split at hj
        · rename_i hpos
          cases hj
          exact ⟨of_decide_eq_true hmin, hpos⟩
        · cases hj
    · cases hj

theorem fileTicks_range {file : Option (List Char)} {p : ℤ × ℚ} (h : p ∈ fileTicks rd minTs file) :
    minTs ≤ p.1 ∧ 0 < p.1 ∧ 0 < p.2 := by
  cases file with
  | none => cases h
  | some content =>
    obtain ⟨line, -, hline⟩ := List.mem_filterMap.mp h
    exact lineTick?_range hline

end Ingest

/-- Whatever the files hold, the history of a start is in strict order of time, not over
an hour old and of positive prices (a row stamped after `nowMs` is kept). It has for each
time the price of the last row of that time among the lines read, which are those of the
last 12 MiB of each file, in the order of the paths. -/
theorem prefilled_history (rd : Reader) (nowMs : ℤ) (files : List (Option (List Char))) :
    let hist := prefillBinHistFromChainlinkJsonl rd nowMs files []
    (hist.Pairwise fun p q => p.1 < q.1) ∧
      (∀ p ∈ hist, nowMs - oneHourMs ≤ p.1 ∧ 0 < p.1 ∧ 0 < p.2) ∧
      ∀ t px, (t, px) ∈ hist ↔
        lastValue t (files.flatMap (fileTicks rd (nowMs - oneHourMs))) = some px := by
  intro hist
  have hhist : hist = lastWrites (files.flatMap (fileTicks rd (nowMs - oneHourMs))) :=
    prefill_eq rd nowMs files
  rw [hhist]
  refine ⟨lastWrites_ordered _, ?_, fun t px => mem_lastWrites⟩
  intro p hp
  obtain ⟨t, px⟩ := p
  have hvalue := mem_lastWrites.mp hp
  obtain ⟨q, hq, hqv⟩ := List.exists_of_findSome?_eq_some hvalue
  obtain ⟨file, -, hfile⟩ := List.mem_flatMap.mp (List.mem_reverse.mp hq)
  split at hqv
  · rename_i ht
    have hq' : q = (t, px) := Prod.ext ht (Option.some.inj hqv)
    rw [← hq']
    exact fileTicks_range hfile
  · cases hqv

end LeadLag.Spot
