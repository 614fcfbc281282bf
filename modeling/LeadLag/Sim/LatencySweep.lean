import LeadLag.Core.Binary64
import LeadLag.Core.Decimal
import LeadLag.Core.FirstLeast
import LeadLag.Core.LowerBound
import LeadLag.Rtds.Messages
import LeadLag.TokenFeed.Message

/-!
# The latency sweep (latency_backtest.cpp, timeline_merge.cpp, polymarket_logger.cpp)

`none` is an exception of the JSON library, or a time that does not fit 64 bits.
-/

namespace LeadLag.Sim
open LeadLag.Core LeadLag.TokenFeed

/-! ### Timelines -/

structure LogEvent where
  sortKeyNs : ℤ
  source : String
  row : Json

def int64 (e : ℤ) : Option ℤ := if fitsInt64 e then some e else none

def sortKeyFromRow (outOfRange : ℚ → ℤ) (j : Json) : Option ℤ :=
  match j.field? "local_ts_mono_ns" with
  | some v => Rtds.jsonToMs outOfRange v
  | none =>
    match j.field? "exchange_ts_ms" with
    | some v => (Rtds.jsonToMs outOfRange v).bind fun ms => int64 (ms * 1000000)
    | none => some 0

/-- A line of `load_jsonl`. -/
def loadRow (outOfRange : ℚ → ℤ) (j : Json) : Option LogEvent := do
  let sortKeyNs ← sortKeyFromRow outOfRange j
  let source ← if j.isObject then stringValue "source" j else none
  some { sortKeyNs, source, row := j }

structure PolymarketWsQuote where
  tokenId : String
  eventSlug : String := ""
  marketBucketEpoch : ℤ := -1
  outcome : String := ""
  bestBid : ℚ
  bestAsk : ℚ
  localMonoNs : ℤ := -1
  localWallMs : ℤ := -1

/-- The row of `append_quote_row`. -/
def quoteRow (seq : ℕ) (q : PolymarketWsQuote) : Json :=
  .obj ([("schema_version", .int 1), ("source", .str "polymarket"), ("event_type", .str "quote"),
    ("event_slug", .str q.eventSlug), ("outcome", .str q.outcome)] ++
    (if 0 ≤ q.marketBucketEpoch then [("market_bucket_epoch", .int q.marketBucketEpoch)] else []) ++
    [("symbol_or_market_id", .str q.tokenId), ("local_ts_mono_ns", .int q.localMonoNs),
    ("local_ts_wall_ms", .int q.localWallMs), ("seq", .int seq),
    ("payload", .obj [("best_bid", .float q.bestBid), ("best_ask", .float q.bestAsk)])])

def symbolOrMarketId (e : LogEvent) : Option String :=
  (e.row.field? "symbol_or_market_id").bind Json.string?

def TimeSorted (timeline : List LogEvent) : Prop :=
  timeline.Pairwise fun a b => a.sortKeyNs ≤ b.sortKeyNs

/-- `std::sort` by key; events of one key come in any order. -/
structure SortByKey where
  run : List LogEvent → List LogEvent
  perm : ∀ es, (run es).Perm es
  sorted : ∀ es, TimeSorted (run es)

def mergeSorted (sort : SortByKey) (a b : List LogEvent) : List LogEvent := sort.run (a ++ b)

/-- The timeline of a sweep: the events of both logs, in the order of time. -/
theorem mergeSorted_spec (sort : SortByKey) (a b : List LogEvent) :
    (mergeSorted sort a b).Perm (a ++ b) ∧ TimeSorted (mergeSorted sort a b) :=
  ⟨sort.perm (a ++ b), sort.sorted (a ++ b)⟩

/-! ### The searches -/

def isPolymarketQuote (e : LogEvent) : Option Bool :=
  if e.source = "polymarket" then
    if e.row.isObject then (stringValue "event_type" e.row).map fun t => decide (t = "quote")
    else none
  else some false

def getDouble : Json → Option ℚ
  | .int i => some i
  | .float x => some x
  | _ => none

def polyMid (e : LogEvent) : Option ℚ := do
  let p ← e.row.field? "payload"
  let bid ← (← p.field? "best_bid") |> getDouble
  let ask ← (← p.field? "best_ask") |> getDouble
  some (1 / 2 * (bid + ask))

def firstQuote : List LogEvent → Option (Option LogEvent)
  | [] => some none
  | e :: es =>
    match isPolymarketQuote e with
    | none => none
    | some true => some (some e)
    | some false => firstQuote es

def firstPolyAtOrAfter (m : List LogEvent) (tNs : ℤ) : Option (Option LogEvent) :=
  firstQuote (m.drop (lowerBound (fun e => decide (e.sortKeyNs < tNs)) m))

theorem quoteRow_fields (seq : ℕ) (q : PolymarketWsQuote) :
    (quoteRow seq q).field? "source" = some (.str "polymarket") ∧
      (quoteRow seq q).field? "event_type" = some (.str "quote") ∧
      (quoteRow seq q).field? "symbol_or_market_id" = some (.str q.tokenId) ∧
      (quoteRow seq q).field? "local_ts_mono_ns" = some (.int q.localMonoNs) ∧
      (quoteRow seq q).field? "payload" =
        some (.obj [("best_bid", .float q.bestBid), ("best_ask", .float q.bestAsk)]) := by
  unfold quoteRow
  by_cases hepoch : 0 ≤ q.marketBucketEpoch
  · rw [if_pos hepoch]
    exact ⟨rfl, rfl, rfl, rfl, rfl⟩
  · rw [if_neg hepoch]
    exact ⟨rfl, rfl, rfl, rfl, rfl⟩

/-- A logged quote as it stands in a timeline. -/
def quoteEvent (seq : ℕ) (q : PolymarketWsQuote) : LogEvent :=
  { sortKeyNs := q.localMonoNs, source := "polymarket", row := quoteRow seq q }

theorem loadRow_quoteRow {q : PolymarketWsQuote} (hfits : fitsInt64 q.localMonoNs = true)
    (outOfRange : ℚ → ℤ) (seq : ℕ) :
    loadRow outOfRange (quoteRow seq q) = some (quoteEvent seq q) := by
  obtain ⟨hsource, -, -, htime, -⟩ := quoteRow_fields seq q
  have hrow : (quoteRow seq q).isObject = true := rfl
  have hkey : q.localMonoNs.bmod (2 ^ 64) = q.localMonoNs := by
    have hrange := of_decide_eq_true hfits
    exact Int.bmod_eq_of_le (by omega) (by omega)
  simp only [loadRow, sortKeyFromRow, htime, Rtds.jsonToMs, hkey, hrow, if_true, stringValue,
    hsource]
  rfl

/-- The backtest sees a logged quote as one, with its token and its mid. -/
theorem quoteEvent_read (seq : ℕ) (q : PolymarketWsQuote) :
    isPolymarketQuote (quoteEvent seq q) = some true ∧
      symbolOrMarketId (quoteEvent seq q) = some q.tokenId ∧
      polyMid (quoteEvent seq q) = some (1 / 2 * (q.bestBid + q.bestAsk)) := by
  obtain ⟨-, htype, htoken, -, hpayload⟩ := quoteRow_fields seq q
  have hrow : (quoteRow seq q).isObject = true := rfl
  refine ⟨?_, ?_, ?_⟩
  · simp [isPolymarketQuote, quoteEvent, hrow, stringValue, htype, Json.string?]
  · simp [symbolOrMarketId, quoteEvent, htoken, Json.string?]
  · simp only [polyMid, quoteEvent, hpayload]
    rfl

/-- A quote that a search from `t` on may return. -/
def QuoteFrom (t : ℤ) (e : LogEvent) : Prop := isPolymarketQuote e = some true ∧ t ≤ e.sortKeyNs

/-- The earliest quote from `t` on; of several with its key, the first in the timeline. -/
def EarliestQuote (m : List LogEvent) (t : ℤ) (e : LogEvent) : Prop :=
  FirstLeast (QuoteFrom t) LogEvent.sortKeyNs m e

theorem TimeSorted.partitioned {m : List LogEvent} (h : TimeSorted m) (t : ℤ) :
    Partitioned (fun e : LogEvent => decide (e.sortKeyNs < t)) m := by
  refine List.Pairwise.imp ?_ h
  intro a b hab hb
  have hlt : b.sortKeyNs < t := of_decide_eq_true hb
  exact decide_eq_true (lt_of_le_of_lt hab hlt)

theorem firstQuote_scanned {es : List LogEvent} (hsorted : TimeSorted es) {t : ℤ}
    (hge : ∀ e ∈ es, t ≤ e.sortKeyNs) {o : Option LogEvent} (h : firstQuote es = some o) :
    Scanned (QuoteFrom t) LogEvent.sortKeyNs es o := by
  induction es with
  | nil =>
    cases h
    exact scanned_nil
  | cons e es ih =>
    obtain ⟨hle, hrest⟩ := List.pairwise_cons.mp hsorted
    unfold firstQuote at h
    split at h
    · cases h
    · rename_i he
      cases h
      exact Scanned.of_head ⟨he, hge e List.mem_cons_self⟩ fun b hb _ => hle b hb
    · rename_i he
      have htail := ih hrest (fun a ha => hge a (List.mem_cons_of_mem e ha)) h
      have hnot : ∀ a ∈ [e], ¬ QuoteFrom t a := by
        intro a ha hfrom
        rw [List.mem_singleton.mp ha] at hfrom
        exact absurd (he.symm.trans hfrom.1) (by simp)
      exact htail.append_left hnot

theorem firstPoly_scanned {m : List LogEvent} (hm : TimeSorted m) {t : ℤ} {o : Option LogEvent}
    (h : firstPolyAtOrAfter m t = some o) :
    Scanned (QuoteFrom t) LogEvent.sortKeyNs m o := by
  have hpart := hm.partitioned t
  have hge : ∀ e ∈ m.drop (lowerBound (fun e => decide (e.sortKeyNs < t)) m),
      t ≤ e.sortKeyNs := by
    intro e he
    exact not_lt.mp (of_decide_eq_false (mem_drop_lowerBound hpart he))
  have hscanned := firstQuote_scanned (List.Pairwise.drop hm) hge h
  rw [← List.take_append_drop (lowerBound (fun e => decide (e.sortKeyNs < t)) m) m]
  refine hscanned.append_left ?_
  intro a ha hfrom
  have hlt : a.sortKeyNs < t := of_decide_eq_true (mem_take_lowerBound hpart ha)
  exact absurd hfrom.2 (not_le.mpr hlt)

/-! ### The sweep -/

structure Signal where
  atMonoNs : ℤ

structure SimConfig where
  latenciesMs : List ℤ := [25, 50, 100, 200]
  feeBps : ℚ := 10
  slippageBps : ℚ := 5
  missedFillProbability : ℚ := 0
  exitHorizonMs : ℤ := 500

structure SimResultRow where
  latencyMs : ℤ := 0
  attempts : ℕ := 0
  fills : ℕ := 0
  pnlProbabilityPoints : ℚ := 0

/-- `size_t` times `2654435761u`, cast to 32 bits. -/
def deterministicMiss (signalIndex : ℕ) (p : ℚ) : Bool :=
  if p ≤ 0 then false
  else
    let x := signalIndex * 2654435761 % 2 ^ 32
    let u := binary64 ((x % 10000 : ℕ) / 10000)
    decide (u < p)

/-- The two quotes of a counted fill and their mids. -/
structure Fill where
  entry : LogEvent
  exit : LogEvent
  m0 : ℚ
  m1 : ℚ

variable (timeline : List LogEvent) (cfg : SimConfig) (latency : ℤ)

/-- The round of one signal; `some none` where it goes on with the next. -/
def trySignal (si : ℕ) (s : Signal) : Option (Option Fill) :=
  if deterministicMiss si cfg.missedFillProbability then some none
  else
    (int64 (s.atMonoNs + latency * 1000000)).bind fun entryNs =>
    (firstPolyAtOrAfter timeline entryNs).bind fun
      | none => some none
      | some e0 =>
        (int64 (e0.sortKeyNs + cfg.exitHorizonMs * 1000000)).bind fun exitNs =>
        (firstPolyAtOrAfter timeline exitNs).bind fun
          | none => some none
          | some e1 =>
            (polyMid e0).bind fun m0 => (polyMid e1).map fun m1 => some ⟨e0, e1, m0, m1⟩

def adjusted (f : Fill) : ℚ :=
  let feeFrac := cfg.feeBps / 10000 * 2
  let slipFrac := cfg.slippageBps / 10000
  f.m1 - f.m0 - feeFrac - slipFrac

def sweepSignals : ℕ → SimResultRow → List Signal → Option SimResultRow
  | _, row, [] => some row
  | si, row, s :: rest =>
    let row := { row with attempts := row.attempts + 1 }
    (trySignal timeline cfg latency si s).bind fun
      | none => sweepSignals (si + 1) row rest
      | some f => sweepSignals (si + 1) { row with
          fills := row.fills + 1
          pnlProbabilityPoints := row.pnlProbabilityPoints + adjusted cfg f } rest

def runLatencySweep (signals : List Signal) (mergedTimeline : List LogEvent) (cfg : SimConfig) :
    Option (List SimResultRow) :=
  cfg.latenciesMs.mapM fun latency =>
    sweepSignals mergedTimeline cfg latency 0 { latencyMs := latency } signals

end LeadLag.Sim
