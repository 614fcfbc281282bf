import LeadLag.Account.PaperLedger
import LeadLag.Core.SplitOn
import LeadLag.Dashboard.RunnerRows
import LeadLag.Runner.Replay

/-!
# Trades of a run on the page (btc_poly_runner.cpp:1784-2118, 2526-2608)

The trades file of a run, read as the page reads it.
-/

namespace LeadLag.Dashboard
open LeadLag.Core (Json)
open LeadLag.Gamma (slugForBucket parseBucketEpochFromSlug)
open LeadLag.Interaction
open LeadLag.Runner (TradesRow Consumer Libm Config)

/-! ### The file read back -/

theorem iterTradeMarkersFromFile_of_parses {py : Python} {b : ℤ} {lines : List Line}
    (h : ∀ line ∈ lines, ∃ m, parseTradeLine py line = .ok m) :
    iterTradeMarkersFromFile py b lines = .ok (bucketMarkers py b lines) := by
  have hok : ∃ ms, iterTradeMarkersFromFile py b lines = .ok ms := by
    induction lines with
    | nil => exact ⟨[], rfl⟩
    | cons line rest ih =>
      obtain ⟨m, hm⟩ := h line List.mem_cons_self
      obtain ⟨ms, hms⟩ := ih fun l hl => h l (List.mem_cons_of_mem line hl)
      refine ⟨(m.filter fun m => m.bucket = b).toList ++ ms, ?_⟩
      unfold iterTradeMarkersFromFile
      rw [hm, hms]
      rfl
  obtain ⟨ms, hms⟩ := hok
  rw [hms, iterTradeMarkersFromFile_ok hms]

/-- The lines of the trades file, for rows in the order they were written. -/
def fileOf (dump : Json → Line) (rows : List (TradesRow × Stamp)) : List Line :=
  rows.map fun x => dump (rowJson x.1 x.2)

def markers (rows : List (TradesRow × Stamp)) : List TradeMarker :=
  rows.filterMap fun x => marker? x.2 x.1

section File

variable {M : Libm} {cfg : Config} {c : Consumer} {py : Python} {dump : Json → Line}
  {rows : List (TradesRow × Stamp)}

theorem accepted_fileOf (hd : Dumps py dump rows) (h : ∀ x ∈ rows, RowNamed x.1) :
    accepted (parseTradeLine py) (fileOf dump rows) = markers rows := by
  rw [accepted, fileOf, List.filterMap_map, markers]
  refine List.filterMap_congr ?_
  intro x hx
  show (parseTradeLine py (dump (rowJson x.1 x.2))).toOption.join = marker? x.2 x.1
  rw [parseTradeLine_row hd hx (h x hx)]
  rfl

end File

/-! ### One round trip -/

/-- A BUY in the first bucket that is sold when the second one opens. -/
def sampleTrip : List (Runner.Event × Runner.Script) :=
  [(.startup (slugForBucket 0) 0 (some 100) false, Runner.paperAnswers.script),
   (Runner.rolloverTo 300 (slugForBucket 300) 100 none none, Runner.paperAnswers.script),
   (.binTrade 110 300500, Runner.paperAnswers.script),
   (Runner.downQuote "down-300" (slugForBucket 300) 300 (18 / 100) (2 / 10),
      Runner.paperAnswers.script),
   (Runner.upQuote "up-300" (slugForBucket 300) 300 (78 / 100) (8 / 10),
      Runner.paperAnswers.script),
   (Runner.rolloverTo 600 (slugForBucket 600) 100 none none, Runner.paperAnswers.script)]

def sampleTrades : List TradesRow → Bool
  | [.rollover _, .forceSell f, .buy b, .rollover _] =>
    decide (f.slug = slugForBucket 300 ∧ f.side = some .up ∧ b.slug = slugForBucket 300 ∧
      b.side = some .up ∧ b.S = 110 ∧ b.mid = 79 / 100)
  | _ => false

def sampleStamp : Stamp := { wallMs := 300600, others := [], others_key := by simp }

@[irreducible] def buyLine : Line :=
  Core.literal "\x7b\"S\":110.0,\"action\":\"BUY\",\"event_type\":\"trade\","
      String.toList_ofList ++
    Core.literal "\"local_ts_wall_ms\":300600,\"mid\":0.79,\"side\":\"Up\"," String.toList_ofList ++
    Core.literal "\"slug\":\"btc-updown-5m-300\"\x7d" String.toList_ofList

@[irreducible] def forceSellLine : Line :=
  Core.literal "\x7b\"action\":\"FORCE_SELL\",\"event_type\":\"trade\"," String.toList_ofList ++
    Core.literal "\"local_ts_wall_ms\":300600,\"side\":\"Up\"," String.toList_ofList ++
    Core.literal "\"slug\":\"btc-updown-5m-300\"\x7d" String.toList_ofList

@[irreducible] def rolloverLine : Line :=
  Core.literal "\x7b\"event_type\":\"rollover\",\"local_ts_wall_ms\":300600\x7d"
    String.toList_ofList

/-- Of the rows of the run. -/
def sampleDump (j : Json) : Line :=
  match (j.field? "action").bind Json.string? with
  | some "BUY" => buyLine
  | some "FORCE_SELL" => forceSellLine
  | _ => rolloverLine

def buyValue : Value :=
  .dict [("event_type", .str "trade"), ("action", .str "BUY"), ("slug", .str "btc-updown-5m-300"),
    ("side", .str "Up"), ("local_ts_wall_ms", .int 300600), ("S", .float (.finite 110)),
    ("mid", .float (.finite (79 / 100)))]

def forceSellValue : Value :=
  .dict [("event_type", .str "trade"), ("action", .str "FORCE_SELL"),
    ("slug", .str "btc-updown-5m-300"), ("side", .str "Up"), ("local_ts_wall_ms", .int 300600)]

def rolloverValue : Value :=
  .dict [("event_type", .str "rollover"), ("local_ts_wall_ms", .int 300600)]

def rowsLoads (line : Line) : Raises Value :=
  if line = buyLine then .ok buyValue
  else if line = forceSellLine then .ok forceSellValue
  else if line = rolloverLine then .ok rolloverValue
  else .error .decode

def rowsPython : Python where
  loads := rowsLoads
  intOfStr := Core.stoll
  floatOfStr _ := none
  strOf _ := ""

theorem rowsLoads_lines : rowsLoads buyLine = .ok buyValue ∧
    rowsLoads forceSellLine = .ok forceSellValue ∧ rowsLoads rolloverLine = .ok rolloverValue := by
  have hforce : forceSellLine ≠ buyLine := by decide +kernel
  have hroll : rolloverLine ≠ buyLine ∧ rolloverLine ≠ forceSellLine := by decide +kernel
  refine ⟨?_, ?_, ?_⟩
  · rw [rowsLoads, if_pos rfl]
  · rw [rowsLoads, if_neg hforce, if_pos rfl]
  · rw [rowsLoads, if_neg hroll.1, if_neg hroll.2, if_pos rfl]

def stampAll (rows : List TradesRow) : List (TradesRow × Stamp) :=
  rows.map fun row => (row, sampleStamp)

theorem sampleTrades_dumps {rows : List TradesRow} (h : sampleTrades rows = true) :
    Dumps rowsPython sampleDump (stampAll rows.reverse) := by
  obtain ⟨hbuy, hforce, hroll⟩ := rowsLoads_lines
  unfold sampleTrades at h
  split at h
  · rename_i r₁ f b r₀
    obtain ⟨hfs, hfside, hbs, hbside, hS, hmid⟩ := of_decide_eq_true h
    refine ⟨?_, ?_⟩
    · intro x hx
      have hrows : x ∈ [(TradesRow.rollover r₀, sampleStamp), (TradesRow.buy b, sampleStamp),
        (TradesRow.forceSell f, sampleStamp), (TradesRow.rollover r₁, sampleStamp)] := hx
      simp only [List.mem_cons, List.not_mem_nil, or_false] at hrows
      rcases hrows with rfl | rfl | rfl | rfl
      · exact hroll
      · show rowsLoads buyLine = _
        rw [hbuy]
        simp only [rowJson, rowFields, hbs, hbside, hS, hmid]
        rfl
      · show rowsLoads forceSellLine = _
        rw [hforce]
        simp only [rowJson, rowFields, hfs, hfside]
        rfl
      · exact hroll
    · intro e _ hfits
      show Core.stoll (toString e) = some e
      rw [Core.stoll_toString, if_pos hfits]
  · cases h

theorem sample_reachable : ∃ c, ((Runner.runner Runner.coarse Runner.quickEntry).restrict
    fun _ l => announcesBucket l = true).Reachable c ∧ sampleTrades c.trades = true :=
  Runner.exists_checked_of_replay Runner.coarse Runner.quickEntry (fun _ l => announcesBucket l)
    sampleTrip (fun c => sampleTrades c.trades) (by decide +kernel)

theorem map_stampAll (rows : List TradesRow) : (stampAll rows).map Prod.fst = rows := by
  rw [stampAll, List.map_map]
  exact List.map_id rows

/-! ### The markers of the file -/

section File

variable {M : Libm} {cfg : Config} {c : Consumer} {py : Python} {dump : Json → Line}
  {rows : List (TradesRow × Stamp)}

/-- The page reads the trades file of a run as the trades that were made: a
marker for every BUY, SELL and FORCE_SELL, in order, in the bucket of its slug,
and none for another row. A change of bucket never fails on it. -/
theorem trades_file_read_back (hd : Dumps py dump rows)
    (h : ((Runner.runner M cfg).restrict fun _ l => announcesBucket l = true).Reachable c)
    (hrows : rows.map Prod.fst = c.trades.reverse) :
    accepted (parseTradeLine py) (fileOf dump rows) = markers rows ∧
      ∀ b, iterTradeMarkersFromFile py b (fileOf dump rows) =
        .ok ((markers rows).filter fun m => m.bucket = b) := by
  have inv := slugInv_of_reachable h
  have hnamed : ∀ x ∈ rows, RowNamed x.1 := by
    intro x hx
    have hmem : x.1 ∈ c.trades.reverse := hrows ▸ List.mem_map_of_mem hx
    exact inv.rows x.1 (List.mem_reverse.mp hmem)
  have hread := accepted_fileOf hd hnamed
  refine ⟨hread, ?_⟩
  intro b
  have hparses : ∀ line ∈ fileOf dump rows, ∃ m, parseTradeLine py line = .ok m := by
    intro line hline
    obtain ⟨x, hx, rfl⟩ := List.mem_map.mp hline
    exact ⟨_, parseTradeLine_row hd hx (hnamed x hx)⟩
  rw [iterTradeMarkersFromFile_of_parses hparses, bucketMarkers, hread]

end File

theorem trades_file_read_back_sample : ∃ rows : List (TradesRow × Stamp),
    sampleTrades (rows.map Prod.fst).reverse = true ∧
      accepted (parseTradeLine rowsPython) (fileOf sampleDump rows) = markers rows ∧
      ∀ b, iterTradeMarkersFromFile rowsPython b (fileOf sampleDump rows) =
        .ok ((markers rows).filter fun m => m.bucket = b) := by
  obtain ⟨c, hc, htrades⟩ := sample_reachable
  have hrows := map_stampAll c.trades.reverse
  refine ⟨stampAll c.trades.reverse, ?_, ?_⟩
  · rw [hrows, List.reverse_reverse]
    exact htrades
  · exact trades_file_read_back (sampleTrades_dumps htrades) hc hrows

/-! ### Round trips on the page -/

/-- A sale is of the position bought just before: the same bucket and side. -/
def Follows (m m' : TradeMarker) : Prop :=
  m.kind = .buy ∧ m'.kind = .sell ∧ m'.bucket = m.bucket ∧ m'.side = m.side ∧ m'.slug = m.slug ∨
    m.kind = .sell ∧ m'.kind = .buy

section RoundTrips

variable {rows : List (TradesRow × Stamp)} {initial : ℚ}

/-- What a marker takes of the entry in the ledger. -/
structure MarksEntry (m : TradeMarker) (e : Ledger.Entry Account.PosKey) : Prop where
  kind : m.kind = if e.opens then .buy else .sell
  bucket : m.bucket = (parseBucketEpochFromSlug e.pos.slug).getD 0
  side : m.side = sideText e.pos.side
  slug : m.slug = e.pos.slug

theorem marker?_entry? (st : Stamp) (row : TradesRow) :
    (∃ m e, marker? st row = some m ∧ Account.entry? row = some e ∧ MarksEntry m e) ∨
      marker? st row = none ∧ Account.entry? row = none := by
  cases row with
  | buy | sell | forceSell => exact .inl ⟨_, _, rfl, rfl, rfl, rfl, rfl, rfl⟩
  | error | rollover => exact .inr ⟨rfl, rfl⟩

theorem markers_entries :
    List.Forall₂ MarksEntry (markers rows) (Account.entries (rows.map Prod.fst)) := by
  induction rows with
  | nil => exact .nil
  | cons x rows ih =>
    rw [markers, List.filterMap_cons, List.map_cons, Account.entries, List.filterMap_cons]
    rcases marker?_entry? x.2 x.1 with ⟨m, e, hm, he, hme⟩ | ⟨hm, he⟩
    · rw [hm, he]
      exact .cons hme ih
    · rw [hm, he]
      exact ih

theorem follows_of_precedes {m m' : TradeMarker} {e e' : Ledger.Entry Account.PosKey}
    (hm : MarksEntry m e) (hm' : MarksEntry m' e') (h : e.Precedes e') : Follows m m' := by
  rcases h with ⟨hopen, hclose, hpos⟩ | ⟨hclose, hopen⟩
  · refine .inl ⟨?_, ?_, ?_, ?_, ?_⟩
    · rw [hm.kind, if_pos hopen]
    · rw [hm'.kind, hclose]
      rfl
    · rw [hm'.bucket, hm.bucket, hpos]
    · rw [hm'.side, hm.side, hpos]
    · rw [hm'.slug, hm.slug, hpos]
  · refine .inr ⟨?_, ?_⟩
    · rw [hm.kind, hclose]
      rfl
    · rw [hm'.kind, if_pos hopen]

theorem isChain_follows {ms : List TradeMarker} {es : List (Ledger.Entry Account.PosKey)}
    (h : List.Forall₂ MarksEntry ms es) (hes : es.IsChain Ledger.Entry.Precedes) :
    ms.IsChain Follows := by
  induction h with
  | nil => exact .nil
  | cons hm hrest ih =>
    have htail := ih hes.tail
    cases hrest with
    | nil => exact .singleton _
    | cons hm' _ => exact .cons_cons (follows_of_precedes hm hm' hes.rel) htail

theorem head?_of_forall₂ {ms : List TradeMarker} {es : List (Ledger.Entry Account.PosKey)}
    {m : TradeMarker} (h : List.Forall₂ MarksEntry ms es) (hm : ms.head? = some m) :
    ∃ e, es.head? = some e ∧ MarksEntry m e := by
  cases h with
  | nil => cases hm
  | cons hme _ =>
    obtain rfl := Option.some.inj hm
    exact ⟨_, rfl, hme⟩

/-- In every state of a paper run the page marks whole round trips: a BUY first,
then SELL and BUY in turn, each SELL in the bucket and on the side of its BUY,
and the last marker is a BUY exactly while a position is open. -/
theorem paper_markers_pair {M : Libm} {cfg : Config} {c : Consumer} {py : Python}
    {dump : Json → Line} (hl : cfg.liveExecution = false)
    (hforce : cfg.disableRolloverForceSell = false) (hcfg : cfg.Accepted)
    (hrange : cfg.useBuyAskRange = true) (hd : Dumps py dump rows)
    (h : ((Runner.runner M cfg).restrict fun _ l => announcesBucket l = true).Reachable c)
    (hrows : rows.map Prod.fst = c.trades.reverse) :
    let ms := accepted (parseTradeLine py) (fileOf dump rows)
    ms.IsChain Follows ∧ (∀ m, ms.head? = some m → m.kind = .buy) ∧
      (c.paper.havePos = true ↔ ∃ m, ms.getLast? = some m ∧ m.kind = .buy) := by
  intro ms
  have hslugs := slugInv_of_reachable h
  have inv := (Account.ledgerInv_runner hl hforce hcfg hrange).reachable h.of_restrict
  have hms : ms = markers rows := by
    refine accepted_fileOf hd ?_
    intro x hx
    have hmem : x.1 ∈ c.trades.reverse := hrows ▸ List.mem_map_of_mem hx
    exact hslugs.rows x.1 (List.mem_reverse.mp hmem)
  have hentries : List.Forall₂ MarksEntry ms (Account.entries c.trades).reverse := by
    have hall : List.Forall₂ MarksEntry (markers rows)
        (Account.entries (rows.map Prod.fst)) := markers_entries
    rw [hrows, Account.entries, List.filterMap_reverse] at hall
    rw [hms]
    exact hall
  refine ⟨?_, ?_, ?_⟩
  · exact isChain_follows hentries (List.isChain_reverse.mpr inv.wellFormed.isChain)
  · intro m hm
    obtain ⟨e, he, hme⟩ := head?_of_forall₂ hentries hm
    rw [List.head?_reverse] at he
    rw [hme.kind, if_pos (inv.wellFormed.getLast_opens he)]
  · have hrev : List.Forall₂ MarksEntry ms.reverse (Account.entries c.trades) := by
      have hback := List.rel_reverse hentries
      rwa [List.reverse_reverse] at hback
    have hlast : c.paper.havePos = true ↔ ∃ e rest, Account.entries c.trades = e :: rest ∧
        e.opens = true := by
      rw [← Ledger.openPos_isSome, inv.position]
      cases c.paper.havePos <;> simp
    rw [hlast]
    constructor
    · intro hopen
      obtain ⟨e, rest, heq, hopens⟩ := hopen
      rw [heq] at hrev
      obtain ⟨m, ms', hme, -, hms'⟩ := List.forall₂_cons_right_iff.mp hrev
      refine ⟨m, ?_, ?_⟩
      · rw [← List.head?_reverse, hms']
        rfl
      · rw [hme.kind, if_pos hopens]
    · intro hbuy
      obtain ⟨m, hm, hkind⟩ := hbuy
      rw [← List.head?_reverse] at hm
      obtain ⟨e, he, hme⟩ := head?_of_forall₂ hrev hm
      obtain ⟨rest, heq⟩ := List.head?_eq_some_iff.mp he
      refine ⟨e, rest, heq, ?_⟩
      by_contra hclosed
      rw [hme.kind, if_neg hclosed] at hkind
      cases hkind

end RoundTrips

theorem paper_markers_pair_sample : ∃ (c : Consumer) (rows : List (TradesRow × Stamp)),
    sampleTrades c.trades = true ∧ rows.map Prod.fst = c.trades.reverse ∧
      (accepted (parseTradeLine rowsPython) (fileOf sampleDump rows)).IsChain Follows := by
  obtain ⟨c, hc, htrades⟩ := sample_reachable
  have hrows := map_stampAll c.trades.reverse
  exact ⟨c, stampAll c.trades.reverse, htrades, hrows,
    (paper_markers_pair rfl rfl Runner.quickEntry_accepted rfl (sampleTrades_dumps htrades) hc
      hrows).1⟩

end LeadLag.Dashboard
