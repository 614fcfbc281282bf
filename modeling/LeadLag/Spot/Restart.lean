import LeadLag.Spot.HistoryOrder
import LeadLag.Spot.Prefill

/-!
# A restart resumes the history (btc_poly_runner.cpp:1199-1216, 2634-2650)

The ticks of a session are in its file, one whole line each, until the next start
has read them. A long file is read from the middle.
-/

namespace LeadLag.Spot
open LeadLag.Core LeadLag.Execution LeadLag.Interaction LeadLag.Runner LeadLag.Timeline
open LeadLag.Rtds (jsonToMs)
open LeadLag.Sim (getDouble)
open LeadLag.TokenFeed (stringValue)

/-! ### Writing -/

/-- The clocks and the number of a row. -/
structure RowStamp where
  monoNs : ℤ
  wallMs : ℤ
  seq : ℕ

def chainlinkRow (p : ℤ × ℚ) (st : RowStamp) : Json :=
  .obj [("schema_version", .int 1), ("source", .str "polymarket_rtds_chainlink"),
    ("symbol", .str "BTC/USD"), ("payload_ts_ms", .int p.1), ("local_ts_mono_ns", .int st.monoNs),
    ("local_ts_wall_ms", .int st.wallMs), ("seq", .int st.seq), ("event_type", .str "chainlink"),
    ("payload", .obj [("price", .float p.2)])]

/-- The ticks a run records, in the order of its events. -/
def recorded (ls : List Label) : List (ℤ × ℚ) :=
  ls.filterMap fun
    | .event (.chainlinkSpot tsMs px) _ => some (tsMs, px)
    | _ => none

/-- The lines of the rows, each with its end. -/
def sessionFile (dump : Json → List Char) (rows : List ((ℤ × ℚ) × RowStamp)) : List Char :=
  joinLines '\n' (rows.map fun x => dump (chainlinkRow x.1 x.2))

/-- A row is dumped on one line, and parses to itself. -/
structure Dumped (rd : Reader) (dump : Json → List Char) (x : (ℤ × ℚ) × RowStamp) : Prop where
  parse : rd.parse (dump (chainlinkRow x.1 x.2)) = some (chainlinkRow x.1 x.2)
  oneLine : '\n' ∉ dump (chainlinkRow x.1 x.2)
  nonempty : dump (chainlinkRow x.1 x.2) ≠ []
  int64 : fitsInt64 x.1.1 = true

/-- What a start takes of the ticks. -/
def fresh (minTs : ℤ) (p : ℤ × ℚ) : Bool := decide (0 < p.1 ∧ 0 < p.2) && decide (minTs ≤ p.1)

/-! ### A row read back -/

section Row

variable {rd : Reader} {dump : Json → List Char} {minTs : ℤ} {x : (ℤ × ℚ) × RowStamp}

theorem jsonToMs_int64 {outOfRange : ℚ → ℤ} {e : ℤ} (h : fitsInt64 e = true) :
    jsonToMs outOfRange (.int e) = some e := by
  have hrange : -2 ^ 63 ≤ e ∧ e < 2 ^ 63 := of_decide_eq_true h
  show some (e.bmod (2 ^ 64)) = some e
  rw [Int.bmod_eq_of_le]
  · omega
  · omega

theorem parse_chainlinkRow (p : ℤ × ℚ) (st : RowStamp) (h : fitsInt64 p.1 = true) :
    parseChainlinkJsonlRow rd (chainlinkRow p st) =
      if 0 < p.1 ∧ 0 < p.2 then some p else none := by
  have hts : jsonToMs rd.outOfRange (.int p.1) = some p.1 := jsonToMs_int64 h
  have hrow : parseChainlinkJsonlRow rd (chainlinkRow p st) =
      (jsonToMs rd.outOfRange (.int p.1)).bind fun ts =>
        if 0 < ts ∧ 0 < p.2 then some (ts, p.2) else none := rfl
  rw [hrow, hts]
  rfl

theorem lineTick?_dumped (h : Dumped rd dump x) :
    lineTick? rd minTs (dump (chainlinkRow x.1 x.2)) =
      if fresh minTs x.1 then some x.1 else none := by
  rw [lineTick?, if_neg h.nonempty, h.parse, Option.bind_some, parse_chainlinkRow x.1 x.2 h.int64]
  by_cases hpos : 0 < x.1.1 ∧ 0 < x.1.2
  · have hfresh : fresh minTs x.1 = decide (minTs ≤ x.1.1) := by simp [fresh, hpos]
    rw [if_pos hpos, Option.filter_some, hfresh]
  · have hold : fresh minTs x.1 = false := by simp [fresh, hpos]
    rw [if_neg hpos, hold]
    rfl

end Row

/-! ### The file read back -/

section File

variable {rd : Reader} {dump : Json → List Char} {minTs : ℤ} {rows : List ((ℤ × ℚ) × RowStamp)}

theorem isNewline_of_line (h : ∀ x ∈ rows, Dumped rd dump x) :
    ∀ l ∈ rows.map (fun x => dump (chainlinkRow x.1 x.2)), ∀ c ∈ l, isNewline c = false := by
  intro l hl c hc
  obtain ⟨x, hx, rfl⟩ := List.mem_map.mp hl
  refine decide_eq_false ?_
  intro hnewline
  exact (h x hx).oneLine (hnewline ▸ hc)

/-- The tail of the file is the file without some of its first lines. -/
theorem tailOf_sessionFile (h : ∀ x ∈ rows, Dumped rd dump x) :
    ∃ k, tailOf (sessionFile dump rows) = sessionFile dump (rows.drop k) ∧
      ((sessionFile dump rows).length ≤ kMaxTailBytes → k = 0) := by
  by_cases hshort : (sessionFile dump rows).length ≤ kMaxTailBytes
  · exact ⟨0, by rw [tailOf, if_pos hshort, List.drop_zero], fun _ => rfl⟩
  · have hcut : (sessionFile dump rows).length - kMaxTailBytes <
        (joinLines '\n' (rows.map fun x => dump (chainlinkRow x.1 x.2))).length := by
      have hmax : 0 < kMaxTailBytes := by decide
      show (sessionFile dump rows).length - kMaxTailBytes < (sessionFile dump rows).length
      omega
    obtain ⟨hmem, k, hk⟩ := afterFirst_drop_joinLines (p := isNewline) (by rfl)
      (isNewline_of_line h) hcut
    have hnewline : '\n' ∈ (sessionFile dump rows).drop
        ((sessionFile dump rows).length - kMaxTailBytes) := hmem
    refine ⟨k, ?_, fun hle => absurd hle hshort⟩
    rw [tailOf, if_neg hshort]
    show (if '\n' ∈ _ then _ else _) = _
    rw [if_pos hnewline]
    show afterFirst isNewline ((joinLines '\n' _).drop _) = joinLines '\n' _
    rw [List.map_drop]
    exact hk

theorem filterMap_lines (h : ∀ x ∈ rows, Dumped rd dump x) :
    (rows.map fun x => dump (chainlinkRow x.1 x.2)).filterMap (lineTick? rd minTs) =
      (rows.map Prod.fst).filter (fresh minTs) := by
  induction rows with
  | nil => rfl
  | cons x rows ih =>
    have hx : lineTick? rd minTs (dump (chainlinkRow x.1 x.2)) =
        if fresh minTs x.1 then some x.1 else none := lineTick?_dumped (h x List.mem_cons_self)
    have hrest := ih fun y hy => h y (List.mem_cons_of_mem x hy)
    rw [List.map_cons, List.map_cons]
    by_cases hfresh : fresh minTs x.1 = true
    · rw [if_pos hfresh] at hx
      rw [List.filterMap_cons_some hx, List.filter_cons_of_pos hfresh, hrest]
    · rw [if_neg hfresh] at hx
      rw [List.filterMap_cons_none hx, List.filter_cons_of_neg hfresh, hrest]

theorem fileTicks_sessionFile (h : ∀ x ∈ rows, Dumped rd dump x) :
    ∃ k, fileTicks rd minTs (some (sessionFile dump rows)) =
        ((rows.map Prod.fst).drop k).filter (fresh minTs) ∧
      ((sessionFile dump rows).length ≤ kMaxTailBytes → k = 0) := by
  obtain ⟨k, htail, hk⟩ := tailOf_sessionFile h
  refine ⟨k, ?_, hk⟩
  have hdrop : ∀ x ∈ rows.drop k, Dumped rd dump x := fun x hx => h x (List.mem_of_mem_drop hx)
  have hempty : lineTick? rd minTs [] = none := if_pos rfl
  show ((tailOf (sessionFile dump rows)).splitOnP isNewline).filterMap (lineTick? rd minTs) = _
  rw [htail, sessionFile, splitOnP_joinLines (by rfl) (isNewline_of_line hdrop),
    List.filterMap_append, filterMap_lines hdrop, List.filterMap_cons_none hempty]
  simp [List.map_drop]

end File

/-! ### Two sessions -/

/-- The spot of the session is Chainlink's, and no tick is of a time after `nowMs`. -/
def chainlinkUntil (nowMs : ℤ) : Label → Bool
  | .event (.binBook ..) _ | .event (.binTrade ..) _ => false
  | .event (.chainlinkSpot tsMs _) _ => decide (tsMs ≤ nowMs)
  | _ => true

section Sessions

variable {M : Libm} {cfg : Config} {hist : History} {c : Consumer} {ls : List Label} {nowMs : ℤ}

theorem recorded_concat (ls : List Label) (l : Label) :
    recorded (ls ++ [l]) = recorded ls ++ recorded [l] := by
  unfold recorded
  rw [List.filterMap_append]

/-- A tick that is handled is recorded. -/
theorem recorded_singleton {l : Label} {c' : Consumer} (h : Step M cfg c l c')
    (hl : chainlinkUntil nowMs l = true) :
    recorded [l] = (l.spotTick?.map SpotTick.point).toList ∧
      ∀ tick, l.spotTick? = some tick → tick.wallMs ≤ nowMs := by
  cases h with
  | update _ _ => exact ⟨rfl, fun tick htick => by cases htick⟩
  | @event _ e tr _ _ he =>
    cases e with
    | binBook | binTrade => cases hl
    | chainlinkSpot tsMs px =>
      obtain ⟨tick, hot, tr', htick, -, -⟩ := take_spot rfl he
      have hle : tsMs ≤ nowMs := of_decide_eq_true hl
      unfold Label.spotTick? at htick
      split at htick
      · rename_i heq
        cases heq
      · rename_i heq
        cases heq
      · rename_i heq
        cases heq
        exact ⟨rfl, fun tick' htick' => by cases htick'; exact hle⟩
      · cases htick
    | polyQuote | rollover | idle | startup => exact ⟨rfl, fun tick htick => by cases htick⟩

theorem session_run
    (h : ((runner M cfg).restrict fun _ l => chainlinkUntil nowMs l = true).Run
      (.start cfg hist) ls c) :
    received hist ls = hist ++ recorded ls ∧
      TrimmedTo (nowMs - oneHourMs) (received hist ls) c.hot.binHist := by
  induction h with
  | nil =>
    rw [received_nil]
    exact ⟨(List.append_nil hist).symm, .refl _ hist⟩
  | snoc hr hst ih =>
    rename_i ls c c' l
    obtain ⟨hreceived, htrim⟩ := ih
    obtain ⟨hrec, hle⟩ := recorded_singleton hst.1 hst.2
    rw [recorded_concat, hrec]
    cases ht : l.spotTick? with
    | none =>
      rw [(step_noTick hst.1 ht).2, received_concat_other ht]
      exact ⟨by rw [hreceived]; simp, htrim⟩
    | some tick =>
      rw [step_binHist hst.1 ht, received_concat_tick ht]
      refine ⟨by rw [hreceived]; simp, (htrim.concat tick.point).trim ?_⟩
      have hfloor :
          histTrimFloorMs cfg c.hot.activeEpoch tick.wallMs ≤ tick.wallMs - oneHourMs := by
        unfold histTrimFloorMs
        split
        · exact min_le_left _ _
        · exact le_rfl
      have hnow := hle tick ht
      omega

/-- A start after a session, with no file but that of the session, has in its
history the ticks of the last hour that the session itself received: all that
the session would have now, but for what it had been started with. -/
theorem restart_resumes_history {rd : Reader} {dump : Json → List Char}
    {rows : List ((ℤ × ℚ) × RowStamp)} (others : ℕ)
    (hrun : ((runner M cfg).restrict fun _ l => chainlinkUntil nowMs l = true).Run
      (.start cfg hist) ls c)
    (hrows : rows.map Prod.fst = recorded ls) (h : ∀ x ∈ rows, Dumped rd dump x)
    (hlen : (sessionFile dump rows).length ≤ kMaxTailBytes)
    (horder : (recorded ls).Pairwise fun p q => p.1 < q.1)
    (hpos : ∀ p ∈ recorded ls, 0 < p.1 ∧ 0 < p.2) :
    let start := prefillBinHistFromChainlinkJsonl rd nowMs
      (List.replicate others none ++ [some (sessionFile dump rows)]) []
    let recent := fun p : ℤ × ℚ => decide (nowMs - oneHourMs ≤ p.1)
    hist.filter recent ++ start = c.hot.binHist.filter recent := by
  intro start recent
  obtain ⟨hreceived, htrim⟩ := session_run hrun
  have hfresh : (recorded ls).filter (fresh (nowMs - oneHourMs)) = (recorded ls).filter recent := by
    refine List.filter_congr ?_
    intro p hp
    have hp' := hpos p hp
    simp [fresh, recent, hp']
  have hfiles : (List.replicate others none ++ [some (sessionFile dump rows)]).flatMap
      (fileTicks rd (nowMs - oneHourMs)) = (recorded ls).filter recent := by
    obtain ⟨k, hk, hzero⟩ : ∃ k, fileTicks rd (nowMs - oneHourMs)
          (some (sessionFile dump rows)) =
        ((rows.map Prod.fst).drop k).filter (fresh (nowMs - oneHourMs)) ∧
          ((sessionFile dump rows).length ≤ kMaxTailBytes → k = 0) := fileTicks_sessionFile h
    have hnone : (List.replicate others none).flatMap (fileTicks rd (nowMs - oneHourMs)) = [] := by
      rw [List.flatMap_eq_nil_iff]
      intro file hfile
      rw [List.eq_of_mem_replicate hfile]
      rfl
    rw [List.flatMap_append, hnone, List.nil_append, List.flatMap_singleton, hk, hzero hlen,
      List.drop_zero, hrows, hfresh]
  have hstart : start = (recorded ls).filter recent := by
    show prefillBinHistFromChainlinkJsonl rd nowMs _ [] = _
    rw [prefill_eq, hfiles]
    exact lastWrites_of_ordered (horder.sublist List.filter_sublist)
  have hold : c.hot.binHist.filter recent = (received hist ls).filter recent := by
    obtain ⟨pre, hpre, hdropped⟩ := htrim
    have hnone : pre.filter recent = [] := by
      rw [List.filter_eq_nil_iff]
      intro p hp
      rw [decide_eq_true_eq, not_le]
      exact hdropped p hp
    rw [hpre, List.filter_append, hnone, List.nil_append]
  rw [hold, hreceived, List.filter_append, hstart]

end Sessions

/-! ### One tick -/

def oneTick : ℤ × ℚ := (300500, 110)

def oneStamp : RowStamp := { monoNs := 5, wallMs := 300501, seq := 1 }

@[irreducible] def oneLine : List Char :=
  Core.literal "\x7b\"event_type\":\"chainlink\",\"local_ts_mono_ns\":5," String.toList_ofList ++
    Core.literal "\"local_ts_wall_ms\":300501,\"payload\":\x7b\"price\":110.0\x7d,"
      String.toList_ofList ++
    Core.literal "\"payload_ts_ms\":300500,\"schema_version\":1,\"seq\":1," String.toList_ofList ++
    Core.literal "\"source\":\"polymarket_rtds_chainlink\",\"symbol\":\"BTC/USD\"\x7d"
      String.toList_ofList

def oneReader : Reader where
  parse line := if line = oneLine then some (chainlinkRow oneTick oneStamp) else none
  outOfRange _ := -2 ^ 63

theorem oneLine_dumped : Dumped oneReader (fun _ => oneLine) (oneTick, oneStamp) where
  parse := if_pos rfl
  oneLine := by decide +kernel
  nonempty := by decide +kernel
  int64 := by decide

theorem restart_resumes_history_sample : ∃ c : Consumer,
    c.hot.binHist.filter (fun p => decide (300600 - oneHourMs ≤ p.1)) = [oneTick] ∧
      [] ++ prefillBinHistFromChainlinkJsonl oneReader 300600
          (List.replicate 1 none ++ [some (sessionFile (fun _ => oneLine) [(oneTick, oneStamp)])])
          [] =
        c.hot.binHist.filter fun p => decide (300600 - oneHourMs ≤ p.1) := by
  have hreplay : ((replayTake coarse quickEntry (.start quickEntry []) (.chainlinkSpot 300500 110)
      paperAnswers.script).any fun x => decide (x.2.hot.binHist = [oneTick])) = true := by
    decide +kernel
  obtain ⟨⟨tr, c⟩, htake, hhist⟩ := (Option.any_eq_true _ _).mp hreplay
  have hrun : ((runner coarse quickEntry).restrict fun _ l => chainlinkUntil 300600 l = true).Run
      (.start quickEntry []) [.event (.chainlinkSpot 300500 110) tr] c :=
    Lts.run_singleton.mpr ⟨replayTake_step htake, by rfl⟩
  have hshort : (sessionFile (fun _ => oneLine) [(oneTick, oneStamp)]).length ≤ kMaxTailBytes := by
    decide +kernel
  refine ⟨c, ?_, ?_⟩
  · rw [of_decide_eq_true hhist]
    decide
  · refine restart_resumes_history 1 hrun rfl ?_ hshort (List.pairwise_singleton _ _) ?_
    · intro x hx
      rw [List.mem_singleton.mp hx]
      exact oneLine_dumped
    · intro p hp
      obtain rfl : p = oneTick := List.mem_singleton.mp hp
      decide

end LeadLag.Spot
