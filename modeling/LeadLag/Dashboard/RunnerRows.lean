import LeadLag.Dashboard.TradeMarkers
import LeadLag.Gamma.Text
import LeadLag.Runner.HotUpdate

/-!
# Trades of the strategy on the page (btc_poly_runner.cpp:1695-2118, 2398-2608)

The runner writes a row for every order and every change of bucket, and the page
reads them back. A forced sale is written without `mid` and `S`.
-/

namespace LeadLag.Dashboard
open LeadLag.Core (Json fitsInt64 digitValue)
open LeadLag.Execution (Outcome Trace)
open LeadLag.Gamma (slugForBucket parseBucketEpochFromSlug kPrefix)
open LeadLag.Interaction
open LeadLag.Runner (TradesRow ErrorAction Consumer Libm Config Executed ForceSold NewRows)

/-! ### JSON read by Python -/

mutual

def Value.ofJson : Json → Value
  | .null => .none
  | .bool b => .bool b
  | .int i => .int i
  | .float x => .float (.finite x)
  | .str s => .str s
  | .arr xs => .list (Value.ofJsons xs)
  | .obj fields => .dict (Value.ofFields fields)

def Value.ofJsons : List Json → List Value
  | [] => []
  | j :: js => Value.ofJson j :: Value.ofJsons js

def Value.ofFields : List (String × Json) → List (String × Value)
  | [] => []
  | (key, j) :: fields => (key, Value.ofJson j) :: Value.ofFields fields

end

theorem Value.lookup_ofFields (key : String) (fields : List (String × Json)) :
    (Value.ofFields fields).lookup key = (fields.lookup key).map Value.ofJson := by
  induction fields with
  | nil => rfl
  | cons field fields ih =>
    obtain ⟨k, j⟩ := field
    show ((k, Value.ofJson j) :: Value.ofFields fields).lookup key = _
    rw [List.lookup_cons, List.lookup_cons, ih]
    split <;> rfl

/-! ### Rows -/

def sideText : Option Outcome → String
  | some .up => "Up"
  | some .down => "Down"
  | none => ""

def actionText : ErrorAction → String
  | .buy => "BUY"
  | .buyNoFill => "BUY_NO_FILL"
  | .sellBalanceQuery => "SELL_BALANCE_QUERY"
  | .sellSkippedZero => "SELL_SKIPPED_ZERO"
  | .sellStopIncomplete => "SELL_STOP_INCOMPLETE"
  | .sell => "SELL"
  | .forceSellBalanceQuery => "FORCE_SELL_BALANCE_QUERY"
  | .forceSellSkippedZero => "FORCE_SELL_SKIPPED_ZERO"
  | .forceSell => "FORCE_SELL"

/-- What the reader of the trades file looks at. -/
def readKeys : List String :=
  ["event_type", "action", "slug", "local_ts_wall_ms", "side", "mid", "S"]

/-- When a row was written, and what else it holds. -/
structure Stamp where
  wallMs : ℤ
  others : List (String × Json)
  others_key : ∀ f ∈ others, f.1 ∉ readKeys

def rowFields (wallMs : ℤ) : TradesRow → List (String × Json)
  | .buy r => [("event_type", .str "trade"), ("action", .str "BUY"), ("slug", .str r.slug),
      ("side", .str (sideText r.side)), ("local_ts_wall_ms", .int wallMs), ("S", .float r.S),
      ("mid", .float r.mid)]
  | .sell r => [("event_type", .str "trade"), ("action", .str "SELL"), ("slug", .str r.slug),
      ("side", .str (sideText r.side)), ("local_ts_wall_ms", .int wallMs), ("S", .float r.S),
      ("mid", .float r.mid)]
  | .forceSell r => [("event_type", .str "trade"), ("action", .str "FORCE_SELL"),
      ("slug", .str r.slug), ("side", .str (sideText r.side)), ("local_ts_wall_ms", .int wallMs)]
  | .error r => [("event_type", .str "error"), ("action", .str (actionText r.action)),
      ("slug", .str r.slug), ("side", .str (sideText r.side)), ("local_ts_wall_ms", .int wallMs)]
  | .rollover _ => [("event_type", .str "rollover"), ("local_ts_wall_ms", .int wallMs)]

def rowJson (row : TradesRow) (st : Stamp) : Json := .obj (rowFields st.wallMs row ++ st.others)

/-- The rows have in the file the values they were written with. -/
structure Dumps (py : Python) (dump : Json → Line) (rows : List (TradesRow × Stamp)) : Prop where
  loads : ∀ x ∈ rows, py.loads (dump (rowJson x.1 x.2)) = .ok (.ofJson (rowJson x.1 x.2))
  intOfStr : ∀ e : ℤ, 0 ≤ e → fitsInt64 e = true → py.intOfStr (toString e) = some e

section Fields

variable {key : String} {row : TradesRow} {st : Stamp}

theorem lookup_others (h : key ∈ readKeys) : st.others.lookup key = none := by
  rw [List.lookup_eq_none_iff]
  intro f hf
  have hne : f.1 ≠ key := fun heq => st.others_key f hf (heq ▸ h)
  simpa using hne.symm

theorem get_rowJson (h : key ∈ readKeys) : (Value.ofJson (rowJson row st)).get key =
    .ok (((rowFields st.wallMs row).lookup key).map Value.ofJson) := by
  show Except.ok ((Value.ofFields (rowFields st.wallMs row ++ st.others)).lookup key) = _
  rw [Value.lookup_ofFields, List.lookup_append, lookup_others h, Option.or_none]

end Fields

/-! ### Slugs -/

theorem rtakeWhile_append {A : Type} {p : A → Bool} {xs ys : List A} (hys : ∀ y ∈ ys, p y = true) :
    (xs ++ ys).rtakeWhile p = xs.rtakeWhile p ++ ys := by
  induction ys using List.reverseRecOn with
  | nil => rw [List.append_nil, List.append_nil]
  | append_singleton ys y ih =>
    have hy : p y = true := hys y (by simp)
    have hinit : ∀ z ∈ ys, p z = true := fun z hz => hys z (List.mem_append_left _ hz)
    rw [← List.append_assoc, List.rtakeWhile_concat_pos _ _ _ hy, ih hinit, List.append_assoc]

/-- The text after the last dash is the epoch. -/
theorem afterLastDash_slugForBucket {e : ℤ} (he : 0 ≤ e) :
    afterLastDash (slugForBucket e) = toString e := by
  obtain ⟨n, rfl⟩ := Int.eq_ofNat_of_zero_le he
  have htext : toString (n : ℤ) = String.ofList (Nat.toDigits 10 n) := rfl
  have hdigits : ∀ c ∈ Nat.toDigits 10 n, decide (c ≠ '-') = true := by
    intro c hc
    have hdigit : c.isDigit = true := Nat.isDigit_of_mem_toDigits (by decide) (by decide) hc
    refine decide_eq_true ?_
    intro hdash
    rw [hdash] at hdigit
    exact absurd hdigit (by decide)
  have hlist : (slugForBucket n).toList =
      "btc-updown-5m".toList ++ ['-'] ++ Nat.toDigits 10 n := by
    rw [slugForBucket, String.toList_append, htext, String.toList_ofList]
    rfl
  rw [afterLastDash, hlist, htext, rtakeWhile_append hdigits,
    List.rtakeWhile_concat_neg _ _ _ (by simp), List.nil_append]

def NamesBucket (slug : String) : Prop :=
  ∃ e : ℤ, 0 ≤ e ∧ fitsInt64 e = true ∧ slug = slugForBucket e

/-- Both languages read the same epoch off the slug of a bucket. -/
theorem intOfStr_slug {py : Python} {dump : Json → Line} {rows : List (TradesRow × Stamp)}
    (hd : Dumps py dump rows) {slug : String} (h : NamesBucket slug) :
    slug ≠ "" ∧ py.intOfStr (afterLastDash slug) = parseBucketEpochFromSlug slug ∧
      (parseBucketEpochFromSlug slug).isSome = true := by
  obtain ⟨e, he, hfits, rfl⟩ := h
  have hparse : parseBucketEpochFromSlug (slugForBucket e) = some e := by
    rw [Gamma.parse_slugForBucket, if_pos hfits]
  refine ⟨?_, ?_, ?_⟩
  · intro hempty
    have hlen := congrArg (fun s : String => s.toList.length) hempty
    simp [slugForBucket, kPrefix, String.toList_append] at hlen
  · rw [afterLastDash_slugForBucket he, hd.intOfStr e he hfits, hparse]
  · rw [hparse]
    rfl

/-! ### A row read back -/

def floatOf : Option ℚ → PyFloat
  | some x => .finite x
  | none => .nan

def markerOf (slug : String) (side : Option Outcome) (kind : Kind) (mid S : Option ℚ)
    (st : Stamp) : TradeMarker :=
  { bucket := (parseBucketEpochFromSlug slug).getD 0, wallMs := st.wallMs, side := sideText side
    kind, mid := floatOf mid, S := floatOf S, slug }

def marker? (st : Stamp) : TradesRow → Option TradeMarker
  | .buy r => some (markerOf r.slug r.side .buy (some r.mid) (some r.S) st)
  | .sell r => some (markerOf r.slug r.side .sell (some r.mid) (some r.S) st)
  | .forceSell r => some (markerOf r.slug r.side .sell none none st)
  | .error _ | .rollover _ => none

/-- The slug of a row that is a trade. -/
def tradeSlug? : TradesRow → Option String
  | .buy r => some r.slug
  | .sell r => some r.slug
  | .forceSell r => some r.slug
  | .error _ | .rollover _ => none

section ReadBack

variable {py : Python} {dump : Json → Line} {rows : List (TradesRow × Stamp)} {row : TradesRow}
  {st : Stamp} {slug : String} {side : Option Outcome} {kind : Kind} {mid S : Option ℚ}

theorem loadsOrNone_row (hd : Dumps py dump rows) (hx : (row, st) ∈ rows) :
    loadsOrNone py (dump (rowJson row st)) = .ok (some (.ofJson (rowJson row st))) := by
  rw [loadsOrNone, hd.loads (row, st) hx]

/-- What the reader finds in the row of a trade. -/
structure ReadsAs (row : TradesRow) (st : Stamp) (kind : Kind) (slug : String)
    (side : Option Outcome) (mid S : Option ℚ) : Prop where
  eventType : (rowFields st.wallMs row).lookup "event_type" = some (.str "trade")
  action : kindOf (((rowFields st.wallMs row).lookup "action").map Value.ofJson) = some kind
  slug : (rowFields st.wallMs row).lookup "slug" = some (.str slug)
  wallMs : (rowFields st.wallMs row).lookup "local_ts_wall_ms" = some (.int st.wallMs)
  side : (rowFields st.wallMs row).lookup "side" = some (.str (sideText side))
  mid : (rowFields st.wallMs row).lookup "mid" = mid.map Json.float
  S : (rowFields st.wallMs row).lookup "S" = S.map Json.float

theorem floatField_row {key : String} {x : Option ℚ} (hkey : key ∈ readKeys)
    (h : (rowFields st.wallMs row).lookup key = x.map Json.float) :
    (Value.ofJson (rowJson row st)).floatField py key = .ok (floatOf x) := by
  rw [Value.floatField, get_rowJson hkey, h]
  cases x <;> rfl

theorem tradeFields_row {bucket : ℤ} (h : ReadsAs row st kind slug side mid S) :
    tradeFields py (.ofJson (rowJson row st)) bucket kind slug = .ok
      { bucket, wallMs := st.wallMs, side := sideText side, kind, mid := floatOf mid
        S := floatOf S, slug } := by
  have hwall : (Value.ofJson (rowJson row st)).item "local_ts_wall_ms" =
      .ok (.int st.wallMs) := by
    rw [Value.item, get_rowJson (by decide), h.wallMs]
    rfl
  have hside : (Value.ofJson (rowJson row st)).get "side" = .ok (some (.str (sideText side))) := by
    rw [get_rowJson (by decide), h.side]
    rfl
  unfold tradeFields
  rw [hwall, hside, floatField_row (by decide) h.mid, floatField_row (by decide) h.S]
  rfl

theorem parseTradeLine_trade (hd : Dumps py dump rows) (hx : (row, st) ∈ rows)
    (h : ReadsAs row st kind slug side mid S) (hslug : NamesBucket slug) :
    parseTradeLine py (dump (rowJson row st)) = .ok (some (markerOf slug side kind mid S st)) := by
  obtain ⟨hne, hint, hsome⟩ := intOfStr_slug hd hslug
  obtain ⟨e, he⟩ := Option.isSome_iff_exists.mp hsome
  have htype : (Value.ofJson (rowJson row st)).get "event_type" = .ok (some (.str "trade")) := by
    rw [get_rowJson (by decide), h.eventType]
    rfl
  have hslugField : (Value.ofJson (rowJson row st)).get "slug" = .ok (some (.str slug)) := by
    rw [get_rowJson (by decide), h.slug]
    rfl
  unfold parseTradeLine
  rw [loadsOrNone_row hd hx]
  have haction : (Value.ofJson (rowJson row st)).get "action" =
      .ok (((rowFields st.wallMs row).lookup "action").map Value.ofJson) := get_rowJson (by decide)
  have htrade : (!Option.any (Value.isStr "trade") (some (Value.str "trade"))) = false := by decide
  simp only [bind, Except.bind, htype, htrade, Bool.false_eq_true, if_false, haction, h.action,
    hslugField, if_neg hne, hint, he, tradeFields_row h]
  rw [markerOf, he]
  rfl

theorem parseTradeLine_row (hd : Dumps py dump rows) (hx : (row, st) ∈ rows)
    (hslug : ∀ slug, tradeSlug? row = some slug → NamesBucket slug) :
    parseTradeLine py (dump (rowJson row st)) = .ok (marker? st row) := by
  have hother (text : String) (htext : text ≠ "trade")
      (h : (rowFields st.wallMs row).lookup "event_type" = some (.str text)) :
      parseTradeLine py (dump (rowJson row st)) = .ok none := by
    have htype : (Value.ofJson (rowJson row st)).get "event_type" = .ok (some (.str text)) := by
      rw [get_rowJson (by decide), h]
      rfl
    unfold parseTradeLine
    rw [loadsOrNone_row hd hx]
    simp only [bind, Except.bind, htype]
    exact if_pos (by simp [Value.isStr, htext])
  cases row with
  | buy r => exact parseTradeLine_trade hd hx ⟨rfl, rfl, rfl, rfl, rfl, rfl, rfl⟩ (hslug r.slug rfl)
  | sell r =>
    exact parseTradeLine_trade hd hx ⟨rfl, rfl, rfl, rfl, rfl, rfl, rfl⟩ (hslug r.slug rfl)
  | forceSell r =>
    exact parseTradeLine_trade hd hx ⟨rfl, rfl, rfl, rfl, rfl, rfl, rfl⟩ (hslug r.slug rfl)
  | error r => exact hother "error" (by decide) rfl
  | rollover r => exact hother "rollover" (by decide) rfl

end ReadBack

/-! ### The slugs of the trades -/

/-- The buckets that a run is told of have the slugs of their epochs. -/
def announcesBucket : Runner.Label → Bool
  | .event (.rollover ev) _ =>
    decide (0 ≤ ev.epoch) && fitsInt64 ev.epoch && decide (ev.slug = slugForBucket ev.epoch)
  | .event (.startup slug epoch _ _) _ =>
    decide (0 ≤ epoch) && fitsInt64 epoch && decide (slug = slugForBucket epoch)
  | _ => true

def RowNamed (row : TradesRow) : Prop := ∀ slug, tradeSlug? row = some slug → NamesBucket slug

structure SlugInv (c : Consumer) : Prop where
  hot : c.tradingEnabled = true → 0 ≤ c.hot.activeEpoch ∧ NamesBucket c.hot.slug
  position : c.paper.havePos = true → NamesBucket c.paper.slug
  rows : ∀ row ∈ c.trades, RowNamed row

section SlugInv

variable {M : Libm} {cfg : Config} {c c' : Consumer}

theorem namesBucket_of_check {slug : String} {e : ℤ}
    (h : (decide (0 ≤ e) && fitsInt64 e && decide (slug = slugForBucket e)) = true) :
    0 ≤ e ∧ NamesBucket slug := by
  simp only [Bool.and_eq_true, decide_eq_true_eq] at h
  exact ⟨h.1.1, e, h.1.1, h.1.2, h.2⟩

theorem rowNamed_of_slug {row : TradesRow} {slug : String} (h : tradeSlug? row = some slug)
    (hslug : NamesBucket slug) : RowNamed row := by
  intro slug' h'
  obtain rfl : slug = slug' := Option.some.inj (h.symm.trans h')
  exact hslug

theorem rowNamed_of_none {row : TradesRow} (h : tradeSlug? row = none) : RowNamed row := by
  intro slug h'
  rw [h] at h'
  cases h'

theorem SlugInv.newRows (inv : SlugInv c) (h : NewRows RowNamed c c') :
    ∀ row ∈ c'.trades, RowNamed row := by
  obtain ⟨rows, heq, hnew⟩ := h
  intro row hrow
  rw [heq] at hrow
  rcases List.mem_append.mp hrow with hrow | hrow
  · exact hnew row hrow
  · exact inv.rows row hrow

theorem ForceSold.named {ev : Runner.Rollover} (inv : SlugInv c) (h : ForceSold cfg ev c c') :
    NewRows RowNamed c c' ∧ (c'.paper.havePos = true → NamesBucket c'.paper.slug) := by
  cases h with
  | noPosition => exact ⟨.same rfl, inv.position⟩
  | kept => exact ⟨.one rfl (rowNamed_of_none rfl), inv.position⟩
  | carried | paperZero => exact ⟨.same rfl, nofun⟩
  | nothingLeft => exact ⟨.one rfl (rowNamed_of_none rfl), nofun⟩
  | sold qty clob hn =>
    exact ⟨.one rfl (rowNamed_of_slug rfl (inv.position hn)), nofun⟩

theorem SlugInv.taken {e : Runner.Event} {tr : Trace}
    (inv : SlugInv c) (hnamed : announcesBucket (.event e tr) = true)
    (h : Runner.Taken cfg c e c') : SlugInv c' := by
  cases h with
  | spot hot frame _ =>
    refine ⟨?_, inv.position, inv.rows⟩
    show c.tradingEnabled = true → 0 ≤ hot.activeEpoch ∧ NamesBucket hot.slug
    rw [frame.activeEpoch, frame.slug]
    exact inv.hot
  | quote q =>
    refine ⟨?_, inv.position, inv.rows⟩
    intro hen
    obtain ⟨hepoch, hslug⟩ := inv.hot hen
    obtain ⟨heq, hsame⟩ := Runner.HotState.storeQuote_bucket q hepoch
    show 0 ≤ (c.hot.storeQuote q).activeEpoch ∧ NamesBucket (c.hot.storeQuote q).slug
    rw [heq, hsame]
    exact ⟨hepoch, hslug⟩
  | rollover ev c₁ hsold =>
    obtain ⟨hrows, hpos⟩ := ForceSold.named inv hsold
    have hmarket : 0 ≤ ev.epoch ∧ NamesBucket ev.slug := namesBucket_of_check hnamed
    refine ⟨fun _ => hmarket, hpos, inv.newRows (hrows.trans (.one rfl (rowNamed_of_none rfl)))⟩
  | idle => exact inv
  | startup slug epoch priceToBeat enable =>
    exact ⟨fun _ => namesBucket_of_check hnamed, inv.position, inv.rows⟩

theorem SlugInv.executed (inv : SlugInv c) (hen : c.tradingEnabled = true)
    (h : Executed M cfg c c') : SlugInv c' := by
  obtain ⟨hepoch, hslug⟩ := inv.hot hen
  cases h with
  | kept => exact inv
  | cleared | unknown | riskBlocked | failed => exact ⟨inv.hot, inv.position, inv.rows⟩
  | failedRow | stopIncomplete =>
    exact ⟨inv.hot, inv.position, inv.newRows (.one rfl (rowNamed_of_none rfl))⟩
  | flattened => exact ⟨inv.hot, nofun, inv.rows⟩
  | bought v plan fill tok _ _ _ hv =>
    have hshown : NamesBucket v.slug := by
      rw [(Runner.HotState.view?_spec hv).slug]
      exact hslug
    exact ⟨inv.hot, fun _ => hshown, inv.newRows (.one rfl (rowNamed_of_slug rfl hshown))⟩
  | soldByStop v r qty _ _ _ hn | soldAtBid v qty clob _ _ hn =>
    have hheld := inv.position hn
    exact ⟨inv.hot, nofun, inv.newRows (.one rfl (rowNamed_of_slug rfl hheld))⟩

theorem slugInv_start (hist : Runner.History) : SlugInv (.start cfg hist) where
  hot h := by cases h
  position h := by cases h
  rows row hrow := absurd hrow List.not_mem_nil

theorem SlugInv.updated (inv : SlugInv c) (h : Runner.Updated M cfg c c') : SlugInv c' := by
  cases h with
  | skipped => exact inv
  | traded v now c₁ _ _ hen hs hx =>
    have hsame := hs.position
    have hsched : SlugInv c₁ := by
      refine ⟨?_, ?_, ?_⟩
      · rw [hs.tradingEnabled, hsame.activeEpoch, hsame.slug]
        exact inv.hot
      · cases hs <;> exact inv.position
      · rw [hsame.trades]
        exact inv.rows
    exact hsched.executed (hs.tradingEnabled.trans hen) hx

theorem SlugInv.step {l : Runner.Label} (inv : SlugInv c) (hnamed : announcesBucket l = true)
    (h : Runner.Step M cfg c l c') : SlugInv c' := by
  cases h with
  | event _ _ he => exact inv.taken hnamed (Runner.take_taken M cfg c _ _ _ he)
  | update _ he =>
    have hdone : SlugInv c.updateDone := ⟨inv.hot, inv.position, inv.rows⟩
    exact hdone.updated (Runner.onHotUpdate_updated M cfg _ _ _ he)

theorem slugInv_of_reachable
    (h : ((Runner.runner M cfg).restrict fun _ l => announcesBucket l = true).Reachable c) :
    SlugInv c := by
  refine h.invariant ?_ fun s l t _ inv hst => inv.step hst.2 hst.1
  intro s hs
  obtain ⟨hist, rfl⟩ : ∃ hist, s = Consumer.start cfg hist := hs
  exact slugInv_start hist

end SlugInv

end LeadLag.Dashboard
