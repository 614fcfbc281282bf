import LeadLag.PolyWs.Feed

/-!
# Malformed messages, both feeds (ws_fixed_token_feed.cpp:209-331,
poly_ws_quote_feed.cpp:260-350)

Neither handler catches what an access to a parsed message throws. Each returns
exactly on the messages that are readable to it, and what it emits is quoted by
an entry for its token, readable or not.
-/

namespace LeadLag.PolyWs
open LeadLag.Core LeadLag.TokenFeed

def AbsentOrBool (key : String) (j : Json) : Prop :=
  ∀ v, j.field? key = some v → ∃ b, v = .bool b

structure NewMarketReadable (pre : String) (j : Json) : Prop where
  slug : AbsentOrString "slug" j
  market : newMarketMatchesFamily pre j = some true → AbsentOrString "market" j
  conditionId : newMarketMatchesFamily pre j = some true → stringValue "market" j = some "" →
    AbsentOrString "condition_id" j
  active : newMarketMatchesFamily pre j = some true → AbsentOrBool "active" j

structure MessageReadable (f : Feed) (j : Json) : Prop where
  eventType : AbsentOrString "event_type" j
  newMarket : stringValue "event_type" j = some "new_market" →
    NewMarketReadable f.rolloverSlugPrefix j
  quotes : f.activeUpToken ≠ "" → Readable f.activeUpToken j

/-! ### New markets -/

theorem stringValue_isSome_iff {key : String} {j : Json} :
    (∃ s, stringValue key j = some s) ↔ AbsentOrString key j := by
  constructor
  · rintro ⟨s, hs⟩
    exact absentOrString_of_value hs
  · intro h
    exact Option.ne_none_iff_exists'.mp fun hn => stringValue_eq_none_iff.mp hn h

theorem boolValue_isSome_iff {key : String} {j : Json} (fallback : Bool) :
    (∃ b, boolValue key fallback j = some b) ↔ AbsentOrBool key j := by
  unfold boolValue AbsentOrBool
  cases j.field? key with
  | none => simp
  | some v => cases v <;> simp

theorem indexOfOutcome_lt {name : String} {fallback : ℕ} {outs : List String}
    (h : fallback < outs.length) : indexOfOutcome name fallback outs < outs.length := by
  unfold indexOfOutcome
  cases hfind : outs.findIdx? fun o => lower o = name with
  | none => exact h
  | some i => exact (List.findIdx?_eq_some_iff_findIdx_eq.mp hfind).1

theorem tokensOfOutcomes_isSome (outs toks : List String) :
    ∃ up down, tokensOfOutcomes outs toks = some (up, down) := by
  unfold tokensOfOutcomes
  split
  · rename_i h
    obtain ⟨hne, hlen⟩ := h
    have hpos : 0 < outs.length := by
      rw [hlen]
      exact List.length_pos_of_ne_nil hne
    have hup : indexUp outs < toks.length := by
      rw [← hlen]
      exact indexOfOutcome_lt hpos
    have hdown : indexDown outs < toks.length := by
      rw [← hlen]
      refine indexOfOutcome_lt ?_
      split <;> omega
    rw [List.getElem?_eq_getElem hup, List.getElem?_eq_getElem hdown]
    exact ⟨_, _, rfl⟩
  · exact ⟨_, _, rfl⟩

theorem newMarketMatchesFamily_isSome_iff (pre : String) {j : Json} :
    (∃ b, newMarketMatchesFamily pre j = some b) ↔ AbsentOrString "slug" j := by
  rw [← stringValue_isSome_iff]
  unfold newMarketMatchesFamily
  cases stringValue "slug" j with
  | none => simp
  | some slug =>
    constructor
    · exact fun _ => ⟨slug, rfl⟩
    · exact fun _ => ⟨_, rfl⟩

theorem conditionIdFromNewMarket_isSome_iff {j : Json} :
    (∃ id, conditionIdFromNewMarket j = some id) ↔
      AbsentOrString "market" j ∧
        (stringValue "market" j = some "" → AbsentOrString "condition_id" j) := by
  rw [← stringValue_isSome_iff, ← stringValue_isSome_iff]
  unfold conditionIdFromNewMarket
  cases stringValue "market" j with
  | none => simp
  | some market =>
    by_cases hempty : market = ""
    · simp [hempty]
    · simp [hempty]

theorem marketRefFromNewMarket_isSome_iff {j : Json} (hslug : AbsentOrString "slug" j) :
    (∃ r, marketRefFromNewMarket j = some r) ↔
      (∃ id, conditionIdFromNewMarket j = some id) ∧ AbsentOrBool "active" j := by
  obtain ⟨slug, hslug⟩ := stringValue_isSome_iff.mpr hslug
  obtain ⟨up, down, htoks⟩ :=
    tokensOfOutcomes_isSome (outcomesFromNewMarket j) (tokensFromNewMarket j)
  rw [← boolValue_isSome_iff true]
  simp only [marketRefFromNewMarket, hslug, htoks]
  cases conditionIdFromNewMarket j with
  | none => simp
  | some id =>
    cases boolValue "active" true j with
    | none => simp
    | some b => simp

theorem newMarket_returns_iff (f : Feed) (j : Json) :
    (f.maybeHandleNewMarket j).threw = false ↔ NewMarketReadable f.rolloverSlugPrefix j := by
  unfold Feed.maybeHandleNewMarket
  split
  · rename_i hfamily
    have hslug : ¬ AbsentOrString "slug" j := by
      rw [← newMarketMatchesFamily_isSome_iff f.rolloverSlugPrefix, hfamily]
      nofun
    constructor
    · nofun
    · intro h
      exact absurd h.slug hslug
  · rename_i hfamily
    have hslug := (newMarketMatchesFamily_isSome_iff _).mp ⟨_, hfamily⟩
    have hno : newMarketMatchesFamily f.rolloverSlugPrefix j ≠ some true := by simp [hfamily]
    constructor
    · intro _
      exact ⟨hslug, fun h => absurd h hno, fun h => absurd h hno, fun h => absurd h hno⟩
    · intro _
      rfl
  · rename_i hfamily
    have hslug := (newMarketMatchesFamily_isSome_iff _).mp ⟨_, hfamily⟩
    have hrefs := marketRefFromNewMarket_isSome_iff hslug
    rw [conditionIdFromNewMarket_isSome_iff] at hrefs
    split
    · rename_i hthrows
      constructor
      · nofun
      · intro h
        obtain ⟨r, hr⟩ := hrefs.mpr ⟨⟨h.market hfamily, h.conditionId hfamily⟩, h.active hfamily⟩
        rw [hthrows] at hr
        cases hr
    · rename_i next hnext
      obtain ⟨⟨hmarket, hcondition⟩, hactive⟩ := hrefs.mp ⟨next, hnext⟩
      constructor
      · intro _
        exact ⟨hslug, fun _ => hmarket, fun _ => hcondition, fun _ => hactive⟩
      · intro _
        split
        · rfl
        · split <;> rfl

theorem newMarket_emits_no_quote (f : Feed) (j : Json) (t : QuoteTick) :
    Output.quote t ∉ (f.maybeHandleNewMarket j).outputs := by
  unfold Feed.maybeHandleNewMarket
  split
  · exact List.not_mem_nil
  · exact List.not_mem_nil
  · split
    · exact List.not_mem_nil
    · split
      · exact List.not_mem_nil
      · split
        · exact List.not_mem_nil
        · simp only [Feed.switchToMarket]
          split <;> simp

/-! ### Quotes -/

theorem andThen_threw {r : Result} {k : Feed → Result} (h : r.threw = false) :
    (r.andThen k).threw = (k r.feed).threw := by
  simp [Result.andThen, h]

theorem andThen_outputs {r : Result} {k : Feed → Result} (h : r.threw = false) :
    (r.andThen k).outputs = r.outputs ++ (k r.feed).outputs := by
  simp [Result.andThen, h]

theorem emitQuote_spec (f : Feed) (aid : String) (bid ask : Option Price) (ts : String) :
    (f.emitQuote aid bid ask ts).threw = false ∧
      (f.emitQuote aid bid ask ts).feed.activeUpToken = f.activeUpToken ∧
      ∀ t, Output.quote t ∈ (f.emitQuote aid bid ask ts).outputs →
        t.tokenId = aid ∧ aid = f.activeUpToken ∧ bid = some t.bestBid ∧ ask = some t.bestAsk := by
  unfold Feed.emitQuote
  split
  · rename_i hguard
    have haid : aid = f.activeUpToken := (of_decide_eq_true hguard).2
    split
    · dsimp only
      split
      · exact ⟨rfl, rfl, fun _ h => absurd h List.not_mem_nil⟩
      · refine ⟨rfl, rfl, fun t h => ?_⟩
        rw [List.mem_singleton] at h
        cases h
        exact ⟨rfl, haid, rfl, rfl⟩
    · exact ⟨rfl, rfl, fun _ h => absurd h List.not_mem_nil⟩
  · exact ⟨rfl, rfl, fun _ h => absurd h List.not_mem_nil⟩

theorem quoteEntries_returns_iff {tok : String} (entries : List (Item × String)) {f : Feed}
    (htok : f.activeUpToken = tok) (hne : tok ≠ "") :
    (f.quoteEntries entries).threw = false ↔ ∀ e ∈ entries, e.1.raises tok = false := by
  induction entries generalizing f with
  | nil => simp [Feed.quoteEntries]
  | cons e rest ih =>
    obtain ⟨item, ts⟩ := e
    rw [List.forall_mem_cons]
    cases item with
    | throws => simp [Feed.quoteEntries, Item.raises]
    | entry aid top =>
      have hguard : f.guardActiveQuoteAsset aid = decide (aid = tok) := by
        unfold Feed.guardActiveQuoteAsset
        by_cases haid : aid = tok
        · simp [haid, htok, hne]
        · simp [haid, htok]
      simp only [Feed.quoteEntries, hguard]
      by_cases haid : aid = tok
      · cases top with
        | throws => simp [haid, Item.raises]
        | nothing => simpa [haid, Item.raises] using ih htok
        | prices bid ask =>
          obtain ⟨hok, hkept, -⟩ := emitQuote_spec f aid bid ask ts
          have hclean : (Item.entry aid (.prices bid ask)).raises tok = false := rfl
          rw [if_pos (decide_eq_true haid), andThen_threw hok, ih (hkept.trans htok)]
          simp only [hclean, true_and]
      · have hskip : (Item.entry aid top).raises tok = false := by
          cases top with
          | throws => exact decide_eq_false haid
          | nothing | prices => rfl
        simpa [haid, hskip] using ih htok

theorem quoteEntries_quotes {tok : String} (entries : List (Item × String)) {f : Feed}
    (htok : f.activeUpToken = tok) {t : QuoteTick}
    (h : Output.quote t ∈ (f.quoteEntries entries).outputs) :
    t.tokenId = tok ∧ ∃ e ∈ entries, e.1.offer? tok = some (t.bestBid, t.bestAsk) := by
  induction entries generalizing f with
  | nil => exact absurd h List.not_mem_nil
  | cons e rest ih =>
    have later {f' : Feed} (htok' : f'.activeUpToken = tok)
        (hmem : Output.quote t ∈ (f'.quoteEntries rest).outputs) :
        t.tokenId = tok ∧ ∃ e' ∈ e :: rest, e'.1.offer? tok = some (t.bestBid, t.bestAsk) := by
      obtain ⟨hsame, e', he', hoffer⟩ := ih htok' hmem
      exact ⟨hsame, e', List.mem_cons_of_mem _ he', hoffer⟩
    obtain ⟨item, ts⟩ := e
    cases item with
    | throws => exact absurd h List.not_mem_nil
    | entry aid top =>
      simp only [Feed.quoteEntries] at h
      split at h
      · cases top with
        | throws => exact absurd h List.not_mem_nil
        | nothing => exact later htok h
        | prices bid ask =>
          obtain ⟨hok, hkept, hquote⟩ := emitQuote_spec f aid bid ask ts
          rw [andThen_outputs hok, List.mem_append] at h
          rcases h with hnow | hlater
          · obtain ⟨haid, hactive, rfl, rfl⟩ := hquote t hnow
            have hsame : aid = tok := hactive.trans htok
            refine ⟨haid.trans hsame, _, List.mem_cons_self, ?_⟩
            exact if_pos hsame
          · exact later (hkept.trans htok) hlater
      · exact later htok h

/-! ### The handlers -/

theorem stampedItems_items (dump : Json → String) {j : Json} (hj : j.isObject = true) :
    (stampedItems dump j).map Prod.fst = items (some j) := by
  unfold stampedItems
  split
  · rename_i hevent
    simp only [items, if_pos hj, hevent, List.map_map]
    rfl
  · rw [List.map_map]
    exact List.map_id _

theorem hydrated (f : Feed) (j : Json) :
    (f.tryHydrateFromMessage j).activeUpToken = f.activeUpToken ∧
      (f.tryHydrateFromMessage j).rolloverSlugPrefix = f.rolloverSlugPrefix := by
  unfold Feed.tryHydrateFromMessage
  split
  · exact ⟨rfl, rfl⟩
  · split
    · split <;> exact ⟨rfl, rfl⟩
    · exact ⟨rfl, rfl⟩

theorem onWsMessage_returns_iff (dump : Json → String) (f : Feed) (msg : Option Json) :
    (onWsMessage dump f msg).threw = false ↔
      ∀ j, msg = some j → j.isObject = true → MessageReadable f j := by
  cases msg with
  | none => simp [onWsMessage]
  | some j =>
    by_cases hobj : j.isObject = true
    · obtain ⟨htok, hpre⟩ := hydrated f j
      simp only [onWsMessage, hobj, ite_true, Option.some.injEq, forall_eq', true_implies]
      split
      · rename_i hevent
        have hbad := stringValue_eq_none_iff.mp hevent
        constructor
        · nofun
        · intro h
          exact absurd h.eventType hbad
      · rename_i hevent
        rw [newMarket_returns_iff, hpre]
        constructor
        · intro h
          have hstring := absentOrString_of_value hevent
          refine ⟨hstring, fun _ => h, fun _ => (readable_iff hobj).mpr ?_⟩
          simp [items, hobj, hevent]
        · intro h
          exact h.newMarket hevent
      · rename_i et hother hevent
        have hstring := absentOrString_of_value hevent
        have hno : stringValue "event_type" j ≠ some "new_market" := by
          rw [hevent]
          simpa using hother
        split
        · rename_i hempty
          rw [htok] at hempty
          constructor
          · intro _
            exact ⟨hstring, fun h => absurd h hno, fun h => absurd hempty h⟩
          · intro _
            rfl
        · rename_i hne
          rw [htok] at hne
          rw [quoteEntries_returns_iff _ htok hne]
          have hsame : (∀ e ∈ stampedItems dump j, e.1.raises f.activeUpToken = false) ↔
              Readable f.activeUpToken j := by
            rw [readable_iff hobj, ← stampedItems_items dump hobj]
            simp only [List.forall_mem_map]
          rw [hsame]
          constructor
          · intro h
            exact ⟨hstring, fun h => absurd h hno, fun _ => h⟩
          · intro h
            exact h.quotes hne
    · simp [onWsMessage, hobj]

theorem onWsMessage_quotes {dump : Json → String} {f : Feed} {msg : Option Json} {t : QuoteTick}
    (h : Output.quote t ∈ (onWsMessage dump f msg).outputs) :
    ∃ j, msg = some j ∧ t.tokenId = f.activeUpToken ∧ f.activeUpToken ≠ "" ∧
      Quoted f.activeUpToken j t.bestBid t.bestAsk := by
  cases msg with
  | none => exact absurd h List.not_mem_nil
  | some j =>
    simp only [onWsMessage] at h
    split at h
    · rename_i hobj
      obtain ⟨htok, -⟩ := hydrated f j
      split at h
      · exact absurd h List.not_mem_nil
      · exact absurd h (newMarket_emits_no_quote _ _ _)
      · split at h
        · exact absurd h List.not_mem_nil
        · rename_i hne
          rw [htok] at hne
          obtain ⟨hsame, e, he, hoffer⟩ := quoteEntries_quotes _ htok h
          have hitem : e.1 ∈ items (some j) := by
            rw [← stampedItems_items dump hobj]
            exact List.mem_map_of_mem he
          exact ⟨j, rfl, hsame, hne, quoted_of_item hitem hoffer⟩
    · exact absurd h List.not_mem_nil

/-- Both handlers return exactly on what is readable to them, and emit quotes
only of entries that carry the token and both prices. -/
theorem malformed_message_ignored_iff (dump : Json → String) (msg : Option Json)
    (fs : ℕ → Fields) (f : Feed) :
    ((∃ n, (onWsMessageInner msg fs n).2 = .returned) ↔
        ∀ j, msg = some j → j.isObject = true → Readable (fs 0).tokenId j) ∧
      ((onWsMessage dump f msg).threw = false ↔
        ∀ j, msg = some j → j.isObject = true → MessageReadable f j) ∧
      (∀ n, ∀ q ∈ (onWsMessageInner msg fs n).1, ∃ j k bid ask, msg = some j ∧
        Quoted (fs k).tokenId j bid ask ∧ q = (fs k).quote bid ask) ∧
      ∀ t, Output.quote t ∈ (onWsMessage dump f msg).outputs →
        ∃ j, msg = some j ∧ t.tokenId = f.activeUpToken ∧ f.activeUpToken ≠ "" ∧
          Quoted f.activeUpToken j t.bestBid t.bestAsk :=
  ⟨handler_returns_iff msg fs, onWsMessage_returns_iff dump f msg, fun _ _ => handler_quotes,
    fun _ => onWsMessage_quotes⟩

/-- A top of book without its ask. -/
def oneSided : Json :=
  .obj [("event_type", .str "best_bid_ask"), ("asset_id", .str "up-300"), ("best_bid", .str "0.50")]

def upFields : Fields :=
  { tokenId := "up-300", quoteEventSlug := "btc-300", quoteMarketBucketEpoch := 300
    quoteOutcome := "Up", lastEmitted := none }

def upFeed : Feed := { active := { upTokenId := "up-300" }, activeUpToken := "up-300" }

theorem one_sided_message_throws :
    (onWsMessageInner (some oneSided) (fun _ => upFields) 1).2 = .threw ∧
      (onWsMessage (fun _ => "") upFeed (some oneSided)).threw = true := by
  decide +kernel

end LeadLag.PolyWs
