import LeadLag.Core.Decimal
import LeadLag.Interaction.Runs
import LeadLag.PolyWs.Malformed

/-!
# When the active market was announced (poly_ws_quote_feed.cpp:124-145, 444-534)

`active_announced_ts_ms_` beside the feed. A market switched to leaves its
announcement time there, and no switch compares it with the time before.
-/

namespace LeadLag.PolyWs
open LeadLag.Core LeadLag.Interaction LeadLag.TokenFeed

structure Announced where
  feed : Feed
  activeAnnouncedTsMs : ℕ

def parseTsMs (j : Json) : ℕ :=
  match j.field? "timestamp" with
  | some (.int i) => i.toNat
  | some (.str s) => (stoull s).getD 0
  | _ => 0

def castUint64 (e : ℤ) : ℕ := (e % 2 ^ 64).toNat

namespace Announced

/-- What handling a message leaves, and the announcement time after it.
`systemMs` is the reading of the clock, should one be made. -/
def switchToMarket (a : Announced) (next : MarketRef) (announceTsMs : ℕ) (systemMs : ℤ) :
    Result × ℕ :=
  (a.feed.switchToMarket next, if 0 < announceTsMs then announceTsMs else castUint64 systemMs)

def maybeHandleNewMarket (a : Announced) (systemMs : ℤ) (j : Json) : Result × ℕ :=
  match newMarketMatchesFamily a.feed.rolloverSlugPrefix j with
  | none => ({ feed := a.feed, threw := true }, a.activeAnnouncedTsMs)
  | some false => ({ feed := a.feed }, a.activeAnnouncedTsMs)
  | some true =>
    match marketRefFromNewMarket j with
    | none => ({ feed := a.feed, threw := true }, a.activeAnnouncedTsMs)
    | some next =>
      if next.upTokenId = "" then ({ feed := a.feed }, a.activeAnnouncedTsMs)
      else
        let ts := parseTsMs j
        if a.feed.active.conditionId ≠ "" ∧ next.conditionId ≠ "" ∧
            conditionSame a.feed.active.conditionId next.conditionId = true then
          ({ feed := a.feed }, a.activeAnnouncedTsMs)
        else a.switchToMarket next ts systemMs

def onWsMessage (dump : Json → String) (a : Announced) (systemMs : ℤ) (msg : Option Json) :
    Result × ℕ :=
  match msg with
  | none => ({ feed := a.feed }, a.activeAnnouncedTsMs)
  | some j =>
    if j.isObject then
      let f := a.feed.tryHydrateFromMessage j
      match stringValue "event_type" j with
      | none => ({ feed := f, threw := true }, a.activeAnnouncedTsMs)
      | some "new_market" => { a with feed := f }.maybeHandleNewMarket systemMs j
      | some _ =>
        (if f.activeUpToken = "" then { feed := f } else f.quoteEntries (stampedItems dump j),
          a.activeAnnouncedTsMs)
    else ({ feed := a.feed }, a.activeAnnouncedTsMs)

end Announced

/-! ### The announcement time beside the feed -/

theorem announced_newMarket_feed (a : Announced) (systemMs : ℤ) (j : Json) :
    (a.maybeHandleNewMarket systemMs j).1 = a.feed.maybeHandleNewMarket j := by
  unfold Announced.maybeHandleNewMarket Feed.maybeHandleNewMarket
  cases newMarketMatchesFamily a.feed.rolloverSlugPrefix j with
  | none => rfl
  | some matched =>
    cases matched with
    | false => rfl
    | true =>
      cases marketRefFromNewMarket j with
      | none => rfl
      | some next =>
        dsimp only
        split
        · rfl
        · split <;> rfl

/-- The feed does what it does without the time. -/
theorem announced_feed (dump : Json → String) (a : Announced) (systemMs : ℤ)
    (msg : Option Json) :
    (a.onWsMessage dump systemMs msg).1 = onWsMessage dump a.feed msg := by
  cases msg with
  | none => rfl
  | some j =>
    by_cases hobj : j.isObject = true
    · simp only [Announced.onWsMessage, onWsMessage, hobj, if_true]
      cases stringValue "event_type" j with
      | none => rfl
      | some eventType =>
        by_cases hmarket : eventType = "new_market"
        · subst hmarket
          exact announced_newMarket_feed
            { a with feed := a.feed.tryHydrateFromMessage j } systemMs j
        · simp only
    · simp only [Announced.onWsMessage, onWsMessage, hobj, if_false, Bool.false_eq_true]

/-- A market of the family that `f` takes for another one than its own. -/
structure Announces (f : Feed) (j : Json) (next : MarketRef) : Prop where
  family : newMarketMatchesFamily f.rolloverSlugPrefix j = some true
  ref : marketRefFromNewMarket j = some next
  token : next.upTokenId ≠ ""
  other : ¬ (f.active.conditionId ≠ "" ∧ next.conditionId ≠ "" ∧
    conditionSame f.active.conditionId next.conditionId = true)

structure Switches (f : Feed) (msg : Option Json) (j : Json) (next : MarketRef) : Prop where
  message : msg = some j
  object : j.isObject = true
  eventType : stringValue "event_type" j = some "new_market"
  announces : Announces (f.tryHydrateFromMessage j) j next

theorem newMarket_cases (a : Announced) (systemMs : ℤ) (j : Json) :
    (a.maybeHandleNewMarket systemMs j).2 = a.activeAnnouncedTsMs ∧
        (∀ next, ¬ Announces a.feed j next) ∨
      ∃ next, Announces a.feed j next ∧
        a.maybeHandleNewMarket systemMs j = a.switchToMarket next (parseTsMs j) systemMs := by
  unfold Announced.maybeHandleNewMarket
  split
  · rename_i hfamily
    refine .inl ⟨rfl, ?_⟩
    intro next h
    rw [h.family] at hfamily
    cases hfamily
  · rename_i hfamily
    refine .inl ⟨rfl, ?_⟩
    intro next h
    rw [h.family] at hfamily
    cases hfamily
  · rename_i hfamily
    split
    · rename_i href
      refine .inl ⟨rfl, ?_⟩
      intro next h
      rw [h.ref] at href
      cases href
    · rename_i next href
      have hsame {next' : MarketRef} (h : Announces a.feed j next') : next' = next :=
        Option.some.inj (h.ref.symm.trans href)
      split
      · rename_i htoken
        refine .inl ⟨rfl, ?_⟩
        intro next' h
        rw [hsame h] at h
        exact h.token htoken
      · rename_i htoken
        dsimp only
        split
        · rename_i hcondition
          refine .inl ⟨rfl, ?_⟩
          intro next' h
          rw [hsame h] at h
          exact h.other hcondition
        · rename_i hcondition
          exact .inr ⟨next, ⟨hfamily, href, htoken, hcondition⟩, rfl⟩

/-- A message leaves the time alone, or switches and takes the time of its own. -/
theorem onWsMessage_cases (dump : Json → String) (a : Announced) (systemMs : ℤ)
    (msg : Option Json) :
    (a.onWsMessage dump systemMs msg).2 = a.activeAnnouncedTsMs ∧
        (∀ j next, ¬ Switches a.feed msg j next) ∨
      ∃ j next, Switches a.feed msg j next ∧ (a.onWsMessage dump systemMs msg).2 =
        if 0 < parseTsMs j then parseTsMs j else castUint64 systemMs := by
  cases msg with
  | none =>
    refine .inl ⟨rfl, ?_⟩
    intro j next h
    cases h.message
  | some j =>
    have hmessage {j' : Json} {next : MarketRef} (h : Switches a.feed (some j) j' next) :
        j' = j := (Option.some.inj h.message).symm
    by_cases hobj : j.isObject = true
    · simp only [Announced.onWsMessage, hobj, if_true]
      split
      · rename_i hevent
        refine .inl ⟨rfl, ?_⟩
        intro j' next h
        have htype := h.eventType
        rw [hmessage h, hevent] at htype
        cases htype
      · rename_i hevent
        rcases newMarket_cases { a with feed := a.feed.tryHydrateFromMessage j } systemMs j with
          ⟨hts, hnone⟩ | ⟨next, hnext, hswitch⟩
        · refine .inl ⟨hts, ?_⟩
          intro j' next h
          have hannounces := h.announces
          rw [hmessage h] at hannounces
          exact hnone next hannounces
        · refine .inr ⟨j, next, ⟨rfl, hobj, hevent, hnext⟩, ?_⟩
          rw [hswitch]
          rfl
      · rename_i hother hevent
        refine .inl ⟨rfl, ?_⟩
        intro j' next h
        have htype := h.eventType
        rw [hmessage h, hevent] at htype
        exact hother (Option.some.inj htype)
    · refine .inl ⟨by simp only [Announced.onWsMessage, hobj, if_false, Bool.false_eq_true], ?_⟩
      intro j' next h
      have hobject := h.object
      rw [hmessage h] at hobject
      exact hobj hobject

/-! ### Quotes of the active market -/

theorem emitQuote_market (f : Feed) (aid : String) (bid ask : Option Price) (ts : String) :
    (f.emitQuote aid bid ask ts).feed.active = f.active ∧
      ∀ t, Output.quote t ∈ (f.emitQuote aid bid ask ts).outputs →
        t = f.tick f.activeUpToken t.bestBid t.bestAsk := by
  unfold Feed.emitQuote
  split
  · rename_i hguard
    have haid : aid = f.activeUpToken := (of_decide_eq_true hguard).2
    split
    · dsimp only
      split
      · exact ⟨rfl, fun _ h => absurd h List.not_mem_nil⟩
      · refine ⟨rfl, ?_⟩
        intro t h
        rw [List.mem_singleton] at h
        cases h
        rw [haid]
        rfl
    · exact ⟨rfl, fun _ h => absurd h List.not_mem_nil⟩
  · exact ⟨rfl, fun _ h => absurd h List.not_mem_nil⟩

/-- The entries of a message do not change the market, and what is emitted for
them is labelled with it. -/
theorem quoteEntries_market (entries : List (Item × String)) {f g : Feed}
    (hactive : g.active = f.active) (htok : g.activeUpToken = f.activeUpToken) :
    (g.quoteEntries entries).feed.active = f.active ∧
      (g.quoteEntries entries).feed.activeUpToken = f.activeUpToken ∧
      ∀ t, Output.quote t ∈ (g.quoteEntries entries).outputs →
        t = f.tick f.activeUpToken t.bestBid t.bestAsk := by
  induction entries generalizing g with
  | nil => exact ⟨hactive, htok, fun _ h => absurd h List.not_mem_nil⟩
  | cons e rest ih =>
    obtain ⟨item, ts⟩ := e
    cases item with
    | throws => exact ⟨hactive, htok, fun _ h => absurd h List.not_mem_nil⟩
    | entry aid top =>
      simp only [Feed.quoteEntries]
      split
      · cases top with
        | throws => exact ⟨hactive, htok, fun _ h => absurd h List.not_mem_nil⟩
        | nothing => exact ih hactive htok
        | prices bid ask =>
          obtain ⟨hok, hkept, -⟩ := emitQuote_spec g aid bid ask ts
          obtain ⟨hsame, hquote⟩ := emitQuote_market g aid bid ask ts
          obtain ⟨hactive', htok', hlater⟩ := ih (hsame.trans hactive) (hkept.trans htok)
          dsimp only
          rw [andThen_outputs hok]
          have hfeed : ((g.emitQuote aid bid ask ts).andThen fun f => f.quoteEntries rest).feed =
              ((g.emitQuote aid bid ask ts).feed.quoteEntries rest).feed := by
            simp [Result.andThen, hok]
          rw [hfeed]
          refine ⟨hactive', htok', ?_⟩
          intro t h
          rcases List.mem_append.mp h with hnow | hlater'
          · have hmarket := hquote t hnow
            unfold Feed.tick at hmarket ⊢
            rw [hactive, htok] at hmarket
            exact hmarket
          · exact hlater t hlater'
      · exact ih hactive htok

/-- The active token is that of the active market. -/
def Feed.Consistent (f : Feed) : Prop := f.activeUpToken = f.active.upTokenId

theorem maybeHandleNewMarket_consistent {f : Feed} (hf : f.Consistent) (j : Json) :
    (f.maybeHandleNewMarket j).feed.Consistent := by
  unfold Feed.maybeHandleNewMarket
  split
  · exact hf
  · exact hf
  · split
    · exact hf
    · split
      · exact hf
      · split
        · exact hf
        · rfl

theorem tryHydrate_consistent {f : Feed} (hf : f.Consistent) (j : Json) :
    (f.tryHydrateFromMessage j).Consistent := by
  unfold Feed.tryHydrateFromMessage
  split
  · exact hf
  · split
    · split <;> exact hf
    · exact hf

/-- After a message the token is that of the market, and every quote emitted
carries the token, the slug and the id of the market that is active then. -/
theorem onWsMessage_market {dump : Json → String} {f : Feed} (hf : f.Consistent)
    (msg : Option Json) :
    (onWsMessage dump f msg).feed.Consistent ∧
      ∀ t, Output.quote t ∈ (onWsMessage dump f msg).outputs →
        t = (onWsMessage dump f msg).feed.tick (onWsMessage dump f msg).feed.active.upTokenId
          t.bestBid t.bestAsk := by
  cases msg with
  | none => exact ⟨hf, fun _ h => absurd h List.not_mem_nil⟩
  | some j =>
    simp only [onWsMessage]
    split
    · have hhydrated := tryHydrate_consistent hf j
      split
      · exact ⟨hhydrated, fun _ h => absurd h List.not_mem_nil⟩
      · exact ⟨maybeHandleNewMarket_consistent hhydrated j,
          fun t h => absurd h (newMarket_emits_no_quote _ _ t)⟩
      · split
        · exact ⟨hhydrated, fun _ h => absurd h List.not_mem_nil⟩
        · obtain ⟨hactive, htok, hquote⟩ :=
            quoteEntries_market (stampedItems dump j) (f := f.tryHydrateFromMessage j) rfl rfl
          refine ⟨?_, ?_⟩
          · unfold Feed.Consistent
            rw [htok, hactive]
            exact hhydrated
          · intro t h
            have hmarket := hquote t h
            unfold Feed.tick at hmarket ⊢
            rw [hactive, ← hhydrated]
            exact hmarket
    · exact ⟨hf, fun _ h => absurd h List.not_mem_nil⟩

/-! ### Runs -/

inductive Label where
  | message (msg : Option Json) (systemMs : ℤ)
  | opened

def Announced.next (dump : Json → String) (a : Announced) : Label → Announced
  | .message msg systemMs =>
    let (r, ts) := a.onWsMessage dump systemMs msg
    { feed := r.feed, activeAnnouncedTsMs := ts }
  | .opened => { a with feed := { a.feed with lastQuoteDedup := "" } }

def Announced.outputs (dump : Json → String) (a : Announced) : Label → List Output
  | .message msg systemMs => (a.onWsMessage dump systemMs msg).1.outputs
  | .opened => []

/-- The feed while it runs. `start` takes the token from the market and the time
from the clock. -/
def announcedFeed (dump : Json → String) : Lts Announced Label where
  init a := a.feed.Consistent ∧ a.feed.lastQuoteDedup = ""
  step a l b := b = a.next dump l

/-- A message that switches carries a positive time, and none before the active
market's. -/
def Fresh (a : Announced) : Label → Prop
  | .message msg _ => ∀ j next, Switches a.feed msg j next →
      0 < parseTsMs j ∧ a.activeAnnouncedTsMs ≤ parseTsMs j
  | .opened => True

section Run

variable {dump : Json → String} {a b : Announced} {l : Label}

/-- Among positive times, a step goes back exactly with a message that is not fresh. -/
theorem next_announced_le_iff
    (hpos : ∀ msg systemMs j next, l = .message msg systemMs → Switches a.feed msg j next →
      0 < parseTsMs j) :
    a.activeAnnouncedTsMs ≤ (a.next dump l).activeAnnouncedTsMs ↔ Fresh a l := by
  cases l with
  | opened => exact ⟨fun _ => trivial, fun _ => le_rfl⟩
  | message msg systemMs =>
    show a.activeAnnouncedTsMs ≤ (a.onWsMessage dump systemMs msg).2 ↔ _
    rcases onWsMessage_cases dump a systemMs msg with ⟨hts, hnone⟩ | ⟨j, next, hswitch, hts⟩
    · rw [hts]
      constructor
      · intro _ j next h
        exact absurd h (hnone j next)
      · intro _
        exact le_rfl
    · rw [hts, if_pos (hpos msg systemMs j next rfl hswitch)]
      constructor
      · intro hle j' next' h
        obtain rfl : j' = j :=
          Option.some.inj (h.message.symm.trans hswitch.message)
        exact ⟨hpos msg systemMs j' next' rfl h, hle⟩
      · intro hfresh
        exact (hfresh j next hswitch).2

theorem announced_le_of_run {ls : List Label}
    (h : ((announcedFeed dump).restrict Fresh).Run a ls b) :
    a.activeAnnouncedTsMs ≤ b.activeAnnouncedTsMs := by
  induction h with
  | nil => exact le_rfl
  | snoc _ hst ih =>
    obtain ⟨rfl, hfresh⟩ := hst
    refine ih.trans ((next_announced_le_iff ?_).mpr hfresh)
    intro msg systemMs j next hl hswitch
    subst hl
    exact (hfresh j next hswitch).1

theorem consistent_of_reachable (h : (announcedFeed dump).Reachable a) : a.feed.Consistent := by
  refine h.invariant (I := fun a => a.feed.Consistent) ?_ ?_
  · intro s hs
    exact hs.1
  · intro s l t _ ih hst
    obtain rfl : t = s.next dump l := hst
    cases l with
    | opened => exact ih
    | message msg systemMs =>
      show (s.onWsMessage dump systemMs msg).1.feed.Consistent
      rw [announced_feed]
      exact (onWsMessage_market ih msg).1

end Run

/-- From every reachable state, a run whose switches are fresh never takes the
announcement time back; and every step's quotes carry the token, the slug and
the id of the market that is active after it. -/
theorem announcements_in_order {dump : Json → String} {a : Announced}
    (h : (announcedFeed dump).Reachable a) :
    (∀ ls b, ((announcedFeed dump).restrict Fresh).Run a ls b →
      a.activeAnnouncedTsMs ≤ b.activeAnnouncedTsMs) ∧
    ∀ l b, (announcedFeed dump).step a l b → ∀ t, Output.quote t ∈ a.outputs dump l →
      t.tokenId = b.feed.activeUpToken ∧ t.tokenId = b.feed.active.upTokenId ∧
        t.marketSlug = b.feed.active.slug ∧
        t.marketId = if b.feed.active.marketId = "" then b.feed.active.conditionId
          else b.feed.active.marketId := by
  have hconsistent := consistent_of_reachable h
  refine ⟨fun _ _ hrun => announced_le_of_run hrun, ?_⟩
  intro l b hst t ht
  obtain rfl : b = a.next dump l := hst
  cases l with
  | opened => exact absurd ht List.not_mem_nil
  | message msg systemMs =>
    have hfeed : (a.next dump (.message msg systemMs)).feed =
        (onWsMessage dump a.feed msg).feed := by
      rw [← announced_feed dump a systemMs msg]
      rfl
    have hout : Output.quote t ∈ (onWsMessage dump a.feed msg).outputs := by
      rw [← announced_feed dump a systemMs msg]
      exact ht
    obtain ⟨hkept, hquote⟩ := onWsMessage_market hconsistent msg
    have hmarket := hquote t hout
    rw [hfeed, hmarket]
    exact ⟨hkept.symm, rfl, rfl, rfl⟩

/-- A market of the family, announced at `ts`. -/
def newMarket (ts : ℤ) (condition token : String) : Json :=
  .obj [("event_type", .str "new_market"), ("slug", .str "btc-updown-5m-300"),
    ("market", .str condition), ("timestamp", .int ts),
    ("outcomes", .arr [.str "Up", .str "Down"]),
    ("clob_token_ids", .arr [.str token, .str "down"])]

/-- The second market, announced at 2000. -/
def secondMarket : Announced where
  feed :=
    { active := { conditionId := "0xb", slug := "btc-updown-5m-600", upTokenId := "up-b" }
      activeUpToken := "up-b" }
  activeAnnouncedTsMs := 2000

theorem secondMarket_reachable (dump : Json → String) :
    (announcedFeed dump).Reachable secondMarket :=
  .init ⟨rfl, rfl⟩

/-- The third market is announced after the second. -/
theorem announcements_in_order_third :
    ∃ b, ((announcedFeed fun _ => "").restrict Fresh).Run secondMarket
        [.message (some (newMarket 3000 "0xc" "up-c")) 5000] b ∧
      secondMarket.activeAnnouncedTsMs ≤ b.activeAnnouncedTsMs ∧ b.activeAnnouncedTsMs = 3000 := by
  have hfresh : Fresh secondMarket (.message (some (newMarket 3000 "0xc" "up-c")) 5000) := by
    intro j next hswitch
    obtain rfl := Option.some.inj hswitch.message
    decide
  have hrun := Lts.Run.snoc (m := (announcedFeed fun _ => "").restrict Fresh)
    (s := secondMarket) .nil ⟨rfl, hfresh⟩
  refine ⟨_, hrun, (announcements_in_order (secondMarket_reachable _)).1 _ _ hrun, ?_⟩
  decide +kernel

/-- The announcement of the first market, sent again, takes the feed back to it. -/
theorem replayed_announcement_rolls_back :
    ¬ ∀ (dump : Json → String) (a b : Announced) (ls : List Label),
      (announcedFeed dump).Reachable a → (announcedFeed dump).Run a ls b →
        (∀ msg systemMs j, .message msg systemMs ∈ ls → msg = some j → 0 < parseTsMs j) →
          a.activeAnnouncedTsMs ≤ b.activeAnnouncedTsMs := by
  intro h
  have hrun := Lts.Run.snoc (m := announcedFeed fun _ => "") (s := secondMarket)
    (l := .message (some (newMarket 1000 "0xa" "up-a")) 5000) .nil rfl
  have hle := h _ _ _ _ (secondMarket_reachable _) hrun ?_
  · exact absurd hle (by decide +kernel)
  · intro msg systemMs j hmem hj
    obtain ⟨hmsg, -⟩ := Label.message.inj (List.mem_singleton.mp hmem)
    obtain rfl := Option.some.inj (hmsg.symm.trans hj)
    decide

end LeadLag.PolyWs
