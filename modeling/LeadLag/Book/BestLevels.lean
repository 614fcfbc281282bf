import LeadLag.Book.RestQuote
import LeadLag.Core.FirstLeast

/-!
# The top of a book (ws_fixed_token_feed.cpp:17-98, poly_ws_quote_feed.cpp:37-72, 354-403)

The two copies of `parse_top_of_book_from_book` are the same text. They end with the
highest bid and the lowest ask among the levels that count, whatever stands between
them and in whatever order, and a sorted book has these prices at its ends.
-/

namespace LeadLag.Book
open LeadLag.Core
open LeadLag.TokenFeed (Price stodPrice jsonToDouble levelPrice levels bestLevel
  jsonLevelSizePositive parseTopOfBookFromBook)

/-! ### The levels that count -/

def SizeAbove (t : ℚ) (lvl : Json) : Prop :=
  ∃ v s, lvl.field? "size" = some v ∧ jsonToDouble v = some s ∧ (t : Price) < s

/-- The level names the price next to a size above the threshold. -/
structure Offers (lvl : Json) (p : Price) : Prop where
  price : ∃ v, lvl.field? "price" = some v ∧ jsonToDouble v = some p
  size : SizeAbove (1 / 10 ^ 18) lvl

def offered (key : String) (j : Json) : Set Price := {p | ∃ lvl ∈ levels key j, Offers lvl p}

theorem sizeAbove_iff {t : ℚ} {lvl : Json} : SizeAbove t lvl ↔
    ((lvl.field? "size").bind jsonToDouble).any (fun v => decide ((t : Price) < v)) = true := by
  simp only [SizeAbove, Option.any_eq_true, decide_eq_true_eq, Option.bind_eq_some_iff]
  constructor
  · intro h
    obtain ⟨v, s, hv, hs, hlt⟩ := h
    exact ⟨s, ⟨v, hv, hs⟩, hlt⟩
  · intro h
    obtain ⟨s, ⟨v, hv, hs⟩, hlt⟩ := h
    exact ⟨v, s, hv, hs, hlt⟩

instance (t : ℚ) (lvl : Json) : Decidable (SizeAbove t lvl) := decidable_of_iff _ sizeAbove_iff.symm

theorem sizePositive_iff {lvl : Json} :
    jsonLevelSizePositive lvl = true ↔ SizeAbove (1 / 10 ^ 18) lvl := sizeAbove_iff.symm

theorem levelPrice_of_size {lvl : Json} (h : jsonLevelSizePositive lvl = true) :
    levelPrice lvl = (lvl.field? "price").bind jsonToDouble := by
  unfold levelPrice
  cases lvl.field? "price" with
  | none => rfl
  | some v => exact if_pos h

theorem levelPrice_eq_some_iff {lvl : Json} {p : Price} :
    levelPrice lvl = some p ↔ Offers lvl p := by
  by_cases hsize : jsonLevelSizePositive lvl = true
  · rw [levelPrice_of_size hsize, Option.bind_eq_some_iff]
    exact ⟨fun h => ⟨h, sizePositive_iff.mp hsize⟩, fun h => h.price⟩
  · have hnone : levelPrice lvl = none := by
      unfold levelPrice
      cases lvl.field? "price" with
      | none => rfl
      | some v => exact if_neg hsize
    rw [hnone]
    constructor
    · intro h
      cases h
    · intro h
      exact absurd (sizePositive_iff.mpr h.size) hsize

def prices (lvls : List Json) : List Price := lvls.filterMap levelPrice

theorem mem_prices {key : String} {j : Json} {p : Price} :
    p ∈ prices (levels key j) ↔ p ∈ offered key j := by
  unfold prices
  rw [List.mem_filterMap]
  show (∃ lvl, lvl ∈ levels key j ∧ levelPrice lvl = some p) ↔ ∃ lvl ∈ levels key j, Offers lvl p
  simp only [levelPrice_eq_some_iff]

theorem prices_ne_nil_iff {key : String} {j : Json} :
    prices (levels key j) ≠ [] ↔ (offered key j).Nonempty := by
  constructor
  · intro h
    obtain ⟨p, hp⟩ := List.exists_mem_of_ne_nil _ h
    exact ⟨p, mem_prices.mp hp⟩
  · intro h
    obtain ⟨p, hp⟩ := h
    exact List.ne_nil_of_mem (mem_prices.mpr hp)

/-! ### The loops -/

/-- The levels that do not count leave the best price as it is. -/
theorem bestLevel_eq_foldl (better : Price → Price → Bool) (best : Option Price)
    (lvls : List Json) :
    bestLevel better best lvls =
      (prices lvls).foldl (fun best p => if best.all (better p) then some p else best) best := by
  induction lvls generalizing best with
  | nil => rfl
  | cons lvl lvls ih =>
    unfold prices
    cases hprice : levelPrice lvl with
    | none =>
      rw [List.filterMap_cons_none hprice]
      simp only [bestLevel, hprice]
      exact ih best
    | some p =>
      rw [List.filterMap_cons_some hprice, List.foldl_cons]
      simp only [bestLevel, hprice]
      exact ih _

theorem bestBid_scanned (lvls : List Json) :
    Scanned (fun _ => True) OrderDual.toDual (prices lvls)
      (bestLevel (fun p best => decide (best < p)) none lvls) := by
  rw [bestLevel_eq_foldl]
  apply scanned_foldl_better
  intro p best
  rw [decide_eq_true_eq]
  exact OrderDual.toDual_lt_toDual.symm

theorem bestAsk_scanned (lvls : List Json) :
    Scanned (fun _ => True) id (prices lvls)
      (bestLevel (fun p best => decide (p < best)) none lvls) := by
  rw [bestLevel_eq_foldl]
  apply scanned_foldl_better
  intro p best
  rw [decide_eq_true_eq]
  rfl

theorem bestBid_eq_some_iff {j : Json} {bid : Price} :
    bestLevel (fun p best => decide (best < p)) none (levels "bids" j) = some bid ↔
      IsGreatest (offered "bids" j) bid := by
  rw [(bestBid_scanned _).eq_some_iff OrderDual.toDual.injective, mem_prices]
  show _ ↔ _ ∧ ∀ p, p ∈ offered "bids" j → p ≤ bid
  simp only [mem_prices, OrderDual.toDual_le_toDual]

theorem bestAsk_eq_some_iff {j : Json} {ask : Price} :
    bestLevel (fun p best => decide (p < best)) none (levels "asks" j) = some ask ↔
      IsLeast (offered "asks" j) ask := by
  rw [(bestAsk_scanned _).eq_some_iff Function.injective_id, mem_prices]
  show _ ↔ _ ∧ ∀ p, p ∈ offered "asks" j → ask ≤ p
  simp only [mem_prices, id_eq]

theorem parseTop_eq_some_iff {j : Json} {bid ask : Price} :
    parseTopOfBookFromBook j = some (bid, ask) ↔
      IsGreatest (offered "bids" j) bid ∧ IsLeast (offered "asks" j) ask := by
  rw [← bestBid_eq_some_iff, ← bestAsk_eq_some_iff]
  unfold parseTopOfBookFromBook
  cases bestLevel (fun p best => decide (best < p)) none (levels "bids" j) with
  | none => simp
  | some b =>
    cases bestLevel (fun p best => decide (p < best)) none (levels "asks" j) with
    | none => simp
    | some a => simp

theorem parseTop_isSome_iff {j : Json} :
    (parseTopOfBookFromBook j).isSome = true ↔
      (offered "bids" j).Nonempty ∧ (offered "asks" j).Nonempty := by
  rw [Option.isSome_iff_exists]
  constructor
  · intro h
    obtain ⟨⟨bid, ask⟩, htop⟩ := h
    obtain ⟨hbid, hask⟩ := parseTop_eq_some_iff.mp htop
    exact ⟨hbid.nonempty, hask.nonempty⟩
  · intro h
    obtain ⟨hbids, hasks⟩ := h
    obtain ⟨bid, hbid⟩ := Option.isSome_iff_exists.mp
      ((bestBid_scanned _).isSome_iff.mpr (prices_ne_nil_iff.mpr hbids))
    obtain ⟨ask, hask⟩ := Option.isSome_iff_exists.mp
      ((bestAsk_scanned _).isSome_iff.mpr (prices_ne_nil_iff.mpr hasks))
    exact ⟨(bid, ask), parseTop_eq_some_iff.mpr
      ⟨bestBid_eq_some_iff.mp hbid, bestAsk_eq_some_iff.mp hask⟩⟩

theorem parseTop_congr {j j' : Json} (hbids : offered "bids" j = offered "bids" j')
    (hasks : offered "asks" j = offered "asks" j') :
    parseTopOfBookFromBook j = parseTopOfBookFromBook j' := by
  apply Option.ext
  intro top
  obtain ⟨bid, ask⟩ := top
  show parseTopOfBookFromBook j = some (bid, ask) ↔ parseTopOfBookFromBook j' = some (bid, ask)
  rw [parseTop_eq_some_iff, parseTop_eq_some_iff, hbids, hasks]

/-! ### Rearranged levels -/

/-- The same levels in another order, with levels put in or left out that offer no price. -/
inductive Rearranged : List Json → List Json → Prop where
  | perm {lvls lvls' : List Json} (h : lvls.Perm lvls') : Rearranged lvls lvls'
  | insert {lvl : Json} (h : ∀ p, ¬ Offers lvl p) (front rest : List Json) :
    Rearranged (front ++ rest) (front ++ lvl :: rest)
  | remove {lvl : Json} (h : ∀ p, ¬ Offers lvl p) (front rest : List Json) :
    Rearranged (front ++ lvl :: rest) (front ++ rest)
  | trans {lvls lvls' lvls'' : List Json} (h : Rearranged lvls lvls')
    (h' : Rearranged lvls' lvls'') : Rearranged lvls lvls''

theorem exists_offers_insert {lvl : Json} (h : ∀ p, ¬ Offers lvl p) (front rest : List Json)
    (p : Price) :
    (∃ l ∈ front ++ lvl :: rest, Offers l p) ↔ ∃ l ∈ front ++ rest, Offers l p := by
  constructor
  · intro hoffer
    obtain ⟨l, hl, hp⟩ := hoffer
    rcases List.mem_append.mp hl with hl | hl
    · exact ⟨l, List.mem_append_left _ hl, hp⟩
    · rcases List.mem_cons.mp hl with hl | hl
      · rw [hl] at hp
        exact absurd hp (h p)
      · exact ⟨l, List.mem_append_right _ hl, hp⟩
  · intro hoffer
    obtain ⟨l, hl, hp⟩ := hoffer
    rcases List.mem_append.mp hl with hl | hl
    · exact ⟨l, List.mem_append_left _ hl, hp⟩
    · exact ⟨l, List.mem_append_right _ (List.mem_cons_of_mem lvl hl), hp⟩

theorem Rearranged.exists_offers {lvls lvls' : List Json} (h : Rearranged lvls lvls') (p : Price) :
    (∃ lvl ∈ lvls, Offers lvl p) ↔ ∃ lvl ∈ lvls', Offers lvl p := by
  induction h with
  | perm h => simp only [h.mem_iff]
  | insert h front rest => exact (exists_offers_insert h front rest p).symm
  | remove h front rest => exact exists_offers_insert h front rest p
  | trans h h' ih ih' => exact ih.trans ih'

theorem Rearranged.offered_eq {key : String} {j j' : Json}
    (h : Rearranged (levels key j) (levels key j')) : offered key j = offered key j' :=
  Set.ext h.exists_offers

/-! ### Sorted books -/

def priceOf (lvl : Json) : Option Price := (lvl.field? "price").bind jsonToDouble

/-- Every level has a price, and the prices stand in the order `le`. -/
structure Sorted (le : Price → Price → Prop) (lvls : List Json) : Prop where
  priced : ∀ lvl ∈ lvls, ∃ p, priceOf lvl = some p
  ordered : lvls.Pairwise fun lvl lvl' => ∀ p p', priceOf lvl = some p →
    priceOf lvl' = some p' → le p p'

theorem sorted_of_prices {le : Price → Price → Prop} {lvls : List Json} (ps : List Price)
    (hps : lvls.map priceOf = ps.map some) (hle : ps.Pairwise le) : Sorted le lvls := by
  constructor
  · intro lvl hlvl
    have hmem : priceOf lvl ∈ ps.map some := by
      rw [← hps]
      exact List.mem_map_of_mem hlvl
    obtain ⟨p, -, hp⟩ := List.mem_map.mp hmem
    exact ⟨p, hp.symm⟩
  · have hoptions : (ps.map some).Pairwise fun o o' =>
        ∀ p p', o = some p → o' = some p' → le p p' := by
      rw [List.pairwise_map]
      refine hle.imp ?_
      intro a b hab p p' ha hb
      rw [← Option.some.inj ha, ← Option.some.inj hb]
      exact hab
    rw [← hps, List.pairwise_map] at hoptions
    exact hoptions

theorem levels_of_field {key : String} {j : Json} {lvls : List Json}
    (h : j.field? key = some (.arr lvls)) : levels key j = lvls := by
  unfold levels
  rw [h]

theorem Offers.priceOf {lvl : Json} {p : Price} (h : Offers lvl p) : priceOf lvl = some p :=
  Option.bind_eq_some_iff.mpr h.price

theorem offers_of_priceOf {lvl : Json} {p : Price} (h : priceOf lvl = some p)
    (hsize : jsonLevelSizePositive lvl = true) : Offers lvl p :=
  ⟨Option.bind_eq_some_iff.mp h, sizePositive_iff.mp hsize⟩

theorem parsePriceField_of_number {v : Json} {p : Price} (h : jsonToDouble v = some p) :
    parsePriceField v = some (some p) := by
  cases v with
  | int i =>
    cases h
    rfl
  | float x =>
    cases h
    rfl
  | str s =>
    have hprice : stodPrice s = some p := h
    show (stod s).map (fun _ => stodPrice s) = some (some p)
    cases hstod : stod s with
    | none =>
      unfold stodPrice at hprice
      rw [hstod] at hprice
      cases hprice
    | some x => rw [Option.map_some, hprice]
  | null | bool | arr | obj => cases h

theorem priceField_of_priceOf {lvl : Json} {p : Price} (h : priceOf lvl = some p) :
    priceField lvl = some (some p) := by
  obtain ⟨v, hv, hp⟩ := Option.bind_eq_some_iff.mp h
  unfold priceField
  rw [hv, Option.bind_some]
  exact parsePriceField_of_number hp

theorem Sorted.last {le : Price → Price → Prop} {lvls : List Json} {last : Json}
    (h : Sorted le lvls) (hrefl : ∀ p, le p p)
    (hsizes : ∀ lvl ∈ lvls, jsonLevelSizePositive lvl = true) (hlast : lvls.getLast? = some last) :
    ∃ p, priceOf last = some p ∧ (∃ lvl ∈ lvls, Offers lvl p) ∧
      ∀ q, (∃ lvl ∈ lvls, Offers lvl q) → le q p := by
  obtain ⟨front, rfl⟩ := List.getLast?_eq_some_iff.mp hlast
  have hmem : last ∈ front ++ [last] := List.mem_append_right _ List.mem_cons_self
  obtain ⟨p, hp⟩ := h.priced last hmem
  refine ⟨p, hp, ⟨last, hmem, offers_of_priceOf hp (hsizes last hmem)⟩, ?_⟩
  intro q hq
  obtain ⟨lvl, hlvl, hoffer⟩ := hq
  rcases List.mem_append.mp hlvl with hfront | hend
  · have hcross := (List.pairwise_append.mp h.ordered).2.2
    exact hcross lvl hfront last List.mem_cons_self q p hoffer.priceOf hp
  · rw [List.mem_singleton.mp hend] at hoffer
    have heq : some q = some p := hoffer.priceOf.symm.trans hp
    rw [Option.some.inj heq]
    exact hrefl p

theorem readBook_of_last {tokenId : String} {steadyNs systemMs : ℤ} {out : BookQuote} {j : Json}
    {bids asks : List Json} {bid ask : Json} {p q : Price}
    (hbids : j.field? "bids" = some (.arr bids)) (hasks : j.field? "asks" = some (.arr asks))
    (hbid : bids.getLast? = some bid) (hask : asks.getLast? = some ask)
    (hp : priceOf bid = some p) (hq : priceOf ask = some q) :
    (readBook tokenId steadyNs systemMs out j).top? = some (some p, some q) := by
  have hbackBid : back (.arr bids) = some bid := hbid
  have hbackAsk : back (.arr asks) = some ask := hask
  unfold readBook
  simp only [hbids, hasks, hbackBid, hbackAsk, priceField_of_priceOf hp, priceField_of_priceOf hq]
  rfl

theorem readBook_of_empty {tokenId : String} {steadyNs systemMs : ℤ} {out : BookQuote} {j : Json}
    {bids asks : List Json}
    (hbids : j.field? "bids" = some (.arr bids)) (hasks : j.field? "asks" = some (.arr asks))
    (hempty : bids = [] ∨ asks = []) :
    (readBook tokenId steadyNs systemMs out j).top? = none := by
  unfold readBook
  simp only [hbids, hasks]
  rcases hempty with hempty | hempty
  · rw [hempty]
    rfl
  · rw [hempty]
    cases back (.arr bids) with
    | none => rfl
    | some bid => rfl

/-- On a sorted book whose levels all count the last levels are the top. -/
theorem readBook_eq_parseTop (tokenId : String) (steadyNs systemMs : ℤ) (out : BookQuote) {j : Json}
    {bids asks : List Json}
    (hbids : j.field? "bids" = some (.arr bids)) (hasks : j.field? "asks" = some (.arr asks))
    (hascending : Sorted (· ≤ ·) bids) (hdescending : Sorted (· ≥ ·) asks)
    (hsizes : ∀ lvl ∈ bids ++ asks, jsonLevelSizePositive lvl = true) :
    (readBook tokenId steadyNs systemMs out j).top? =
      (parseTopOfBookFromBook j).map fun top => (some top.1, some top.2) := by
  have hbidLevels := levels_of_field hbids
  have haskLevels := levels_of_field hasks
  by_cases hempty : bids = [] ∨ asks = []
  · rw [readBook_of_empty hbids hasks hempty]
    cases htop : parseTopOfBookFromBook j with
    | none => rfl
    | some top =>
      have hsome : (parseTopOfBookFromBook j).isSome = true := by rw [htop]; rfl
      obtain ⟨⟨p, b, hb, -⟩, q, a, ha, -⟩ := parseTop_isSome_iff.mp hsome
      rw [hbidLevels] at hb
      rw [haskLevels] at ha
      rcases hempty with hempty | hempty
      · rw [hempty] at hb
        exact absurd hb List.not_mem_nil
      · rw [hempty] at ha
        exact absurd ha List.not_mem_nil
  · have hne := not_or.mp hempty
    have hbid := List.getLast?_eq_some_getLast hne.1
    have hask := List.getLast?_eq_some_getLast hne.2
    have hbidSizes : ∀ lvl ∈ bids, jsonLevelSizePositive lvl = true :=
      fun lvl hlvl => hsizes lvl (List.mem_append_left _ hlvl)
    have haskSizes : ∀ lvl ∈ asks, jsonLevelSizePositive lvl = true :=
      fun lvl hlvl => hsizes lvl (List.mem_append_right _ hlvl)
    obtain ⟨p, hp, hpmem, hpmax⟩ := hascending.last le_refl hbidSizes hbid
    obtain ⟨q, hq, hqmem, hqmin⟩ := hdescending.last le_refl haskSizes hask
    have htop : parseTopOfBookFromBook j = some (p, q) := by
      rw [parseTop_eq_some_iff]
      unfold offered
      rw [hbidLevels, haskLevels]
      exact ⟨⟨hpmem, hpmax⟩, hqmem, hqmin⟩
    rw [htop, readBook_of_last hbids hasks hbid hask hp hq]
    rfl

/-! ### The top of a book -/

/-- The top is there when both sides offer a price, is the best of either side, depends on
no order and on no level that does not count, and is the end of a sorted book of sizes
above the threshold. -/
theorem topOfBook_of_offers (j : Json) :
    ((parseTopOfBookFromBook j).isSome = true ↔
      (offered "bids" j).Nonempty ∧ (offered "asks" j).Nonempty) ∧
    (∀ bid ask, parseTopOfBookFromBook j = some (bid, ask) →
      IsGreatest (offered "bids" j) bid ∧ IsLeast (offered "asks" j) ask) ∧
    (∀ j', Rearranged (levels "bids" j) (levels "bids" j') →
      Rearranged (levels "asks" j) (levels "asks" j') →
      parseTopOfBookFromBook j' = parseTopOfBookFromBook j) ∧
    ∀ (parse : String → Option Json) (tokenId : String) (steadyNs systemMs : ℤ) (out : BookQuote)
      (httpCode : ℤ) (body : String) (bids asks : List Json),
      200 ≤ httpCode → httpCode < 300 → parse body = some j →
      j.field? "bids" = some (.arr bids) → j.field? "asks" = some (.arr asks) →
      Sorted (· ≤ ·) bids → Sorted (· ≥ ·) asks →
      (∀ lvl ∈ bids ++ asks, SizeAbove (1 / 10 ^ 18) lvl) →
      (fetchOrderBook parse tokenId steadyNs systemMs out (.reply httpCode body)).top? =
        (parseTopOfBookFromBook j).map fun top => (some top.1, some top.2) := by
  refine ⟨parseTop_isSome_iff, fun bid ask => parseTop_eq_some_iff.mp, ?_, ?_⟩
  · intro j' hbids hasks
    exact (parseTop_congr hbids.offered_eq hasks.offered_eq).symm
  · intro parse tokenId steadyNs systemMs out httpCode body bids asks hlow hhigh hparse hbids hasks
      hascending hdescending hsizes
    have hcode : ¬ (httpCode < 200 ∨ httpCode ≥ 300) := by omega
    have hcounts : ∀ lvl ∈ bids ++ asks, jsonLevelSizePositive lvl = true :=
      fun lvl hlvl => sizePositive_iff.mpr (hsizes lvl hlvl)
    have hfetch : fetchOrderBook parse tokenId steadyNs systemMs out (.reply httpCode body) =
        readBook tokenId steadyNs systemMs out j := by
      unfold fetchOrderBook
      simp only [hcode, hparse, if_false]
    rw [hfetch]
    exact readBook_eq_parseTop tokenId steadyNs systemMs out hbids hasks hascending hdescending
      hcounts

def level (price size : String) : Json := .obj [("price", .str price), ("size", .str size)]

def bookOf (bids asks : List Json) : Json := .obj [("bids", .arr bids), ("asks", .arr asks)]

def deepBids : List Json := [level "0.45" "10", level "0.48" "30"]

def deepAsks : List Json := [level "0.55" "20", level "0.52" "25"]

theorem topOfBook_deep :
    (fetchOrderBook (fun _ => some (bookOf deepBids deepAsks)) "up" 7 8 {} (.reply 200 "")).top? =
      some (some ((12 / 25 : ℚ) : Price), some ((13 / 25 : ℚ) : Price)) := by
  have hbids : Sorted (· ≤ ·) deepBids :=
    sorted_of_prices [((9 / 20 : ℚ) : Price), ((12 / 25 : ℚ) : Price)] (by decide +kernel)
      (by decide +kernel)
  have hasks : Sorted (· ≥ ·) deepAsks :=
    sorted_of_prices [((11 / 20 : ℚ) : Price), ((13 / 25 : ℚ) : Price)] (by decide +kernel)
      (by decide +kernel)
  have hrule := (topOfBook_of_offers (bookOf deepBids deepAsks)).2.2.2
  rw [hrule _ _ _ _ _ _ _ _ _ (by decide) (by decide) rfl rfl rfl hbids hasks (by decide +kernel)]
  decide +kernel

def thinBids : List Json := [level "0.5" "1", level "0.6" "1e-19"]

def thinAsks : List Json := [level "0.7" "1"]

/-- A positive size under the threshold: the fetch takes the last bid, the loop does not. -/
theorem topOfBook_thin :
    Sorted (· ≤ ·) thinBids ∧ Sorted (· ≥ ·) thinAsks ∧
      (∀ lvl ∈ thinBids ++ thinAsks, SizeAbove 0 lvl) ∧
      parseTopOfBookFromBook (bookOf thinBids thinAsks) =
        some (((1 / 2 : ℚ) : Price), ((7 / 10 : ℚ) : Price)) ∧
      (fetchOrderBook (fun _ => some (bookOf thinBids thinAsks)) "up" 7 8 {}
        (.reply 200 "")).top? = some (some ((3 / 5 : ℚ) : Price), some ((7 / 10 : ℚ) : Price)) := by
  refine ⟨?_, ?_, by decide +kernel, by decide +kernel, by decide +kernel⟩
  · exact sorted_of_prices [((1 / 2 : ℚ) : Price), ((3 / 5 : ℚ) : Price)] (by decide +kernel)
      (by decide +kernel)
  · exact sorted_of_prices [((7 / 10 : ℚ) : Price)] (by decide +kernel) (by decide +kernel)

end LeadLag.Book
