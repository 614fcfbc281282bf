import LeadLag.Core.Kept
import LeadLag.Gamma.Bootstrap
import LeadLag.PolyWs.Feed

/-!
# Tokens and their outcomes

bucket_market_discovery.cpp:82-163 and 429-461, gamma_bootstrap.cpp:54-111 and
225-258, poly_ws_quote_feed.cpp:74-127 and 426-442. The outcomes and the tokens
of a market are two lists of JSON values. Each is filtered for strings on its
own, only the lengths that remain are compared, and the tokens are read at the
position of an outcome in the filtered outcomes. The lists of the message itself
are what the sides are judged by here.
-/

namespace LeadLag.Gamma
open LeadLag.Core LeadLag.Interaction LeadLag.PolyWs

/-! ### The lists of a market -/

/-- What a loop over a value visits. -/
def entriesOf : Json → List Json
  | .null => []
  | .arr xs => xs
  | .obj fields => fields.map Prod.snd
  | j => [j]

/-- The list of a field, given as an array or as JSON text. -/
def fieldEntries (parse : String → Option Json) (key : String) (m : Json) : List Json :=
  match m.field? key with
  | some (.arr xs) => xs
  | some (.str raw) => entriesOf ((parse raw).getD (.arr []))
  | _ => []

def arrayEntries (key : String) (j : Json) : List Json :=
  match j.field? key with
  | some (.arr xs) => xs
  | _ => []

/-- The list that `tokens_from_new_market` takes its strings from. -/
def newMarketTokenEntries (j : Json) : List Json :=
  let holdsString key := (arrayEntries key j).filterMap Json.string? ≠ []
  if holdsString "clob_token_ids" then arrayEntries "clob_token_ids" j
  else if holdsString "clobTokenIds" then arrayEntries "clobTokenIds" j
  else arrayEntries "assets_ids" j

theorem stringsOf_eq (j : Json) : stringsOf j = (entriesOf j).filterMap Json.string? := by
  cases j with
  | obj fields =>
    simp only [stringsOf, entriesOf, List.filterMap_map]
    rfl
  | _ => rfl

theorem stringsField_eq (parse : String → Option Json) (key : String) (m : Json) :
    stringsField parse key m = (fieldEntries parse key m).filterMap Json.string? := by
  unfold stringsField fieldEntries
  cases m.field? key with
  | none => rfl
  | some v =>
    cases v with
    | str raw => exact stringsOf_eq _
    | _ => rfl

theorem strings_field_eq (key : String) (j : Json) :
    ((j.field? key).map strings).getD [] = (arrayEntries key j).filterMap Json.string? := by
  unfold arrayEntries
  cases j.field? key with
  | none => rfl
  | some v => cases v <;> rfl

theorem tokensFromNewMarket_eq (j : Json) :
    tokensFromNewMarket j = (newMarketTokenEntries j).filterMap Json.string? := by
  unfold tokensFromNewMarket newMarketTokenEntries
  simp only [strings_field_eq]
  split
  · rfl
  · split <;> rfl

/-! ### The two sides -/

def isNamed (name : String) (o : String) : Bool := lower o = name.toList

/-- Each token stands at the place of an outcome of its side. -/
structure SidesAligned (outs toks : List Json) (up down : String) : Prop where
  up : SamePlace Json.string? Json.string? (isNamed "up") outs toks up
  down : SamePlace Json.string? Json.string? (isNamed "down") outs toks down

structure SidesFit (outs toks : List Json) : Prop where
  up : Fits Json.string? Json.string? (isNamed "up") outs toks
  down : Fits Json.string? Json.string? (isNamed "down") outs toks

/-- What a reader of two filtered lists reads: the fallback of an outcome that is
not there is left open. -/
def ReadsSide (name : String) (outs toks : List Json) (tok : String) : Prop :=
  ∀ i, indexOutcome name (outs.filterMap Json.string?) = some i →
    (toks.filterMap Json.string?)[i]? = some tok

theorem sidesAligned_iff {outs toks : List Json} {up down : String}
    (hup : ReadsSide "up" outs toks up) (hdown : ReadsSide "down" outs toks down) :
    SidesAligned outs toks up down ↔ SidesFit outs toks := by
  have hup' : SamePlace Json.string? Json.string? (isNamed "up") outs toks up ↔
      Fits Json.string? Json.string? (isNamed "up") outs toks := samePlace_iff_fits hup
  have hdown' : SamePlace Json.string? Json.string? (isNamed "down") outs toks down ↔
      Fits Json.string? Json.string? (isNamed "down") outs toks := samePlace_iff_fits hdown
  constructor
  · rintro ⟨h, h'⟩
    exact ⟨hup'.mp h, hdown'.mp h'⟩
  · rintro ⟨h, h'⟩
    exact ⟨hup'.mpr h, hdown'.mpr h'⟩

/-- Lists of strings only, of one length and with both outcomes, fit. -/
theorem sidesFit_of_strings {outs toks : List Json} (hlen : outs.length = toks.length)
    (houts : ∀ o ∈ outs, o.string?.isSome = true) (htoks : ∀ t ∈ toks, t.string?.isSome = true)
    (hup : ∃ i, indexOutcome "up" (outs.filterMap Json.string?) = some i)
    (hdown : ∃ i, indexOutcome "down" (outs.filterMap Json.string?) = some i) :
    SidesFit outs toks :=
  ⟨fits_of_all hlen houts htoks hup, fits_of_all hlen houts htoks hdown⟩

/-! ### The three readers -/

theorem validateAndExtract_tokens (parse : String → Option Json) (event : Json) (slug : String)
    (out : BtcFiveMinuteBucketDiscovery) :
    Returns (validateAndExtract parse event slug out) fun r => r.1 = true →
      ∃ m, findMarketForSlug event slug = some (some m) ∧
        tokensOf (outcomesFromMarket parse m) (tokensFromMarket parse m) =
          some (r.2.upTokenId, r.2.downTokenId) := by
  unfold validateAndExtract
  rw [returns_bind, returns_orUncaught]
  intro market hmarket
  cases market with
  | none => exact returns_pure.mpr nofun
  | some d =>
    obtain ⟨m, up, down, conditionId, iso, hfind, htokens, rfl⟩ := extractMarket_confirms hmarket
    refine returns_bind.mpr ((returns_trivial _).mono fun source _ => ?_)
    exact returns_pure.mpr fun _ => ⟨m, hfind, htokens⟩

theorem tokensOf_reads {outs toks : List String} {up down : String}
    (h : tokensOf outs toks = some (up, down)) :
    (∀ i, indexOutcome "up" outs = some i → toks[i]? = some up) ∧
      ∀ i, indexOutcome "down" outs = some i → toks[i]? = some down := by
  unfold tokensOf at h
  split at h
  · cases h
  · split at h
    · rename_i iup idown hiup hidown
      split at h
      · rename_i upTok downTok hup hdown
        cases h
        constructor
        · intro i hi
          rw [hi] at hiup
          cases hiup
          exact hup
        · intro i hi
          rw [hi] at hidown
          cases hidown
          exact hdown
      · cases h
    · cases h

theorem lower_eq_iff (o name : String) : PolyWs.lower o = name ↔ lower o = name.toList := by
  unfold PolyWs.lower lower
  rw [← String.toList_inj, String.toList_map]

theorem indexOfOutcome_eq (name : String) (fallback : ℕ) (outs : List String) :
    indexOfOutcome name fallback outs = (indexOutcome name outs).getD fallback := by
  unfold indexOfOutcome indexOutcome
  simp only [lower_eq_iff]

theorem tokensOfOutcomes_reads {outs toks : List String} {up down : String}
    (hyields : toks ≠ [] ∧ outs.length = toks.length)
    (h : tokensOfOutcomes outs toks = some (up, down)) :
    (∀ i, indexOutcome "up" outs = some i → toks[i]? = some up) ∧
      ∀ i, indexOutcome "down" outs = some i → toks[i]? = some down := by
  unfold tokensOfOutcomes at h
  rw [if_pos hyields] at h
  obtain ⟨upTok, hup, h⟩ := Option.bind_eq_some_iff.mp h
  obtain ⟨downTok, hdown, h⟩ := Option.bind_eq_some_iff.mp h
  cases h
  constructor
  · intro i hi
    rwa [indexUp, indexOfOutcome_eq, hi] at hup
  · intro i hi
    rwa [indexDown, indexOfOutcome_eq, hi] at hdown

/-- Whatever a market is accepted by, its sides are aligned exactly when the
lists fit. -/
theorem tokens_aligned_iff (parse : String → Option Json) :
    (∀ event slug out, Returns (validateAndExtract parse event slug out) fun r =>
      r.1 = true → ∃ m, findMarketForSlug event slug = some (some m) ∧
        (SidesAligned (fieldEntries parse "outcomes" m) (fieldEntries parse "clobTokenIds" m)
            r.2.upTokenId r.2.downTokenId ↔
          SidesFit (fieldEntries parse "outcomes" m) (fieldEntries parse "clobTokenIds" m))) ∧
      (∀ floatText sort params response out r,
        Bootstrap.gammaDiscoverActiveMarket floatText parse sort params response out = (true, r) →
        ∃ ms cs m, response = some (.arr ms) ∧ Bootstrap.candidates parse params ms = some cs ∧
          Bootstrap.lastEnding sort cs = some m ∧
          (SidesAligned (fieldEntries parse "outcomes" m) (fieldEntries parse "clobTokenIds" m)
              r.upTokenId r.downTokenId ↔
            SidesFit (fieldEntries parse "outcomes" m) (fieldEntries parse "clobTokenIds" m))) ∧
      ∀ j r, marketRefFromNewMarket j = some r →
        tokensFromNewMarket j ≠ [] ∧
          (outcomesFromNewMarket j).length = (tokensFromNewMarket j).length →
        (SidesAligned (arrayEntries "outcomes" j) (newMarketTokenEntries j)
            r.upTokenId r.downTokenId ↔
          SidesFit (arrayEntries "outcomes" j) (newMarketTokenEntries j)) := by
  refine ⟨?validated, ?bootstrapped, ?announced⟩
  case validated =>
    intro event slug out
    refine (validateAndExtract_tokens parse event slug out).mono fun r h hfound => ?_
    obtain ⟨m, hfind, htokens⟩ := h hfound
    obtain ⟨hup, hdown⟩ := tokensOf_reads htokens
    simp only [outcomesFromMarket, tokensFromMarket, stringsField_eq] at hup hdown
    exact ⟨m, hfind, sidesAligned_iff hup hdown⟩
  case bootstrapped =>
    intro floatText sort params response out r h
    obtain ⟨ms, cs, m, hresponse, hcs, hm, hup, hdown⟩ :=
      Bootstrap.gammaDiscoverActiveMarket_accepts h
    simp only [outcomesFromMarket, tokensFromMarket, stringsField_eq] at hup hdown
    refine ⟨ms, cs, m, hresponse, hcs, hm, sidesAligned_iff ?_ ?_⟩
    · intro i hi
      rwa [Bootstrap.indexUpOutcome, hi] at hup
    · intro i hi
      rwa [Bootstrap.indexDownOutcome, hi] at hdown
  case announced =>
    intro j r h hyields
    obtain ⟨conditionId, -, h⟩ := Option.bind_eq_some_iff.mp h
    obtain ⟨slug, -, h⟩ := Option.bind_eq_some_iff.mp h
    obtain ⟨active, -, h⟩ := Option.bind_eq_some_iff.mp h
    obtain ⟨⟨up, down⟩, htokens, h⟩ := Option.bind_eq_some_iff.mp h
    cases h
    obtain ⟨hup, hdown⟩ := tokensOfOutcomes_reads hyields htokens
    rw [outcomesFromNewMarket, strings_field_eq, tokensFromNewMarket_eq] at hup hdown
    exact sidesAligned_iff hup hdown

/-- Each list holds one entry that is no string, at the other end. -/
def shiftedMarket : Json :=
  .obj [("slug", .str "btc-updown-5m-300"), ("active", .bool true), ("closed", .bool false),
    ("outcomes", .arr [.str "Up", .str "Down", .null]),
    ("clobTokenIds", .arr [.null, .str "1", .str "2"])]

def shiftedEvent : Json :=
  .obj [("slug", .str "btc-updown-5m-300"), ("active", .bool true), ("closed", .bool false),
    ("markets", .arr [shiftedMarket])]

theorem shifted_not_aligned {down : String} :
    ¬ SidesAligned [.str "Up", .str "Down", .null] [.null, .str "1", .str "2"] "1" down := by
  rintro ⟨⟨p, b, hb, hwant, htok⟩, -⟩
  rcases p with _ | _ | _ | p
  · cases htok
  · cases hb
    exact absurd hwant (by decide)
  · cases hb
  · cases htok

/-- All three take the token of Down for Up. -/
theorem shifted_tokens_swap :
    (∃ d, Exec (validateAndExtract (fun _ => none) shiftedEvent "btc-updown-5m-300" {}) []
        (true, d) ∧ findMarketForSlug shiftedEvent "btc-updown-5m-300" =
          some (some shiftedMarket) ∧
      ¬ SidesAligned (fieldEntries (fun _ => none) "outcomes" shiftedMarket)
        (fieldEntries (fun _ => none) "clobTokenIds" shiftedMarket) d.upTokenId d.downTokenId) ∧
      (∃ r, Bootstrap.gammaDiscoverActiveMarket (fun _ => "") (fun _ => none)
          Bootstrap.mergeSorted {} (some (.arr [shiftedMarket])) {} = (true, r) ∧
        ¬ SidesAligned (fieldEntries (fun _ => none) "outcomes" shiftedMarket)
          (fieldEntries (fun _ => none) "clobTokenIds" shiftedMarket)
          r.upTokenId r.downTokenId) ∧
      ∃ r, marketRefFromNewMarket shiftedMarket = some r ∧
        ¬ SidesAligned (arrayEntries "outcomes" shiftedMarket)
          (newMarketTokenEntries shiftedMarket) r.upTokenId r.downTokenId := by
  refine ⟨?validated, ?bootstrapped, ?announced⟩
  case validated =>
    have hx : ((validateAndExtract (fun _ => none) shiftedEvent "btc-updown-5m-300" {}).replay
        (fun _ _ => none) 0).any (fun r => r.1.isEmpty && r.2.1 && r.2.2.upTokenId = "1") =
          true := by
      decide +kernel
    obtain ⟨⟨tr, found, d⟩, hr, hcheck⟩ := (Option.any_eq_true _ _).mp hx
    simp only [Bool.and_eq_true, decide_eq_true_eq, List.isEmpty_iff] at hcheck
    obtain ⟨⟨rfl, rfl⟩, hup⟩ := hcheck
    refine ⟨d, exec_replay hr, rfl, ?_⟩
    rw [hup]
    exact shifted_not_aligned
  case bootstrapped => exact ⟨_, rfl, shifted_not_aligned⟩
  case announced =>
    have hx : (marketRefFromNewMarket shiftedMarket).any (fun r => r.upTokenId = "1") = true := by
      decide +kernel
    obtain ⟨r, hr, hup⟩ := (Option.any_eq_true _ _).mp hx
    refine ⟨r, hr, ?_⟩
    rw [of_decide_eq_true hup]
    exact shifted_not_aligned

end LeadLag.Gamma
