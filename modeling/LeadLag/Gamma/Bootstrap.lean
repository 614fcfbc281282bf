import LeadLag.Gamma.Discovery
import Mathlib.Data.String.Basic

/-!
# The first market (gamma_bootstrap.cpp:25-258)

One request for the active markets; of those with the slug prefix the one that
ends last is taken. `response` is the parsed body, `none` when the request
failed or the body is no JSON. `floatText` is what a stream of precision 20
writes for a double. Every exception is caught and becomes `false`; what was
written to `out` before it stays. The two list readers of the file are the ones
of bucket_market_discovery.cpp.
-/

namespace LeadLag.Gamma.Bootstrap
open LeadLag.Core LeadLag.Gamma
open LeadLag.TokenFeed (stringValue)

structure GammaBootstrapParams where
  slugPrefix : String := "btc-updown-5m"
  requireUpDownOutcomes : Bool := true

structure PolymarketMarketRef where
  marketId : String := ""
  conditionId : String := ""
  slug : String := ""
  upTokenId : String := ""
  downTokenId : String := ""
  startTime : String := ""
  endTime : String := ""
  active : Bool := false
  deriving DecidableEq, Repr

def slugHasPrefixCi (slug pre : String) : Bool := (lower pre).isPrefixOf (lower slug)

def indexUpOutcome (outcomes : List String) : ℕ := (indexOutcome "up" outcomes).getD 0

def indexDownOutcome (outcomes : List String) : ℕ := (indexOutcome "down" outcomes).getD 0

def jsonScalarIdString (floatText : ℚ → String) (key : String) (j : Json) : String :=
  match j.field? key with
  | some (.str s) => s
  | some (.int i) => toString i
  | some (.float x) => floatText x
  | _ => ""

/-! ### The candidates -/

section

variable (parse : String → Option Json) (params : GammaBootstrapParams)

def isCandidate (slug : String) (m : Json) : Bool :=
  let outs := outcomesFromMarket parse m
  slugHasPrefixCi slug params.slugPrefix &&
    (!params.requireUpDownOutcomes ||
      ((indexOutcome "up" outs).isSome && (indexOutcome "down" outs).isSome))

/-- `none` is the exception of a slug that is no string. -/
def candidates : List Json → Option (List Json)
  | [] => some []
  | m :: rest =>
    if m.isObject then
      match stringValue "slug" m with
      | none => none
      | some slug =>
        if isCandidate parse params slug m then (candidates rest).map (m :: ·) else candidates rest
    else candidates rest

end

def endDate (m : Json) : String := (stringValue "endDate" m).getD ""

/-- `std::sort` by end date; markets of one end date come in any order. -/
structure SortByEndDate where
  run : List Json → List Json
  perm : ∀ ms, (run ms).Perm ms
  sorted : ∀ ms, (run ms).Pairwise fun a b => endDate a ≤ endDate b

def mergeSorted : SortByEndDate where
  run ms := ms.mergeSort fun a b => decide (endDate a ≤ endDate b)
  perm ms := List.mergeSort_perm ms _
  sorted ms := by
    have htrans (a b c : Json) (hab : decide (endDate a ≤ endDate b) = true)
        (hbc : decide (endDate b ≤ endDate c) = true) : decide (endDate a ≤ endDate c) = true :=
      decide_eq_true (le_trans (of_decide_eq_true hab) (of_decide_eq_true hbc))
    have htotal (a b : Json) :
        (decide (endDate a ≤ endDate b) || decide (endDate b ≤ endDate a)) = true := by
      simpa using le_total (endDate a) (endDate b)
    exact (List.pairwise_mergeSort htrans htotal ms).imp of_decide_eq_true

/-- The last of the sorted candidates; a single one is compared with nothing. -/
def lastEnding (sort : SortByEndDate) : List Json → Option Json
  | [m] => some m
  | ms =>
    if ms.all fun m => (stringValue "endDate" m).isSome then (sort.run ms).getLast? else none

/-! ### What is written to `out` -/

/-- A field whose value may be an exception. -/
def assign {A : Type} (value : Option A) (write : A → PolymarketMarketRef → PolymarketMarketRef)
    (rest : PolymarketMarketRef → Bool × PolymarketMarketRef) (out : PolymarketMarketRef) :
    Bool × PolymarketMarketRef :=
  match value with
  | none => (false, out)
  | some a => rest (write a out)

def writeMarket (floatText : ℚ → String) (m : Json) (up down : Option String)
    (out : PolymarketMarketRef) : Bool × PolymarketMarketRef :=
  assign (stringValue "conditionId" m) (fun v o => { o with conditionId := v })
    (assign (stringValue "slug" m) (fun v o => { o with slug := v })
    (assign (boolValue "active" true m) (fun v o => { o with active := v })
    (assign (stringValue "startDate" m) (fun v o => { o with startTime := v })
    (assign (stringValue "endDate" m) (fun v o => { o with endTime := v })
    (assign up (fun v o => { o with upTokenId := v })
    (assign down (fun v o => { o with downTokenId := v })
    fun o => (true, o)))))))
    { out with marketId := jsonScalarIdString floatText "id" m }

def gammaDiscoverActiveMarket (floatText : ℚ → String) (parse : String → Option Json)
    (sort : SortByEndDate) (params : GammaBootstrapParams) (response : Option Json)
    (out : PolymarketMarketRef) : Bool × PolymarketMarketRef :=
  match response with
  | some (.arr ms) =>
    match (candidates parse params ms).bind (lastEnding sort) with
    | none => (false, out)
    | some m =>
      let outs := outcomesFromMarket parse m
      let toks := tokensFromMarket parse m
      if toks = [] ∨ outs.length ≠ toks.length then (false, out)
      else writeMarket floatText m toks[indexUpOutcome outs]? toks[indexDownOutcome outs]? out
  | _ => (false, out)

/-! ### The market taken -/

variable {parse : String → Option Json} {params : GammaBootstrapParams} {sort : SortByEndDate}
  {floatText : ℚ → String}

theorem mem_candidates {ms cs : List Json} (h : candidates parse params ms = some cs) {c : Json}
    (hc : c ∈ cs) :
    c ∈ ms ∧ ∃ slug, stringValue "slug" c = some slug ∧ isCandidate parse params slug c = true := by
  induction ms generalizing cs with
  | nil =>
    cases h
    exact absurd hc List.not_mem_nil
  | cons m rest ih =>
    have later {cs : List Json} (h : candidates parse params rest = some cs) (hc : c ∈ cs) :
        c ∈ m :: rest ∧ ∃ slug, stringValue "slug" c = some slug ∧
          isCandidate parse params slug c = true := by
      obtain ⟨hmem, hslug⟩ := ih h hc
      exact ⟨List.mem_cons_of_mem _ hmem, hslug⟩
    unfold candidates at h
    split at h
    · split at h
      · cases h
      · rename_i slug hslug
        split at h
        · rename_i hcand
          obtain ⟨cs', hcs', rfl⟩ := Option.map_eq_some_iff.mp h
          rcases List.mem_cons.mp hc with rfl | hc
          · exact ⟨List.mem_cons_self, slug, hslug, hcand⟩
          · exact later hcs' hc
        · exact later h hc
    · exact later h hc

theorem lastEnding_spec {ms : List Json} {m : Json} (h : lastEnding sort ms = some m) :
    m ∈ ms ∧ ∀ c ∈ ms, endDate c ≤ endDate m := by
  unfold lastEnding at h
  split at h
  · cases h
    refine ⟨List.mem_cons_self, fun c hc => ?_⟩
    exact le_of_eq (congrArg endDate (List.mem_singleton.mp hc))
  · split at h
    · obtain ⟨init, hsplit⟩ := List.getLast?_eq_some_iff.mp h
      have hperm := sort.perm ms
      have hsorted := sort.sorted ms
      rw [hsplit] at hperm hsorted
      obtain ⟨-, -, hlast⟩ := List.pairwise_append.mp hsorted
      refine ⟨hperm.mem_iff.mp (by simp), fun c hc => ?_⟩
      rcases List.mem_append.mp (hperm.mem_iff.mpr hc) with hinit | htail
      · exact hlast c hinit m List.mem_cons_self
      · exact le_of_eq (congrArg endDate (List.mem_singleton.mp htail))
    · cases h

theorem assign_accepts {A : Type} {value : Option A}
    {write : A → PolymarketMarketRef → PolymarketMarketRef}
    {rest : PolymarketMarketRef → Bool × PolymarketMarketRef} {out r : PolymarketMarketRef}
    (h : assign value write rest out = (true, r)) :
    ∃ a, value = some a ∧ rest (write a out) = (true, r) := by
  cases value with
  | none => cases h
  | some a => exact ⟨a, rfl, h⟩

theorem writeMarket_accepts {m : Json} {up down : Option String} {out r : PolymarketMarketRef}
    (h : writeMarket floatText m up down out = (true, r)) :
    up = some r.upTokenId ∧ down = some r.downTokenId := by
  obtain ⟨conditionId, -, h⟩ := assign_accepts h
  obtain ⟨slug, -, h⟩ := assign_accepts h
  obtain ⟨active, -, h⟩ := assign_accepts h
  obtain ⟨start, -, h⟩ := assign_accepts h
  obtain ⟨finish, -, h⟩ := assign_accepts h
  obtain ⟨upTok, hup, h⟩ := assign_accepts h
  obtain ⟨downTok, hdown, h⟩ := assign_accepts h
  cases h
  exact ⟨hup, hdown⟩

theorem gammaDiscoverActiveMarket_accepts {response : Option Json} {out r : PolymarketMarketRef}
    (h : gammaDiscoverActiveMarket floatText parse sort params response out = (true, r)) :
    ∃ ms cs m, response = some (.arr ms) ∧ candidates parse params ms = some cs ∧
      lastEnding sort cs = some m ∧
      (tokensFromMarket parse m)[indexUpOutcome (outcomesFromMarket parse m)]? =
        some r.upTokenId ∧
      (tokensFromMarket parse m)[indexDownOutcome (outcomesFromMarket parse m)]? =
        some r.downTokenId := by
  unfold gammaDiscoverActiveMarket at h
  split at h
  · rename_i ms
    split at h
    · cases h
    · rename_i m hm
      obtain ⟨cs, hcs, hlast⟩ := Option.bind_eq_some_iff.mp hm
      dsimp only at h
      split at h
      · cases h
      · obtain ⟨hup, hdown⟩ := writeMarket_accepts h
        exact ⟨ms, cs, m, rfl, hcs, hlast, hup, hdown⟩
  · cases h

/-- The market is one of the response, of the prefix, and no candidate ends later. -/
theorem gammaDiscoverActiveMarket_market {response : Option Json} {out r : PolymarketMarketRef}
    (h : gammaDiscoverActiveMarket floatText parse sort params response out = (true, r)) :
    ∃ ms cs m, response = some (.arr ms) ∧ candidates parse params ms = some cs ∧ m ∈ ms ∧
      (∃ slug, stringValue "slug" m = some slug ∧ isCandidate parse params slug m = true) ∧
      ∀ c ∈ cs, endDate c ≤ endDate m := by
  obtain ⟨ms, cs, m, hresponse, hcs, hlast, -, -⟩ := gammaDiscoverActiveMarket_accepts h
  obtain ⟨hmem, hlatest⟩ := lastEnding_spec hlast
  obtain ⟨hms, hcand⟩ := mem_candidates hcs hmem
  exact ⟨ms, cs, m, hresponse, hcs, hms, hcand, hlatest⟩

end LeadLag.Gamma.Bootstrap
