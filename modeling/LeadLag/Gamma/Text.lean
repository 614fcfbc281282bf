import LeadLag.Core.Decimal
import LeadLag.Execution.BuyFill

/-!
# Slugs and timestamps (bucket_market_discovery.cpp:30-33, 173-175, 336-395)

The epoch in a slug and the ISO timestamps of Gamma, and the copy of the slug parser
in btc_poly_runner.cpp:870-886 and live_pipeline.cpp:222-240. A byte of a string is a
character. `sscanf` and `timegm` are written out; a conversion whose value does not
fit an `int` is not modelled.
-/

namespace LeadLag.Gamma
open LeadLag.Core

/-! ### Slugs -/

def kPrefix : String := "btc-updown-5m-"

/-- `std::tolower` of the C locale. -/
def lower (s : String) : List Char := s.toList.map Char.toLower

def slugForBucket (bucket : ℤ) : String := kPrefix ++ toString bucket

def parseBucketEpochFromSlug (slug : String) : Option ℤ :=
  let plen := kPrefix.toList.length
  let ls := lower slug
  if ls.length ≤ plen ∨ ls.take plen ≠ lower kPrefix then none
  else stoll (String.ofList (slug.toList.drop plen))

/-- The runner's and live_pipeline's own copy. -/
def parseEpochFromConfirmedSlug (slug : String) : Option ℤ :=
  let plen := kPrefix.toList.length
  let cs := slug.toList
  if cs.length ≤ plen then none
  else if (cs.zip kPrefix.toList).any fun (c, k) => c.toLower != k then none
  else stoll (String.ofList (cs.drop plen))

theorem toString_toList_ne_nil (e : ℤ) : (toString e).toList ≠ [] := by
  rw [Int.toString_eq_repr, Int.repr_eq_if]
  split
  · rw [Nat.toList_repr]
    exact Nat.toDigits_ne_nil
  · simp [String.toList_append]

theorem parse_slugForBucket (e : ℤ) :
    parseBucketEpochFromSlug (slugForBucket e) = if fitsInt64 e then some e else none := by
  have hlen : 0 < (toString e).toList.length := List.length_pos_iff.mpr (toString_toList_ne_nil e)
  have hlist : (slugForBucket e).toList = kPrefix.toList ++ (toString e).toList :=
    String.toList_append
  have htake : (lower (slugForBucket e)).take kPrefix.toList.length = lower kPrefix := by
    simp only [lower, hlist, List.map_append]
    rw [List.take_left' (List.length_map _)]
  have hlong : ¬ (lower (slugForBucket e)).length ≤ kPrefix.toList.length := by
    simp only [lower, hlist, List.length_map, List.length_append]
    omega
  unfold parseBucketEpochFromSlug
  simp only [htake, hlong, ne_eq, not_true_eq_false, or_self, ite_false, hlist, List.drop_left,
    String.ofList_toList]
  exact stoll_toString e

theorem prefix_iff (ks cs : List Char) (h : ks.length ≤ cs.length) :
    ((cs.zip ks).any fun (c, k) => c.toLower != k) = false ↔
      (cs.map Char.toLower).take ks.length = ks := by
  induction ks generalizing cs with
  | nil => simp
  | cons k ks ih =>
    cases cs with
    | nil => simp at h
    | cons c cs =>
      have htail := ih cs (Nat.le_of_succ_le_succ h)
      simp only [List.zip_cons_cons, List.any_cons, Bool.or_eq_false_iff, bne_eq_false_iff_eq,
        List.map_cons, List.length_cons, List.take_succ_cons, List.cons.injEq, htail]

theorem prefix_tests {A : Type} (ks cs : List Char) (x : Option A) :
    (if cs.length ≤ ks.length then none
      else if (cs.zip ks).any fun (c, k) => c.toLower != k then none else x) =
    if (cs.map Char.toLower).length ≤ ks.length ∨
        (cs.map Char.toLower).take ks.length ≠ ks then none else x := by
  rw [List.length_map]
  by_cases hshort : cs.length ≤ ks.length
  · rw [if_pos hshort, if_pos (.inl hshort)]
  · have hiff := prefix_iff ks cs (le_of_not_ge hshort)
    rw [if_neg hshort]
    by_cases htake : (cs.map Char.toLower).take ks.length = ks
    · have hneither : ¬ (cs.length ≤ ks.length ∨ (cs.map Char.toLower).take ks.length ≠ ks) :=
        not_or.mpr ⟨hshort, not_not.mpr htake⟩
      rw [hiff.mpr htake, if_neg hneither, if_neg Bool.false_ne_true]
    · have hdiff := (Bool.not_eq_false _).mp fun hno => htake (hiff.mp hno)
      rw [if_pos hdiff, if_pos (.inr htake)]

/-- The comparison of the lowered slug and the loop over its characters accept alike. -/
theorem parseEpoch_eq (slug : String) :
    parseEpochFromConfirmedSlug slug = parseBucketEpochFromSlug slug := by
  have hlower : lower kPrefix = kPrefix.toList := by decide
  unfold parseEpochFromConfirmedSlug parseBucketEpochFromSlug
  dsimp only
  rw [hlower]
  exact prefix_tests kPrefix.toList slug.toList _

theorem parseEpoch_slugForBucket (e : ℤ) :
    parseEpochFromConfirmedSlug (slugForBucket e) = if fitsInt64 e then some e else none := by
  rw [parseEpoch_eq]
  exact parse_slugForBucket e

theorem fitsInt64_toInt (e : Int64) : fitsInt64 e.toInt = true := by
  have hlow : -2 ^ 63 ≤ e.toInt := e.le_toInt
  have hhigh : e.toInt < 2 ^ 63 := e.toInt_lt
  exact decide_eq_true ⟨hlow, hhigh⟩

/-- Every 64-bit epoch is read back from its slug, and no slug tells the two parsers apart. -/
theorem slugEpoch_codec :
    (∀ e : Int64, parseBucketEpochFromSlug (slugForBucket e.toInt) = some e.toInt ∧
      parseEpochFromConfirmedSlug (slugForBucket e.toInt) = some e.toInt) ∧
    ∀ slug : String, parseEpochFromConfirmedSlug slug = parseBucketEpochFromSlug slug := by
  constructor
  · intro e
    have hfits := fitsInt64_toInt e
    constructor
    · rw [parse_slugForBucket, if_pos hfits]
    · rw [parseEpoch_slugForBucket, if_pos hfits]
  · intro slug
    exact parseEpoch_eq slug

/-! ### Timestamps -/

def scanInt (cs : List Char) : Option (ℤ × List Char) :=
  let (neg, ds) := splitSign (cs.dropWhile isSpace)
  let (v, n, rest) := takeDigits 10 0 ds
  if n = 0 then none else some (if neg then -v else v, rest)

def scanLiteral (c : Char) : List Char → Option (List Char)
  | d :: cs => if d = c then some cs else none
  | [] => none

/-- `%lf` at the end of a format, for which no number is out of range; an infinity or NaN is
not converted here. -/
def scanDouble (cs : List Char) : Option ℚ :=
  (scanNumber (fun _ => false) (String.ofList cs)).join

structure CivilTime where
  year : ℤ
  month : ℤ
  day : ℤ
  hour : ℤ
  minute : ℤ
  second : ℚ

def scanTime (cs : List Char) : Option CivilTime := do
  let (year, cs) ← scanInt cs
  let cs ← scanLiteral '-' cs
  let (month, cs) ← scanInt cs
  let cs ← scanLiteral '-' cs
  let (day, cs) ← scanInt cs
  let cs ← scanLiteral 'T' cs
  let (hour, cs) ← scanInt cs
  let cs ← scanLiteral ':' cs
  let (minute, cs) ← scanInt cs
  let cs ← scanLiteral ':' cs
  let second ← scanDouble cs
  pure { year, month, day, hour, minute, second }

/-- Days from 1970-01-01 to the given date, whose day may lie outside its month. -/
def daysFromCivil (year month day : ℤ) : ℤ :=
  let y := if month ≤ 2 then year - 1 else year
  let era := y / 400
  let yoe := y - era * 400
  let doy := (153 * (if month > 2 then month - 3 else month + 9) + 2) / 5 + day - 1
  era * 146097 + yoe * 365 + yoe / 4 - yoe / 100 + doy - 719468

def truncate (x : ℚ) : ℤ := if 0 ≤ x then ⌊x⌋ else -⌊-x⌋

def timegm (t : CivilTime) : ℤ :=
  daysFromCivil t.year t.month t.day * 86400 + t.hour * 3600 + t.minute * 60 + truncate t.second

def fracMs (second : ℚ) : ℤ :=
  let ms := Execution.roundHalfAway ((second - truncate second) * 1000)
  if ms ≥ 1000 then 999 else if ms < 0 then 0 else ms

def gammaIso8601UtcToUnixMs (input : String) : Option ℤ :=
  let s := (input.toList.reverse.dropWhile fun c => c = 'Z' || c = 'z').reverse
  match scanTime s with
  | none => none
  | some t =>
    if t.year < 1970 ∨ t.month < 1 ∨ t.month > 12 ∨ t.day < 1 ∨ t.day > 31 then none
    else if timegm t = -1 then none
    else some (timegm t * 1000 + fracMs t.second)

example : gammaIso8601UtcToUnixMs "2026-05-06T23:05:00.250Z" = some 1778108700250 := by
  decide +kernel

end LeadLag.Gamma
