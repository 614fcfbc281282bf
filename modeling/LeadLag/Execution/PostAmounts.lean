import LeadLag.Core.Decimal
import LeadLag.Execution.BuyFill
import Mathlib.Algebra.Order.Field.Basic
import Mathlib.Tactic.Linarith
import Mathlib.Tactic.NormNum
import Mathlib.Tactic.Positivity

/-!
# Amounts of a BUY response (btc_poly_runner.cpp:567-668)

Which of the two amounts is the cost is found from their ratio, and whether an
amount is scaled by 10^6 from its size: from 10^4 on.
-/

namespace LeadLag.Execution
open LeadLag.Core

def postBody (submitTop : Json) : Option Json :=
  match submitTop.field? "resp" with
  | some r => if r.isObject then some r else if submitTop.isObject then some submitTop else none
  | none => if submitTop.isObject then some submitTop else none

section Orientation

variable (r : Rounding)

def makingAmount (body : Json) : Option ℚ :=
  (clobJsonAmountFieldIn r body "makingAmount").orElse fun _ =>
    clobJsonAmountFieldIn r body "making_amount"

def takingAmount (body : Json) : Option ℚ :=
  (clobJsonAmountFieldIn r body "takingAmount").orElse fun _ =>
    clobJsonAmountFieldIn r body "taking_amount"

/-- A price the code takes for one of a binary market. -/
def PriceInRange (x : ℚ) : Prop := r.rnd (1 / 1000) ≤ r.rnd x ∧ r.rnd x ≤ r.rnd (999 / 1000)

instance (x : ℚ) : Decidable (PriceInRange r x) := inferInstanceAs (Decidable (_ ∧ _))

/-- The cost and the shares; the first swap is by size, the second by price. -/
def orient (making taking : ℚ) : Option (ℚ × ℚ) :=
  if making ≤ 0 ∨ taking ≤ 0 then none
  else
    let (cost, shares) := if making ≤ 1 ∧ taking > 1 then (taking, making) else (making, taking)
    if r.rnd (cost / shares) < r.rnd (1 / 1000) ∨ r.rnd (cost / shares) > r.rnd (999 / 1000) then
      if r.rnd (shares / cost) < r.rnd (1 / 1000) ∨ r.rnd (shares / cost) > r.rnd (999 / 1000) then
        none
      else some (shares, cost)
    else some (cost, shares)

def postAmountsIn (submitTop : Json) : Option (ℚ × ℚ) :=
  (postBody submitTop).bind fun b => (makingAmount r b).bind fun making =>
    (takingAmount r b).map fun taking => (making, taking)

theorem tryMarketBuyFill_eq (submitTop : Json) :
    tryMarketBuyFillFromPostRespIn r submitTop =
      (postAmountsIn r submitTop).bind fun a => orient r a.1 a.2 := by
  show ((postBody submitTop).bind fun b => (makingAmount r b).bind fun making =>
    (takingAmount r b).bind fun taking => orient r making taking) = _
  unfold postAmountsIn
  cases postBody submitTop with
  | none => rfl
  | some b =>
    cases hm : makingAmount r b with
    | none => simp [hm]
    | some making => cases ht : takingAmount r b <;> simp [hm, ht]

/-! ### Orientation -/

variable {r}

theorem outOfRange_iff {x : ℚ} :
    (r.rnd x < r.rnd (1 / 1000) ∨ r.rnd x > r.rnd (999 / 1000)) ↔ ¬ PriceInRange r x := by
  simp only [PriceInRange, not_and_or, not_le, gt_iff_lt]

/-- Only one of the two orientations can have a price in range. -/
theorem PriceInRange.lt {a b : ℚ} (hb : 0 < b) (h : PriceInRange r (a / b)) : a < b := by
  have htop : r.rnd (999 / 1000) < 1 := by
    have hnear := r.near_of_le (x := 999 / 1000) (by norm_num) (by norm_num)
    have hbelow := (abs_le.mp hnear).2
    linarith
  by_contra hab
  have hone : ((1 : ℕ) : ℚ) ≤ a / b := by
    rw [Nat.cast_one, one_le_div hb]
    exact not_lt.mp hab
  have hround := r.natCast_le hone (by norm_num)
  rw [Nat.cast_one] at hround
  exact absurd h.2 (not_le.mpr (htop.trans_le hround))

theorem priceInRange_min_max {a b : ℚ} (ha : 0 < a) (hb : 0 < b) :
    PriceInRange r (min a b / max a b) ↔ PriceInRange r (a / b) ∨ PriceInRange r (b / a) := by
  rcases le_total a b with hab | hab
  · rw [min_eq_left hab, max_eq_right hab]
    constructor
    · exact .inl
    · rintro (h | h)
      · exact h
      · exact absurd (h.lt ha) (not_lt.mpr hab)
  · rw [min_eq_right hab, max_eq_left hab]
    constructor
    · exact .inr
    · rintro (h | h)
      · exact absurd (h.lt hb) (not_lt.mpr hab)
      · exact h

/-- The price range decides, whichever orientation is tried first. -/
theorem orientFrom_eq {cost shares : ℚ} (hc : 0 < cost) (hs : 0 < shares) :
    (if r.rnd (cost / shares) < r.rnd (1 / 1000) ∨ r.rnd (cost / shares) > r.rnd (999 / 1000) then
      if r.rnd (shares / cost) < r.rnd (1 / 1000) ∨ r.rnd (shares / cost) > r.rnd (999 / 1000) then
        none
      else some (shares, cost)
    else some (cost, shares)) =
      if PriceInRange r (min cost shares / max cost shares) then
        some (min cost shares, max cost shares)
      else none := by
  simp only [outOfRange_iff, priceInRange_min_max hc hs]
  by_cases hfirst : PriceInRange r (cost / shares)
  · have hlt : cost < shares := hfirst.lt hs
    rw [if_neg (not_not.mpr hfirst), if_pos (.inl hfirst), min_eq_left hlt.le, max_eq_right hlt.le]
  · rw [if_pos hfirst]
    by_cases hsecond : PriceInRange r (shares / cost)
    · have hlt : shares < cost := hsecond.lt hc
      rw [if_neg (not_not.mpr hsecond), if_pos (.inr hsecond), min_eq_right hlt.le,
        max_eq_left hlt.le]
    · rw [if_pos hsecond, if_neg (not_or.mpr ⟨hfirst, hsecond⟩)]

theorem orient_eq {a b : ℚ} (ha : 0 < a) (hb : 0 < b) :
    orient r a b =
      if PriceInRange r (min a b / max a b) then some (min a b, max a b) else none := by
  have hpos : ¬ (a ≤ 0 ∨ b ≤ 0) := by
    rintro (h | h)
    · exact absurd ha (not_lt.mpr h)
    · exact absurd hb (not_lt.mpr h)
  unfold orient
  rw [if_neg hpos]
  by_cases hswap : a ≤ 1 ∧ b > 1
  · simp only [if_pos hswap]
    rw [orientFrom_eq hb ha, min_comm, max_comm]
  · simp only [if_neg hswap]
    exact orientFrom_eq ha hb

theorem orient_eq_some_iff {a b x y : ℚ} (hx : 0 < x) (hy : 0 < y) :
    orient r a b = some (x, y) ↔
      PriceInRange r (x / y) ∧ ((a = x ∧ b = y) ∨ (a = y ∧ b = x)) := by
  constructor
  · intro h
    by_cases hpos : a ≤ 0 ∨ b ≤ 0
    · rw [orient, if_pos hpos] at h
      cases h
    · obtain ⟨ha, hb⟩ := not_or.mp hpos
      rw [orient_eq (not_le.mp ha) (not_le.mp hb)] at h
      split at h
      · rename_i hrange
        obtain ⟨hmin, hmax⟩ := Prod.mk.inj (Option.some.inj h)
        rw [hmin, hmax] at hrange
        rcases le_total a b with hab | hab
        · rw [min_eq_left hab] at hmin
          rw [max_eq_right hab] at hmax
          exact ⟨hrange, .inl ⟨hmin, hmax⟩⟩
        · rw [min_eq_right hab] at hmin
          rw [max_eq_left hab] at hmax
          exact ⟨hrange, .inr ⟨hmax, hmin⟩⟩
      · cases h
  · intro h
    obtain ⟨hrange, hsides⟩ := h
    have hxy : x < y := hrange.lt hy
    have hsorted : orient r x y = some (x, y) := by
      rw [orient_eq hx hy, min_eq_left hxy.le, max_eq_right hxy.le, if_pos hrange]
    rcases hsides with ⟨rfl, rfl⟩ | ⟨rfl, rfl⟩
    · exact hsorted
    · rw [orient_eq hy hx, min_comm, max_comm, ← orient_eq hx hy, hsorted]

theorem fill_eq_some_iff {submitTop body : Json} (hbody : postBody submitTop = some body)
    {x y : ℚ} (hx : 0 < x) (hy : 0 < y) :
    tryMarketBuyFillFromPostRespIn r submitTop = some (x, y) ↔
      PriceInRange r (x / y) ∧
        ((makingAmount r body = some x ∧ takingAmount r body = some y) ∨
          (makingAmount r body = some y ∧ takingAmount r body = some x)) := by
  have hfill : tryMarketBuyFillFromPostRespIn r submitTop =
      (makingAmount r body).bind fun a => (takingAmount r body).bind fun b => orient r a b := by
    rw [tryMarketBuyFill_eq, postAmountsIn, hbody]
    cases hm : makingAmount r body with
    | none => simp [hm]
    | some a => cases ht : takingAmount r body <;> simp [hm, ht]
  rw [hfill]
  cases makingAmount r body with
  | none => simp
  | some a =>
    cases takingAmount r body with
    | none => simp
    | some b =>
      show orient r a b = some (x, y) ↔ _
      rw [orient_eq_some_iff hx hy]
      simp only [Option.some.injEq]

end Orientation

def postAmounts (submitTop : Json) : Option (ℚ × ℚ) := postAmountsIn .exact submitTop

/-- For all positive decoded amounts the cost is the smaller and the shares the
larger one, and the fill is found exactly when their ratio is a price in range.
A response with the two amounts exchanged gives the same result. -/
theorem tryMarketBuyFill_orientation {submitTop : Json} {a b : ℚ}
    (h : postAmounts submitTop = some (a, b)) (ha : 0 < a) (hb : 0 < b) :
    tryMarketBuyFillFromPostResp submitTop =
        (if 1 / 1000 ≤ min a b / max a b ∧ min a b / max a b ≤ 999 / 1000 then
          some (min a b, max a b)
        else none) ∧
      ∀ exchanged, postAmounts exchanged = some (b, a) →
        tryMarketBuyFillFromPostResp exchanged = tryMarketBuyFillFromPostResp submitTop := by
  have hread (top : Json) : tryMarketBuyFillFromPostResp top =
      (postAmounts top).bind fun x => orient .exact x.1 x.2 := tryMarketBuyFill_eq .exact top
  have hfill : tryMarketBuyFillFromPostResp submitTop = orient .exact a b := by
    rw [hread, h]
    rfl
  constructor
  · rw [hfill]
    exact orient_eq ha hb
  · intro exchanged hexchanged
    rw [hfill, hread, hexchanged]
    show orient .exact b a = orient .exact a b
    rw [orient_eq hb ha, orient_eq ha hb, min_comm, max_comm]

/-- A response with the amounts as plain decimals: one dollar for two shares. -/
def oneDollar : Json := .obj [("makingAmount", .str "1"), ("takingAmount", .str "2")]

theorem tryMarketBuyFill_orientation_oneDollar :
    tryMarketBuyFillFromPostResp oneDollar = some (1, 2) := by
  have h : postAmounts oneDollar = some (1, 2) := by decide +kernel
  have hfill := (tryMarketBuyFill_orientation h (by decide) (by decide)).1
  rw [hfill]
  decide +kernel

/-! ### Scaled amounts -/

/-- The encodings of an integer: a number, as the library holds it, or a decimal string.
From 2^64 on it holds the nearest double. -/
inductive Encodes (n : ℕ) : Json → Prop where
  | int (h : n < 2 ^ 64) : Encodes n (.int n)
  | float (h : (n : ℚ) < stodBound) : Encodes n (.float (binary64 n))
  | text : Encodes n (.str (toString n))

theorem Encodes.toDouble {n : ℕ} {v : Json} (h : Encodes n v) :
    clobJsonToDoubleIn .toDouble v = if stodBound ≤ n then none else some (binary64 n) := by
  cases h with
  | int h =>
    have hlt : (n : ℚ) < stodBound := by
      have hn : (n : ℚ) < 2 ^ 64 := by exact_mod_cast h
      have hbound : (2 : ℚ) ^ 64 ≤ stodBound := by decide +kernel
      exact hn.trans_le hbound
    rw [if_neg (not_le.mpr hlt)]
    rfl
  | float h =>
    rw [if_neg (not_le.mpr h)]
    rfl
  | text =>
    simp only [clobJsonToDoubleIn, stod_toString]
    split <;> rfl

theorem roundHalfAway_natCast (n : ℕ) : roundHalfAway (n : ℚ) = n := by
  have hnonneg : (0 : ℚ) ≤ n := Nat.cast_nonneg n
  have hfloor : ⌊(n : ℚ) + 1 / 2⌋ = (n : ℤ) := by
    rw [Int.floor_eq_iff]
    constructor
    · push_cast
      linarith
    · push_cast
      linarith
  rw [roundHalfAway, if_pos hnonneg, hfloor]

/-- `n / 1e6`, the double. -/
def scaled (n : ℕ) : ℚ := binary64 (binary64 n / 10 ^ 6)

theorem binary64_of_lt {n : ℕ} (hn : n < 10 ^ 7) : binary64 n = n :=
  binary64_natCast n (by omega)

theorem scaled_of_lt {n : ℕ} (hn : n < 10 ^ 7) : |scaled n - n / 10 ^ 6| ≤ 1 / 10 ^ 9 := by
  have hcast : (n : ℚ) ≤ 10 ^ 7 := by exact_mod_cast hn.le
  unfold scaled
  rw [binary64_of_lt hn]
  exact Rounding.toDouble.near_of_le (by positivity) (by linarith)

theorem scaled_pos {n : ℕ} (hn : 0 < n) : 0 < scaled n := by
  have hcast : ((1 : ℕ) : ℚ) ≤ n := by exact_mod_cast hn
  have hread : binary64 ((1 : ℕ) : ℚ) ≤ binary64 n := binary64_mono (Nat.cast_nonneg 1) hcast
  have hone := scaled_of_lt (n := 1) (by norm_num)
  have hmono : scaled 1 ≤ scaled n := by
    apply binary64_mono
    · rw [binary64_of_lt (by norm_num)]
      norm_num
    · exact div_le_div_of_nonneg_right hread (by norm_num)
  rw [Nat.cast_one] at hone
  linarith [(abs_le.mp hone).1]

/-- Above the subnormal numbers each of the two roundings has a relative error of 2^-52. -/
theorem scaled_near {n : ℕ} (hn : 10 ^ 4 ≤ n) :
    |scaled n - (n : ℚ) / 10 ^ 6| ≤ (n : ℚ) / 10 ^ 6 / 2 ^ 50 := by
  have hlow : (10 : ℚ) ^ 4 ≤ n := by exact_mod_cast hn
  have hnormal : (2 : ℚ) ^ (-1022 : ℤ) ≤ 1 / 1000 := by
    have hpow : (2 : ℚ) ^ (-1022 : ℤ) ≤ 2 ^ (-10 : ℤ) := zpow_le_zpow_right₀ one_le_two (by decide)
    exact hpow.trans (by norm_num)
  have hread : |binary64 n - n| ≤ n / 2 ^ 52 :=
    Rounding.toDouble.near_of_normal (hnormal.trans (by linarith only [hlow]))
  obtain ⟨hreadBelow, hreadAbove⟩ := abs_le.mp hread
  have hdiv : |scaled n - binary64 n / 10 ^ 6| ≤ binary64 n / 10 ^ 6 / 2 ^ 52 :=
    Rounding.toDouble.near_of_normal (hnormal.trans (by linarith only [hlow, hreadBelow]))
  obtain ⟨hdivBelow, hdivAbove⟩ := abs_le.mp hdiv
  rw [abs_le]
  constructor
  · linarith only [hreadBelow, hreadAbove, hdivBelow]
  · linarith only [hreadAbove, hdivAbove, hlow]

/-- Only from 10^4 on is an integer taken to be scaled. -/
def decoded (n : ℕ) : ℚ := if 10 ^ 4 ≤ n then scaled n else (n : ℚ)

theorem decoded_nonneg (n : ℕ) : 0 ≤ decoded n := by
  unfold decoded
  split
  · have hread : 0 ≤ binary64 n := Rounding.toDouble.nonneg (Nat.cast_nonneg n)
    exact Rounding.toDouble.nonneg (by positivity)
  · positivity

theorem clobDecodeAmount_binary64 (n : ℕ) :
    clobDecodeAmountIn .toDouble (binary64 n) = decoded n := by
  obtain ⟨k, hk⟩ := binary64_natCast_eq n
  have hround : |binary64 n - roundHalfAway (binary64 n)| < binary64 (1 / 10 ^ 6) := by
    have hnear : |binary64 (1 / 10 ^ 6) - 1 / 10 ^ 6| ≤ 1 / 10 ^ 9 :=
      Rounding.toDouble.near_of_le (by norm_num) (by norm_num)
    rw [hk, roundHalfAway_natCast, Int.cast_natCast, sub_self, abs_zero]
    linarith [(abs_le.mp hnear).1]
  have hsize : binary64 n ≥ 10 ^ 4 ↔ 10 ^ 4 ≤ n := by
    constructor
    · intro h
      by_contra hsmall
      rw [binary64_of_lt (by omega)] at h
      exact hsmall (by exact_mod_cast h)
    · intro h
      have hcast : ((10 ^ 4 : ℕ) : ℚ) ≤ n := by exact_mod_cast h
      have hlow := Rounding.toDouble.natCast_le hcast (by norm_num)
      push_cast at hlow
      exact hlow
  unfold clobDecodeAmountIn decoded
  by_cases hn : 10 ^ 4 ≤ n
  · rw [if_pos ⟨hsize.mpr hn, hround⟩, if_pos hn]
    rfl
  · rw [if_neg (fun h => hn (hsize.mp h.1)), if_neg hn, binary64_of_lt (by omega)]

/-- The amount read for a field that carries `n`: a string `std::stod` cannot
hold is passed over for the other spelling. -/
def scaledAmount (body : Json) (otherKey : String) (n : ℕ) : Option ℚ :=
  if stodBound ≤ n then clobJsonAmountFieldIn .toDouble body otherKey else some (scaled n)

theorem amountField_of_encodes {body v : Json} {key : String} {n : ℕ}
    (hfield : body.field? key = some v) (h : Encodes n v) (otherKey : String) :
    ((clobJsonAmountFieldIn .toDouble body key).orElse fun _ =>
        clobJsonAmountFieldIn .toDouble body otherKey) =
      if stodBound ≤ n then clobJsonAmountFieldIn .toDouble body otherKey
      else some (decoded n) := by
  have hread : clobJsonAmountFieldIn .toDouble body key =
      if stodBound ≤ n then none else some (decoded n) := by
    rw [clobJsonAmountFieldIn, hfield, Option.bind_some, h.toDouble]
    split
    · rfl
    · rw [Option.map_some, clobDecodeAmount_binary64]
      exact Option.filter_some_pos (decide_eq_true (decoded_nonneg n))
  rw [hread]
  split <;> rfl

theorem amountField_of_scaled {body v : Json} {key : String} {n : ℕ}
    (hfield : body.field? key = some v) (h : Encodes n v) (hn : 10 ^ 4 ≤ n) (otherKey : String) :
    ((clobJsonAmountFieldIn .toDouble body key).orElse fun _ =>
        clobJsonAmountFieldIn .toDouble body otherKey) = scaledAmount body otherKey n := by
  rw [amountField_of_encodes hfield h, decoded, if_pos hn]
  rfl

/-- The two amounts as they are read when they are taken to be scaled. -/
def SpelledTwice (body : Json) (m t : ℕ) : Prop :=
  (scaledAmount body "making_amount" m = some (scaled m) ∧
      scaledAmount body "taking_amount" t = some (scaled t)) ∨
    (scaledAmount body "making_amount" m = some (scaled t) ∧
      scaledAmount body "taking_amount" t = some (scaled m))

/-- The quotient of the two doubles, against the doubles 0.001 and 0.999. -/
def PriceAccepted (m t : ℕ) : Prop := PriceInRange .toDouble (scaled m / scaled t)

instance (m t : ℕ) : Decidable (PriceAccepted m t) :=
  inferInstanceAs (Decidable (PriceInRange _ _))

/-- Rounding turns away prices within 10^-14 of the two ends only. -/
theorem priceAccepted_of_margin {m t : ℕ} (hm : 10 ^ 4 ≤ m) (ht : 10 ^ 4 ≤ t)
    (hlo : 1 / 1000 + 1 / 10 ^ 14 ≤ (m : ℚ) / t) (hhi : (m : ℚ) / t ≤ 999 / 1000 - 1 / 10 ^ 14) :
    PriceAccepted m t := by
  have hmq : (10 : ℚ) ^ 4 ≤ m := by exact_mod_cast hm
  have htq : (10 : ℚ) ^ 4 ≤ t := by exact_mod_cast ht
  have htpos : (0 : ℚ) < t := by linarith
  obtain ⟨hmBelow, hmAbove⟩ := abs_le.mp (scaled_near hm)
  obtain ⟨htBelow, htAbove⟩ := abs_le.mp (scaled_near ht)
  rw [le_div_iff₀ htpos] at hlo
  rw [div_le_iff₀ htpos] at hhi
  have hdivisor : 0 < scaled t := by linarith
  have hlow : 1 / 1000 ≤ scaled m / scaled t := by
    rw [le_div_iff₀ hdivisor]
    linarith
  have hhigh : scaled m / scaled t ≤ 999 / 1000 := by
    rw [div_le_iff₀ hdivisor]
    linarith
  exact ⟨binary64_mono (by norm_num) hlow,
    binary64_mono (le_trans (by norm_num) hlow) hhigh⟩

example : ¬ PriceAccepted 10989 11000 := by decide +kernel

/-- A response that carries `m` and `t` scaled by 10^6, at a price in range, is
decoded to the amounts it stands for exactly when `m` is at least 10^4, the quotient
of the two doubles is still in range, and `t` is a double `std::stod` can hold; from
there on a decimal string is out of its range and the other spelling of the two fields
is read. -/
theorem tryMarketBuyFill_decodes_iff {m t : ℕ} {submitTop body making taking : Json}
    (hm : 0 < m) (ht : 0 < t) (hlo : 1 / 1000 ≤ (m : ℚ) / t) (hhi : (m : ℚ) / t ≤ 999 / 1000)
    (hbody : postBody submitTop = some body) (hmaking : body.field? "makingAmount" = some making)
    (htaking : body.field? "takingAmount" = some taking) (hem : Encodes m making)
    (het : Encodes t taking) :
    (tryMarketBuyFillFromPostRespIn .toDouble submitTop = some (scaled m, scaled t) ↔
      10 ^ 4 ≤ m ∧ PriceAccepted m t ∧ ((t : ℚ) < stodBound ∨ SpelledTwice body m t)) ∧
    (10 ^ 4 ≤ m → 1 / 1000 + 1 / 10 ^ 14 ≤ (m : ℚ) / t →
      (m : ℚ) / t ≤ 999 / 1000 - 1 / 10 ^ 14 → PriceAccepted m t) := by
  have hmq : (0 : ℚ) < m := by exact_mod_cast hm
  have htq : (0 : ℚ) < t := by exact_mod_cast ht
  have hlt : (m : ℚ) < t := by
    rw [div_le_iff₀ htq] at hhi
    linarith
  have hmt : m < t := by exact_mod_cast hlt
  constructor
  · rw [fill_eq_some_iff hbody (scaled_pos hm) (scaled_pos ht)]
    by_cases hscaled : 10 ^ 4 ≤ m
    · have hmread : makingAmount .toDouble body = scaledAmount body "making_amount" m :=
        amountField_of_scaled hmaking hem hscaled _
      have htread : takingAmount .toDouble body = scaledAmount body "taking_amount" t :=
        amountField_of_scaled htaking het (hscaled.trans hmt.le) _
      rw [hmread, htread]
      constructor
      · intro h
        exact ⟨hscaled, h.1, .inr h.2⟩
      · intro h
        obtain ⟨-, haccepted, hsmall | hspelled⟩ := h
        · refine ⟨haccepted, .inl ?_⟩
          rw [scaledAmount, scaledAmount, if_neg (not_le.mpr (hlt.trans hsmall)),
            if_neg (not_le.mpr hsmall)]
          exact ⟨rfl, rfl⟩
        · exact ⟨haccepted, hspelled⟩
    · have hmcast : (1 : ℚ) ≤ m ∧ (m : ℚ) < 10 ^ 4 :=
        ⟨by exact_mod_cast hm, by exact_mod_cast not_le.mp hscaled⟩
      have hsmall : ¬ stodBound ≤ m := by
        have hbound : (10 : ℚ) ^ 4 ≤ stodBound := by decide +kernel
        exact not_le.mpr (hmcast.2.trans_le hbound)
      have hmread : makingAmount .toDouble body = some (m : ℚ) := by
        rw [makingAmount, amountField_of_encodes hmaking hem, if_neg hsmall, decoded,
          if_neg hscaled]
      rw [hmread]
      constructor
      · rintro ⟨-, ⟨h, -⟩ | ⟨h, -⟩⟩
        · have heq : (m : ℚ) = scaled m := Option.some.inj h
          have hnear := scaled_of_lt (n := m) (by omega)
          linarith [(abs_le.mp hnear).2]
        · -- the price would be 10^-6
          have heq : (m : ℚ) = scaled t := Option.some.inj h
          rw [le_div_iff₀ htq] at hlo
          have htcast : (t : ℚ) < 10 ^ 7 := by linarith
          have hnear := scaled_of_lt (n := t) (by exact_mod_cast htcast)
          linarith [(abs_le.mp hnear).2]
      · rintro ⟨h, -⟩
        exact absurd h hscaled
  · intro hscaled hlow hhigh
    exact priceAccepted_of_margin hscaled (hscaled.trans hmt.le) hlow hhigh

/-- Two shares for a dollar, scaled. -/
def oneDollarScaled : Json :=
  .obj [("makingAmount", .str "1000000"), ("takingAmount", .int 2000000)]

theorem tryMarketBuyFill_decodes_oneDollar :
    (tryMarketBuyFillFromPostRespIn .toDouble oneDollarScaled =
        some (scaled 1000000, scaled 2000000) ↔
      10 ^ 4 ≤ 1000000 ∧ PriceAccepted 1000000 2000000 ∧
        (((2000000 : ℕ) : ℚ) < stodBound ∨ SpelledTwice oneDollarScaled 1000000 2000000)) ∧
    (10 ^ 4 ≤ 1000000 → 1 / 1000 + 1 / 10 ^ 14 ≤ ((1000000 : ℕ) : ℚ) / (2000000 : ℕ) →
      ((1000000 : ℕ) : ℚ) / (2000000 : ℕ) ≤ 999 / 1000 - 1 / 10 ^ 14 →
        PriceAccepted 1000000 2000000) :=
  tryMarketBuyFill_decodes_iff (by decide) (by decide) (by norm_num) (by norm_num) rfl rfl rfl
    .text (.int (by norm_num))

/-- Half a cent for a cent's worth of shares: neither amount is taken to be scaled. -/
theorem tryMarketBuyFill_small_fill :
    ¬ ∀ (m t : ℕ) (submitTop body making taking : Json), 0 < m → 0 < t →
      1 / 1000 ≤ (m : ℚ) / t → (m : ℚ) / t ≤ 999 / 1000 →
      postBody submitTop = some body → body.field? "makingAmount" = some making →
      body.field? "takingAmount" = some taking → Encodes m making → Encodes t taking →
      tryMarketBuyFillFromPostRespIn .toDouble submitTop = some (scaled m, scaled t) := by
  intro h
  have hfill := h 4000 8000 (.obj [("makingAmount", .int 4000), ("takingAmount", .int 8000)])
    _ _ _ (by decide) (by decide) (by norm_num) (by norm_num) rfl rfl rfl
    (.int (by norm_num)) (.int (by norm_num))
  have hraw : tryMarketBuyFillFromPostRespIn .toDouble
      (.obj [("makingAmount", .int 4000), ("takingAmount", .int 8000)]) = some (4000, 8000) := by
    decide +kernel
  rw [hraw] at hfill
  have hcost : (4000 : ℚ) = scaled 4000 := congrArg Prod.fst (Option.some.inj hfill)
  have hnear := scaled_of_lt (n := 4000) (by norm_num)
  rw [← hcost] at hnear
  norm_num at hnear

end LeadLag.Execution
