import LeadLag.Core.Binary64
import Mathlib.Order.WithBot

/-!
# Doubles

The values of a binary64 up to the sign of zero and the payload of NaN. A result
is the exact one rounded to nearest, and an infinity from 2^1024 - 2^970 on. A zero
divisor counts as positive.
-/

namespace LeadLag.Core

inductive Double where
  | finite (x : ℚ)
  | inf (negative : Bool)
  | nan
  deriving DecidableEq, Repr

namespace Double

def round (x : ℚ) : Double :=
  if 2 ^ 1024 ≤ |binary64 x| then inf (decide (x < 0)) else finite (binary64 x)

/-- A double other than NaN; `⊥` and `⊤` are the infinities. -/
def ofExtended : WithBot (WithTop ℚ) → Double
  | none => inf true
  | some none => inf false
  | some (some x) => round x

def isFinite : Double → Bool
  | finite _ => true
  | _ => false

def isNaN : Double → Bool
  | nan => true
  | _ => false

protected def neg : Double → Double
  | finite x => finite (-x)
  | inf negative => inf !negative
  | nan => nan

protected def add : Double → Double → Double
  | finite x, finite y => round (x + y)
  | inf negative, finite _ | finite _, inf negative => inf negative
  | inf a, inf b => if a = b then inf a else nan
  | nan, _ | _, nan => nan

protected def mul : Double → Double → Double
  | finite x, finite y => round (x * y)
  | inf negative, finite x | finite x, inf negative =>
    if x = 0 then nan else inf (negative != decide (x < 0))
  | inf a, inf b => inf (a != b)
  | nan, _ | _, nan => nan

protected def div : Double → Double → Double
  | finite x, finite y =>
    if y = 0 then if x = 0 then nan else inf (decide (x < 0)) else round (x / y)
  | finite _, inf _ => finite 0
  | inf negative, finite y => inf (negative != decide (y < 0))
  | inf _, inf _ | nan, _ | _, nan => nan

/-- A comparison with NaN is false. -/
protected def lt : Double → Double → Bool
  | finite x, finite y => decide (x < y)
  | finite _, inf negative => !negative
  | inf negative, finite _ => negative
  | inf a, inf b => a && !b
  | nan, _ | _, nan => false

protected def le : Double → Double → Bool
  | finite x, finite y => decide (x ≤ y)
  | finite _, inf negative => !negative
  | inf negative, finite _ => negative
  | inf a, inf b => a || !b
  | nan, _ | _, nan => false

instance : Neg Double := ⟨Double.neg⟩
instance : Add Double := ⟨Double.add⟩
instance : Sub Double := ⟨fun a b => a + -b⟩
instance : Mul Double := ⟨Double.mul⟩
instance : Div Double := ⟨Double.div⟩
instance : LT Double := ⟨fun a b => Double.lt a b = true⟩
instance : LE Double := ⟨fun a b => Double.le a b = true⟩
instance : Zero Double := ⟨finite 0⟩
instance : One Double := ⟨finite 1⟩

instance (a b : Double) : Decidable (a < b) := inferInstanceAs (Decidable (_ = true))
instance (a b : Double) : Decidable (a ≤ b) := inferInstanceAs (Decidable (_ = true))

/-- `x <= 0.0`. -/
def nonpos (a : Double) : Bool := decide (a ≤ 0)

/-- `x > 0.0`. -/
def pos (a : Double) : Bool := decide (0 < a)

/-- `std::max`. -/
def stdMax (a b : Double) : Double := if a < b then b else a

/-- `std::min`. -/
def stdMin (a b : Double) : Double := if b < a then b else a

/-! ### Comparisons -/

/-- Where a number stands among the doubles; that of NaN is not used. -/
def place : Double → WithBot (WithTop ℚ)
  | finite x => ((x : WithTop ℚ) : WithBot (WithTop ℚ))
  | inf true | nan => ⊥
  | inf false => ((⊤ : WithTop ℚ) : WithBot (WithTop ℚ))

variable {a b c : Double} {x y : ℚ}

@[simp] theorem isNaN_finite : (finite x).isNaN = false := rfl

@[simp] theorem isNaN_inf (negative : Bool) : (inf negative).isNaN = false := rfl

@[simp] theorem isNaN_nan : nan.isNaN = true := rfl

@[simp] theorem place_finite : (finite x).place = ((x : WithTop ℚ) : WithBot (WithTop ℚ)) := rfl

@[simp] theorem place_negInf : (inf true).place = ⊥ := rfl

@[simp] theorem place_posInf : (inf false).place = ((⊤ : WithTop ℚ) : WithBot (WithTop ℚ)) := rfl

theorem lt_iff : a < b ↔ a.isNaN = false ∧ b.isNaN = false ∧ a.place < b.place := by
  cases a with
  | finite x =>
    cases b with
    | finite y =>
      show decide (x < y) = true ↔ _
      simp
    | inf negative =>
      show (!negative) = true ↔ _
      cases negative <;> simp [lt_top_iff_ne_top]
    | nan =>
      show false = true ↔ _
      simp
  | inf negative =>
    cases b with
    | finite y =>
      show negative = true ↔ _
      cases negative <;> simp
    | inf other =>
      show (negative && !other) = true ↔ _
      cases negative <;> cases other <;> simp
    | nan =>
      show false = true ↔ _
      simp
  | nan =>
    show false = true ↔ _
    simp

theorem le_iff : a ≤ b ↔ a.isNaN = false ∧ b.isNaN = false ∧ a.place ≤ b.place := by
  cases a with
  | finite x =>
    cases b with
    | finite y =>
      show decide (x ≤ y) = true ↔ _
      simp
    | inf negative =>
      show (!negative) = true ↔ _
      cases negative <;> simp
    | nan =>
      show false = true ↔ _
      simp
  | inf negative =>
    cases b with
    | finite y =>
      show negative = true ↔ _
      cases negative <;> simp
    | inf other =>
      show (negative || !other) = true ↔ _
      cases negative <;> cases other <;> simp
    | nan =>
      show false = true ↔ _
      simp
  | nan =>
    show false = true ↔ _
    simp

theorem finite_lt_finite : finite x < finite y ↔ x < y := decide_eq_true_iff

theorem finite_le_finite : finite x ≤ finite y ↔ x ≤ y := decide_eq_true_iff

/-- Of two numbers one is at most the other. -/
theorem le_of_not_lt (ha : a.isNaN = false) (hb : b.isNaN = false) (h : ¬ b < a) : a ≤ b := by
  rw [lt_iff] at h
  rw [le_iff]
  exact ⟨ha, hb, not_lt.mp fun hlt => h ⟨hb, ha, hlt⟩⟩

theorem lt_of_lt_of_le (hab : a < b) (hbc : b ≤ c) : a < c := by
  rw [lt_iff] at hab ⊢
  rw [le_iff] at hbc
  exact ⟨hab.1, hbc.2.1, hab.2.2.trans_le hbc.2.2⟩

theorem lt_of_le_of_lt (hab : a ≤ b) (hbc : b < c) : a < c := by
  rw [le_iff] at hab
  rw [lt_iff] at hbc ⊢
  exact ⟨hab.1, hbc.2.1, hab.2.2.trans_lt hbc.2.2⟩

theorem le_trans (hab : a ≤ b) (hbc : b ≤ c) : a ≤ c := by
  rw [le_iff] at hab hbc ⊢
  exact ⟨hab.1, hbc.2.1, hab.2.2.trans hbc.2.2⟩

theorem le_of_lt (h : a < b) : a ≤ b := by
  rw [lt_iff] at h
  rw [le_iff]
  exact ⟨h.1, h.2.1, h.2.2.le⟩

/-- `std::min` passes over a NaN in the second place only. -/
theorem isNaN_stdMin : (stdMin a b).isNaN = a.isNaN := by
  unfold stdMin
  split
  · rename_i hlt
    rw [lt_iff] at hlt
    rw [hlt.1, hlt.2.1]
  · rfl

theorem isNaN_stdMax : (stdMax a b).isNaN = a.isNaN := by
  unfold stdMax
  split
  · rename_i hlt
    rw [lt_iff] at hlt
    rw [hlt.1, hlt.2.1]
  · rfl

theorem isNaN_round (x : ℚ) : (round x).isNaN = false := by
  unfold round
  split <;> rfl

theorem isNaN_add (ha : a.isFinite = true) : (a + b).isNaN = b.isNaN := by
  cases a with
  | finite x =>
    cases b with
    | finite y => exact isNaN_round (x + y)
    | inf negative => rfl
    | nan => rfl
  | inf negative => cases ha
  | nan => cases ha

theorem add_isNaN (hb : b.isFinite = true) : (a + b).isNaN = a.isNaN := by
  cases b with
  | finite y =>
    cases a with
    | finite x => exact isNaN_round (x + y)
    | inf negative => rfl
    | nan => rfl
  | inf negative => cases hb
  | nan => cases hb

theorem isNaN_sub (ha : a.isFinite = true) : (a - b).isNaN = b.isNaN := by
  have hneg : (-b).isNaN = b.isNaN := by cases b <;> rfl
  rw [← hneg]
  exact isNaN_add ha

theorem isNaN_of_isFinite (ha : a.isFinite = true) : a.isNaN = false := by
  cases a with
  | finite x => rfl
  | inf negative => rfl
  | nan => cases ha

theorem exists_round_of_isFinite {x : WithBot (WithTop ℚ)}
    (h : (ofExtended x).isFinite = true) :
    ∃ q y, ofExtended x = finite y ∧ round q = finite y := by
  cases x with
  | bot => cases h
  | coe z =>
    cases z with
    | top => cases h
    | coe q =>
      change (round q).isFinite = true at h
      cases hq : round q with
      | finite y => exact ⟨q, y, hq, hq⟩
      | inf negative =>
        rw [hq] at h
        cases h
      | nan =>
        rw [hq] at h
        cases h

/-! ### Rounding errors -/

/-- The value of a finite double. -/
def toRat : Double → ℚ
  | finite x => x
  | _ => 0

theorem eq_finite_toRat (ha : a.isFinite = true) : a = finite a.toRat := by
  cases a with
  | finite x => rfl
  | inf negative => cases ha
  | nan => cases ha

/-- A sum that stays below 2^1023 does not overflow, and is off by 2^-52 of its terms at
most. -/
theorem add_near {p q : ℚ} (hx : |x| ≤ p) (hy : |y| ≤ q) (hone : 1 ≤ p + q)
    (hmax : p + q ≤ 2 ^ 1023) :
    ∃ z, finite x + finite y = finite z ∧ |z - (x + y)| ≤ (p + q) / 2 ^ 52 ∧
      |z| ≤ 2 * (p + q) := by
  have hsum : |x + y| ≤ p + q := (abs_add_le x y).trans (add_le_add hx hy)
  have hnear := binary64_near_abs (x + y)
  have herr : |binary64 (x + y) - (x + y)| ≤ (p + q) / 2 ^ 52 := by
    have htiny : (2 : ℚ) ^ (-1075 : ℤ) ≤ 2 ^ (-53 : ℤ) :=
      zpow_le_zpow_right₀ one_le_two (by decide)
    have hunit : (2 : ℚ) ^ (-53 : ℤ) = 1 / 2 ^ 53 := by norm_num
    rw [hunit] at hnear htiny
    linarith only [hnear, htiny, hsum, hone]
  have hsplit := abs_add_le (binary64 (x + y) - (x + y)) (x + y)
  rw [sub_add_cancel] at hsplit
  refine ⟨binary64 (x + y), ?_, herr, by linarith only [hsplit, herr, hsum, hone]⟩
  have hlt : |binary64 (x + y)| < 2 ^ 1024 := by
    have hpow : (2 : ℚ) ^ 1024 = 2 * 2 ^ 1023 := pow_succ' 2 1023
    rw [hpow]
    generalize (2 : ℚ) ^ 1023 = big at hmax ⊢
    linarith only [hsplit, herr, hsum, hmax, hone]
  exact if_neg (not_le.mpr hlt)

theorem sub_near {p q : ℚ} (hx : |x| ≤ p) (hy : |y| ≤ q) (hone : 1 ≤ p + q)
    (hmax : p + q ≤ 2 ^ 1023) :
    ∃ z, finite x - finite y = finite z ∧ |z - (x - y)| ≤ (p + q) / 2 ^ 52 ∧
      |z| ≤ 2 * (p + q) := by
  rw [← abs_neg y] at hy
  obtain ⟨z, hz, hnear, hbound⟩ := add_near hx hy hone hmax
  rw [← sub_eq_add_neg] at hnear
  exact ⟨z, hz, hnear, hbound⟩

/-! ### Numbers above zero -/

theorem round_eq_finite (h : round x = finite y) : y = binary64 x ∧ |y| < 2 ^ 1024 := by
  unfold round at h
  split at h
  · cases h
  · rename_i hlt
    cases h
    exact ⟨rfl, not_le.mp hlt⟩

/-- Rounding keeps a number on its side of one that needs none. -/
theorem le_round (hx : 0 ≤ x) (hle : x ≤ y) (hexact : binary64 x = x) : finite x ≤ round y := by
  unfold round
  split
  · have hsign : decide (y < 0) = false := decide_eq_false (not_lt.mpr (hx.trans hle))
    rw [hsign]
    rfl
  · have hmono := binary64_mono hx hle
    rw [hexact] at hmono
    exact finite_le_finite.mpr hmono

theorem binary64_one : binary64 1 = 1 := by
  have hone := binary64_natCast 1 (by decide)
  rw [Nat.cast_one] at hone
  exact hone

theorem binary64_zpow {e : ℤ} (he : -1074 ≤ e) : binary64 (2 ^ e) = 2 ^ e := by
  have hpos : (0 : ℚ) < 2 ^ e := zpow_pos two_pos _
  have hlog : Int.log 2 ((2 : ℚ) ^ e) = e := Int.log_zpow one_lt_two e
  obtain ⟨k, hk⟩ := zpow_eq_mul_ulp (e := e) hpos.le (by omega)
  have hle := binary64_le hk.le
  have hge := le_binary64 hk.ge
  rw [← hk] at hle hge
  exact le_antisymm hle hge

/-- A quotient by a double is above zero when the dividend is at least 1: the divisor is
below 2^1024. -/
theorem div_pos_of_one_le (ha : 1 ≤ a) (hb : round x = finite y) (hy : 0 < y) :
    0 < a / finite y := by
  cases a with
  | nan => exact absurd (le_iff.mp ha).2.1 (by decide)
  | finite z =>
    have hz : 1 ≤ z := finite_le_finite.mp ha
    have hbound : y ≤ 2 ^ (1024 : ℤ) := (le_abs_self y).trans (round_eq_finite hb).2.le
    have hlow : (2 : ℚ) ^ (-1024 : ℤ) ≤ z / y := by
      rw [zpow_neg, le_div_iff₀ hy, inv_mul_le_iff₀ (zpow_pos two_pos _)]
      exact hbound.trans (le_mul_of_one_le_right (zpow_pos two_pos _).le hz)
    show 0 < (if y = 0 then _ else round (z / y))
    rw [if_neg hy.ne']
    have hpos : (0 : ℚ) < 2 ^ (-1024 : ℤ) := zpow_pos two_pos _
    exact lt_of_lt_of_le (finite_lt_finite.mpr hpos)
      (le_round hpos.le hlow (binary64_zpow (by decide)))
  | inf negative =>
    cases negative with
    | true => cases ha
    | false =>
      show 0 < inf (false != decide (y < 0))
      rw [decide_eq_false (not_lt.mpr hy.le)]
      rfl

theorem one_le_add (ha : 1 ≤ a) (hb : 0 ≤ b) : 1 ≤ a + b := by
  cases a with
  | nan => exact absurd (le_iff.mp ha).2.1 (by decide)
  | inf negative =>
    cases negative with
    | true => cases ha
    | false =>
      cases b with
      | nan => exact absurd (le_iff.mp hb).2.1 (by decide)
      | finite y => rfl
      | inf other =>
        cases other with
        | true => cases hb
        | false => rfl
  | finite z =>
    cases b with
    | nan => exact absurd (le_iff.mp hb).2.1 (by decide)
    | inf other =>
      cases other with
      | true => cases hb
      | false => rfl
    | finite w =>
      have hz : 1 ≤ z := finite_le_finite.mp ha
      have hw : 0 ≤ w := finite_le_finite.mp hb
      exact le_round zero_le_one (by linarith) binary64_one

end Double

end LeadLag.Core
