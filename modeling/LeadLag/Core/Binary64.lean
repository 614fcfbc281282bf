import Mathlib.Data.Int.Log
import Mathlib.Data.Rat.Floor
import Mathlib.Tactic.Linarith
import Mathlib.Tactic.Positivity
import Mathlib.Tactic.Ring

/-!
# Rounding to doubles

`Rounding` is what the bounds on a computation with nonnegative doubles use of its
rounding. Exact arithmetic is one and round-to-nearest-even on 53 bits is another;
overflow is left aside.
-/

namespace LeadLag.Core

structure Rounding where
  rnd : ℚ → ℚ
  mono : ∀ {x y : ℚ}, 0 ≤ x → x ≤ y → rnd x ≤ rnd y
  natCast : ∀ n : ℕ, n ≤ 2 ^ 52 → rnd n = n
  near : ∀ {x : ℚ}, 0 ≤ x → |rnd x - x| ≤ x * 2 ^ (-53 : ℤ) + 2 ^ (-1075 : ℤ)

namespace Rounding

def exact : Rounding where
  rnd := id
  mono := fun _ h => h
  natCast := fun _ _ => rfl
  near := by
    intro x hx
    show |x - x| ≤ _
    rw [sub_self, abs_zero]
    exact add_nonneg (mul_nonneg hx (zpow_pos two_pos _).le) (zpow_pos two_pos _).le

variable (r : Rounding)

theorem zero : r.rnd 0 = 0 := by
  have hzero := r.natCast 0 (Nat.zero_le _)
  rw [Nat.cast_zero] at hzero
  exact hzero

theorem nonneg {x : ℚ} (hx : 0 ≤ x) : 0 ≤ r.rnd x := by
  have hmono := r.mono le_rfl hx
  rw [r.zero] at hmono
  exact hmono

theorem le_natCast {x : ℚ} {n : ℕ} (hx : 0 ≤ x) (h : x ≤ n) (hn : n ≤ 2 ^ 52) : r.rnd x ≤ n := by
  have hmono := r.mono hx h
  rw [r.natCast n hn] at hmono
  exact hmono

theorem natCast_le {x : ℚ} {n : ℕ} (h : n ≤ x) (hn : n ≤ 2 ^ 52) : n ≤ r.rnd x := by
  have hmono := r.mono (Nat.cast_nonneg n) h
  rw [r.natCast n hn] at hmono
  exact hmono

theorem near_of_le {x : ℚ} (hx : 0 ≤ x) (hle : x ≤ 1000) : |r.rnd x - x| ≤ 1 / 10 ^ 9 := by
  have hnear := r.near hx
  have htiny : (2 : ℚ) ^ (-1075 : ℤ) ≤ 2 ^ (-53 : ℤ) :=
    zpow_le_zpow_right₀ one_le_two (by decide)
  have hunit : (2 : ℚ) ^ (-53 : ℤ) ≤ 1 / 10 ^ 15 := by norm_num
  have hprod : x * (2 : ℚ) ^ (-53 : ℤ) ≤ 1000 * (1 / 10 ^ 15) :=
    mul_le_mul hle hunit (by positivity) (by norm_num)
  have hsum : (1000 : ℚ) * (1 / 10 ^ 15) + 1 / 10 ^ 15 ≤ 1 / 10 ^ 9 := by norm_num
  exact hnear.trans ((add_le_add hprod (htiny.trans hunit)).trans hsum)

/-- Above the subnormal numbers the error is relative. -/
theorem near_of_normal {x : ℚ} (hx : 2 ^ (-1022 : ℤ) ≤ x) : |r.rnd x - x| ≤ x / 2 ^ 52 := by
  have hpos : (0 : ℚ) < 2 ^ (-1022 : ℤ) := zpow_pos two_pos _
  have hunit : (2 : ℚ) ^ (-53 : ℤ) = 1 / 2 ^ 53 := by norm_num
  have hsplit : (2 : ℚ) ^ (-1075 : ℤ) = 2 ^ (-1022 : ℤ) * 2 ^ (-53 : ℤ) :=
    zpow_add₀ two_ne_zero (-1022) (-53)
  have hnear := r.near (hpos.le.trans hx)
  generalize (2 : ℚ) ^ (-1022 : ℤ) = least at hx hsplit
  rw [hsplit, hunit] at hnear
  linarith only [hnear, hx]

end Rounding

/-! ### To an integer -/

/-- To the nearest integer, halves to the even one. -/
def roundEven (x : ℚ) : ℤ :=
  let k := ⌊x⌋
  if x - k < 1 / 2 then k
  else if 1 / 2 < x - k then k + 1
  else k + k % 2

theorem roundEven_bounds (x : ℚ) : ⌊x⌋ ≤ roundEven x ∧ roundEven x ≤ ⌊x⌋ + 1 := by
  simp only [roundEven]
  split_ifs <;> omega

theorem roundEven_near (x : ℚ) : |(roundEven x : ℚ) - x| ≤ 1 / 2 := by
  have hlow := Int.floor_le x
  have hhigh := Int.lt_floor_add_one x
  rw [abs_le]
  simp only [roundEven]
  split_ifs with hless hmore
  · constructor <;> linarith
  · push_cast
    constructor <;> linarith
  · have hparity : ((⌊x⌋ % 2 : ℤ) : ℚ) = 0 ∨ ((⌊x⌋ % 2 : ℤ) : ℚ) = 1 := by
      have hmod : ⌊x⌋ % 2 = 0 ∨ ⌊x⌋ % 2 = 1 := by omega
      rcases hmod with hmod | hmod
      · left
        rw [hmod, Int.cast_zero]
      · right
        rw [hmod, Int.cast_one]
    rw [Int.cast_add]
    rcases hparity with hparity | hparity
    · rw [hparity]
      constructor <;> linarith
    · rw [hparity]
      constructor <;> linarith

theorem roundEven_intCast (k : ℤ) : roundEven k = k := by
  have hfrac : (k : ℚ) - ((⌊(k : ℚ)⌋ : ℤ) : ℚ) < 1 / 2 := by
    rw [Int.floor_intCast, sub_self]
    norm_num
  simp only [roundEven]
  rw [if_pos hfrac, Int.floor_intCast]

theorem roundEven_mono {x y : ℚ} (h : x ≤ y) : roundEven x ≤ roundEven y := by
  have hfloor : ⌊x⌋ ≤ ⌊y⌋ := Int.floor_mono h
  have hx := roundEven_bounds x
  have hy := roundEven_bounds y
  by_cases heq : ⌊x⌋ = ⌊y⌋
  · simp only [roundEven]
    rw [heq]
    split_ifs <;> first | omega | linarith
  · omega

/-! ### To 53 bits -/

/-- The distance of neighbouring doubles at `x`. -/
def ulp (x : ℚ) : ℚ := 2 ^ max (Int.log 2 |x| - 52) (-1074)

def binary64 (x : ℚ) : ℚ := roundEven (x / ulp x) * ulp x

theorem ulp_pos (x : ℚ) : 0 < ulp x := zpow_pos two_pos _

theorem binary64_near_ulp (x : ℚ) : |binary64 x - x| ≤ ulp x / 2 := by
  have hpos := ulp_pos x
  have hnear := roundEven_near (x / ulp x)
  have hx : x / ulp x * ulp x = x := div_mul_cancel₀ x hpos.ne'
  have hscale : binary64 x - x = (roundEven (x / ulp x) - x / ulp x) * ulp x := by
    rw [sub_mul, hx]
    rfl
  rw [hscale, abs_mul, abs_of_pos hpos]
  calc |(roundEven (x / ulp x) : ℚ) - x / ulp x| * ulp x ≤ 1 / 2 * ulp x :=
        mul_le_mul_of_nonneg_right hnear hpos.le
    _ = ulp x / 2 := by ring

theorem ulp_of_nonneg {x : ℚ} (hx : 0 ≤ x) : ulp x = 2 ^ max (Int.log 2 x - 52) (-1074) := by
  unfold ulp
  rw [abs_of_nonneg hx]

theorem half_ulp_le {x : ℚ} (hx : 0 < x) :
    ulp x / 2 ≤ x * 2 ^ (-53 : ℤ) + 2 ^ (-1075 : ℤ) := by
  have hlog : (2 : ℚ) ^ Int.log 2 x ≤ x := Int.zpow_log_le_self one_lt_two hx
  have htiny : (0 : ℚ) < 2 ^ (-1075 : ℤ) := zpow_pos two_pos _
  have hunit : (0 : ℚ) < 2 ^ (-53 : ℤ) := zpow_pos two_pos _
  have hhalf : ulp x / 2 = 2 ^ (max (Int.log 2 x - 52) (-1074) - 1) := by
    rw [ulp_of_nonneg hx.le]
    exact (zpow_sub_one₀ two_ne_zero _).symm
  rw [hhalf]
  rcases max_choice (Int.log 2 x - 52) (-1074) with hmax | hmax
  · have hexp : max (Int.log 2 x - 52) (-1074) - 1 = Int.log 2 x + -53 := by omega
    have hprod := mul_le_mul_of_nonneg_right hlog hunit.le
    rw [hexp, zpow_add₀ two_ne_zero]
    linarith only [hprod, htiny]
  · have hexp : max (Int.log 2 x - 52) (-1074) - 1 = -1075 := by omega
    have hprod := mul_pos hx hunit
    rw [hexp]
    linarith only [hprod]

theorem binary64_zero : binary64 0 = 0 := by
  have hzero : roundEven 0 = 0 := by
    have hcast := roundEven_intCast 0
    rw [Int.cast_zero] at hcast
    exact hcast
  unfold binary64
  rw [zero_div, hzero, Int.cast_zero, zero_mul]

theorem binary64_near_abs (x : ℚ) :
    |binary64 x - x| ≤ |x| * 2 ^ (-53 : ℤ) + 2 ^ (-1075 : ℤ) := by
  rcases eq_or_ne x 0 with hx | hx
  · rw [hx, binary64_zero, sub_self, abs_zero, zero_mul, zero_add]
    exact (zpow_pos two_pos _).le
  · have hulp : ulp |x| = ulp x := by
      unfold ulp
      rw [abs_abs]
    have hhalf := half_ulp_le (abs_pos.mpr hx)
    rw [hulp] at hhalf
    exact (binary64_near_ulp x).trans hhalf

theorem binary64_near {x : ℚ} (hx : 0 ≤ x) :
    |binary64 x - x| ≤ x * 2 ^ (-53 : ℤ) + 2 ^ (-1075 : ℤ) := by
  have hnear := binary64_near_abs x
  rw [abs_of_nonneg hx] at hnear
  exact hnear

/-- A multiple of `ulp x` is passed by no rounding. -/
theorem binary64_le {x : ℚ} {k : ℤ} (h : x ≤ k * ulp x) : binary64 x ≤ k * ulp x := by
  have hpos := ulp_pos x
  have hdiv : x / ulp x ≤ k := (div_le_iff₀ hpos).mpr h
  have hround := roundEven_mono hdiv
  rw [roundEven_intCast] at hround
  exact mul_le_mul_of_nonneg_right (by exact_mod_cast hround) hpos.le

theorem le_binary64 {x : ℚ} {k : ℤ} (h : k * ulp x ≤ x) : k * ulp x ≤ binary64 x := by
  have hpos := ulp_pos x
  have hdiv : (k : ℚ) ≤ x / ulp x := (le_div_iff₀ hpos).mpr h
  have hround := roundEven_mono hdiv
  rw [roundEven_intCast] at hround
  exact mul_le_mul_of_nonneg_right (by exact_mod_cast hround) hpos.le

/-- A power of two that is no less than `ulp x` is a multiple of it. -/
theorem zpow_eq_mul_ulp {x : ℚ} {e : ℤ} (hx : 0 ≤ x) (h : max (Int.log 2 x - 52) (-1074) ≤ e) :
    ∃ k : ℤ, (2 : ℚ) ^ e = k * ulp x := by
  obtain ⟨d, hd⟩ := Int.eq_ofNat_of_zero_le (sub_nonneg.mpr h)
  refine ⟨2 ^ d, ?_⟩
  have hexp : e = d + max (Int.log 2 x - 52) (-1074) := by omega
  rw [ulp_of_nonneg hx, hexp, zpow_add₀ two_ne_zero, zpow_natCast]
  push_cast
  rfl

theorem binary64_mono {x y : ℚ} (hx : 0 ≤ x) (h : x ≤ y) : binary64 x ≤ binary64 y := by
  rcases hx.eq_or_lt with hx | hx
  · rw [← hx, binary64_zero]
    have hzero : ((0 : ℤ) : ℚ) * ulp y ≤ y := by
      rw [Int.cast_zero, zero_mul, hx]
      exact h
    have hround := le_binary64 hzero
    rw [Int.cast_zero, zero_mul] at hround
    exact hround
  · have hlogs : Int.log 2 x ≤ Int.log 2 y := Int.log_mono_right hx h
    by_cases heq : ulp x = ulp y
    · unfold binary64
      rw [heq]
      have hpos := ulp_pos y
      have hround := roundEven_mono (div_le_div_of_nonneg_right h hpos.le)
      exact mul_le_mul_of_nonneg_right (by exact_mod_cast hround) hpos.le
    · -- a power of two separates them
      have hlt : Int.log 2 x < Int.log 2 y ∧ -1074 < Int.log 2 y - 52 := by
        by_contra hcon
        apply heq
        have hmax : max (Int.log 2 x - 52) (-1074) = max (Int.log 2 y - 52) (-1074) := by omega
        rw [ulp_of_nonneg hx.le, ulp_of_nonneg (hx.le.trans h), hmax]
      have hbelow : x ≤ 2 ^ Int.log 2 y := by
        have hsucc : x < (2 : ℚ) ^ (Int.log 2 x + 1) := Int.lt_zpow_succ_log_self one_lt_two x
        have hpow : (2 : ℚ) ^ (Int.log 2 x + 1) ≤ 2 ^ Int.log 2 y :=
          zpow_le_zpow_right₀ one_le_two (by omega)
        exact hsucc.le.trans hpow
      have habove : (2 : ℚ) ^ Int.log 2 y ≤ y :=
        Int.zpow_log_le_self one_lt_two (hx.trans_le h)
      obtain ⟨k, hk⟩ := zpow_eq_mul_ulp (e := Int.log 2 y) hx.le (by omega)
      obtain ⟨l, hl⟩ := zpow_eq_mul_ulp (e := Int.log 2 y) (hx.le.trans h) (by omega)
      rw [hk] at hbelow
      rw [hl] at habove
      calc binary64 x ≤ k * ulp x := binary64_le hbelow
        _ = l * ulp y := hk.symm.trans hl
        _ ≤ binary64 y := le_binary64 habove

theorem binary64_natCast (n : ℕ) (hn : n ≤ 2 ^ 52) : binary64 n = n := by
  rcases Nat.eq_zero_or_pos n with hzero | hpos
  · rw [hzero, Nat.cast_zero, binary64_zero]
  · have hlog : Int.log 2 (n : ℚ) ≤ 52 := by
      have hmono : Int.log 2 (n : ℚ) ≤ Int.log 2 ((2 : ℚ) ^ (52 : ℤ)) :=
        Int.log_mono_right (by exact_mod_cast hpos) (by exact_mod_cast hn)
      have hpow : Int.log 2 ((2 : ℚ) ^ (52 : ℤ)) = 52 := Int.log_zpow one_lt_two 52
      rw [hpow] at hmono
      exact hmono
    have hnonneg : (0 : ℚ) ≤ n := Nat.cast_nonneg n
    obtain ⟨k, hk⟩ := zpow_eq_mul_ulp (e := 0) hnonneg (by omega)
    have hmultiple : (n : ℚ) = ((n * k : ℤ) : ℚ) * ulp n := by
      rw [zpow_zero] at hk
      push_cast
      rw [mul_assoc, ← hk, mul_one]
    have hle := binary64_le hmultiple.le
    have hge := le_binary64 hmultiple.ge
    rw [← hmultiple] at hle hge
    exact le_antisymm hle hge

/-- The doubles next to a natural number are natural numbers. -/
theorem binary64_natCast_eq (n : ℕ) : ∃ k : ℕ, binary64 n = k := by
  by_cases hn : n ≤ 2 ^ 52
  · exact ⟨n, binary64_natCast n hn⟩
  · have hnonneg : (0 : ℚ) ≤ n := Nat.cast_nonneg n
    have hlog : 52 ≤ Int.log 2 (n : ℚ) := by
      have hpow : Int.log 2 ((2 : ℚ) ^ (52 : ℤ)) = 52 := Int.log_zpow one_lt_two 52
      rw [← hpow]
      apply Int.log_mono_right (zpow_pos two_pos _)
      exact_mod_cast (not_le.mp hn).le
    obtain ⟨e, he⟩ := Int.eq_ofNat_of_zero_le (sub_nonneg.mpr hlog)
    have hulp : ulp n = 2 ^ e := by
      have hmax : max (Int.log 2 (n : ℚ) - 52) (-1074) = (e : ℤ) := by omega
      rw [ulp_of_nonneg hnonneg, hmax, zpow_natCast]
    have hround : 0 ≤ roundEven ((n : ℚ) / ulp n) := by
      have hmono := roundEven_mono (div_nonneg hnonneg (ulp_pos (n : ℚ)).le)
      have hzero := roundEven_intCast 0
      rw [Int.cast_zero] at hzero
      rw [hzero] at hmono
      exact hmono
    obtain ⟨k, hk⟩ := Int.eq_ofNat_of_zero_le hround
    refine ⟨k * 2 ^ e, ?_⟩
    unfold binary64
    rw [hk, hulp]
    push_cast
    rfl

def Rounding.toDouble : Rounding where
  rnd := binary64
  mono := binary64_mono
  natCast := binary64_natCast
  near := binary64_near

end LeadLag.Core
