import LeadLag.Core.Decimal
import Mathlib.Tactic.Linarith
import Mathlib.Tactic.Positivity
import Mathlib.Tactic.Ring

/-!
# Numbers of a fixed width

Decimal fields with leading zeros, as a date has them, and what the scanners make
of a run of digits that something else ends.
-/

namespace LeadLag.Core

def digitChar (d : Fin 10) : Char := Char.ofNat (48 + d)

def digitsText (ds : List (Fin 10)) : List Char := ds.map digitChar

def digitsValue (acc : ℕ) (ds : List (Fin 10)) : ℕ :=
  ds.foldl (fun acc (d : Fin 10) => acc * 10 + d.val) acc

/-- The last `width` digits of `n`. -/
def digitsOf : ℕ → ℕ → List (Fin 10)
  | 0, _ => []
  | width + 1, n => digitsOf width (n / 10) ++ [Fin.ofNat 10 n]

theorem digitsOf_length (width n : ℕ) : (digitsOf width n).length = width := by
  induction width generalizing n with
  | zero => rfl
  | succ width ih => simp [digitsOf, ih]

theorem digitsValue_append (acc : ℕ) (ds : List (Fin 10)) (d : Fin 10) :
    digitsValue acc (ds ++ [d]) = digitsValue acc ds * 10 + d := by
  unfold digitsValue
  rw [List.foldl_append]
  rfl

theorem digitsValue_digitsOf (width n : ℕ) : digitsValue 0 (digitsOf width n) = n % 10 ^ width := by
  induction width generalizing n with
  | zero => simp [digitsOf, digitsValue, Nat.mod_one]
  | succ width ih =>
    have hlast : (Fin.ofNat 10 n : Fin 10).val = n % 10 := rfl
    show digitsValue 0 (digitsOf width (n / 10) ++ [Fin.ofNat 10 n]) = _
    rw [digitsValue_append, ih, hlast, pow_succ', Nat.mod_mul]
    omega

theorem digitsOf_read {width n : ℕ} (h : n < 10 ^ width) :
    digitsValue 0 (digitsOf width n) = n := by
  rw [digitsValue_digitsOf, Nat.mod_eq_of_lt h]

theorem digitsValue_shift (acc : ℕ) (ds : List (Fin 10)) :
    digitsValue acc ds = acc * 10 ^ ds.length + digitsValue 0 ds := by
  induction ds generalizing acc with
  | nil => simp [digitsValue]
  | cons d ds ih =>
    show digitsValue (acc * 10 + d) ds = acc * 10 ^ (ds.length + 1) + digitsValue (0 * 10 + d) ds
    rw [ih (acc * 10 + d), ih (0 * 10 + d)]
    ring

theorem digitsValue_lt (ds : List (Fin 10)) : digitsValue 0 ds < 10 ^ ds.length := by
  induction ds with
  | nil => simp [digitsValue]
  | cons d ds ih =>
    have hd : d.val < 10 := d.isLt
    show digitsValue (0 * 10 + d) ds < 10 ^ (ds.length + 1)
    rw [digitsValue_shift, pow_succ]
    nlinarith

/-! ### Scanning -/

theorem isDigit_digitChar (d : Fin 10) : (digitChar d).isDigit = true := by
  revert d
  decide

theorem digitValue_digitChar (d : Fin 10) : digitValue 10 (digitChar d) = some d.val := by
  revert d
  decide

/-- No digit follows. -/
def EndsDigits (rest : List Char) : Prop := ∀ c cs, rest = c :: cs → digitValue 10 c = none

theorem endsDigits_nil : EndsDigits [] := by
  intro c cs h
  cases h

theorem endsDigits_cons {c : Char} (h : digitValue 10 c = none) (cs : List Char) :
    EndsDigits (c :: cs) := by
  intro c' cs' heq
  cases heq
  exact h

theorem takeDigits_digitsText (ds : List (Fin 10)) {rest : List Char} (h : EndsDigits rest)
    (acc : ℕ) :
    takeDigits 10 acc (digitsText ds ++ rest) = (digitsValue acc ds, ds.length, rest) := by
  induction ds generalizing acc with
  | nil =>
    cases rest with
    | nil => rfl
    | cons c cs =>
      have hc := h c cs rfl
      show takeDigits 10 acc (c :: cs) = (acc, 0, c :: cs)
      simp only [takeDigits, hc]
  | cons d ds ih =>
    show takeDigits 10 acc (digitChar d :: (digitsText ds ++ rest)) = _
    simp only [takeDigits, digitValue_digitChar, ih, List.length_cons]
    rfl

theorem splitSign_digitsText {ds : List (Fin 10)} (hne : ds ≠ []) (rest : List Char) :
    splitSign ((digitsText ds ++ rest).dropWhile isSpace) = (false, digitsText ds ++ rest) := by
  cases ds with
  | nil => exact absurd rfl hne
  | cons d ds => exact splitSign_of_isDigit (isDigit_digitChar d) _

theorem magnitude_digitsText {ds : List (Fin 10)} (hne : ds ≠ []) {rest : List Char}
    (hrest : EndsDigits rest) (hpoint : ∀ cs, rest ≠ '.' :: cs) (hexp : exponentPart 'e' rest = 0) :
    magnitude 10 10 'e' (digitsText ds ++ rest) = some (digitsValue 0 ds : ℚ) := by
  have hlen : ¬ ds.length + 0 = 0 := by
    rw [add_zero, List.length_eq_zero_iff]
    exact hne
  unfold magnitude
  rw [takeDigits_digitsText ds hrest]
  -- `hpoint` rules the fraction out
  simp only [hlen, if_false, hexp, Nat.cast_ofNat, pow_zero, zpow_zero, div_one, mul_one]

theorem magnitude_fraction {ds : List (Fin 10)} (hne : ds ≠ []) (fs : List (Fin 10))
    {rest : List Char} (hrest : EndsDigits rest) (hexp : exponentPart 'e' rest = 0) :
    magnitude 10 10 'e' (digitsText ds ++ '.' :: (digitsText fs ++ rest)) =
      some (digitsValue 0 ds + digitsValue 0 fs / 10 ^ fs.length : ℚ) := by
  have hlen : ¬ ds.length + fs.length = 0 := by
    have hpos := List.length_pos_iff.mpr hne
    omega
  have hpow : (10 : ℚ) ^ fs.length ≠ 0 := by positivity
  have hvalue : ((digitsValue (digitsValue 0 ds) fs : ℕ) : ℚ) / 10 ^ fs.length =
      digitsValue 0 ds + digitsValue 0 fs / 10 ^ fs.length := by
    rw [digitsValue_shift]
    push_cast
    rw [add_div, mul_div_cancel_right₀ _ hpow]
  unfold magnitude
  rw [takeDigits_digitsText ds (endsDigits_cons (by decide) _)]
  simp only [takeDigits_digitsText fs hrest, hlen, if_false, hexp, zpow_zero, mul_one]
  exact congrArg some hvalue

theorem hexOrDecimal_digitsText {ds : List (Fin 10)} (hlen : 2 ≤ ds.length) (rest : List Char) :
    hexOrDecimal (digitsText ds ++ rest) = magnitude 10 10 'e' (digitsText ds ++ rest) := by
  apply hexOrDecimal_of_isDigit
  intro a b tail h
  cases ds with
  | nil => exact absurd hlen (by decide)
  | cons d ds =>
    cases ds with
    | nil => exact absurd hlen (Nat.lt_irrefl 1)
    | cons d' ds =>
      have hb : digitChar d' = b := (List.cons.inj (List.cons.inj h).2).1
      rw [← hb]
      exact isDigit_digitChar d'

/-- Two digits and more are read to the end of the number, whatever follows it. -/
theorem scanNumber_digitsText {ds : List (Fin 10)} (hlen : 2 ≤ ds.length) {rest : List Char}
    {x : ℚ} (hmagnitude : magnitude 10 10 'e' (digitsText ds ++ rest) = some x)
    {refused : ℚ → Bool} (hx : refused x = false) :
    scanNumber refused (String.ofList (digitsText ds ++ rest)) = some (some x) := by
  have hvalue := (hexOrDecimal_digitsText hlen rest).trans hmagnitude
  cases ds with
  | nil => exact absurd hlen (by decide)
  | cons d ds =>
    have hread := scanNumber_of_isDigit refused (isDigit_digitChar d) hvalue
    rw [hx, if_neg Bool.false_ne_true] at hread
    exact hread

end LeadLag.Core
