import LeadLag.Core.Json

/-!
# Decimal integers

`stoll` follows `std::stoll` in base 10: leading blanks, a sign, the longest
digit sequence, trailing characters ignored, and an exception (`none`) when
there is no digit or the value does not fit 64 bits; `stoull` is `std::stoull`.
`toString` of an integer is `std::to_string`.
-/

namespace LeadLag.Core

def fitsInt64 (e : ℤ) : Bool := decide (-2 ^ 63 ≤ e ∧ e < 2 ^ 63)

def stoll (s : String) : Option ℤ :=
  let (neg, cs) := splitSign (s.toList.dropWhile isSpace)
  let (v, n, _) := takeDigits 10 0 cs
  if n = 0 then none
  else
    let e : ℤ := if neg then -v else v
    if fitsInt64 e then some e else none

/-- A minus sign negates within 64 bits. -/
def stoull (s : String) : Option ℕ :=
  let (neg, cs) := splitSign (s.toList.dropWhile isSpace)
  let (v, n, _) := takeDigits 10 0 cs
  if n = 0 ∨ 2 ^ 64 ≤ v then none else some (if neg then (2 ^ 64 - v) % 2 ^ 64 else v)

theorem digitValue_of_isDigit {c : Char} (h : c.isDigit = true) :
    digitValue 10 c = some (c.toNat - '0'.toNat) := by
  have hrange : 48 ≤ c.toNat ∧ c.toNat ≤ 57 := Char.isDigit_iff_toNat.mp h
  have hlt : c.toNat - 48 < 10 := by omega
  simp only [digitValue, if_pos hrange]
  exact Option.filter_eq_some_iff.mpr ⟨rfl, decide_eq_true hlt⟩

theorem takeDigits_of_isDigit {cs : List Char} (h : ∀ c ∈ cs, c.isDigit = true) (acc : ℕ) :
    takeDigits 10 acc cs = (Nat.ofDigitChars 10 cs acc, cs.length, []) := by
  induction cs generalizing acc with
  | nil => simp [takeDigits]
  | cons c cs ih =>
    have hc := digitValue_of_isDigit (h c List.mem_cons_self)
    have hdigits : ∀ d ∈ cs, d.isDigit = true := fun d hd => h d (List.mem_cons_of_mem c hd)
    have htail := ih hdigits (acc * 10 + (c.toNat - '0'.toNat))
    simp only [takeDigits, hc, htail, Nat.ofDigitChars_cons, List.length_cons]
    rw [Nat.mul_comm acc 10]

theorem takeDigits_toDigits (n : ℕ) :
    takeDigits 10 0 (Nat.toDigits 10 n) = (n, (Nat.toDigits 10 n).length, []) := by
  have hdigits : ∀ c ∈ Nat.toDigits 10 n, c.isDigit = true :=
    fun c hc => Nat.isDigit_of_mem_toDigits (by decide) (by decide) hc
  rw [takeDigits_of_isDigit hdigits, Nat.ofDigitChars_ten_toDigits]

theorem not_isSpace_of_isDigit {c : Char} (h : c.isDigit = true) : isSpace c = false := by
  have hrange : 48 ≤ c.toNat ∧ c.toNat ≤ 57 := Char.isDigit_iff_toNat.mp h
  have hne : c ≠ ' ' := by
    rintro rfl
    exact absurd hrange.1 (by decide)
  have hlarge : ¬ (9 ≤ c.toNat ∧ c.toNat ≤ 13) := by omega
  unfold isSpace
  rw [decide_eq_false hne, Bool.false_or, ← Bool.decide_and, decide_eq_false hlarge]

theorem splitSign_of_isDigit {c : Char} (h : c.isDigit = true) (cs : List Char) :
    splitSign ((c :: cs).dropWhile isSpace) = (false, c :: cs) := by
  have hminus : c ≠ '-' := by
    rintro rfl
    exact absurd h (by decide)
  have hplus : c ≠ '+' := by
    rintro rfl
    exact absurd h (by decide)
  simp only [List.dropWhile_cons, not_isSpace_of_isDigit h, Bool.false_eq_true, ite_false]
  unfold splitSign
  split
  · rename_i h
    cases h
    exact absurd rfl hminus
  · rename_i h
    cases h
    exact absurd rfl hplus
  · rfl

theorem splitSign_toDigits (n : ℕ) :
    splitSign ((Nat.toDigits 10 n).dropWhile isSpace) = (false, Nat.toDigits 10 n) := by
  have hdigits : ∀ c ∈ Nat.toDigits 10 n, c.isDigit = true :=
    fun c hc => Nat.isDigit_of_mem_toDigits (by decide) (by decide) hc
  cases hcs : Nat.toDigits 10 n with
  | nil => exact absurd hcs Nat.toDigits_ne_nil
  | cons c cs =>
    have hc : c.isDigit = true := hdigits c (by rw [hcs]; exact List.mem_cons_self)
    exact splitSign_of_isDigit hc cs

/-- `std::stoll` reads back what `std::to_string` writes. -/
theorem stoll_toString (e : ℤ) :
    stoll (toString e) = if fitsInt64 e then some e else none := by
  have hne : ∀ n, (Nat.toDigits 10 n).length ≠ 0 := by
    intro n hn
    exact Nat.toDigits_ne_nil (List.length_eq_zero_iff.mp hn)
  rw [Int.toString_eq_repr, Int.repr_eq_if]
  by_cases he : 0 ≤ e
  · have hcast : (e.toNat : ℤ) = e := Int.toNat_of_nonneg he
    simp only [he, ite_true, stoll, Nat.toList_repr, splitSign_toDigits, takeDigits_toDigits, hne,
      ite_false, Bool.false_eq_true, hcast]
  · have hcast : -((-e).toNat : ℤ) = e := by omega
    have hsign : splitSign (("-" ++ (-e).toNat.repr).toList.dropWhile isSpace) =
        (true, Nat.toDigits 10 (-e).toNat) := by
      simp [String.toList_append, Nat.toList_repr, isSpace, splitSign]
    simp only [he, ite_false, stoll, hsign, takeDigits_toDigits, hne, ite_true, hcast]

/-! ### Decimal integers as doubles -/

theorem toLower_of_isDigit {c : Char} (h : c.isDigit = true) : c.toLower = c := by
  have hrange : 48 ≤ c.toNat ∧ c.toNat ≤ 57 := Char.isDigit_iff_toNat.mp h
  have hupper : ¬ (c.val ≥ 'A'.val ∧ c.val ≤ 'Z'.val) := by
    intro hu
    have hlow : 65 ≤ c.toNat := hu.1
    omega
  exact dif_neg hupper

theorem toLower_ne_of_isDigit {c d : Char} (hc : c.isDigit = true) (hd : d.isDigit = false) :
    c.toLower ≠ d := by
  rw [toLower_of_isDigit hc]
  rintro rfl
  rw [hd] at hc
  cases hc

theorem magnitude_toDigits (n : ℕ) :
    magnitude 10 10 'e' (Nat.toDigits 10 n) = some (n : ℚ) := by
  have hne : (Nat.toDigits 10 n).length ≠ 0 := by
    intro hn
    exact Nat.toDigits_ne_nil (List.length_eq_zero_iff.mp hn)
  simp [magnitude, takeDigits_toDigits, exponentPart, Nat.toDigits_ne_nil]

/-- A digit in the second place is not the mark of a hexadecimal number. -/
theorem hexOrDecimal_of_isDigit {cs : List Char}
    (h : ∀ a b rest, cs = a :: b :: rest → b.isDigit = true) :
    hexOrDecimal cs = magnitude 10 10 'e' cs := by
  unfold hexOrDecimal
  split
  · rename_i x rest
    have hne := toLower_ne_of_isDigit (d := 'x') (h '0' x rest rfl) (by decide)
    rw [if_neg hne]
  · rfl

/-- A number that starts with a digit is no infinity and no NaN. -/
theorem scanNumber_of_isDigit (refused : ℚ → Bool) {c : Char} (hc : c.isDigit = true)
    {cs : List Char} {x : ℚ} (hx : hexOrDecimal (c :: cs) = some x) :
    scanNumber refused (String.ofList (c :: cs)) =
      if refused x then none else some (some x) := by
  have hword : ∀ d w, d.isDigit = false → ((c :: cs).take 3).map Char.toLower ≠ d :: w := by
    intro d w hd hword
    exact toLower_ne_of_isDigit hc hd (List.cons.inj hword).1
  have hinf := hword 'i' ['n', 'f'] (by decide)
  have hnan := hword 'n' ['a', 'n'] (by decide)
  unfold scanNumber
  rw [String.toList_ofList, splitSign_of_isDigit hc]
  simp only [hinf, hnan, or_self, if_false, hx, Bool.false_eq_true]

theorem stodOutOfRange_natCast (n : ℕ) : stodOutOfRange n = decide (stodBound ≤ n) := by
  have hexact : ((n : ℚ) * 2 ^ 1074).den = 1 := by
    have hcast : (n : ℚ) * 2 ^ 1074 = ((n * 2 ^ 1074 : ℕ) : ℚ) := by
      rw [Nat.cast_mul, Nat.cast_pow, Nat.cast_ofNat]
    rw [hcast]
    exact Rat.den_natCast _
  have hnormal :
      ¬ (0 < (n : ℚ) ∧ (n : ℚ) * 2 ^ 1076 < 2 ^ 54 - 1 ∧ ((n : ℚ) * 2 ^ 1074).den ≠ 1) := by
    intro h
    exact h.2.2 hexact
  unfold stodOutOfRange
  rw [decide_eq_false hnormal, Bool.or_false]

/-- `std::stod` reads back a natural number, up to the largest double. -/
theorem stod_toString (n : ℕ) :
    stod (toString n) = if stodBound ≤ n then none else some (some (n : ℚ)) := by
  have hdigits : ∀ c ∈ Nat.toDigits 10 n, c.isDigit = true :=
    fun c hc => Nat.isDigit_of_mem_toDigits (by decide) (by decide) hc
  have hvalue : hexOrDecimal (Nat.toDigits 10 n) = some (n : ℚ) := by
    rw [← magnitude_toDigits n]
    apply hexOrDecimal_of_isDigit
    intro a b rest hcs
    exact hdigits b (by rw [hcs]; simp)
  have htext : toString n = String.ofList (Nat.toDigits 10 n) := by
    rw [Nat.toString_eq_repr, ← Nat.toList_repr, String.ofList_toList]
  rw [htext]
  cases hcs : Nat.toDigits 10 n with
  | nil => exact absurd hcs Nat.toDigits_ne_nil
  | cons c cs =>
    rw [hcs] at hvalue
    have hc : c.isDigit = true := hdigits c (by rw [hcs]; exact List.mem_cons_self)
    have hread := scanNumber_of_isDigit stodOutOfRange hc hvalue
    rw [stodOutOfRange_natCast] at hread
    unfold stod
    simpa only [decide_eq_true_eq] using hread

end LeadLag.Core
