import Mathlib.Data.Rat.Defs
import Mathlib.Algebra.Order.Field.Rat
import Mathlib.Algebra.Field.Rat

/-!
# Numbers and JSON values

A finite double is modelled by the rational it denotes and `+ - * /` and the
comparisons are exact. `stod` follows `std::stod`: leading blanks, a sign, a
decimal or hexadecimal digit sequence with an exponent, the infinity and NaN
words, trailing characters ignored, and an exception when nothing converts or
the value overflows or underflows. `Json` is the part of a `nlohmann::json` value the
runner looks at; integers and floats are kept apart as the library does.
-/

namespace LeadLag.Core

/-! ### `std::stod` -/

def isSpace (c : Char) : Bool :=
  c = ' ' || (9 ≤ c.toNat && c.toNat ≤ 13)

def digitValue (base : ℕ) (c : Char) : Option ℕ :=
  let n := c.toNat
  let v := if 48 ≤ n ∧ n ≤ 57 then some (n - 48)
    else if 97 ≤ n ∧ n ≤ 102 then some (n - 87)
    else if 65 ≤ n ∧ n ≤ 70 then some (n - 55) else none
  v.filter (· < base)

def takeDigits (base : ℕ) : ℕ → List Char → ℕ × ℕ × List Char
  | acc, [] => (acc, 0, [])
  | acc, c :: cs =>
    match digitValue base c with
    | none => (acc, 0, c :: cs)
    | some d =>
      let (v, n, rest) := takeDigits base (acc * base + d) cs
      (v, n + 1, rest)

def splitSign : List Char → Bool × List Char
  | '-' :: cs => (true, cs)
  | '+' :: cs => (false, cs)
  | cs => (false, cs)

/-- Exponent part; without a digit after the marker it is not consumed. -/
def exponentPart (marker : Char) : List Char → ℤ
  | [] => 0
  | c :: cs =>
    if c.toLower = marker then
      let (neg, ds) := splitSign cs
      let (v, _, _) := takeDigits 10 0 ds
      if neg then -(v : ℤ) else v
    else 0

def magnitude (base expBase : ℕ) (marker : Char) (cs : List Char) : Option ℚ :=
  let (whole, n, rest) := takeDigits base 0 cs
  let (all, m, tail) := match rest with
    | '.' :: frac => takeDigits base whole frac
    | _ => (whole, 0, rest)
  if n + m = 0 then none
  else some ((all : ℚ) / (base : ℚ) ^ m * (expBase : ℚ) ^ exponentPart marker tail)

def hexOrDecimal : List Char → Option ℚ
  | '0' :: x :: cs =>
    if x.toLower = 'x' then (magnitude 16 2 'p' cs).orElse fun _ => some 0
    else magnitude 10 10 'e' ('0' :: x :: cs)
  | cs => magnitude 10 10 'e' cs

/-- The number at the start of a text, of which `refused` says what is out of range; `some none`
is an infinity or NaN. -/
def scanNumber (refused : ℚ → Bool) (s : String) : Option (Option ℚ) :=
  let (neg, cs) := splitSign (s.toList.dropWhile isSpace)
  let word := (cs.take 3).map Char.toLower
  if word = ['i', 'n', 'f'] ∨ word = ['n', 'a', 'n'] then some none
  else match hexOrDecimal cs with
    | none => none
    | some x => if refused x then none else some (some (if neg then -x else x))

/-- From here on the nearest double is an infinity. -/
def stodBound : ℚ := 2 ^ 1024 - 2 ^ 970

/-- `errno` is `ERANGE`: the nearest double is infinite, or it is below the normal doubles,
were its exponent free, and not exact. -/
def stodOutOfRange (x : ℚ) : Bool :=
  decide (stodBound ≤ x) ||
    decide (0 < x ∧ x * 2 ^ 1076 < 2 ^ 54 - 1 ∧ (x * 2 ^ 1074).den ≠ 1)

/-- `std::stod`: `none` is an exception, `some none` an infinity or NaN. -/
def stod (s : String) : Option (Option ℚ) := scanNumber stodOutOfRange s

example : stod " -12.50e-1x" = some (some (-5 / 4)) := by decide +kernel

/-! ### JSON -/

inductive Json where
  | null
  | bool (b : Bool)
  | int (i : ℤ)
  | float (x : ℚ)
  | str (s : String)
  | arr (xs : List Json)
  | obj (fields : List (String × Json))

namespace Json

/-- `contains(key)` with `at(key)`: no field unless the value is an object. -/
def field? (key : String) : Json → Option Json
  | .obj fields => fields.lookup key
  | _ => none

def string? : Json → Option String
  | .str s => some s
  | _ => none

def isObject : Json → Bool
  | .obj _ => true
  | _ => false

end Json

end LeadLag.Core
