import LeadLag.Daemon.Text
import Mathlib.Algebra.Order.Field.Rat
import Mathlib.Tactic.IntervalCases

/-!
# Python values and their JSON text (poly_daemon.py:81-93)

`dumps` is `json.dumps` with its defaults: ASCII on one line. A float is a
rational or, as `none`, an infinity or NaN; `object` stands for what JSON cannot
express, by the name of its type. `floatRepr` is the text of a float.
-/

namespace LeadLag.Daemon

/-- One line of ASCII. -/
structure Line where
  text : List Char
  oneLine : '\n' ∉ text

inductive Value where
  | none
  | bool (b : Bool)
  | int (i : ℤ)
  | float (x : Option ℚ)
  | str (s : String)
  | list (xs : List Value)
  | dict (fields : List (String × Value))
  | object (typeName : String)

namespace Value

/-- `type(x).__name__`. -/
def typeName : Value → String
  | .none => "NoneType"
  | .bool _ => "bool"
  | .int _ => "int"
  | .float _ => "float"
  | .str _ => "str"
  | .list _ => "list"
  | .dict _ => "dict"
  | .object typeName => typeName

/-- `x == "…"` for a string literal. -/
def isStr (s : String) : Value → Bool
  | .str t => t = s
  | _ => false

def isDict : Value → Bool
  | .dict _ => true
  | _ => false

/-- `bool(x)`. -/
def truthy : Value → Bool
  | .none => false
  | .bool b => b
  | .int i => i ≠ 0
  | .float x => x ≠ some 0
  | .str s => s ≠ ""
  | .list xs => !xs.isEmpty
  | .dict fields => !fields.isEmpty
  | .object _ => true

/-- `x or y`. -/
def or (x y : Value) : Value := if x.truthy then x else y

/-- `x.get(key)` of a dict. -/
def get? (key : String) : Value → Option Value
  | .dict fields => fields.lookup key
  | _ => Option.none

/-- `_json_truthy`. A list, a dict or another object never spells one of the words. -/
def jsonTruthy : Value → Bool
  | .bool b => b
  | .int i => i ≠ 0
  | .float x => x ≠ some 0
  | .str s =>
    ["1", "true", "yes", "y", "on"].contains (String.ofList ((strip s.toList).map Char.toLower))
  | _ => false

end Value

/-! ### Text -/

def hexDigit (n : ℕ) : Char := if n < 10 then Char.ofNat (48 + n) else Char.ofNat (87 + n)

def hex4 (n : ℕ) : List Char :=
  ['\\', 'u', hexDigit (n / 4096 % 16), hexDigit (n / 256 % 16), hexDigit (n / 16 % 16),
    hexDigit (n % 16)]

/-- Outside the printable ASCII range a character becomes one or two UTF-16 units. -/
def escapeChar (c : Char) : List Char :=
  if c = '"' then ['\\', '"']
  else if c = '\\' then ['\\', '\\']
  else if c = '\n' then ['\\', 'n']
  else if c = '\r' then ['\\', 'r']
  else if c = '\t' then ['\\', 't']
  else if c.toNat = 8 then ['\\', 'b']
  else if c.toNat = 12 then ['\\', 'f']
  else if 32 ≤ c.toNat ∧ c.toNat ≤ 126 then [c]
  else if c.toNat < 65536 then hex4 c.toNat
  else hex4 (55296 + (c.toNat - 65536) / 1024) ++ hex4 (56320 + (c.toNat - 65536) % 1024)

def quoted (s : String) : List Char := '"' :: s.toList.flatMap escapeChar ++ ['"']

def joined : List (List Char) → List Char := fun parts => [',', ' '].intercalate parts

section Dumps

variable (floatRepr : Option ℚ → Line)

mutual

def dumps : Value → Option (List Char)
  | .none => some "null".toList
  | .bool b => some (if b then "true" else "false").toList
  | .int i => some (toString i).toList
  | .float x => some (floatRepr x).text
  | .str s => some (quoted s)
  | .list xs => (dumpsItems xs).map fun parts => '[' :: joined parts ++ [']']
  | .dict fields => (dumpsFields fields).map fun parts => '{' :: joined parts ++ ['}']
  | .object _ => none

def dumpsItems : List Value → Option (List (List Char))
  | [] => some []
  | x :: xs => do
    let text ← dumps x
    let rest ← dumpsItems xs
    pure (text :: rest)

def dumpsFields : List (String × Value) → Option (List (List Char))
  | [] => some []
  | (key, x) :: xs => do
    let text ← dumps x
    let rest ← dumpsFields xs
    pure ((quoted key ++ [':', ' '] ++ text) :: rest)

end

end Dumps

mutual

/-- The type that `json.dumps` complains of: that of the first object it comes to. -/
def firstObject? : Value → Option String
  | .list xs => firstOfItems? xs
  | .dict fields => firstOfFields? fields
  | .object typeName => some typeName
  | _ => none

def firstOfItems? : List Value → Option String
  | [] => none
  | x :: xs => (firstObject? x).or (firstOfItems? xs)

def firstOfFields? : List (String × Value) → Option String
  | [] => none
  | (_, x) :: fields => (firstObject? x).or (firstOfFields? fields)

end

/-! ### One line -/

theorem hexDigit_ne (n : ℕ) (h : n < 16) : hexDigit n ≠ '\n' := by
  interval_cases n <;> decide

theorem newline_not_mem_hex4 (n : ℕ) : '\n' ∉ hex4 n := by
  have hdigit (m : ℕ) : hexDigit (m % 16) ≠ '\n' := hexDigit_ne _ (Nat.mod_lt _ (by decide))
  simp only [hex4, List.mem_cons, List.not_mem_nil, or_false, not_or]
  exact ⟨by decide, by decide, (hdigit _).symm, (hdigit _).symm, (hdigit _).symm, (hdigit _).symm⟩

theorem newline_not_mem_escapeChar (c : Char) : '\n' ∉ escapeChar c := by
  unfold escapeChar
  split
  · decide
  split
  · decide
  split
  · decide
  · rename_i hnewline
    split
    · decide
    split
    · decide
    split
    · decide
    split
    · decide
    split
    · simpa using Ne.symm hnewline
    split
    · exact newline_not_mem_hex4 _
    · rw [List.mem_append, not_or]
      exact ⟨newline_not_mem_hex4 _, newline_not_mem_hex4 _⟩

theorem newline_not_mem_quoted (s : String) : '\n' ∉ quoted s := by
  simp only [quoted, List.mem_cons, List.mem_append, List.mem_flatMap, List.not_mem_nil, or_false,
    not_or, not_exists, not_and]
  refine ⟨⟨by decide, fun c _ => newline_not_mem_escapeChar c⟩, by decide⟩

theorem newline_not_mem_joined {parts : List (List Char)} (h : ∀ p ∈ parts, '\n' ∉ p) :
    '\n' ∉ joined parts := by
  induction parts with
  | nil => exact List.not_mem_nil
  | cons p rest ih =>
    have hp := h p List.mem_cons_self
    have hrest := ih fun q hq => h q (List.mem_cons_of_mem p hq)
    cases rest with
    | nil => simpa [joined] using hp
    | cons q rest =>
      simp only [joined, List.intercalate, List.intersperse_cons_cons, List.flatten_cons,
        List.mem_append, not_or] at hrest ⊢
      exact ⟨hp, by decide, hrest⟩

theorem newline_not_mem_digits (n : ℕ) : '\n' ∉ Nat.toDigits 10 n := by
  intro h
  have hdigit := Nat.isDigit_of_mem_toDigits (by decide) (by decide) h
  exact absurd hdigit (by decide)

theorem newline_not_mem_toString (i : ℤ) : '\n' ∉ (toString i).toList := by
  rw [Int.toString_eq_repr, Int.repr_eq_if]
  split
  · rw [Nat.toList_repr]
    exact newline_not_mem_digits _
  · rw [String.toList_append, Nat.toList_repr, List.mem_append, not_or]
    exact ⟨by decide, newline_not_mem_digits _⟩

section OneLine

variable {floatRepr : Option ℚ → Line}

mutual

theorem newline_not_mem_dumps :
    ∀ {v : Value} {t : List Char}, dumps floatRepr v = some t → '\n' ∉ t
  | .none, _, h => by
    cases h
    decide
  | .bool b, _, h => by
    cases h
    cases b <;> decide
  | .int i, _, h => by
    cases h
    exact newline_not_mem_toString i
  | .float x, _, h => by
    cases h
    exact (floatRepr x).oneLine
  | .str s, _, h => by
    cases h
    exact newline_not_mem_quoted s
  | .list xs, _, h => by
    obtain ⟨parts, hparts, rfl⟩ := Option.map_eq_some_iff.mp h
    have hjoined := newline_not_mem_joined (newline_not_mem_dumpsItems hparts)
    simp [hjoined]
  | .dict fields, _, h => by
    obtain ⟨parts, hparts, rfl⟩ := Option.map_eq_some_iff.mp h
    have hjoined := newline_not_mem_joined (newline_not_mem_dumpsFields hparts)
    simp [hjoined]

theorem newline_not_mem_dumpsItems :
    ∀ {xs : List Value} {parts : List (List Char)}, dumpsItems floatRepr xs = some parts →
      ∀ p ∈ parts, '\n' ∉ p
  | [], _, h => by
    cases h
    exact fun _ hmem => absurd hmem List.not_mem_nil
  | x :: xs, _, h => by
    obtain ⟨text, htext, h⟩ := Option.bind_eq_some_iff.mp h
    obtain ⟨rest, hrest, heq⟩ := Option.bind_eq_some_iff.mp h
    cases heq
    rw [List.forall_mem_cons]
    exact ⟨newline_not_mem_dumps htext, newline_not_mem_dumpsItems hrest⟩

theorem newline_not_mem_dumpsFields :
    ∀ {fields : List (String × Value)} {parts : List (List Char)},
      dumpsFields floatRepr fields = some parts → ∀ p ∈ parts, '\n' ∉ p
  | [], _, h => by
    cases h
    exact fun _ hmem => absurd hmem List.not_mem_nil
  | (key, x) :: xs, _, h => by
    obtain ⟨text, htext, h⟩ := Option.bind_eq_some_iff.mp h
    obtain ⟨rest, hrest, heq⟩ := Option.bind_eq_some_iff.mp h
    cases heq
    rw [List.forall_mem_cons]
    refine ⟨?_, newline_not_mem_dumpsFields hrest⟩
    have hkey := newline_not_mem_quoted key
    have hvalue := newline_not_mem_dumps htext
    simp [hkey, hvalue]

end

end OneLine

end LeadLag.Daemon
