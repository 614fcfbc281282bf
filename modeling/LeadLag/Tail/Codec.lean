import Mathlib.Tactic.Ring

/-!
# Decoding with errors="replace"

`open` decodes with the codec of the locale; a byte sequence that is no
character gives U+FFFD. What the reader relies on is `Codec`: a newline byte
ends whatever comes before it, and text without U+FFFD ends at the end of a
character. `utf8` is one.
-/

namespace LeadLag.Tail

def newline : UInt8 := 10

def replacement : Char := '\uFFFD'

structure Codec where
  decode : List UInt8 → List Char
  decode_nil : decode [] = []
  decode_newline (xs ys : List UInt8) :
    decode (xs ++ newline :: ys) = decode xs ++ '\n' :: decode ys
  not_mem_decode (xs : List UInt8) : newline ∉ xs → '\n' ∉ decode xs
  decode_append (xs ys : List UInt8) :
    replacement ∉ decode xs → decode (xs ++ ys) = decode xs ++ decode ys

/-! ## UTF-8 -/

/-- Between characters, or with `needed` bytes still to come, the first of them
between `lower` and `upper`. -/
inductive Utf8 where
  | start
  | pending (needed codePoint lower upper : ℕ)

namespace Utf8

/-- The first byte of a character. -/
def lead (b : ℕ) : List Char × Utf8 :=
  if b < 0x80 then ([Char.ofNat b], .start)
  else if b < 0xc2 then ([replacement], .start)
  else if b < 0xe0 then ([], .pending 1 (b - 0xc0) 0x80 0xbf)
  else if b < 0xf0 then
    ([], .pending 2 (b - 0xe0) (if b = 0xe0 then 0xa0 else 0x80) (if b = 0xed then 0x9f else 0xbf))
  else if b < 0xf5 then
    ([], .pending 3 (b - 0xf0) (if b = 0xf0 then 0x90 else 0x80) (if b = 0xf4 then 0x8f else 0xbf))
  else ([replacement], .start)

def step : Utf8 → ℕ → List Char × Utf8
  | start, b => lead b
  | pending needed codePoint lower upper, b =>
    if lower ≤ b ∧ b ≤ upper then
      let codePoint := codePoint * 64 + (b - 0x80)
      if needed = 1 then ([Char.ofNat codePoint], .start)
      else ([], .pending (needed - 1) codePoint 0x80 0xbf)
    -- what is there so far is replaced, and the byte is looked at again
    else (replacement :: (lead b).1, (lead b).2)

/-- The end of the file cuts a character off. -/
def flush : Utf8 → List Char
  | start => []
  | pending _ _ _ _ => [replacement]

def run (s : Utf8) : List UInt8 → List Char
  | [] => s.flush
  | b :: bs => (s.step b.toNat).1 ++ (s.step b.toNat).2.run bs

/-- The character being read is beyond ASCII. -/
def Valid : Utf8 → Prop
  | start => True
  | pending needed codePoint lower _ =>
    0 < needed ∧ 0x80 ≤ lower ∧ 0x80 ≤ (codePoint * 64 + (lower - 0x80)) * 64 ^ (needed - 1)

theorem ofNat_ne_newline {n : ℕ} (hn : n ≠ 10) : Char.ofNat n ≠ '\n' := by
  intro h
  by_cases hvalid : n.isValidChar
  · rw [Char.ofNat, dif_pos hvalid] at h
    exact hn (congrArg Char.toNat h)
  · rw [Char.ofNat, dif_neg hvalid] at h
    exact absurd h (by decide)

theorem newline_ne_replacement : '\n' ≠ replacement := by decide

theorem lead_valid (b : ℕ) : (lead b).2.Valid := by
  unfold lead
  split_ifs <;> simp [Valid] <;> omega

theorem not_mem_lead {b : ℕ} (hb : b ≠ 10) : '\n' ∉ (lead b).1 := by
  have hchar := (ofNat_ne_newline hb).symm
  unfold lead
  split_ifs <;> simp [hchar, newline_ne_replacement]

theorem step_valid {s : Utf8} (hs : s.Valid) (b : ℕ) : (s.step b).2.Valid := by
  cases s with
  | start => exact lead_valid b
  | pending needed codePoint lower upper =>
    obtain ⟨hpos, hlower, hmin⟩ := hs
    simp only [step]
    split_ifs with hrange hone
    · trivial
    · obtain ⟨n, rfl⟩ : ∃ n, needed = n + 2 := ⟨needed - 2, by omega⟩
      refine ⟨by omega, le_rfl, ?_⟩
      calc 0x80 ≤ (codePoint * 64 + (lower - 0x80)) * 64 ^ (n + 1) := hmin
        _ ≤ (codePoint * 64 + (b - 0x80)) * 64 ^ (n + 1) := by
          refine Nat.mul_le_mul_right _ ?_
          omega
        _ = ((codePoint * 64 + (b - 0x80)) * 64 + (0x80 - 0x80)) * 64 ^ (n + 2 - 1 - 1) := by
          show _ = _ * 64 ^ n
          rw [Nat.sub_self, pow_succ]
          ring
    · exact lead_valid b

theorem not_mem_step {s : Utf8} (hs : s.Valid) {b : ℕ} (hb : b ≠ 10) : '\n' ∉ (s.step b).1 := by
  cases s with
  | start => exact not_mem_lead hb
  | pending needed codePoint lower upper =>
    obtain ⟨hpos, hlower, hmin⟩ := hs
    simp only [step]
    split_ifs with hrange hone
    · rw [hone] at hmin
      have hne : codePoint * 64 + (b - 0x80) ≠ 10 := by omega
      simpa using (ofNat_ne_newline hne).symm
    · simp
    · simpa [newline_ne_replacement] using not_mem_lead hb

theorem step_newline {s : Utf8} (hs : s.Valid) : s.step 10 = (s.flush ++ ['\n'], .start) := by
  cases s with
  | start => rfl
  | pending needed codePoint lower upper =>
    have hlower : ¬ (lower ≤ 10 ∧ 10 ≤ upper) := by
      have := hs.2.1
      omega
    rw [step, if_neg hlower]
    rfl

theorem run_newline {s : Utf8} (hs : s.Valid) (xs ys : List UInt8) :
    s.run (xs ++ newline :: ys) = s.run xs ++ '\n' :: start.run ys := by
  induction xs generalizing s with
  | nil =>
    show (s.step 10).1 ++ (s.step 10).2.run ys = s.flush ++ '\n' :: start.run ys
    rw [step_newline hs]
    simp
  | cons b xs ih =>
    show (s.step b.toNat).1 ++ (s.step b.toNat).2.run (xs ++ newline :: ys) =
      (s.step b.toNat).1 ++ (s.step b.toNat).2.run xs ++ '\n' :: start.run ys
    rw [ih (step_valid hs _), List.append_assoc]

theorem not_mem_run {s : Utf8} (hs : s.Valid) {xs : List UInt8} (hxs : newline ∉ xs) :
    '\n' ∉ s.run xs := by
  induction xs generalizing s with
  | nil =>
    cases s with
    | start => simp [run, flush]
    | pending => simp [run, flush, newline_ne_replacement]
  | cons b xs ih =>
    rw [List.mem_cons, not_or] at hxs
    have hb : b.toNat ≠ 10 := fun h => hxs.1 (UInt8.toNat_inj.mp h).symm
    rw [run, List.mem_append, not_or]
    exact ⟨not_mem_step hs hb, ih (step_valid hs _) hxs.2⟩

theorem run_append {s : Utf8} {xs : List UInt8} (h : replacement ∉ s.run xs) (ys : List UInt8) :
    s.run (xs ++ ys) = s.run xs ++ start.run ys := by
  induction xs generalizing s with
  | nil =>
    cases s with
    | start => rfl
    | pending => exact absurd List.mem_cons_self h
  | cons b xs ih =>
    rw [run, List.mem_append, not_or] at h
    show (s.step b.toNat).1 ++ (s.step b.toNat).2.run (xs ++ ys) =
      (s.step b.toNat).1 ++ (s.step b.toNat).2.run xs ++ start.run ys
    rw [ih h.2, List.append_assoc]

end Utf8

def utf8 : Codec where
  decode := Utf8.start.run
  decode_nil := rfl
  decode_newline := Utf8.run_newline (s := .start) trivial
  not_mem_decode _ := Utf8.not_mem_run (s := .start) trivial
  decode_append _ ys h := Utf8.run_append (s := .start) h ys

/-- A character, one cut off, and one that is cut short by the next byte. -/
example : utf8.decode [0xcf, 0x83] = ['\u03c3'] ∧ utf8.decode [0xe2, 0x82] = [replacement] ∧
    utf8.decode [0xe2, 0x82, 0x41] = [replacement, 'A'] := by decide

end LeadLag.Tail
