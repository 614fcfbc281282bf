import Mathlib.Algebra.Order.Field.Rat
import Mathlib.Algebra.Field.Rat

/-!
# A ledger of round trips

A cash account that opens one position at a time. Every entry says what it
opened or closed and the cash before and after it. `WellFormed` is the log of
such an account: opens and closes alternate, a close is of the position opened
before it, and the cash is carried from entry to entry. Entries are listed
newest first.
-/

namespace LeadLag.Ledger

/-- `amount` is paid by an opening entry and received by a closing one. -/
structure Entry (P : Type) where
  opens : Bool
  pos : P
  amount : ℚ
  fee : ℚ
  cashBefore : ℚ
  cashAfter : ℚ

variable {P : Type}

def cash (initial : ℚ) : List (Entry P) → ℚ
  | [] => initial
  | e :: _ => e.cashAfter

def openPos : List (Entry P) → Option P
  | [] => none
  | e :: _ => if e.opens then some e.pos else none

def WellFormed (initial : ℚ) : List (Entry P) → Prop
  | [] => True
  | e :: rest =>
    WellFormed initial rest ∧ e.cashBefore = cash initial rest ∧
      if e.opens then openPos rest = none ∧ e.cashAfter = e.cashBefore - e.amount - e.fee
      else openPos rest = some e.pos ∧ e.cashAfter = e.cashBefore + e.amount - e.fee

theorem WellFormed.opened {initial : ℚ} {es : List (Entry P)} {e : Entry P}
    (h : WellFormed initial es) (he : e.opens = true) (hp : openPos es = none)
    (hb : e.cashBefore = cash initial es) (ha : e.cashAfter = e.cashBefore - e.amount - e.fee) :
    WellFormed initial (e :: es) := by
  simp only [WellFormed, he, if_true]
  exact ⟨h, hb, hp, ha⟩

theorem WellFormed.closed {initial : ℚ} {es : List (Entry P)} {e : Entry P}
    (h : WellFormed initial es) (he : e.opens = false) (hp : openPos es = some e.pos)
    (hb : e.cashBefore = cash initial es) (ha : e.cashAfter = e.cashBefore + e.amount - e.fee) :
    WellFormed initial (e :: es) := by
  simp only [WellFormed, he, Bool.false_eq_true, if_false]
  exact ⟨h, hb, hp, ha⟩

theorem openPos_isSome {es : List (Entry P)} :
    (openPos es).isSome = true ↔ ∃ e rest, es = e :: rest ∧ e.opens = true := by
  cases es with
  | nil => simp [openPos]
  | cons e rest => cases he : e.opens <;> simp [openPos, he]

/-! ### The entries in order -/

/-- Opens and closes alternate, and a close is of the position just opened. -/
def Entry.Precedes (e e' : Entry P) : Prop :=
  e.opens = true ∧ e'.opens = false ∧ e'.pos = e.pos ∨ e.opens = false ∧ e'.opens = true

theorem openPos_eq_some {es : List (Entry P)} {p : P} :
    openPos es = some p ↔ ∃ e rest, es = e :: rest ∧ e.opens = true ∧ e.pos = p := by
  cases es with
  | nil => simp [openPos]
  | cons e rest => cases he : e.opens <;> simp [openPos, he]

theorem WellFormed.isChain {initial : ℚ} {es : List (Entry P)} (h : WellFormed initial es) :
    es.IsChain fun e' e => e.Precedes e' := by
  induction es with
  | nil => exact .nil
  | cons e rest ih =>
    obtain ⟨hrest, -, hcase⟩ := h
    cases rest with
    | nil => exact .singleton e
    | cons e₀ rest =>
      refine .cons_cons ?_ (ih hrest)
      cases he : e.opens with
      | true =>
        rw [if_pos he] at hcase
        have hclosed : e₀.opens = false := by
          have hempty := hcase.1
          cases hopen : e₀.opens with
          | true => simp [openPos, hopen] at hempty
          | false => rfl
        exact .inr ⟨hclosed, he⟩
      | false =>
        rw [if_neg (by simp [he])] at hcase
        obtain ⟨e₁, rest₁, heq, hopen, hpos⟩ := openPos_eq_some.mp hcase.1
        obtain ⟨rfl, -⟩ := List.cons.inj heq
        exact .inl ⟨hopen, he, hpos.symm⟩

theorem WellFormed.getLast_opens {initial : ℚ} {es : List (Entry P)} {e : Entry P}
    (h : WellFormed initial es) (he : es.getLast? = some e) : e.opens = true := by
  induction es with
  | nil => cases he
  | cons e₀ rest ih =>
    obtain ⟨hrest, -, hcase⟩ := h
    cases rest with
    | nil =>
      obtain rfl : e₀ = e := Option.some.inj he
      by_contra hclose
      rw [if_neg hclose] at hcase
      cases hcase.1
    | cons e₁ rest => exact ih hrest (by rw [← he, List.getLast?_cons_cons])

end LeadLag.Ledger
