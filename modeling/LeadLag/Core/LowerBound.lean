import Mathlib.Data.List.TakeDrop
import Mathlib.Data.List.Basic

/-!
# Binary search for a partition point

`lowerBound before l` halves the range that is left, as `std::lower_bound` does,
and looks at one element a round. On a list whose elements with `before` all
come first it finds where they end.
-/

namespace LeadLag.Core

variable {α : Type*} (before : α → Bool) (l : List α)

/-- The search in the `len` elements from `first` on; `n` bounds the rounds. -/
def lowerBoundLoop : ℕ → ℕ → ℕ → ℕ
  | 0, first, _ => first
  | n + 1, first, len =>
    if len = 0 then first
    else
      let half := len / 2
      if l[first + half]?.any before then lowerBoundLoop n (first + half + 1) (len - half - 1)
      else lowerBoundLoop n first half

def lowerBound : ℕ := lowerBoundLoop before l l.length 0 l.length

/-- Elements with `before` all come first. -/
def Partitioned : Prop := l.Pairwise fun a b => before b = true → before a = true

variable {before l}

theorem Partitioned.of_le {i j : ℕ} (h : Partitioned before l) (hij : i ≤ j)
    {a b : α} (ha : l[i]? = some a) (hb : l[j]? = some b) (hbefore : before b = true) :
    before a = true := by
  obtain ⟨hi, rfl⟩ := List.getElem?_eq_some_iff.mp ha
  obtain ⟨hj, rfl⟩ := List.getElem?_eq_some_iff.mp hb
  rcases Nat.eq_or_lt_of_le hij with heq | hlt
  · subst heq
    exact hbefore
  · exact List.pairwise_iff_getElem.mp h i j hi hj hlt hbefore

/-- What has been ruled out: the elements before `first` are before the point,
those from `first + len` on are not. -/
structure Searched (before : α → Bool) (l : List α) (first len : ℕ) : Prop where
  inside : first + len ≤ l.length
  below : ∀ i < first, ∀ a, l[i]? = some a → before a = true
  above : ∀ i, first + len ≤ i → ∀ a, l[i]? = some a → before a = false

theorem searched_all : Searched before l 0 l.length where
  inside := by omega
  below i hi := by omega
  above i hi a ha := by
    obtain ⟨hlt, -⟩ := List.getElem?_eq_some_iff.mp ha
    omega

/-- One round keeps what is left correct, whichever half it drops. -/
theorem Searched.round {first len : ℕ} (h : Searched before l first len) (hl : Partitioned before l)
    (hlen : len ≠ 0) :
    if l[first + len / 2]?.any before then
      Searched before l (first + len / 2 + 1) (len - len / 2 - 1)
    else Searched before l first (len / 2) := by
  have hinside := h.inside
  have hmid : first + len / 2 < l.length := by omega
  have hget : l[first + len / 2]? = some l[first + len / 2] := List.getElem?_eq_getElem hmid
  rw [hget, Option.any_some]
  split
  · rename_i hbefore
    constructor
    · omega
    · intro i hi a ha
      exact hl.of_le (by omega) ha hget hbefore
    · intro i hi a ha
      exact h.above i (by omega) a ha
  · rename_i hbefore
    constructor
    · omega
    · exact h.below
    · intro i hi a ha
      by_contra hne
      exact hbefore (hl.of_le hi hget ha (by simpa using hne))

theorem lowerBoundLoop_spec (hl : Partitioned before l) (n : ℕ) {first len : ℕ}
    (h : Searched before l first len) (hn : len ≤ n) :
    Searched before l (lowerBoundLoop before l n first len) 0 := by
  induction n generalizing first len with
  | zero =>
    obtain rfl : len = 0 := by omega
    exact h
  | succ n ih =>
    unfold lowerBoundLoop
    by_cases hlen : len = 0
    · subst hlen
      rw [if_pos rfl]
      exact h
    · have hround := h.round hl hlen
      rw [if_neg hlen]
      dsimp only
      split
      · rename_i hbefore
        rw [if_pos hbefore] at hround
        exact ih hround (by omega)
      · rename_i hbefore
        rw [if_neg hbefore] at hround
        exact ih hround (by omega)

theorem lowerBound_spec (hl : Partitioned before l) :
    Searched before l (lowerBound before l) 0 :=
  lowerBoundLoop_spec hl l.length searched_all (Nat.le_refl _)

theorem mem_take_lowerBound (hl : Partitioned before l) {a : α}
    (ha : a ∈ l.take (lowerBound before l)) : before a = true := by
  obtain ⟨i, hi⟩ := List.mem_iff_getElem?.mp ha
  rw [List.getElem?_take] at hi
  split at hi
  · rename_i hlt
    exact (lowerBound_spec hl).below i hlt a hi
  · cases hi

theorem mem_drop_lowerBound (hl : Partitioned before l) {a : α}
    (ha : a ∈ l.drop (lowerBound before l)) : before a = false := by
  obtain ⟨i, hi⟩ := List.mem_iff_getElem?.mp ha
  rw [List.getElem?_drop] at hi
  exact (lowerBound_spec hl).above _ (by omega) a hi

end LeadLag.Core
