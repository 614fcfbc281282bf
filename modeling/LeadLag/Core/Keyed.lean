import Mathlib.Data.List.Basic
import Mathlib.Data.List.Induction

/-!
# First entries by key

A consumer that remembers the keys it has met takes an entry only when its key is
new. What it has taken from a list is `firsts key`: reading a list again, or
reading on past a part that was read before, takes nothing twice.
-/

namespace LeadLag.Core

variable {A K : Type} [DecidableEq K] {key : A → K} {xs ys taken : List A} {x : A}

def insertNew (key : A → K) (taken : List A) (x : A) : List A :=
  if key x ∈ taken.map key then taken else taken ++ [x]

/-- The entries whose key no earlier entry has, in order. -/
def firsts (key : A → K) (xs : List A) : List A := xs.foldl (insertNew key) []

theorem insertNew_of_mem (h : key x ∈ taken.map key) : insertNew key taken x = taken := if_pos h

theorem insertNew_of_not_mem (h : key x ∉ taken.map key) :
    insertNew key taken x = taken ++ [x] := if_neg h

@[simp] theorem firsts_nil : firsts key [] = [] := rfl

theorem firsts_append : firsts key (xs ++ ys) = ys.foldl (insertNew key) (firsts key xs) := by
  unfold firsts
  exact List.foldl_append

theorem firsts_concat : firsts key (xs ++ [x]) = insertNew key (firsts key xs) x := by
  rw [firsts_append, List.foldl_cons, List.foldl_nil]

/-- Both have met the same keys. -/
theorem mem_map_firsts {k : K} : k ∈ (firsts key xs).map key ↔ k ∈ xs.map key := by
  induction xs using List.reverseRecOn with
  | nil => exact Iff.rfl
  | append_singleton xs x ih =>
    rw [firsts_concat, List.map_append, List.mem_append, ← ih]
    by_cases h : key x ∈ (firsts key xs).map key
    · rw [insertNew_of_mem h]
      constructor
      · exact Or.inl
      · intro hk
        rcases hk with hk | hk
        · exact hk
        · obtain rfl := List.mem_singleton.mp hk
          exact h
    · rw [insertNew_of_not_mem h, List.map_append, List.mem_append]

theorem firsts_concat_of_mem (h : key x ∈ xs.map key) :
    firsts key (xs ++ [x]) = firsts key xs := by
  rw [firsts_concat, insertNew_of_mem (mem_map_firsts.mpr h)]

theorem firsts_concat_of_not_mem (h : key x ∉ xs.map key) :
    firsts key (xs ++ [x]) = firsts key xs ++ [x] := by
  rw [firsts_concat, insertNew_of_not_mem fun hmem => h (mem_map_firsts.mp hmem)]

end LeadLag.Core
