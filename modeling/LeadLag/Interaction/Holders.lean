import Mathlib.Algebra.BigOperators.Group.Finset.Basic
import Mathlib.Algebra.Order.BigOperators.Group.Finset
import Mathlib.Algebra.Order.Group.Multiset
import Mathlib.Tactic.Abel

/-!
# What a finite family of threads holds together

Each thread holds what its phase says. When one thread changes its phase, the
whole changes by what that thread took or gave up.
-/

namespace LeadLag.Interaction

variable {ι α β : Type} [Fintype ι] {f : α → Multiset β} {c c' : ι → α} {i : ι} {v : α}

def held (f : α → Multiset β) (c : ι → α) : Multiset β := ∑ i, f (c i)

theorem held_eq_zero : held f c = 0 ↔ ∀ i, f (c i) = 0 := by
  simp [held, Finset.sum_eq_zero_iff]

theorem held_congr (h : ∀ i, f (c' i) = f (c i)) : held f c' = held f c :=
  Finset.sum_congr rfl fun i _ => h i

variable [DecidableEq ι]

theorem held_update_add : held f (Function.update c i v) + f (c i) = held f c + f v := by
  have hrest : ∑ j ∈ Finset.univ.erase i, f (Function.update c i v j) =
      ∑ j ∈ Finset.univ.erase i, f (c j) := by
    refine Finset.sum_congr rfl fun j hj => ?_
    rw [Function.update_of_ne (Finset.ne_of_mem_erase hj)]
  unfold held
  rw [← Finset.add_sum_erase _ _ (Finset.mem_univ i), hrest,
    ← Finset.add_sum_erase _ (fun j => f (c j)) (Finset.mem_univ i), Function.update_self]
  abel

theorem held_update_same (h : f v = f (c i)) : held f (Function.update c i v) = held f c := by
  have hadd := held_update_add (f := f) (c := c) (i := i) (v := v)
  rw [h] at hadd
  exact add_right_cancel hadd

theorem held_update_take (h : f (c i) = 0) : held f (Function.update c i v) = held f c + f v := by
  have hadd := held_update_add (f := f) (c := c) (i := i) (v := v)
  rwa [h, add_zero] at hadd

theorem held_update_give (h : f v = 0) : held f (Function.update c i v) + f (c i) = held f c := by
  have hadd := held_update_add (f := f) (c := c) (i := i) (v := v)
  rwa [h, add_zero] at hadd

end LeadLag.Interaction
