import Mathlib.Data.List.Sort
import Mathlib.Order.Compare
import Mathlib.Order.Std
import Std.Data.TreeMap

/-!
# The last observation of each time

Observations written into an ordered map one by one: what the map lists is in
order of time and has for each time the value that was written last.
-/

namespace LeadLag.Timeline
open Std (TreeMap)

variable {T V : Type} [LinearOrder T]

def lastValue (t : T) (xs : List (T × V)) : Option V :=
  xs.reverse.findSome? fun p => if p.1 = t then some p.2 else none

def lastWrites (xs : List (T × V)) : List (T × V) :=
  ((∅ : TreeMap T V).insertMany xs).toList

section LastWrites

variable {xs : List (T × V)} {t : T} {v : V}

theorem lastWrites_ordered (xs : List (T × V)) :
    (lastWrites xs).Pairwise fun p q => p.1 < q.1 := by
  have hordered := TreeMap.ordered_keys_toList (t := (∅ : TreeMap T V).insertMany xs)
  exact hordered.imp fun h => compare_lt_iff_lt.mp h

theorem mem_lastWrites : (t, v) ∈ lastWrites xs ↔ lastValue t xs = some v := by
  unfold lastWrites lastValue
  rw [TreeMap.mem_toList_iff_getElem?_eq_some, TreeMap.getElem?_insertMany_list,
    List.findSomeRev?_eq_findSome?_reverse]
  simp only [compare_eq_iff_eq, TreeMap.getElem?_emptyc, Option.or_none]

theorem lastValue_of_ordered (h : xs.Pairwise fun p q => p.1 < q.1) :
    lastValue t xs = some v ↔ (t, v) ∈ xs := by
  unfold lastValue
  constructor
  · intro hfind
    obtain ⟨p, hp, hpv⟩ := List.exists_of_findSome?_eq_some hfind
    split at hpv
    · rename_i ht
      cases hpv
      rw [← ht]
      exact List.mem_reverse.mp hp
    · cases hpv
  · intro hmem
    obtain ⟨pre, post, rfl⟩ := List.append_of_mem hmem
    have hpost : ∀ p ∈ post, t < p.1 :=
      (List.pairwise_cons.mp (List.pairwise_append.mp h).2.1).1
    have hnone : post.reverse.findSome? (fun p => if p.1 = t then some p.2 else none) = none := by
      rw [List.findSome?_eq_none_iff]
      intro p hp
      rw [if_neg (hpost p (List.mem_reverse.mp hp)).ne']
    rw [List.reverse_append, List.reverse_cons, List.findSome?_append, List.findSome?_append,
      hnone]
    simp

theorem nodup_of_ordered (h : xs.Pairwise fun p q => p.1 < q.1) : xs.Nodup :=
  h.imp fun hlt heq => absurd (congrArg Prod.fst heq) hlt.ne

/-- Observations in order are listed as they are. -/
theorem lastWrites_of_ordered (h : xs.Pairwise fun p q => p.1 < q.1) : lastWrites xs = xs := by
  have hordered := lastWrites_ordered xs
  have hperm : (lastWrites xs).Perm xs := by
    rw [List.perm_ext_iff_of_nodup (nodup_of_ordered hordered) (nodup_of_ordered h)]
    intro p
    rw [mem_lastWrites, lastValue_of_ordered h]
  refine hperm.eq_of_pairwise ?_ hordered h
  intro p q _ _ hpq hqp
  exact absurd (hpq.trans hqp) (lt_irrefl _)

end LastWrites

end LeadLag.Timeline
