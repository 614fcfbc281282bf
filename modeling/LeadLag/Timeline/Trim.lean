import Mathlib.Data.List.TakeWhile
import Mathlib.Order.Lattice

/-!
# Time-stamped observations

A timeline is a list of observations, oldest first as they were received.
`InOrder` says that time never goes back in it, `trim b` drops the observations
in front that are older than `b`, and `TrimmedTo b` that what was dropped from a
timeline so far was older than `b`. `upTo t` is what was observed by time `t`.
-/

namespace LeadLag.Timeline

variable {T V : Type} [LinearOrder T]

def InOrder (l : List (T × V)) : Prop := l.Pairwise fun p q => p.1 ≤ q.1

instance (l : List (T × V)) : Decidable (InOrder l) :=
  inferInstanceAs (Decidable (List.Pairwise _ _))

def trim (b : T) (l : List (T × V)) : List (T × V) := l.dropWhile fun p => decide (p.1 < b)

def TrimmedTo (b : T) (full l : List (T × V)) : Prop :=
  ∃ pre, full = pre ++ l ∧ ∀ p ∈ pre, p.1 < b

def upTo (t : T) (l : List (T × V)) : List (T × V) := l.filter fun p => decide (p.1 ≤ t)

variable {b f t : T} {l full : List (T × V)} {p q : T × V}

/-! ### Order -/

theorem inOrder_concat : InOrder (l ++ [p]) ↔ InOrder l ∧ ∀ q ∈ l, q.1 ≤ p.1 := by
  simp [InOrder, List.pairwise_append]

theorem InOrder.of_suffix (h : InOrder full) (hs : l <:+ full) : InOrder l :=
  h.sublist hs.sublist

theorem InOrder.of_prefix (h : InOrder full) (hp : l <+: full) : InOrder l :=
  h.sublist hp.sublist

theorem InOrder.head_le (h : InOrder l) (hp : l.head? = some p) (hq : q ∈ l) : p.1 ≤ q.1 := by
  cases l with
  | nil => cases hp
  | cons a l =>
    cases hp
    rcases List.mem_cons.mp hq with rfl | hq
    · exact le_rfl
    · exact (List.pairwise_cons.mp h).1 q hq

/-! ### Trimming -/

theorem trim_suffix (b : T) (l : List (T × V)) : trim b l <:+ l := List.dropWhile_suffix _

theorem le_head_trim (h : (trim b l).head? = some p) : b ≤ p.1 := by
  have hnot := List.head?_dropWhile_not (fun p : T × V => decide (p.1 < b)) l
  rw [show l.dropWhile (fun p => decide (p.1 < b)) = trim b l from rfl, h] at hnot
  simpa using hnot

theorem InOrder.le_of_mem_trim (h : InOrder l) (hp : p ∈ trim b l) : b ≤ p.1 := by
  have htrim : InOrder (trim b l) := h.of_suffix (trim_suffix b l)
  cases hhead : (trim b l).head? with
  | none =>
    rw [List.head?_eq_none_iff] at hhead
    rw [hhead] at hp
    cases hp
  | some q => exact (le_head_trim hhead).trans (htrim.head_le hhead hp)

theorem trimmedTo_trim (b : T) (l : List (T × V)) : TrimmedTo b l (trim b l) := by
  refine ⟨l.takeWhile fun p => decide (p.1 < b), ?_, ?_⟩
  · exact List.takeWhile_append_dropWhile.symm
  · intro p hp
    have hlt := List.mem_takeWhile_imp hp
    simpa using hlt

theorem TrimmedTo.refl (b : T) (l : List (T × V)) : TrimmedTo b l l :=
  ⟨[], rfl, fun _ hp => absurd hp List.not_mem_nil⟩

theorem TrimmedTo.suffix (h : TrimmedTo b full l) : l <:+ full := by
  obtain ⟨pre, rfl, -⟩ := h
  exact List.suffix_append pre l

theorem TrimmedTo.concat (h : TrimmedTo b full l) (p : T × V) :
    TrimmedTo b (full ++ [p]) (l ++ [p]) := by
  obtain ⟨pre, rfl, hpre⟩ := h
  exact ⟨pre, List.append_assoc .., hpre⟩

theorem TrimmedTo.trim (h : TrimmedTo b full l) (hf : f ≤ b) :
    TrimmedTo b full (Timeline.trim f l) := by
  obtain ⟨pre, rfl, hpre⟩ := h
  obtain ⟨pre', hl, hpre'⟩ := trimmedTo_trim f l
  refine ⟨pre ++ pre', ?_, ?_⟩
  · rw [List.append_assoc, ← hl]
  · intro p hp
    rcases List.mem_append.mp hp with hp | hp
    · exact hpre p hp
    · exact (hpre' p hp).trans_le hf

theorem TrimmedTo.mem (h : TrimmedTo b full l) (hp : p ∈ full) (hb : b ≤ p.1) : p ∈ l := by
  obtain ⟨pre, rfl, hpre⟩ := h
  rcases List.mem_append.mp hp with hp | hp
  · exact absurd (hpre p hp) (not_lt.mpr hb)
  · exact hp

theorem upTo_append_of_lt {late : List (T × V)} (h : ∀ p ∈ late, t < p.1) :
    upTo t (l ++ late) = upTo t l := by
  have hnone : upTo t late = [] := by
    rw [upTo, List.filter_eq_nil_iff]
    intro p hp
    simpa using h p hp
  rw [upTo, List.filter_append]
  exact (congrArg _ hnone).trans (List.append_nil _)

end LeadLag.Timeline
