import Mathlib.Data.List.Perm.Basic
import Mathlib.Order.Lattice

/-!
# The first of the smallest keys

A scan that keeps one candidate and replaces it by an element of smaller key
ends with the first, in the order of the list, of the elements whose key is
smallest. Elements that do not satisfy `p` are passed over.
-/

namespace LeadLag.Core

variable {α κ : Type*}

/-- `a` has the smallest key of the elements of `l` with `p` and is the first with that key. -/
structure FirstLeast [LinearOrder κ] (p : α → Prop) (key : α → κ) (l : List α) (a : α) : Prop where
  mem : a ∈ l
  holds : p a
  le : ∀ b ∈ l, p b → key a ≤ key b
  first : ∃ pre post, l = pre ++ a :: post ∧ ∀ b ∈ pre, p b → key a < key b

/-- The first of the largest keys. -/
def FirstGreatest [LinearOrder κ] (p : α → Prop) (key : α → κ) (l : List α) (a : α) : Prop :=
  FirstLeast p (fun b => OrderDual.toDual (key b)) l a

section Scan

variable [LinearOrder κ] (p : α → Prop) (key : α → κ)

/-- What a candidate stands for when the elements of `l` have been scanned. -/
def Scanned (l : List α) : Option α → Prop
  | none => ∀ a ∈ l, ¬ p a
  | some a => FirstLeast p key l a

def Replaces (o : Option α) (b : α) : Prop := p b ∧ ∀ a, o = some a → key b < key a

variable {p key}

theorem scanned_nil : Scanned p key [] none := fun _ h => absurd h List.not_mem_nil

theorem Scanned.keep {l : List α} {o : Option α} {b : α} (h : Scanned p key l o)
    (hb : ¬ Replaces p key o b) : Scanned p key (l ++ [b]) o := by
  cases o with
  | none =>
    intro a ha hp
    rcases List.mem_append.mp ha with ha | ha
    · exact h a ha hp
    · obtain rfl := List.mem_singleton.mp ha
      exact hb ⟨hp, fun a' ha' => by cases ha'⟩
  | some a =>
    obtain ⟨hmem, hp, hle, pre, post, rfl, hpre⟩ := h
    have hba : p b → key a ≤ key b := by
      intro hpb
      by_contra hlt
      apply hb
      constructor
      · exact hpb
      · intro a' ha'
        cases ha'
        exact not_le.mp hlt
    constructor
    · exact List.mem_append_left _ hmem
    · exact hp
    · intro c hc hpc
      rcases List.mem_append.mp hc with hc | hc
      · exact hle c hc hpc
      · obtain rfl := List.mem_singleton.mp hc
        exact hba hpc
    · exact ⟨pre, post ++ [b], by simp, hpre⟩

theorem Scanned.replace {l : List α} {o : Option α} {b : α} (h : Scanned p key l o)
    (hb : Replaces p key o b) : Scanned p key (l ++ [b]) (some b) := by
  have hlt : ∀ c ∈ l, p c → key b < key c := by
    intro c hc hpc
    cases o with
    | none => exact absurd hpc (h c hc)
    | some a => exact lt_of_lt_of_le (hb.2 a rfl) (h.le c hc hpc)
  constructor
  · exact List.mem_append_right _ List.mem_cons_self
  · exact hb.1
  · intro c hc hpc
    rcases List.mem_append.mp hc with hc | hc
    · exact (hlt c hc hpc).le
    · exact le_of_eq (congrArg key (List.mem_singleton.mp hc).symm)
  · exact ⟨l, [], rfl, hlt⟩

/-- A step that replaces the candidate exactly by the elements it should keeps `Scanned`
over a whole scan. -/
theorem scanned_foldl {σ : Type*} (step : σ → α → σ) (get : σ → Option α)
    (hstep : ∀ s b, Replaces p key (get s) b ∧ get (step s b) = some b ∨
      ¬ Replaces p key (get s) b ∧ get (step s b) = get s)
    (s : σ) (done l : List α) (h : Scanned p key done (get s)) :
    Scanned p key (done ++ l) (get (l.foldl step s)) := by
  induction l generalizing s done with
  | nil => simpa using h
  | cons b l ih =>
    have hone : Scanned p key (done ++ [b]) (get (step s b)) := by
      rcases hstep s b with ⟨hb, hget⟩ | ⟨hb, hget⟩
      · rw [hget]
        exact h.replace hb
      · rw [hget]
        exact h.keep hb
    have hrest := ih (step s b) (done ++ [b]) hone
    simpa using hrest

theorem Scanned.of_head {l : List α} {a : α} (ha : p a) (hle : ∀ b ∈ l, p b → key a ≤ key b) :
    Scanned p key (a :: l) (some a) := by
  constructor
  · exact List.mem_cons_self
  · exact ha
  · intro b hb hpb
    rcases List.mem_cons.mp hb with hb | hb
    · exact le_of_eq (congrArg key hb.symm)
    · exact hle b hb hpb
  · exact ⟨[], l, rfl, fun _ hb => absurd hb List.not_mem_nil⟩

theorem Scanned.append_left {l : List α} {o : Option α} (h : Scanned p key l o) {front : List α}
    (hfront : ∀ a ∈ front, ¬ p a) : Scanned p key (front ++ l) o := by
  cases o with
  | none =>
    intro a ha
    rcases List.mem_append.mp ha with ha | ha
    · exact hfront a ha
    · exact h a ha
  | some a =>
    obtain ⟨hmem, hp, hle, pre, post, rfl, hpre⟩ := h
    constructor
    · exact List.mem_append_right _ hmem
    · exact hp
    · intro b hb hpb
      rcases List.mem_append.mp hb with hb | hb
      · exact absurd hpb (hfront b hb)
      · exact hle b hb hpb
    · refine ⟨front ++ pre, post, by simp, ?_⟩
      intro b hb hpb
      rcases List.mem_append.mp hb with hb | hb
      · exact absurd hpb (hfront b hb)
      · exact hpre b hb hpb

theorem Scanned.eq_none {l : List α} {o : Option α} (h : Scanned p key l o)
    (hl : ∀ a ∈ l, ¬ p a) : o = none := by
  cases o with
  | none => rfl
  | some a => exact absurd h.holds (hl a h.mem)

theorem Scanned.exists_le {l : List α} {o : Option α} {b : α} (h : Scanned p key l o)
    (hb : b ∈ l) (hp : p b) : ∃ a, o = some a ∧ key a ≤ key b := by
  cases o with
  | none => exact absurd hp (h b hb)
  | some a => exact ⟨a, rfl, h.le b hb hp⟩

theorem FirstLeast.unique {l : List α} {a b : α} (ha : FirstLeast p key l a)
    (hb : FirstLeast p key l b) : a = b := by
  have hab : key a ≤ key b := ha.le b hb.mem hb.holds
  have hba : key b ≤ key a := hb.le a ha.mem ha.holds
  obtain ⟨pre, post, hl, hpre⟩ := ha.first
  obtain ⟨pre', post', hl', hpre'⟩ := hb.first
  have hsplit : pre ++ a :: post = pre' ++ b :: post' := by rw [← hl, hl']
  rcases List.append_eq_append_iff.mp hsplit with ⟨mid, hmid, hrest⟩ | ⟨mid, hmid, hrest⟩
  · cases mid with
    | nil => exact (List.cons.inj hrest).1
    | cons c mid =>
      -- the first one would stand before the other
      have hca : a = c := (List.cons.inj hrest).1
      have hmem : a ∈ pre' := by
        rw [hmid, hca]
        simp
      exact absurd (hpre' a hmem ha.holds) (not_lt.mpr hab)
  · cases mid with
    | nil => exact (List.cons.inj hrest).1.symm
    | cons c mid =>
      have hcb : b = c := (List.cons.inj hrest).1
      have hmem : b ∈ pre := by
        rw [hmid, hcb]
        simp
      exact absurd (hpre b hmem hb.holds) (not_lt.mpr hba)

theorem Scanned.key_perm {l l' : List α} {o o' : Option α} (h : Scanned p key l o)
    (h' : Scanned p key l' o') (hl : l.Perm l') : o.map key = o'.map key := by
  cases o with
  | none =>
    have hnone : o' = none := h'.eq_none fun a ha => h a (hl.mem_iff.mpr ha)
    rw [hnone]
  | some a =>
    cases o' with
    | none => exact absurd h.holds (h' a (hl.mem_iff.mp h.mem))
    | some b =>
      have hab : key a ≤ key b := h.le b (hl.mem_iff.mpr h'.mem) h'.holds
      have hba : key b ≤ key a := h'.le a (hl.mem_iff.mp h.mem) h.holds
      exact congrArg some (le_antisymm hab hba)

/-! ### Every element a candidate -/

/-- A scan that holds on to the element that is better than the one before. -/
theorem scanned_foldl_better (better : α → α → Bool)
    (hbetter : ∀ b a, better b a = true ↔ key b < key a) (l : List α) :
    Scanned (fun _ => True) key l
      (l.foldl (fun best b => if best.all (better b) then some b else best) none) := by
  have hstep : ∀ (o : Option α) (b : α),
      Replaces (fun _ => True) key o b ∧
          (if o.all (better b) then some b else o) = some b ∨
        ¬ Replaces (fun _ => True) key o b ∧ (if o.all (better b) then some b else o) = o := by
    intro o b
    have hall : o.all (better b) = true ↔ ∀ a, o = some a → key b < key a := by
      cases o with
      | none => simp
      | some a => simp [hbetter]
    by_cases hb : o.all (better b) = true
    · left
      exact ⟨⟨trivial, hall.mp hb⟩, if_pos hb⟩
    · right
      exact ⟨fun h => hb (hall.mpr h.2), if_neg hb⟩
  have hscan := scanned_foldl _ id hstep none [] l scanned_nil
  exact hscan

theorem Scanned.eq_some_iff {l : List α} {o : Option α} {a : α} (hkey : Function.Injective key)
    (h : Scanned (fun _ => True) key l o) :
    o = some a ↔ a ∈ l ∧ ∀ b ∈ l, key a ≤ key b := by
  constructor
  · intro ho
    rw [ho] at h
    exact ⟨h.mem, fun b hb => h.le b hb trivial⟩
  · intro ha
    obtain ⟨ha, hle⟩ := ha
    cases o with
    | none => exact absurd trivial (h a ha)
    | some c =>
      have hca : key c ≤ key a := h.le a ha trivial
      have hac : key a ≤ key c := hle c h.mem
      exact congrArg some (hkey (le_antisymm hca hac))

theorem Scanned.isSome_iff {l : List α} {o : Option α} (h : Scanned (fun _ => True) key l o) :
    o.isSome = true ↔ l ≠ [] := by
  cases o with
  | none =>
    have hnil : l = [] := List.eq_nil_iff_forall_not_mem.mpr fun a ha => h a ha trivial
    simp [hnil]
  | some a =>
    have hne : l ≠ [] := List.ne_nil_of_mem h.mem
    simp [hne]

end Scan

end LeadLag.Core
