import Mathlib.Data.List.Basic

/-!
# Positions in a filtered list

`xs.filterMap f` forgets where its entries stood. `keptBefore f xs p` is how
many of the first `p` entries pass `f`: an entry that passes at `p` is the
`keptBefore f xs p`-th of the filtered list. Two lists filtered on their own and
read at one position of the filtered lists agree on the positions of the lists
themselves when the filters dropped equally many entries before.
-/

namespace LeadLag.Core

variable {A B C D : Type} {f : A → Option B} {g : C → Option D} {xs : List A} {ys : List C}

def passed (f : A → Option B) (xs : List A) (p : ℕ) : Option B := xs[p]?.bind f

def keptBefore (f : A → Option B) (xs : List A) (p : ℕ) : ℕ := ((xs.take p).filterMap f).length

@[simp] theorem passed_nil (p : ℕ) : passed f [] p = none := rfl

@[simp] theorem passed_cons_zero (x : A) : passed f (x :: xs) 0 = f x := rfl

@[simp] theorem keptBefore_zero : keptBefore f xs 0 = 0 := rfl

theorem keptBefore_cons_none {x : A} (hx : f x = none) (p : ℕ) :
    keptBefore f (x :: xs) (p + 1) = keptBefore f xs p := by
  simp only [keptBefore, List.take_succ_cons, List.filterMap_cons, hx]

theorem keptBefore_cons_some {x : A} {b : B} (hx : f x = some b) (p : ℕ) :
    keptBefore f (x :: xs) (p + 1) = keptBefore f xs p + 1 := by
  simp only [keptBefore, List.take_succ_cons, List.filterMap_cons, hx, List.length_cons]

theorem keptBefore_le {p q : ℕ} (h : p ≤ q) : keptBefore f xs p ≤ keptBefore f xs q := by
  have hsub : (xs.take p).Sublist (xs.take q) := (List.take_prefix_take_left h).sublist
  exact (hsub.filterMap f).length_le

theorem keptBefore_succ {p : ℕ} {b : B} (h : passed f xs p = some b) :
    keptBefore f xs (p + 1) = keptBefore f xs p + 1 := by
  obtain ⟨a, ha, hb⟩ := Option.bind_eq_some_iff.mp h
  simp only [keptBefore, List.take_add_one, ha, Option.toList_some, List.filterMap_append,
    List.length_append]
  simp [hb]

theorem keptBefore_injective {p q : ℕ} {b b' : B} (hp : passed f xs p = some b)
    (hq : passed f xs q = some b') (h : keptBefore f xs p = keptBefore f xs q) : p = q := by
  by_contra hne
  rcases Nat.lt_or_gt_of_ne hne with hlt | hgt
  · have hstep := keptBefore_succ hp
    have hle : keptBefore f xs (p + 1) ≤ keptBefore f xs q := keptBefore_le hlt
    omega
  · have hstep := keptBefore_succ hq
    have hle : keptBefore f xs (q + 1) ≤ keptBefore f xs p := keptBefore_le hgt
    omega

theorem getElem?_filterMap_iff {k : ℕ} {b : B} :
    (xs.filterMap f)[k]? = some b ↔ ∃ p, passed f xs p = some b ∧ keptBefore f xs p = k := by
  induction xs generalizing k with
  | nil => simp
  | cons x xs ih =>
    cases hx : f x with
    | none =>
      rw [List.filterMap_cons_none hx, ih]
      constructor
      · rintro ⟨p, hp, hk⟩
        exact ⟨p + 1, hp, (keptBefore_cons_none hx p).trans hk⟩
      · rintro ⟨p, hp, hk⟩
        cases p with
        | zero =>
          rw [passed_cons_zero, hx] at hp
          cases hp
        | succ p => exact ⟨p, hp, (keptBefore_cons_none hx p).symm.trans hk⟩
    | some b' =>
      rw [List.filterMap_cons_some hx]
      cases k with
      | zero =>
        rw [List.getElem?_cons_zero]
        constructor
        · intro h
          exact ⟨0, hx.trans h, rfl⟩
        · rintro ⟨p, hp, hk⟩
          cases p with
          | zero => exact hx.symm.trans hp
          | succ p =>
            have hpos : keptBefore f (x :: xs) (p + 1) = keptBefore f xs p + 1 :=
              keptBefore_cons_some hx p
            omega
      | succ k =>
        rw [List.getElem?_cons_succ, ih]
        constructor
        · rintro ⟨p, hp, hk⟩
          refine ⟨p + 1, hp, ?_⟩
          rw [keptBefore_cons_some hx, hk]
        · rintro ⟨p, hp, hk⟩
          cases p with
          | zero => cases hk
          | succ p =>
            rw [keptBefore_cons_some hx] at hk
            exact ⟨p, hp, Nat.succ.inj hk⟩

theorem findIdx?_filterMap (want : B → Bool) :
    (xs.filterMap f).findIdx? want =
      (xs.findIdx? fun a => (f a).any want).map (keptBefore f xs) := by
  induction xs with
  | nil => rfl
  | cons x xs ih =>
    rw [List.findIdx?_cons]
    cases hx : f x with
    | none =>
      rw [List.filterMap_cons_none hx, ih]
      simp [Function.comp_def, keptBefore_cons_none hx]
    | some b =>
      rw [List.filterMap_cons_some hx, List.findIdx?_cons, ih]
      cases hb : want b with
      | true => simp [hb]
      | false => simp [hb, Function.comp_def, keptBefore_cons_some hx]

/-! ### Reading one list at a position of the other -/

section SamePlace

variable (f g) (want : B → Bool)

/-- `d` passes at the place of a wanted entry. -/
def SamePlace (xs : List A) (ys : List C) (d : D) : Prop :=
  ∃ p b, passed f xs p = some b ∧ want b = true ∧ passed g ys p = some d

/-- An entry passes at `p` and the filters dropped equally many entries before. -/
def Unshifted (xs : List A) (ys : List C) (p : ℕ) : Prop :=
  (passed g ys p).isSome = true ∧ keptBefore f xs p = keptBefore g ys p

/-- The entry that `p` is shifted to stands at the place of a wanted entry too. -/
def Repeated (xs : List A) (ys : List C) (p : ℕ) : Prop :=
  ∃ q d, passed g ys q = some d ∧ keptBefore f xs p = keptBefore g ys q ∧ SamePlace f g want xs ys d

def Fits (xs : List A) (ys : List C) : Prop :=
  ∃ p, (xs.findIdx? fun a => (f a).any want) = some p ∧
    (Unshifted f g xs ys p ∨ Repeated f g want xs ys p)

variable {f g want}

theorem passed_of_findIdx? {p : ℕ} (h : (xs.findIdx? fun a => (f a).any want) = some p) :
    ∃ b, passed f xs p = some b ∧ want b = true := by
  obtain ⟨hlt, hany, -⟩ := List.findIdx?_eq_some_iff_getElem.mp h
  obtain ⟨b, hb, hwant⟩ := Option.any_eq_true _ _ |>.mp hany
  refine ⟨b, ?_, hwant⟩
  rw [passed, List.getElem?_eq_getElem hlt]
  exact hb

/-- `d` is what the filtered list holds at the position of the first wanted entry. -/
theorem samePlace_iff_fits {d : D}
    (hd : ∀ i, (xs.filterMap f).findIdx? want = some i → (ys.filterMap g)[i]? = some d) :
    SamePlace f g want xs ys d ↔ Fits f g want xs ys := by
  rw [findIdx?_filterMap] at hd
  constructor
  · intro h
    have hfirst : ∃ p, (xs.findIdx? fun a => (f a).any want) = some p := by
      obtain ⟨p, b, hb, hwant, -⟩ := h
      obtain ⟨a, ha, hfa⟩ := Option.bind_eq_some_iff.mp hb
      refine Option.ne_none_iff_exists'.mp fun hnone => ?_
      have hno := List.findIdx?_eq_none_iff.mp hnone a (List.mem_of_getElem? ha)
      rw [hfa] at hno
      exact Bool.false_ne_true (hno.symm.trans hwant)
    obtain ⟨p, hp⟩ := hfirst
    obtain ⟨q, hq, hk⟩ := getElem?_filterMap_iff.mp (hd (keptBefore f xs p) (by rw [hp]; rfl))
    exact ⟨p, hp, .inr ⟨q, d, hq, hk.symm, h⟩⟩
  · rintro ⟨p, hp, hplace⟩
    obtain ⟨q, hq, hk⟩ := getElem?_filterMap_iff.mp (hd (keptBefore f xs p) (by rw [hp]; rfl))
    rcases hplace with ⟨hsome, hgap⟩ | ⟨q', d', hq', hk', hsame⟩
    · obtain ⟨d', hd'⟩ := Option.isSome_iff_exists.mp hsome
      have hpq : p = q := keptBefore_injective hd' hq (hgap.symm.trans hk.symm)
      obtain ⟨b, hb, hwant⟩ := passed_of_findIdx? hp
      refine ⟨p, b, hb, hwant, ?_⟩
      rw [hpq]
      exact hq
    · have hqq : q = q' := keptBefore_injective hq hq' (hk.trans hk')
      have hdd : d = d' := by
        rw [hqq, hq'] at hq
        exact (Option.some.inj hq).symm
      rw [hdd]
      exact hsame

theorem keptBefore_of_all (hall : ∀ x ∈ xs, (f x).isSome = true) {p : ℕ} (hp : p ≤ xs.length) :
    keptBefore f xs p = p := by
  induction xs generalizing p with
  | nil =>
    have hzero : p = 0 := Nat.le_zero.mp hp
    rw [hzero]
    rfl
  | cons x xs ih =>
    rw [List.forall_mem_cons] at hall
    obtain ⟨b, hb⟩ := Option.isSome_iff_exists.mp hall.1
    cases p with
    | zero => rfl
    | succ p =>
      rw [keptBefore_cons_some hb, ih hall.2 (Nat.le_of_succ_le_succ hp)]

/-- Nothing dropped, nothing shifted. -/
theorem fits_of_all (hlen : xs.length = ys.length) (hxs : ∀ x ∈ xs, (f x).isSome = true)
    (hys : ∀ y ∈ ys, (g y).isSome = true)
    (hwant : ∃ i, (xs.filterMap f).findIdx? want = some i) : Fits f g want xs ys := by
  obtain ⟨i, hi⟩ := hwant
  rw [findIdx?_filterMap] at hi
  obtain ⟨p, hp, -⟩ := Option.map_eq_some_iff.mp hi
  obtain ⟨hlt, -⟩ := List.findIdx?_eq_some_iff_getElem.mp hp
  have hltys : p < ys.length := hlen ▸ hlt
  refine ⟨p, hp, .inl ⟨?_, ?_⟩⟩
  · rw [passed, List.getElem?_eq_getElem hltys]
    exact hys _ (List.getElem_mem hltys)
  · rw [keptBefore_of_all hxs (Nat.le_of_lt hlt), keptBefore_of_all hys (Nat.le_of_lt hltys)]

end SamePlace

end LeadLag.Core
