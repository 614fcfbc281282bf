import Mathlib.Data.List.Basic

/-!
# Texts as lists, cut at separators

A list either has no separator or is a first piece, a separator and the rest.
A function that sends a separator to a concatenation is determined by what it
does on the pieces. `literal` writes a text down by its characters.
-/

namespace LeadLag.Core

/-- The characters of `s`, as the list that `h` names: computing with them does not
decode `s` again. -/
def literal (s : String) {l : List Char} (_ : s.toList = l) : List Char := l

variable {α β : Type} {p : α → Bool}

/-- Piece by piece: `last` is the piece with no separator after it. -/
@[elab_as_elim]
theorem pieces_induction {motive : List α → Prop} (p : α → Bool)
    (last : ∀ xs, (∀ a ∈ xs, p a = false) → motive xs)
    (piece : ∀ xs sep ys, (∀ a ∈ xs, p a = false) → p sep = true → motive ys →
      motive (xs ++ sep :: ys)) (l : List α) : motive l := by
  suffices h : ∀ xs, (∀ a ∈ xs, p a = false) → motive (xs ++ l) from h [] (by simp)
  induction l with
  | nil =>
    intro xs hxs
    rw [List.append_nil]
    exact last xs hxs
  | cons a l ih =>
    intro xs hxs
    by_cases ha : p a = true
    · exact piece xs a l hxs ha (ih [] (by simp))
    · have hxs' : ∀ b ∈ xs ++ [a], p b = false := by
        intro b hb
        rcases List.mem_append.mp hb with hb | hb
        · exact hxs b hb
        · rw [List.mem_singleton.mp hb]
          simpa using ha
      simpa using ih (xs ++ [a]) hxs'

theorem eq_false_of_mem_splitOnP {l xs : List α} (h : xs ∈ l.splitOnP p) :
    ∀ a ∈ xs, p a = false := by
  induction l using pieces_induction p with
  | last l hl =>
    rw [List.splitOnP_eq_singleton hl, List.mem_singleton] at h
    rwa [h]
  | piece ys sep zs hys hsep ih =>
    rw [List.splitOnP_append_cons_of_forall_mem hys sep hsep, List.mem_cons] at h
    cases h with
    | inl h => rwa [h]
    | inr h => exact ih h

theorem mem_of_mem_splitOnP {l xs : List α} (h : xs ∈ l.splitOnP p) : ∀ a ∈ xs, a ∈ l := by
  induction l using pieces_induction p with
  | last l hl =>
    rw [List.splitOnP_eq_singleton hl, List.mem_singleton] at h
    rw [h]
    exact fun a ha => ha
  | piece ys sep zs hys hsep ih =>
    rw [List.splitOnP_append_cons_of_forall_mem hys sep hsep, List.mem_cons] at h
    intro a ha
    rcases h with rfl | h
    · exact List.mem_append_left _ ha
    · exact List.mem_append_right _ (List.mem_cons_of_mem sep (ih h a ha))

theorem splitOnP_congr {q : α → Bool} {l : List α} (h : ∀ a ∈ l, p a = q a) :
    l.splitOnP p = l.splitOnP q := by
  induction l with
  | nil => rfl
  | cons a l ih =>
    rw [List.forall_mem_cons] at h
    rw [List.splitOnP_cons_eq_if_modifyHead, List.splitOnP_cons_eq_if_modifyHead, h.1, ih h.2]

theorem flatMap_splitOnP {f : List α → List β}
    (hf : ∀ xs sep ys, p sep = true → f (xs ++ sep :: ys) = f xs ++ f ys) (l : List α) :
    (l.splitOnP p).flatMap f = f l := by
  induction l using pieces_induction p with
  | last l hl => simp [List.splitOnP_eq_singleton hl]
  | piece xs sep ys hxs hsep ih =>
    rw [List.splitOnP_append_cons_of_forall_mem hxs sep hsep, List.flatMap_cons, ih,
      hf xs sep ys hsep]

theorem length_flatMap_le {f g : α → List β} {l : List α}
    (h : ∀ a ∈ l, (g a).length ≤ (f a).length) :
    (l.flatMap g).length ≤ (l.flatMap f).length := by
  induction l with
  | nil => simp
  | cons a l ih =>
    have ha := h a List.mem_cons_self
    have hl := ih fun b hb => h b (List.mem_cons_of_mem a hb)
    simp only [List.flatMap_cons, List.length_append]
    omega

/-- Where `f` agrees with `g` or gives more, it gives the same on the whole list
only by agreeing everywhere. -/
theorem flatMap_append_eq_flatMap_iff {f g : α → List β} {l : List α} {rest : List β}
    (h : ∀ a ∈ l, f a = g a ∨ (g a).length < (f a).length) :
    l.flatMap f ++ rest = l.flatMap g ↔ (∀ a ∈ l, f a = g a) ∧ rest = [] := by
  induction l with
  | nil => simp
  | cons a l ih =>
    have hl : ∀ b ∈ l, f b = g b ∨ (g b).length < (f b).length :=
      fun b hb => h b (List.mem_cons_of_mem a hb)
    rw [List.flatMap_cons, List.flatMap_cons, List.append_assoc, List.forall_mem_cons, and_assoc,
      ← ih hl]
    rcases h a List.mem_cons_self with ha | ha
    · simp [ha]
    · have hle : (l.flatMap g).length ≤ (l.flatMap f).length := by
        refine length_flatMap_le fun b hb => ?_
        rcases hl b hb with hb | hb
        · exact Nat.le_of_eq (congrArg List.length hb.symm)
        · omega
      constructor
      · intro heq
        have hlength := congrArg List.length heq
        simp only [List.length_append] at hlength
        omega
      · intro heq
        have hlength := congrArg List.length heq.1
        omega

/-! ### Whole lines -/

/-- Every piece with a separator after it. -/
def joinLines (sep : α) (ls : List (List α)) : List α := ls.flatMap fun l => l ++ [sep]

/-- What follows the first separator. -/
def afterFirst (p : α → Bool) (xs : List α) : List α := (xs.dropWhile fun a => !p a).drop 1

section JoinLines

variable {sep : α} {l : List α} {ls : List (List α)}

theorem joinLines_cons : joinLines sep (l :: ls) = l ++ sep :: joinLines sep ls := by
  rw [joinLines, List.flatMap_cons, List.append_assoc]
  rfl

theorem splitOnP_joinLines (hsep : p sep = true) (h : ∀ l ∈ ls, ∀ a ∈ l, p a = false) :
    (joinLines sep ls).splitOnP p = ls ++ [[]] := by
  induction ls with
  | nil => rfl
  | cons l ls ih =>
    have hl : ∀ a ∈ l, p a = false := h l List.mem_cons_self
    have hls := ih fun m hm => h m (List.mem_cons_of_mem l hm)
    rw [joinLines_cons, List.splitOnP_append_cons_of_forall_mem hl sep hsep, hls]
    rfl

theorem afterFirst_append (hsep : p sep = true) (hl : ∀ a ∈ l, p a = false) (xs : List α) :
    afterFirst p (l ++ sep :: xs) = xs := by
  have hkeep : ∀ a ∈ l, (!p a) = true := by
    intro a ha
    rw [hl a ha]
    rfl
  unfold afterFirst
  rw [List.dropWhile_append_of_pos hkeep, List.dropWhile_cons_of_neg (by simp [hsep])]
  rfl

/-- Behind a cut inside whole lines the first separator ends a line. -/
theorem afterFirst_drop_joinLines (hsep : p sep = true) (h : ∀ l ∈ ls, ∀ a ∈ l, p a = false)
    {n : ℕ} (hn : n < (joinLines sep ls).length) :
    sep ∈ (joinLines sep ls).drop n ∧
      ∃ k, afterFirst p ((joinLines sep ls).drop n) = joinLines sep (ls.drop k) := by
  induction ls generalizing n with
  | nil => simp [joinLines] at hn
  | cons l ls ih =>
    have hl : ∀ a ∈ l, p a = false := h l List.mem_cons_self
    rw [joinLines_cons] at hn ⊢
    rcases Nat.lt_or_ge l.length n with hpast | hwithin
    · -- the cut is in a later line
      have hrest : (l ++ sep :: joinLines sep ls).drop n =
          (joinLines sep ls).drop (n - l.length - 1) := by
        rw [List.drop_append, List.drop_of_length_le (by omega), List.nil_append]
        obtain ⟨m, hm⟩ := Nat.exists_eq_add_of_lt hpast
        have hsub : n - l.length = m + 1 := by omega
        rw [hsub, List.drop_succ_cons]
        rfl
      rw [hrest]
      have hlen : n - l.length - 1 < (joinLines sep ls).length := by
        rw [List.length_append, List.length_cons] at hn
        omega
      obtain ⟨hmem, k, hk⟩ := ih (fun m hm => h m (List.mem_cons_of_mem l hm)) hlen
      exact ⟨hmem, k + 1, hk⟩
    · rw [List.drop_append_of_le_length hwithin]
      refine ⟨by simp, 1, ?_⟩
      exact afterFirst_append hsep (fun a ha => hl a (List.mem_of_mem_drop ha)) _

end JoinLines

end LeadLag.Core
