import Mathlib.Data.List.Basic

/-!
# Collecting until something stops

A loop that appends to an output and may be left early. `stop` says why it was
left; what was appended before stays in `items`.
-/

namespace LeadLag.Core

structure Collected (τ ε : Type*) where
  items : List τ := []
  stop : Option ε := none

namespace Collected

variable {α β τ ε : Type*}

def andThen (c d : Collected τ ε) : Collected τ ε :=
  match c.stop with
  | some e => ⟨c.items, some e⟩
  | none => ⟨c.items ++ d.items, d.stop⟩

/-- The loop over a list. -/
def all (f : α → Collected τ ε) : List α → Collected τ ε
  | [] => {}
  | a :: as => (f a).andThen (all f as)

@[simp] theorem andThen_empty (c : Collected τ ε) : c.andThen {} = c := by
  obtain ⟨items, stop⟩ := c
  cases stop with
  | none => simp [andThen]
  | some e => rfl

theorem andThen_assoc (c d e : Collected τ ε) :
    (c.andThen d).andThen e = c.andThen (d.andThen e) := by
  obtain ⟨cs, cstop⟩ := c
  obtain ⟨ds, dstop⟩ := d
  cases cstop with
  | some _ => rfl
  | none =>
    cases dstop with
    | some _ => rfl
    | none => simp [andThen]

theorem all_append (f : α → Collected τ ε) (as bs : List α) :
    all f (as ++ bs) = (all f as).andThen (all f bs) := by
  induction as with
  | nil => rfl
  | cons a as ih =>
    show (f a).andThen (all f (as ++ bs)) = ((f a).andThen (all f as)).andThen (all f bs)
    rw [ih, andThen_assoc]

theorem all_flatMap (f : α → Collected τ ε) (g : β → List α) (bs : List β) :
    all f (bs.flatMap g) = all (fun b => all f (g b)) bs := by
  induction bs with
  | nil => rfl
  | cons b bs ih =>
    rw [List.flatMap_cons, all_append, ih]
    rfl

theorem all_map (f : α → Collected τ ε) (g : β → α) (bs : List β) :
    all f (bs.map g) = all (fun b => f (g b)) bs := by
  induction bs with
  | nil => rfl
  | cons b bs ih =>
    show (f (g b)).andThen (all f (bs.map g)) = _
    rw [ih]
    rfl

theorem all_congr {f g : α → Collected τ ε} {as : List α} (h : ∀ a ∈ as, f a = g a) :
    all f as = all g as := by
  induction as with
  | nil => rfl
  | cons a as ih =>
    have hhead : f a = g a := h a List.mem_cons_self
    have htail : all f as = all g as := ih fun b hb => h b (List.mem_cons_of_mem a hb)
    show (f a).andThen (all f as) = (g a).andThen (all g as)
    rw [hhead, htail]

/-- What one element does when `fault` tells the elements that stop the loop. -/
def ofFault (fault : α → Option ε) (items : α → List τ) (a : α) : Collected τ ε :=
  match fault a with
  | some e => ⟨[], some e⟩
  | none => ⟨items a, none⟩

theorem all_ofFault (fault : α → Option ε) (items : α → List τ) (as : List α) :
    all (ofFault fault items) as =
      ⟨(as.takeWhile fun a => (fault a).isNone).flatMap items, as.findSome? fault⟩ := by
  induction as with
  | nil => rfl
  | cons a as ih =>
    show (ofFault fault items a).andThen (all (ofFault fault items) as) = _
    rw [ih]
    cases h : fault a with
    | none => simp [ofFault, h, andThen]
    | some e => simp [ofFault, h, andThen]

end Collected

end LeadLag.Core
