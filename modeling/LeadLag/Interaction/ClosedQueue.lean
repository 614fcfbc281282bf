import Mathlib.Data.List.Induction

/-!
# A queue that is closed by a marker

Producers push at the back and one consumer pops at the front. The consumer
returns when it pops the marker, or when it finds the queue empty and then was told
to stop: in between, producers may push. The lists of what was pushed and popped are
history.
-/

namespace LeadLag.Interaction

/-- `none` is the marker. `closing` is how much had been pushed when the consumer
was told to stop, or when the marker was pushed if that came first. `found` is how much
had been pushed when the consumer found the queue empty, until it goes on. -/
structure ClosedQueue (A : Type) where
  queue : List (Option A) := []
  stopped : Bool := false
  returned : Bool := false
  pushed : List (Option A) := []
  popped : List (Option A) := []
  closing : Option ℕ := none
  found : Option ℕ := none

namespace ClosedQueue

variable {A : Type}

def push (a : A) (q : ClosedQueue A) : ClosedQueue A :=
  { q with queue := q.queue ++ [some a], pushed := q.pushed ++ [some a] }

def pushMarker (q : ClosedQueue A) : ClosedQueue A :=
  { q with
    queue := q.queue ++ [none], pushed := q.pushed ++ [none]
    closing := some (q.closing.getD q.pushed.length) }

def stop (q : ClosedQueue A) : ClosedQueue A :=
  { q with stopped := true, closing := some (q.closing.getD q.pushed.length) }

/-- The front `x` is popped and `rest` is left. -/
def pop (x : Option A) (rest : List (Option A)) (q : ClosedQueue A) : ClosedQueue A :=
  { q with queue := rest, popped := q.popped ++ [x], returned := q.returned || x.isNone }

def findEmpty (q : ClosedQueue A) : ClosedQueue A := { q with found := some q.pushed.length }

def goOn (q : ClosedQueue A) : ClosedQueue A := { q with found := none }

def quit (q : ClosedQueue A) : ClosedQueue A := { q with returned := true }

structure Inv (q : ClosedQueue A) : Prop where
  split : q.pushed = q.popped ++ q.queue
  closing_le : ∀ k, q.closing = some k → k ≤ q.pushed.length
  stopped : q.stopped = true → q.closing.isSome = true
  marked : ∀ pre post, q.pushed = pre ++ none :: post → ∃ k, q.closing = some k ∧ k ≤ pre.length
  last : ∀ pre post, q.popped = pre ++ none :: post → post = [] ∧ q.returned = true
  found : ∀ n, q.found = some n → q.popped.length = n
  returned : q.returned = true → ∃ k, q.closing = some k ∧
    (k ≤ q.popped.length ∨ q.found = some q.popped.length)

variable {q : ClosedQueue A} {x : Option A} {rest : List (Option A)} {a : A}

theorem inv_empty : Inv ({} : ClosedQueue A) where
  split := rfl
  closing_le k h := by cases h
  stopped h := by cases h
  marked pre post h := by
    have hlen := congrArg List.length h
    simp at hlen
  last pre post h := by
    have hlen := congrArg List.length h
    simp at hlen
  found n h := by cases h
  returned h := by cases h

theorem concat_eq_split {xs pre post : List (Option A)} (h : xs ++ [x] = pre ++ none :: post) :
    (∃ post', xs = pre ++ none :: post') ∨ xs = pre ∧ x = none ∧ post = [] := by
  rcases List.eq_nil_or_concat post with rfl | ⟨post, y, rfl⟩
  · obtain ⟨hpre, hx⟩ := List.append_inj' h rfl
    exact .inr ⟨hpre, List.head_eq_of_cons_eq hx, rfl⟩
  · rw [List.concat_eq_append, ← List.cons_append, ← List.append_assoc] at h
    exact .inl ⟨post, (List.append_inj' h rfl).1⟩

theorem Inv.push (inv : Inv q) : Inv (q.push a) where
  split := by
    show q.pushed ++ [some a] = q.popped ++ (q.queue ++ [some a])
    rw [inv.split, List.append_assoc]
  closing_le k h := by
    have hle := inv.closing_le k h
    show k ≤ (q.pushed ++ [some a]).length
    rw [List.length_append]
    omega
  stopped h := inv.stopped h
  marked pre post h := by
    have hsplit : q.pushed ++ [some a] = pre ++ none :: post := h
    rcases concat_eq_split hsplit with ⟨post', hpushed⟩ | ⟨-, hsome, -⟩
    · exact inv.marked pre post' hpushed
    · cases hsome
  last := inv.last
  found := inv.found
  returned := inv.returned

theorem closing_getD_le (inv : Inv q) : q.closing.getD q.pushed.length ≤ q.pushed.length := by
  cases hclosing : q.closing with
  | none => exact Nat.le_refl _
  | some k => exact inv.closing_le k hclosing

/-- What was recorded stays recorded. -/
theorem closing_getD_of_some {k : ℕ} (h : q.closing = some k) :
    some (q.closing.getD q.pushed.length) = some k := by
  rw [h]
  rfl

theorem Inv.stop (inv : Inv q) : Inv q.stop where
  split := inv.split
  closing_le k h := by
    obtain rfl : q.closing.getD q.pushed.length = k := Option.some.inj h
    exact closing_getD_le inv
  stopped _ := rfl
  marked pre post h := by
    obtain ⟨k, hk, hle⟩ := inv.marked pre post h
    exact ⟨k, closing_getD_of_some hk, hle⟩
  last := inv.last
  found := inv.found
  returned h := by
    obtain ⟨k, hk, hle⟩ := inv.returned h
    exact ⟨k, closing_getD_of_some hk, hle⟩

theorem Inv.pushMarker (inv : Inv q) : Inv q.pushMarker where
  split := by
    show q.pushed ++ [none] = q.popped ++ (q.queue ++ [none])
    rw [inv.split, List.append_assoc]
  closing_le k h := by
    obtain rfl : q.closing.getD q.pushed.length = k := Option.some.inj h
    have hle := closing_getD_le inv
    show q.closing.getD q.pushed.length ≤ (q.pushed ++ [none]).length
    rw [List.length_append]
    omega
  stopped _ := rfl
  marked pre post h := by
    have hsplit : q.pushed ++ [none] = pre ++ none :: post := h
    rcases concat_eq_split hsplit with ⟨post', hpushed⟩ | ⟨hpre, -, -⟩
    · obtain ⟨k, hk, hle⟩ := inv.marked pre post' hpushed
      exact ⟨k, closing_getD_of_some hk, hle⟩
    · refine ⟨q.closing.getD q.pushed.length, rfl, ?_⟩
      rw [← hpre]
      exact closing_getD_le inv
  last := inv.last
  found := inv.found
  returned h := by
    obtain ⟨k, hk, hle⟩ := inv.returned h
    exact ⟨k, closing_getD_of_some hk, hle⟩

theorem Inv.findEmpty (inv : Inv q) (hempty : q.queue = []) (hrunning : q.returned = false) :
    Inv q.findEmpty where
  split := inv.split
  closing_le := inv.closing_le
  stopped := inv.stopped
  marked := inv.marked
  last := inv.last
  found n h := by
    obtain rfl : q.pushed.length = n := Option.some.inj h
    show q.popped.length = q.pushed.length
    rw [inv.split, hempty, List.append_nil]
  returned h := by
    have hret : q.returned = true := h
    rw [hrunning] at hret
    cases hret

theorem Inv.goOn (inv : Inv q) (hrunning : q.returned = false) : Inv q.goOn where
  split := inv.split
  closing_le := inv.closing_le
  stopped := inv.stopped
  marked := inv.marked
  last := inv.last
  found n h := by cases h
  returned h := by
    have hret : q.returned = true := h
    rw [hrunning] at hret
    cases hret

theorem Inv.quit (inv : Inv q) (hstopped : q.stopped = true) (hfound : q.found.isSome = true) :
    Inv q.quit where
  split := inv.split
  closing_le := inv.closing_le
  stopped := inv.stopped
  marked := inv.marked
  last pre post h := ⟨(inv.last pre post h).1, rfl⟩
  found := inv.found
  returned _ := by
    obtain ⟨k, hk⟩ := Option.isSome_iff_exists.mp (inv.stopped hstopped)
    obtain ⟨n, hn⟩ := Option.isSome_iff_exists.mp hfound
    refine ⟨k, hk, .inr ?_⟩
    show q.found = some q.popped.length
    rw [inv.found n hn, hn]

theorem Inv.pop (inv : Inv q) (hqueue : q.queue = x :: rest) (hrunning : q.returned = false)
    (hfound : q.found = none) : Inv (q.pop x rest) where
  split := by
    show q.pushed = q.popped ++ [x] ++ rest
    rw [inv.split, hqueue, List.append_assoc]
    rfl
  closing_le := inv.closing_le
  stopped := inv.stopped
  marked := inv.marked
  last pre post h := by
    have hsplit : q.popped ++ [x] = pre ++ none :: post := h
    rcases concat_eq_split hsplit with ⟨post', hpopped⟩ | ⟨-, hx, hpost⟩
    · have hret := (inv.last pre post' hpopped).2
      rw [hrunning] at hret
      cases hret
    · refine ⟨hpost, ?_⟩
      show (q.returned || x.isNone) = true
      rw [hx, hrunning]
      rfl
  found n h := by
    have hsome : q.found = some n := h
    rw [hfound] at hsome
    cases hsome
  returned h := by
    have hnone : (q.returned || x.isNone) = true := h
    rw [hrunning, Bool.false_or] at hnone
    have hx : x = none := Option.isNone_iff_eq_none.mp hnone
    have hpushed : q.pushed = q.popped ++ none :: rest := by rw [inv.split, hqueue, hx]
    obtain ⟨k, hk, hle⟩ := inv.marked q.popped rest hpushed
    refine ⟨k, hk, .inl ?_⟩
    show k ≤ (q.popped ++ [x]).length
    rw [List.length_append]
    omega

/-- Nothing is popped behind the marker. -/
theorem Inv.popped_le_marker (inv : Inv q) {pre post : List (Option A)}
    (h : q.pushed = pre ++ none :: post) : q.popped.length ≤ pre.length + 1 := by
  by_contra hmore
  have hstart : q.popped <+: pre ++ none :: post := by
    rw [← h, inv.split]
    exact List.prefix_append _ _
  have hmarker : pre ++ [none] <+: pre ++ none :: post := ⟨post, by simp⟩
  have hle : (pre ++ [none]).length ≤ q.popped.length := by
    rw [List.length_append, List.length_singleton]
    omega
  obtain ⟨more, hmore'⟩ := List.prefix_of_prefix_length_le hmarker hstart hle
  have hpopped : q.popped = pre ++ none :: more := by rw [← hmore', List.append_assoc]; rfl
  have hlast := (inv.last pre more hpopped).1
  rw [hpopped, hlast, List.length_append, List.length_singleton] at hmore
  omega

end ClosedQueue

end LeadLag.Interaction
