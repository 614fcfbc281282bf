import Mathlib.Data.List.Basic
import Mathlib.Logic.Function.Basic

/-!
# Definitions that only fill in

An environment maps names to values. A definition is taken when its name has no value
yet, so of several definitions the first counts.
-/

namespace LeadLag.Core

variable {K V : Type} [DecidableEq K]

def fillIn (env : K → Option V) (d : K × V) : K → Option V :=
  if (env d.1).isSome then env else Function.update env d.1 (some d.2)

/-- The definitions, one after another. -/
def fill (env : K → Option V) (defs : List (K × V)) : K → Option V := defs.foldl fillIn env

theorem fillIn_apply (env : K → Option V) (d : K × V) (k : K) :
    fillIn env d k = (env k).or (if k = d.1 then some d.2 else none) := by
  unfold fillIn
  by_cases hk : k = d.1
  · rw [hk, if_pos rfl]
    cases h : env d.1 with
    | some v => simp [h]
    | none => simp
  · rw [if_neg hk, Option.or_none]
    split
    · rfl
    · rw [Function.update_of_ne hk]

/-- What a name has keeps, and what it lacks its first definition gives. -/
theorem fill_apply (env : K → Option V) (defs : List (K × V)) (k : K) :
    fill env defs k = (env k).or (defs.lookup k) := by
  induction defs generalizing env with
  | nil => rw [List.lookup_nil, Option.or_none]; rfl
  | cons d defs ih =>
    have hstep : fill env (d :: defs) = fill (fillIn env d) defs := rfl
    rw [hstep, ih, fillIn_apply, List.lookup_cons, Option.or_assoc]
    by_cases hk : k = d.1
    · simp [hk]
    · simp [hk, beq_eq_false_iff_ne.mpr hk]

/-- Names that have values are not touched. -/
theorem fill_eq_self {env : K → Option V} {defs : List (K × V)}
    (h : ∀ d ∈ defs, (env d.1).isSome = true) : fill env defs = env := by
  induction defs with
  | nil => rfl
  | cons d defs ih =>
    rw [List.forall_mem_cons] at h
    have hstep : fillIn env d = env := if_pos h.1
    show fill (fillIn env d) defs = env
    rw [hstep]
    exact ih h.2

/-- After the definitions every name that they define has a value. -/
theorem isSome_fill {env : K → Option V} {defs : List (K × V)} {d : K × V} (h : d ∈ defs) :
    (fill env defs d.1).isSome = true := by
  rw [fill_apply]
  cases henv : env d.1 with
  | some v => rfl
  | none =>
    rw [Option.none_or]
    cases hlookup : defs.lookup d.1 with
    | some v => rfl
    | none =>
      have hmissing := List.lookup_eq_none_iff.mp hlookup d h
      simp at hmissing

theorem fill_fill (env : K → Option V) (defs : List (K × V)) :
    fill (fill env defs) defs = fill env defs :=
  fill_eq_self fun _ hd => isSome_fill hd

end LeadLag.Core
