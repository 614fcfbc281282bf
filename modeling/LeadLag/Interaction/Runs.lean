import Mathlib.Data.List.Basic
import Mathlib.Data.List.Induction
import Mathlib.Logic.Basic

/-!
# Runs of a labelled transition system

`Run` keeps the labels of a run in order, `Reachable` forgets them. A property
of all runs is an invariant: one step lemma and `Reachable.invariant`.
`restrict` keeps only the steps that meet a condition, so that "in every run
whose steps all meet the condition" is reachability in the restricted system.
-/

namespace LeadLag.Interaction

structure Lts (S L : Type) where
  init : S → Prop
  step : S → L → S → Prop

variable {S L : Type}

namespace Lts

def restrict (m : Lts S L) (cond : S → L → Prop) : Lts S L where
  init := m.init
  step s l t := m.step s l t ∧ cond s l

inductive Run (m : Lts S L) (s : S) : List L → S → Prop where
  | nil : Run m s [] s
  | snoc {ls : List L} {t u : S} {l : L} :
      Run m s ls t → m.step t l u → Run m s (ls ++ [l]) u

inductive Reachable (m : Lts S L) : S → Prop where
  | init {s : S} : m.init s → Reachable m s
  | step {s t : S} {l : L} : Reachable m s → m.step s l t → Reachable m t

variable {m : Lts S L}

/-- What holds initially and is kept by every step from a reachable state holds
of every reachable state. -/
theorem Reachable.invariant {I : S → Prop} {s : S} (h : m.Reachable s)
    (hinit : ∀ s, m.init s → I s)
    (hstep : ∀ s l t, m.Reachable s → I s → m.step s l t → I t) : I s := by
  induction h with
  | init hs => exact hinit _ hs
  | step hr hst ih => exact hstep _ _ _ hr ih hst

theorem Run.reachable {s t : S} {ls : List L} (h : m.Run s ls t) (hs : m.Reachable s) :
    m.Reachable t := by
  induction h with
  | nil => exact hs
  | snoc _ hst ih => exact .step ih hst

theorem Reachable.exists_run {t : S} (h : m.Reachable t) :
    ∃ s ls, m.init s ∧ m.Run s ls t := by
  induction h with
  | init hs => exact ⟨_, [], hs, .nil⟩
  | step _ hst ih =>
    obtain ⟨s, ls, hs, hr⟩ := ih
    exact ⟨s, _, hs, .snoc hr hst⟩

theorem Reachable.mono {m' : Lts S L} {s : S} (h : m.Reachable s)
    (hinit : ∀ s, m.init s → m'.init s) (hstep : ∀ s l t, m.step s l t → m'.step s l t) :
    m'.Reachable s := by
  induction h with
  | init hs => exact .init (hinit _ hs)
  | step _ hst ih => exact .step ih (hstep _ _ _ hst)

theorem Reachable.of_restrict {cond : S → L → Prop} {s : S}
    (h : (m.restrict cond).Reachable s) : m.Reachable s :=
  h.mono (fun _ hs => hs) fun _ _ _ hst => hst.1

theorem Reachable.restrict_mono {cond cond' : S → L → Prop} {s : S}
    (h : (m.restrict cond).Reachable s) (hc : ∀ s l, cond s l → cond' s l) :
    (m.restrict cond').Reachable s :=
  h.mono (fun _ hs => hs) fun _ _ _ hst => ⟨hst.1, hc _ _ hst.2⟩

theorem Run.mono {m' : Lts S L} {s t : S} {ls : List L} (h : m.Run s ls t)
    (hstep : ∀ s l t, m.step s l t → m'.step s l t) : m'.Run s ls t := by
  induction h with
  | nil => exact .nil
  | snoc _ hst ih => exact .snoc ih (hstep _ _ _ hst)

theorem Run.of_restrict {cond : S → L → Prop} {s t : S} {ls : List L}
    (h : (m.restrict cond).Run s ls t) : m.Run s ls t :=
  h.mono fun _ _ _ hst => hst.1

theorem Run.invariant {I : S → Prop} {s t : S} {ls : List L} (h : m.Run s ls t) (hs : I s)
    (hstep : ∀ s l t, I s → m.step s l t → I t) : I t := by
  induction h with
  | nil => exact hs
  | snoc _ hst ih => exact hstep _ _ _ ih hst

theorem run_nil {s t : S} : m.Run s [] t ↔ t = s := by
  constructor
  · intro h
    generalize hw : ([] : List L) = w at h
    cases h with
    | nil => rfl
    | snoc => simp at hw
  · rintro rfl
    exact .nil

theorem run_concat {s u : S} {ls : List L} {l : L} :
    m.Run s (ls ++ [l]) u ↔ ∃ t, m.Run s ls t ∧ m.step t l u := by
  constructor
  · intro h
    generalize hw : ls ++ [l] = w at h
    cases h with
    | nil => simp at hw
    | snoc hr hst =>
      obtain ⟨rfl, hl⟩ := List.append_inj' hw rfl
      obtain rfl := List.singleton_inj.mp hl
      exact ⟨_, hr, hst⟩
  · intro ⟨t, hr, hst⟩
    exact .snoc hr hst

theorem run_append {s u : S} {ls ls' : List L} :
    m.Run s (ls ++ ls') u ↔ ∃ t, m.Run s ls t ∧ m.Run t ls' u := by
  induction ls' using List.reverseRecOn generalizing u with
  | nil => simp [run_nil]
  | append_singleton ls' l ih =>
    rw [← List.append_assoc, run_concat]
    constructor
    · intro ⟨v, hv, hst⟩
      obtain ⟨t, ht, htv⟩ := ih.mp hv
      exact ⟨t, ht, .snoc htv hst⟩
    · intro ⟨t, ht, hu⟩
      obtain ⟨v, htv, hst⟩ := run_concat.mp hu
      exact ⟨v, ih.mpr ⟨t, ht, htv⟩, hst⟩

theorem run_singleton {s t : S} {l : L} : m.Run s [l] t ↔ m.step s l t := by
  rw [← List.nil_append [l], run_concat]
  simp [run_nil]

theorem run_cons {s u : S} {l : L} {ls : List L} :
    m.Run s (l :: ls) u ↔ ∃ t, m.step s l t ∧ m.Run t ls u := by
  rw [← List.singleton_append, run_append]
  simp only [run_singleton]

theorem Run.deterministic (hdet : ∀ s l t t', m.step s l t → m.step s l t' → t = t')
    {s t t' : S} {ls : List L} (h : m.Run s ls t) (h' : m.Run s ls t') : t = t' := by
  induction h generalizing t' with
  | nil => exact (run_nil.mp h').symm
  | snoc _ hst ih =>
    obtain ⟨u, hu, hst'⟩ := run_concat.mp h'
    obtain rfl := ih hu
    exact hdet _ _ _ _ hst hst'

/-- The last step at which `P` became true: since then it has been true. -/
theorem Run.since {P : S → Prop} {s t : S} {ls : List L} (h : m.Run s ls t) (hs : ¬ P s)
    (ht : P t) :
    ∃ ls₁ a l b ls₂, ls = ls₁ ++ l :: ls₂ ∧ m.Run s ls₁ a ∧ ¬ P a ∧ m.step a l b ∧ P b ∧
      (m.restrict fun s _ => P s).Run b ls₂ t := by
  induction h with
  | nil => exact absurd ht hs
  | snoc hr hst ih =>
    rename_i w t u l
    by_cases hP : P t
    · obtain ⟨ls₁, a, l₁, b, ls₂, rfl, ha, hna, hab, hb, hrest⟩ := ih hP
      exact ⟨ls₁, a, l₁, b, ls₂ ++ [l], by simp, ha, hna, hab, hb, .snoc hrest ⟨hst, hP⟩⟩
    · exact ⟨w, t, l, u, [], rfl, hr, hP, hst, ht, .nil⟩

theorem Run.forall_labels {cond : S → L → Prop} {P : L → Prop} {s t : S} {ls : List L}
    (h : (m.restrict cond).Run s ls t) (hc : ∀ s l, cond s l → P l) : ∀ l ∈ ls, P l := by
  induction h with
  | nil => exact nofun
  | snoc _ hst ih =>
    intro l hl
    rcases List.mem_append.mp hl with hl | hl
    · exact ih l hl
    · obtain rfl := List.mem_singleton.mp hl
      exact hc _ _ hst.2

/-! ### Computed runs -/

/-- The state after the given labels, for steps given as a function. -/
def stepAll (f : S → L → Option S) : S → List L → Option S
  | s, [] => some s
  | s, l :: ls =>
    match f s l with
    | none => none
    | some t => stepAll f t ls

theorem run_stepAll {f : S → L → Option S} (hf : ∀ s l t, f s l = some t → m.step s l t)
    {s u : S} {ls : List L} (h : stepAll f s ls = some u) : m.Run s ls u := by
  induction ls generalizing s with
  | nil =>
    cases h
    exact .nil
  | cons l ls ih =>
    simp only [stepAll] at h
    split at h
    · cases h
    · rename_i t ht
      exact run_cons.mpr ⟨t, hf s l t ht, ih h⟩

theorem exists_run_stepAll {f : S → L → Option S} (hf : ∀ s l t, f s l = some t → m.step s l t)
    {s : S} {ls : List L} {P : S → Bool} (h : (stepAll f s ls).any P = true) :
    ∃ u, m.Run s ls u ∧ P u = true := by
  obtain ⟨u, hu, hP⟩ := (Option.any_eq_true _ _).mp h
  exact ⟨u, run_stepAll hf hu, hP⟩

end Lts

end LeadLag.Interaction
