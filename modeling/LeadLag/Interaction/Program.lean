import Mathlib.Data.List.Basic
import Mathlib.Logic.Basic
import Mathlib.Order.Basic

/-!
# Programs that call an environment

A program either returns or makes one call and continues with the reply it is
given. The replies are not the program's: a clock, a socket or a remote service
answers, so every statement below quantifies over the replies. `Exec` is the
complete executions, `Reaches` those that have come to a call, `Ensures` and
`Returns` what all complete ones end in, `Safe` what holds at every call while
the environment keeps a promise, and `Under` what holds when the replies come
from an environment with a state of its own. `SafeFrom` is `Safe` for such an
environment.
-/

namespace LeadLag.Interaction

inductive Prog {E : Type} (R : E → Type) (A : Type) : Type where
  | done : A → Prog R A
  | call : (e : E) → (R e → Prog R A) → Prog R A

structure Obs {E : Type} (R : E → Type) where
  call : E
  reply : R call

variable {E : Type} {R : E → Type} {A B : Type}

namespace Prog

def bind : Prog R A → (A → Prog R B) → Prog R B
  | .done a, f => f a
  | .call e k, f => .call e fun r => (k r).bind f

instance : Monad (Prog R) where
  pure := .done
  bind := Prog.bind

def perform (e : E) : Prog R (R e) := .call e .done

/-- Answer the calls from a script indexed by the position of the call; a call
without an answer ends the replay. -/
def replay (script : ℕ → (e : E) → Option (R e)) : ℕ → Prog R A → Option (List (Obs R) × A)
  | _, .done a => some ([], a)
  | n, .call e k =>
    match script n e with
    | none => none
    | some r => (replay script (n + 1) (k r)).map fun (tr, a) => (⟨e, r⟩ :: tr, a)

theorem bind_call (e : E) (k : R e → Prog R A) (f : A → Prog R B) :
    (Prog.call e k >>= f) = .call e fun r => k r >>= f := rfl

end Prog

open Prog

/-! ### Executions -/

/-- `Exec p tr a`: answered by the replies of `tr`, the program returns `a`. -/
inductive Exec : Prog R A → List (Obs R) → A → Prop where
  | done (a : A) : Exec (.done a) [] a
  | call {e : E} {k : R e → Prog R A} {tr : List (Obs R)} {a : A} (r : R e) :
      Exec (k r) tr a → Exec (.call e k) (⟨e, r⟩ :: tr) a

/-- `Reaches p tr e`: answered by the replies of `tr`, the program calls `e` next. -/
inductive Reaches : Prog R A → List (Obs R) → E → Prop where
  | here {e : E} {k : R e → Prog R A} : Reaches (.call e k) [] e
  | later {e e' : E} {k : R e → Prog R A} {tr : List (Obs R)} (r : R e) :
      Reaches (k r) tr e' → Reaches (.call e k) (⟨e, r⟩ :: tr) e'

theorem exec_replay {script : ℕ → (e : E) → Option (R e)} {p : Prog R A} {n : ℕ}
    {tr : List (Obs R)} {a : A} (h : p.replay script n = some (tr, a)) : Exec p tr a := by
  induction p generalizing n tr with
  | done b =>
    cases h
    exact .done _
  | call e k ih =>
    simp only [replay] at h
    split at h
    · cases h
    · rename_i r _
      obtain ⟨⟨tr', a'⟩, ht, heq⟩ := Option.map_eq_some_iff.mp h
      cases heq
      exact .call r (ih r ht)

theorem exec_done {a b : A} {tr : List (Obs R)} :
    Exec (.done a : Prog R A) tr b ↔ tr = [] ∧ b = a := by
  constructor
  · rintro ⟨⟩
    exact ⟨rfl, rfl⟩
  · rintro ⟨rfl, rfl⟩
    exact .done b

theorem Exec.deterministic {p : Prog R A} {tr : List (Obs R)} {a b : A} (h : Exec p tr a)
    (h' : Exec p tr b) : a = b := by
  induction h with
  | done a => exact (exec_done.mp h').2.symm
  | call r _ ih =>
    cases h' with
    | call _ h' => exact ih h'

theorem exec_bind {p : Prog R A} {f : A → Prog R B} {tr : List (Obs R)} {b : B} :
    Exec (p >>= f) tr b ↔
      ∃ tr₁ a tr₂, Exec p tr₁ a ∧ Exec (f a) tr₂ b ∧ tr = tr₁ ++ tr₂ := by
  constructor
  · induction p generalizing tr with
    | done a => exact fun h => ⟨[], a, tr, .done a, h, rfl⟩
    | call e k ih =>
      intro h
      rw [bind_call] at h
      cases h with
      | call r h =>
        obtain ⟨tr₁, a, tr₂, h₁, h₂, rfl⟩ := ih r h
        exact ⟨_, a, tr₂, .call r h₁, h₂, rfl⟩
  · rintro ⟨tr₁, a, tr₂, h₁, h₂, rfl⟩
    induction h₁ with
    | done a => exact h₂
    | call r _ ih => exact .call r (ih h₂)

theorem reaches_bind {p : Prog R A} {f : A → Prog R B} {tr : List (Obs R)} {e : E} :
    Reaches (p >>= f) tr e ↔ Reaches p tr e ∨
      ∃ tr₁ a tr₂, Exec p tr₁ a ∧ Reaches (f a) tr₂ e ∧ tr = tr₁ ++ tr₂ := by
  constructor
  · induction p generalizing tr with
    | done a => exact fun h => .inr ⟨[], a, tr, .done a, h, rfl⟩
    | call e' k ih =>
      intro h
      rw [bind_call] at h
      cases h with
      | here => exact .inl .here
      | later r h =>
        rcases ih r h with h | ⟨tr₁, a, tr₂, h₁, h₂, rfl⟩
        · exact .inl (.later r h)
        · exact .inr ⟨_, a, tr₂, .call r h₁, h₂, rfl⟩
  · rintro (h | ⟨tr₁, a, tr₂, h₁, h₂, rfl⟩)
    · induction h with
      | here => exact .here
      | later r _ ih => exact .later r ih
    · induction h₁ with
      | done a => exact h₂
      | call r _ ih => exact .later r (ih h₂)

theorem exec_perform_bind {e : E} {f : R e → Prog R A} {tr : List (Obs R)} {a : A} :
    Exec (perform e >>= f) tr a ↔ ∃ r tr', tr = ⟨e, r⟩ :: tr' ∧ Exec (f r) tr' a := by
  constructor
  · intro h
    cases h with
    | call r h => exact ⟨r, _, rfl, h⟩
  · rintro ⟨r, tr', rfl, h⟩
    exact .call r h

/-! ### What every execution ends in -/

def Ensures (p : Prog R A) (Q : List (Obs R) → A → Prop) : Prop :=
  ∀ tr a, Exec p tr a → Q tr a

def Returns (p : Prog R A) (P : A → Prop) : Prop := ∀ tr a, Exec p tr a → P a

theorem ensures_pure {a : A} {Q : List (Obs R) → A → Prop} :
    Ensures (pure a) Q ↔ Q [] a := by
  constructor
  · exact fun h => h _ _ (.done a)
  · intro h tr b hb
    obtain ⟨rfl, rfl⟩ := exec_done.mp hb
    exact h

theorem ensures_perform {e : E} {Q : List (Obs R) → R e → Prop} :
    Ensures (perform e) Q ↔ ∀ r, Q [⟨e, r⟩] r := by
  constructor
  · exact fun h r => h _ _ (.call r (.done r))
  · intro h tr a ha
    cases ha with
    | call r hr =>
      obtain ⟨rfl, rfl⟩ := exec_done.mp hr
      exact h _

theorem ensures_bind {p : Prog R A} {f : A → Prog R B} {Q : List (Obs R) → B → Prop} :
    Ensures (p >>= f) Q ↔
      Ensures p fun tr a => Ensures (f a) fun tr' b => Q (tr ++ tr') b := by
  constructor
  · exact fun h tr a ha tr' b hb => h _ _ (exec_bind.mpr ⟨tr, a, tr', ha, hb, rfl⟩)
  · intro h tr b hb
    obtain ⟨tr₁, a, tr₂, h₁, h₂, rfl⟩ := exec_bind.mp hb
    exact h _ _ h₁ _ _ h₂

theorem Ensures.mono {p : Prog R A} {Q Q' : List (Obs R) → A → Prop} (h : Ensures p Q)
    (hq : ∀ tr a, Q tr a → Q' tr a) : Ensures p Q' :=
  fun tr a ha => hq tr a (h tr a ha)

@[simp] theorem returns_pure {a : A} {P : A → Prop} :
    Returns (pure a : Prog R A) P ↔ P a := ensures_pure

@[simp] theorem returns_perform {e : E} {P : R e → Prop} :
    Returns (perform e : Prog R (R e)) P ↔ ∀ r, P r := ensures_perform

@[simp] theorem returns_bind {p : Prog R A} {f : A → Prog R B} {P : B → Prop} :
    Returns (p >>= f) P ↔ Returns p fun a => Returns (f a) P := ensures_bind

theorem Returns.mono {p : Prog R A} {P P' : A → Prop} (h : Returns p P)
    (hp : ∀ a, P a → P' a) : Returns p P' :=
  fun tr a ha => hp a (h tr a ha)

theorem returns_trivial (p : Prog R A) : Returns p fun _ => True := fun _ _ _ => trivial

/-! ### Rely and guarantee, call by call -/

/-- Every call made satisfies `guar` and the result satisfies `Q`, as long as
the replies satisfy `rely`. Unlike `Returns` it speaks of unfinished runs. -/
def Safe (rely : Obs R → Prop) (guar : E → Prop) (Q : A → Prop) : Prog R A → Prop
  | .done a => Q a
  | .call e k => guar e ∧ ∀ r, rely ⟨e, r⟩ → Safe rely guar Q (k r)

section Safe

variable {rely : Obs R → Prop} {guar : E → Prop}

@[simp] theorem safe_pure {a : A} {Q : A → Prop} :
    Safe rely guar Q (pure a) ↔ Q a := Iff.rfl

@[simp] theorem safe_bind {p : Prog R A} {f : A → Prog R B} {Q : B → Prop} :
    Safe rely guar Q (p >>= f) ↔ Safe rely guar (fun a => Safe rely guar Q (f a)) p := by
  induction p with
  | done a => exact Iff.rfl
  | call e k ih =>
    rw [bind_call]
    simp only [Safe, ih]

theorem Safe.mono {p : Prog R A} {Q Q' : A → Prop} (h : Safe rely guar Q p)
    (hq : ∀ a, Q a → Q' a) : Safe rely guar Q' p := by
  induction p with
  | done a => exact hq a h
  | call e k ih => exact ⟨h.1, fun r hr => ih r (h.2 r hr)⟩

theorem Safe.and_returns {p : Prog R A} {P Q : A → Prop} (h : Safe rely guar Q p)
    (hp : Returns p P) : Safe rely guar (fun a => Q a ∧ P a) p := by
  induction p with
  | done a => exact ⟨h, hp _ _ (.done a)⟩
  | call e k ih => exact ⟨h.1, fun r hr => ih r (h.2 r hr) fun tr a hx => hp _ a (.call r hx)⟩

theorem Safe.weaken {rely' : Obs R → Prop} {guar' : E → Prop} {p : Prog R A} {Q : A → Prop}
    (h : Safe rely guar Q p) (hr : ∀ o, rely' o → rely o) (hg : ∀ e, guar e → guar' e) :
    Safe rely' guar' Q p := by
  induction p with
  | done a => exact h
  | call e k ih => exact ⟨hg e h.1, fun r hr' => ih r (h.2 r (hr _ hr'))⟩

theorem Returns.safe {p : Prog R A} {P : A → Prop} (h : Returns p P) :
    Safe rely (fun _ => True) P p := by
  induction p with
  | done a => exact h _ _ (.done a)
  | call e k ih => exact ⟨trivial, fun r _ => ih r fun tr a hx => h _ a (.call r hx)⟩

theorem Safe.ensures {p : Prog R A} {Q : A → Prop} (h : Safe rely guar Q p) :
    Ensures p fun tr a => (∀ o ∈ tr, rely o) → (∀ o ∈ tr, guar o.call) ∧ Q a := by
  intro tr a hx
  induction hx with
  | done a => exact fun _ => ⟨nofun, h⟩
  | call r _ ih =>
    intro hr
    rw [List.forall_mem_cons] at hr
    obtain ⟨hg, hq⟩ := ih (h.2 r hr.1) hr.2
    exact ⟨List.forall_mem_cons.mpr ⟨h.1, hg⟩, hq⟩

end Safe

/-! ### Programs inside programs -/

section Embed

variable {E' : Type} {R' : E' → Type} {f : E → E'} {back : (e : E) → R' (f e) → R e}

/-- The calls of `p` are calls of a program with more of them. -/
def Prog.embed (f : E → E') (back : (e : E) → R' (f e) → R e) : Prog R A → Prog R' A
  | .done a => .done a
  | .call e k => .call (f e) fun r => (k (back e r)).embed f back

theorem Safe.embed {rely : Obs R → Prop} {rely' : Obs R' → Prop} {guar : E → Prop}
    {guar' : E' → Prop} {p : Prog R A} {Q : A → Prop} (h : Safe rely guar Q p)
    (hr : ∀ e r, rely' ⟨f e, r⟩ → rely ⟨e, back e r⟩) (hg : ∀ e, guar e → guar' (f e)) :
    Safe rely' guar' Q (p.embed f back) := by
  induction p with
  | done a => exact h
  | call e k ih => exact ⟨hg e h.1, fun r hr' => ih _ (h.2 _ (hr e r hr'))⟩

end Embed

/-! ### Environments with a state -/

inductive Accepts {σ : Type} (env : σ → Obs R → σ → Prop) : σ → List (Obs R) → σ → Prop where
  | nil (s : σ) : Accepts env s [] s
  | cons {s t u : σ} {o : Obs R} {tr : List (Obs R)} :
      env s o t → Accepts env t tr u → Accepts env s (o :: tr) u

section Under

variable {σ : Type} {env : σ → Obs R → σ → Prop}

theorem accepts_nil {s t : σ} : Accepts env s [] t ↔ t = s := by
  constructor
  · rintro ⟨⟩
    rfl
  · rintro rfl
    exact .nil t

theorem accepts_cons {s u : σ} {o : Obs R} {tr : List (Obs R)} :
    Accepts env s (o :: tr) u ↔ ∃ t, env s o t ∧ Accepts env t tr u := by
  constructor
  · rintro ⟨⟩
    exact ⟨_, by assumption, by assumption⟩
  · rintro ⟨t, h, ht⟩
    exact .cons h ht

theorem accepts_append {s u : σ} {tr tr' : List (Obs R)} :
    Accepts env s (tr ++ tr') u ↔ ∃ t, Accepts env s tr t ∧ Accepts env t tr' u := by
  induction tr generalizing s with
  | nil => simp [accepts_nil]
  | cons o tr ih =>
    simp only [List.cons_append, accepts_cons, ih]
    constructor
    · rintro ⟨v, hv, t, ht, hu⟩
      exact ⟨t, ⟨v, hv, ht⟩, hu⟩
    · rintro ⟨t, ⟨v, hv, ht⟩, hu⟩
      exact ⟨v, hv, t, ht, hu⟩

theorem Accepts.le {T : Type} [Preorder T] {f : σ → T} {s t : σ} {tr : List (Obs R)}
    (h : Accepts env s tr t) (hle : ∀ s o t, env s o t → f s ≤ f t) : f s ≤ f t := by
  induction h with
  | nil => exact le_rfl
  | cons ho _ ih => exact (hle _ _ _ ho).trans ih

theorem Accepts.and {P : Obs R → Prop} {s t : σ} {tr : List (Obs R)} (h : Accepts env s tr t)
    (hall : ∀ o ∈ tr, P o) : Accepts (fun s o t => env s o t ∧ P o) s tr t := by
  induction h with
  | nil => exact .nil _
  | cons ho _ ih =>
    rw [List.forall_mem_cons] at hall
    exact .cons ⟨ho, hall.1⟩ (ih hall.2)

theorem Accepts.mono {env' : σ → Obs R → σ → Prop} {s t : σ} {tr : List (Obs R)}
    (h : Accepts env s tr t) (he : ∀ s o t, env s o t → env' s o t) : Accepts env' s tr t := by
  induction h with
  | nil => exact .nil _
  | cons ho _ ih => exact .cons (he _ _ _ ho) ih

def runEnv (f : σ → Obs R → Option σ) : σ → List (Obs R) → Option σ
  | s, [] => some s
  | s, o :: tr =>
    match f s o with
    | none => none
    | some t => runEnv f t tr

theorem accepts_of_runEnv {f : σ → Obs R → Option σ} {s u : σ} {tr : List (Obs R)}
    (hf : ∀ s o t, f s o = some t → env s o t) (h : runEnv f s tr = some u) :
    Accepts env s tr u := by
  induction tr generalizing s with
  | nil =>
    cases h
    exact .nil _
  | cons o tr ih =>
    simp only [runEnv] at h
    split at h
    · cases h
    · rename_i t ht
      exact .cons (hf s o t ht) (ih h)

/-- Answered by `env` from its state `s`, every execution of `p` ends in a state
of the environment and a result that satisfy `Q`. -/
def Under (env : σ → Obs R → σ → Prop) (s : σ) (p : Prog R A) (Q : σ → A → Prop) : Prop :=
  ∀ tr a t, Exec p tr a → Accepts env s tr t → Q t a

@[simp] theorem under_pure {s : σ} {a : A} {Q : σ → A → Prop} :
    Under env s (pure a) Q ↔ Q s a := by
  constructor
  · exact fun h => h _ _ _ (.done a) (.nil s)
  · intro h tr b t hb ht
    obtain ⟨rfl, rfl⟩ := exec_done.mp hb
    rw [accepts_nil.mp ht]
    exact h

@[simp] theorem under_perform {s : σ} {e : E} {Q : σ → R e → Prop} :
    Under env s (perform e) Q ↔ ∀ r t, env s ⟨e, r⟩ t → Q t r := by
  constructor
  · exact fun h r t ht => h _ _ _ (.call r (.done r)) (.cons ht (.nil t))
  · intro h tr a t ha ht
    cases ha with
    | call r hr =>
      obtain ⟨rfl, rfl⟩ := exec_done.mp hr
      obtain ⟨u, hu, hut⟩ := accepts_cons.mp ht
      rw [accepts_nil.mp hut]
      exact h _ _ hu

@[simp] theorem under_bind {s : σ} {p : Prog R A} {f : A → Prog R B} {Q : σ → B → Prop} :
    Under env s (p >>= f) Q ↔ Under env s p fun t a => Under env t (f a) Q := by
  constructor
  · intro h tr a t ha ht tr' b u hb hu
    exact h _ _ _ (exec_bind.mpr ⟨tr, a, tr', ha, hb, rfl⟩) (accepts_append.mpr ⟨t, ht, hu⟩)
  · intro h tr b u hb hu
    obtain ⟨tr₁, a, tr₂, h₁, h₂, rfl⟩ := exec_bind.mp hb
    obtain ⟨t, ht, hu⟩ := accepts_append.mp hu
    exact h _ _ _ h₁ ht _ _ _ h₂ hu

theorem Under.mono {s : σ} {p : Prog R A} {Q Q' : σ → A → Prop} (h : Under env s p Q)
    (hq : ∀ t a, Q t a → Q' t a) : Under env s p Q' :=
  fun tr a t ha ht => hq t a (h tr a t ha ht)

theorem Safe.under_kept {I : σ → Prop} {guar : E → Prop} {p : Prog R A} {Q : A → Prop} {s : σ}
    (h : Safe (fun _ => True) guar Q p) (hkept : ∀ s o t, guar o.call → env s o t → I s → I t)
    (hs : I s) : Under env s p fun t a => I t ∧ Q a := by
  intro tr a t ha ht
  obtain ⟨hg, hq⟩ := h.ensures tr a ha fun _ _ => trivial
  refine ⟨?_, hq⟩
  clear ha
  induction ht with
  | nil => exact hs
  | cons ho _ ih =>
    rw [List.forall_mem_cons] at hg
    exact ih (hkept _ _ _ hg.1 ho hs) hg.2

end Under

/-! ### Rely and guarantee with a state -/

/-- Every call made satisfies `guar` in the state of the environment then. It
speaks of unfinished runs too: what is left of a program after some replies is
`SafeFrom` the state reached. -/
def SafeFrom {σ : Type} (env : σ → Obs R → σ → Prop) (guar : σ → E → Prop)
    (Q : σ → A → Prop) : Prog R A → σ → Prop
  | .done a, s => Q s a
  | .call e k, s => guar s e ∧ ∀ r t, env s ⟨e, r⟩ t → SafeFrom env guar Q (k r) t

section SafeFrom

variable {σ : Type} {env : σ → Obs R → σ → Prop} {guar : σ → E → Prop}

@[simp] theorem safeFrom_pure {s : σ} {a : A} {Q : σ → A → Prop} :
    SafeFrom env guar Q (pure a) s ↔ Q s a := Iff.rfl

@[simp] theorem safeFrom_perform {s : σ} {e : E} {Q : σ → R e → Prop} :
    SafeFrom env guar Q (perform e) s ↔ guar s e ∧ ∀ r t, env s ⟨e, r⟩ t → Q t r := Iff.rfl

@[simp] theorem safeFrom_bind {s : σ} {p : Prog R A} {f : A → Prog R B} {Q : σ → B → Prop} :
    SafeFrom env guar Q (p >>= f) s ↔
      SafeFrom env guar (fun t a => SafeFrom env guar Q (f a) t) p s := by
  induction p generalizing s with
  | done a => exact Iff.rfl
  | call e k ih =>
    rw [bind_call]
    simp only [SafeFrom, ih]

theorem SafeFrom.mono {s : σ} {p : Prog R A} {Q Q' : σ → A → Prop}
    (h : SafeFrom env guar Q p s) (hq : ∀ t a, Q t a → Q' t a) : SafeFrom env guar Q' p s := by
  induction p generalizing s with
  | done a => exact hq s a h
  | call e k ih => exact ⟨h.1, fun r t ht => ih r (h.2 r t ht)⟩

theorem SafeFrom.under {s : σ} {p : Prog R A} {Q : σ → A → Prop}
    (h : SafeFrom env guar Q p s) : Under env s p Q := by
  intro tr a t ha ht
  induction ha generalizing s with
  | done a =>
    rw [accepts_nil.mp ht]
    exact h
  | call r _ ih =>
    obtain ⟨u, hu, hut⟩ := accepts_cons.mp ht
    exact ih (h.2 r u hu) hut

/-- Calls that the environment answers without changing its state. -/
theorem Safe.safeFrom {rely : Obs R → Prop} {aside : E → Prop} {s : σ} {p : Prog R A}
    {P : A → Prop} (h : Safe rely aside P p)
    (hkept : ∀ o t, aside o.call → env s o t → t = s ∧ rely o) (hguar : ∀ e, aside e → guar s e) :
    SafeFrom env guar (fun t a => t = s ∧ P a) p s := by
  induction p with
  | done a => exact ⟨rfl, h⟩
  | call e k ih =>
    refine ⟨hguar e h.1, fun r t ht => ?_⟩
    obtain ⟨rfl, hr⟩ := hkept ⟨e, r⟩ t h.1 ht
    exact ih r (h.2 r hr)

/-- Calls that change the state of the environment along a preorder only. -/
theorem Safe.safeFrom_le {rely : Obs R → Prop} {aside : E → Prop} {le : σ → σ → Prop} {s : σ}
    {p : Prog R A} {P : A → Prop} (h : Safe rely aside P p) (hrefl : ∀ t, le t t)
    (htrans : ∀ t u v, le t u → le u v → le t v)
    (hkept : ∀ t o u, aside o.call → env t o u → le t u ∧ rely o)
    (hguar : ∀ t e, le s t → aside e → guar t e) :
    SafeFrom env guar (fun t a => le s t ∧ P a) p s := by
  induction p generalizing s with
  | done a => exact ⟨hrefl s, h⟩
  | call e k ih =>
    refine ⟨hguar s e (hrefl s) h.1, fun r t ht => ?_⟩
    obtain ⟨hle, hr⟩ := hkept s ⟨e, r⟩ t h.1 ht
    have hrest := ih r (h.2 r hr) fun u e' hu => hguar u e' (htrans s t u hle hu)
    exact hrest.mono fun u a hu => ⟨htrans s t u hle hu.1, hu.2⟩

end SafeFrom

end LeadLag.Interaction
