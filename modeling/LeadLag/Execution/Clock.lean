import LeadLag.Execution.Calls

/-!
# The clocks as environments

The state is the time of the last call, in nanoseconds of the steady clock or
milliseconds of the wall clock. Calls are made in the order of time and a clock
reading replies with the moment it is made.
-/

namespace LeadLag.Execution
open LeadLag.Interaction

def clock (t : ℤ) (o : Obs Reply) (t' : ℤ) : Prop :=
  t ≤ t' ∧ ∀ r : ℤ, o = ⟨.steadyNs, r⟩ → r = t'

def tick (t : ℤ) : Obs Reply → Option ℤ
  | ⟨.steadyNs, r⟩ => if t ≤ r then some r else none
  | _ => some t

theorem tick_clock (t : ℤ) (o : Obs Reply) (t' : ℤ) (h : tick t o = some t') : clock t o t' := by
  unfold tick at h
  split at h
  · rename_i r
    split at h
    · rename_i hle
      cases h
      exact ⟨hle, fun _ hr => by cases hr; rfl⟩
    · cases h
  · rename_i hne
    cases h
    exact ⟨le_rfl, fun r hr => absurd hr (hne r)⟩

theorem clock_le {t t' : ℤ} {tr : Trace} (h : Accepts clock t tr t') : t ≤ t' :=
  Accepts.le (f := id) h fun _ _ _ ho => ho.1

theorem reading_ge {t t' r : ℤ} {tr : Trace} (h : Accepts clock t tr t')
    (hr : (⟨.steadyNs, r⟩ : Obs Reply) ∈ tr) : t ≤ r := by
  induction h with
  | nil => cases hr
  | cons ho _ ih =>
    rcases List.mem_cons.mp hr with h | h
    · rw [ho.2 r h.symm]
      exact ho.1
    · exact ho.1.trans (ih h)

/-- Between `t` and `t'` the calls `tr` include an order submitted at `u`. -/
def SubmitsAt (t : ℤ) (tr : Trace) (t' u : ℤ) : Prop :=
  ∃ tr₁ oi resp tr₂ t₁, tr = tr₁ ++ ⟨.submit oi, resp⟩ :: tr₂ ∧ Accepts clock t tr₁ t₁ ∧
    clock t₁ ⟨.submit oi, resp⟩ u ∧ Accepts clock u tr₂ t'

theorem SubmitsAt.ge {t t' u : ℤ} {tr : Trace} (h : SubmitsAt t tr t' u) : t ≤ u := by
  obtain ⟨_, _, _, _, _, _, h₁, hu, _⟩ := h
  exact (clock_le h₁).trans hu.1

theorem SubmitsAt.mem {t t' u : ℤ} {tr : Trace} (h : SubmitsAt t tr t' u) :
    ∃ oi resp, (⟨.submit oi, resp⟩ : Obs Reply) ∈ tr := by
  obtain ⟨tr₁, oi, resp, tr₂, t₁, rfl, -⟩ := h
  exact ⟨oi, resp, List.mem_append_right tr₁ List.mem_cons_self⟩

theorem SubmitsAt.tail {t t' u : ℤ} {o : Obs Reply} {tr : Trace}
    (h : SubmitsAt t (o :: tr) t' u) (ho : ∀ oi resp, o ≠ ⟨.submit oi, resp⟩) :
    ∃ t₁, clock t o t₁ ∧ SubmitsAt t₁ tr t' u := by
  obtain ⟨tr₁, oi, resp, tr₂, t₁, heq, h₁, hu, h₂⟩ := h
  cases tr₁ with
  | nil => exact absurd (List.cons.inj heq).1 (ho oi resp)
  | cons o' tr₁ =>
    obtain ⟨rfl, rfl⟩ := List.cons.inj heq
    obtain ⟨t₀, ht₀, h₁⟩ := accepts_cons.mp h₁
    exact ⟨t₀, ht₀, tr₁, oi, resp, tr₂, t₁, rfl, h₁, hu, h₂⟩

/-! ### The wall clock -/

def wallClock (t : ℤ) (o : Obs Reply) (t' : ℤ) : Prop :=
  t ≤ t' ∧ ∀ w : ℤ, o = ⟨.systemMs, w⟩ → w = t'

/-- Both clocks count from the same moment. -/
def wallTick (t : ℤ) : Obs Reply → Option ℤ
  | ⟨.systemMs, w⟩ => if t ≤ w then some w else none
  | ⟨.steadyNs, r⟩ => some (max t (r / 1000000))
  | _ => some t

theorem wallTick_wallClock (t : ℤ) (o : Obs Reply) (t' : ℤ) (h : wallTick t o = some t') :
    wallClock t o t' := by
  unfold wallTick at h
  split at h
  · rename_i w
    split at h
    · rename_i hle
      cases h
      exact ⟨hle, fun _ hw => by cases hw; rfl⟩
    · cases h
  · cases h
    exact ⟨le_max_left _ _, nofun⟩
  · rename_i hne _
    cases h
    exact ⟨le_rfl, fun w hw => absurd hw (hne w)⟩

theorem wallClock_le {t t' : ℤ} {tr : Trace} (h : Accepts wallClock t tr t') : t ≤ t' :=
  Accepts.le (f := id) h fun _ _ _ ho => ho.1

end LeadLag.Execution
