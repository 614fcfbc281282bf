import LeadLag.Execution.Clock
import LeadLag.Runner.HotUpdate
import LeadLag.Runner.Replay

/-!
# The cooldown after a failed order

Every failure branch of `execute_due` sets `cooldown_until_ns`; nothing reads
it. The cooldown is kept in the runs in which no order falls due before it ends.
-/

namespace LeadLag.Orders
open LeadLag.Execution LeadLag.Interaction LeadLag.Runner

theorem scheduled_cooldown {cfg : Config} {v : HotView} {t : Theo} {now : ℤ} {c c₁ : Consumer}
    (h : Scheduled cfg v t now c c₁) :
    c₁.paper.cooldownUntilNs = c.paper.cooldownUntilNs := by
  cases h <;> rfl

/-! ### What sets the cooldown -/

/-- It keeps its value `k` or is later than some reading of the clock. -/
def Armed (k : ℤ) (tr : Trace) (c : Consumer) : Prop :=
  c.paper.cooldownUntilNs = k ∨ ∃ r, (⟨.steadyNs, r⟩ : Obs Reply) ∈ tr ∧ r ≤ c.paper.cooldownUntilNs

theorem Armed.append {k : ℤ} {tr : Trace} {c : Consumer} (h : Armed k tr c) (tr₀ : Trace) :
    Armed k (tr₀ ++ tr) c := by
  rcases h with h | ⟨r, hr, hle⟩
  · exact .inl h
  · exact .inr ⟨r, List.mem_append_right tr₀ hr, hle⟩

section Armed

variable {M : Libm} {cfg : Config} {v : HotView} {t : Theo} {c : Consumer} {k : ℤ} {A : Type}

theorem ensures_armed_bind {p : Prog A} {f : A → Prog Consumer}
    (h : ∀ a, Ensures (f a) (Armed k)) : Ensures (p >>= f) (Armed k) :=
  ensures_bind.mpr fun tr a _ => (h a).mono fun _ _ ha => ha.append tr

theorem ensures_armed_kept {c' : Consumer} (h : c'.paper.cooldownUntilNs = k) :
    Ensures (pure c') (Armed k) := ensures_pure.mpr (.inl h)

theorem failOrder_armed {ns : ℤ} (hns : 0 ≤ ns) : Ensures (failOrder ns c) (Armed k) := by
  simp only [failOrder, ensures_bind, steadyNs, ensures_perform, ensures_pure]
  intro (r : ℤ)
  exact .inr ⟨r, by simp, le_add_of_nonneg_right hns⟩

theorem kCooldownNs_nonneg : 0 ≤ kCooldownNs := by decide
theorem kStopRetryNs_nonneg : 0 ≤ kStopRetryNs := by decide

theorem failedBuy_armed {p : Prog Consumer} (h : Ensures p (Armed k)) :
    Ensures (do
      let c ← p
      pure (Except.error c : Except Consumer LiveMarketBuyFill)) fun tr r =>
        ∀ c', r = .error c' → Armed k tr c' := by
  refine ensures_bind.mpr (h.mono fun tr c' hc => ensures_pure.mpr fun c'' heq => ?_)
  cases heq
  rw [List.append_nil]
  exact hc

theorem liveBuy_armed {slug : String} {plan : BuyPlan} {now : ℤ} :
    Ensures (liveBuy cfg slug plan now c) fun tr r => ∀ c', r = .error c' → Armed k tr c' := by
  have grow {B : Type} {p : Prog B} {f : B → Prog (Except Consumer LiveMarketBuyFill)}
      (h : ∀ b, Ensures (f b) fun tr r => ∀ c', r = .error c' → Armed k tr c') :
      Ensures (p >>= f) fun tr r => ∀ c', r = .error c' → Armed k tr c' :=
    ensures_bind.mpr fun tr b _ => (h b).mono fun _ _ hr c' hc => (hr c' hc).append tr
  have failed (c₁ : Consumer) := failedBuy_armed (failOrder_armed (c := c₁) (k := k)
    kCooldownNs_nonneg)
  refine grow fun tok => grow fun bal => ?_
  cases bal with
  | error err => exact failed _
  | ok balBefore =>
    refine grow fun resp => ?_
    cases resp with
    | error err => exact failed _
    | ok resp =>
      refine grow fun fill => ?_
      cases fill with
      | error err => exact failed _
      | ok fill => exact ensures_pure.mpr fun _ h => by cases h

theorem executeBuy_armed {now : ℤ} :
    Ensures (executeBuy cfg v t now c) (Armed c.paper.cooldownUntilNs) := by
  unfold executeBuy
  split
  · exact ensures_armed_kept rfl
  · split
    · exact ensures_armed_kept rfl
    · exact ensures_armed_kept rfl
    · rename_i plan _
      have fill : Ensures (buyFill cfg v.slug plan now c) fun tr r =>
          ∀ c', r = .error c' → Armed c.paper.cooldownUntilNs tr c' := by
        unfold buyFill
        split
        · exact liveBuy_armed
        · exact ensures_pure.mpr fun _ h => by cases h
      refine ensures_bind.mpr (fill.mono fun tr r hr => ?_)
      cases r with
      | error c' =>
        refine ensures_pure.mpr ?_
        rw [List.append_nil]
        exact hr c' rfl
      | ok fill =>
        have booked : Ensures (do
            let tok ← tokenId c.paper.pendingOutcome
            pure (c.opened cfg v t plan fill tok)) (Armed c.paper.cooldownUntilNs) :=
          ensures_armed_bind fun tok => ensures_armed_kept rfl
        exact booked.mono fun _ _ h => h.append tr

theorem liveSell_armed {now : ℤ} :
    Ensures (liveSell cfg v t now c) (Armed c.paper.cooldownUntilNs) := by
  have failed (c₁ : Consumer) := failOrder_armed (c := c₁) (k := c.paper.cooldownUntilNs)
    kCooldownNs_nonneg
  refine ensures_armed_bind fun bal => ?_
  cases bal with
  | error err => exact failed _
  | ok clobBalance =>
    dsimp only
    split
    · split
      · exact ensures_armed_kept rfl
      · exact failed _
    · split
      · refine ensures_armed_bind fun r => ?_
        split
        · exact ensures_armed_kept rfl
        · exact failOrder_armed kStopRetryNs_nonneg
      · refine ensures_armed_bind fun resp => ?_
        cases resp with
        | error err => exact failed _
        | ok _ => exact ensures_armed_kept rfl

theorem executeSell_armed {now : ℤ} :
    Ensures (executeSell cfg v t now c) (Armed c.paper.cooldownUntilNs) := by
  unfold executeSell
  dsimp only
  split
  · exact ensures_armed_kept rfl
  · split
    · exact liveSell_armed
    · split
      · exact ensures_armed_kept rfl
      · exact ensures_armed_kept rfl

theorem executeDueAt_armed {now : ℤ} :
    Ensures (executeDueAt M cfg now c) (Armed c.paper.cooldownUntilNs) := by
  unfold executeDueAt
  split
  · exact ensures_armed_kept rfl
  · split
    · exact ensures_armed_kept rfl
    · split
      · exact executeBuy_armed
      · split
        · exact executeSell_armed
        · exact ensures_armed_kept rfl

end Armed

/-! ### One hot update -/

def timedRunner (M : Libm) (cfg : Config) : Lts (Consumer × ℤ) Label :=
  runnerIn M cfg (fun _ => True) clock

/-- The steps allowed: when `execute_due` reads the clock before the cooldown
ends, no order is due. -/
def waitsOut (M : Libm) (cfg : Config) (x : Consumer × ℤ) : Label → Bool
  | .update (⟨.steadyNs, r₁⟩ :: ⟨.steadyNs, r₂⟩ :: _) =>
    decide (x.1.paper.cooldownUntilNs ≤ r₂) ||
      (!orderDueOn M cfg x.1 r₁ r₂ .up && !orderDueOn M cfg x.1 r₁ r₂ .down)
  | _ => true

def patientRunner (M : Libm) (cfg : Config) : Lts (Consumer × ℤ) Label :=
  (timedRunner M cfg).restrict fun x l => waitsOut M cfg x l = true

section Update

variable {M : Libm} {cfg : Config} {c c' : Consumer} {t t' : ℤ} {tr : Trace}

theorem waitsOut_spec {r₁ r₂ : ℤ} {rest : Trace} {o : Outcome}
    (hw : waitsOut M cfg (c, t) (.update (⟨.steadyNs, r₁⟩ :: ⟨.steadyNs, r₂⟩ :: rest)) = true)
    (hd : orderDueOn M cfg c r₁ r₂ o = true) : c.paper.cooldownUntilNs ≤ r₂ := by
  by_contra hlt
  simp only [waitsOut, Bool.or_eq_true, decide_eq_true_eq, hlt, false_or, Bool.and_eq_true,
    Bool.not_eq_true'] at hw
  cases o with
  | up => simp [hw.1] at hd
  | down => simp [hw.2] at hd

theorem executeDueAt_waits {now : ℤ} (hover : c.paper.cooldownUntilNs ≤ t)
    (hacc : Accepts clock t tr t') (h : Exec (executeDueAt M cfg now c) tr c') :
    c.paper.cooldownUntilNs ≤ c'.paper.cooldownUntilNs ∧
      ∀ u, SubmitsAt t tr t' u → c.paper.cooldownUntilNs ≤ u := by
  constructor
  · rcases executeDueAt_armed _ _ h with hkept | ⟨r, hr, hle⟩
    · exact hkept.ge
    · have hread : t ≤ r := reading_ge hacc hr
      exact (hover.trans hread).trans hle
  · intro u hu
    exact hover.trans hu.ge

theorem update_waits (hacc : Accepts clock t tr t')
    (hw : waitsOut M cfg (c, t) (.update tr) = true)
    (h : Exec (c.updateDone.onHotUpdate M cfg) tr c') :
    c.paper.cooldownUntilNs ≤ c'.paper.cooldownUntilNs ∧
      ∀ u, SubmitsAt t tr t' u → c.paper.cooldownUntilNs ≤ u := by
  rcases onHotUpdate_due h with ⟨hno, hc'⟩ | ⟨v, r₁, r₂, rest, c₁, hs, -, hd, rfl, hx⟩
  · constructor
    · rcases hc' with rfl | ⟨v, theo, now, hs⟩
      · exact le_rfl
      · exact (scheduled_cooldown hs).ge
    · intro u hu
      obtain ⟨oi, resp, hm⟩ := hu.mem
      exact absurd hm (hno oi resp)
  · have hcool : c₁.paper.cooldownUntilNs = c.paper.cooldownUntilNs :=
      scheduled_cooldown (c := c.updateDone) hs
    have hover : c₁.paper.cooldownUntilNs ≤ r₂ := by
      rw [hcool]
      exact waitsOut_spec hw hd
    have clockCall (r : ℤ) (oi : OrderIntent) (resp : Except String SubmitResp) :
        (⟨.steadyNs, r⟩ : Obs Reply) ≠ ⟨.submit oi, resp⟩ := nofun
    obtain ⟨t₁, -, hacc⟩ := accepts_cons.mp hacc
    obtain ⟨t₂, h₂, hacc⟩ := accepts_cons.mp hacc
    obtain rfl : r₂ = t₂ := h₂.2 r₂ rfl
    obtain ⟨hgrow, hsubmit⟩ := executeDueAt_waits hover hacc hx
    rw [← hcool]
    refine ⟨hgrow, fun u hu => ?_⟩
    obtain ⟨s₁, -, hu⟩ := hu.tail (clockCall r₁)
    obtain ⟨s₂, hs₂, hu⟩ := hu.tail (clockCall r₂)
    obtain rfl : r₂ = s₂ := hs₂.2 r₂ rfl
    exact hsubmit u hu

end Update

/-! ### Runs -/

theorem taken_cooldown {cfg : Config} {c c' : Consumer} {e : Event} (h : Taken cfg c e c') :
    c'.paper.cooldownUntilNs = c.paper.cooldownUntilNs := by
  cases h with
  | spot | quote | idle | startup => rfl
  | rollover ev c₁ hf => cases hf <;> rfl

theorem cooldown_mono {M : Libm} {cfg : Config} {x y : Consumer × ℤ} {ls : List Label}
    (h : (patientRunner M cfg).Run x ls y) :
    x.1.paper.cooldownUntilNs ≤ y.1.paper.cooldownUntilNs := by
  induction h with
  | nil => exact le_rfl
  | snoc _ hst ih =>
    refine ih.trans ?_
    obtain ⟨⟨hstep, hacc⟩, hw⟩ := hst
    cases hstep with
    | event _ _ he => exact (taken_cooldown (take_taken M cfg _ _ _ _ he)).ge
    | update _ he => exact (update_waits hacc hw he).1

/-- In runs in which no order falls due during a cooldown: from the state `x` in
which a failure has left `cooldown_until_ns`, however the run goes on, no hot
update submits an order before that time. -/
theorem no_submit_during_cooldown {M : Libm} {cfg : Config} {x y z : Consumer × ℤ}
    {ls : List Label} {tr : Trace} {u : ℤ}
    (hrun : (patientRunner M cfg).Run x ls y) (hstep : (patientRunner M cfg).step y (.update tr) z)
    (hu : SubmitsAt y.2 tr z.2 u) : x.1.paper.cooldownUntilNs ≤ u := by
  obtain ⟨⟨hst, hacc⟩, hw⟩ := hstep
  cases hst with
  | update _ he => exact (cooldown_mono hrun).trans ((update_waits hacc hw he).2 u hu)

/-! ### Two runs -/

def firstSubmit (t : ℤ) : Trace → Option ℤ
  | [] => none
  | o :: tr =>
    match o with
    | ⟨.submit _, _⟩ => some t
    | o => (tick t o).bind fun t' => firstSubmit t' tr

theorem submitsAt_firstSubmit {t t' u : ℤ} {tr : Trace} (hrun : runEnv tick t tr = some t')
    (h : firstSubmit t tr = some u) : SubmitsAt t tr t' u := by
  induction tr generalizing t with
  | nil => cases h
  | cons o tr ih =>
    simp only [runEnv] at hrun
    split at hrun
    · cases hrun
    · rename_i t₁ ht
      unfold firstSubmit at h
      split at h
      · cases h
        have htt : t₁ = u := by simpa [tick] using ht.symm
        exact ⟨[], _, _, tr, u, rfl, .nil u, tick_clock _ _ _ rfl,
          accepts_of_runEnv tick_clock (htt ▸ hrun)⟩
      · rw [ht, Option.bind_some] at h
        obtain ⟨tr₁, oi, resp, tr₂, s, rfl, h₁, hu, h₂⟩ := ih hrun h
        exact ⟨o :: tr₁, oi, resp, tr₂, s, rfl, .cons (tick_clock _ _ _ ht) h₁, hu, h₂⟩

def submitsNext (M : Libm) (cfg : Config) (check : Consumer × ℤ → Label → Bool) (e : Event)
    (script : Script) (P : Consumer → ℤ → Bool) (x : Consumer × ℤ) : Bool :=
  (replayUpdate M cfg tick check x e script).any fun (y, tr, z) =>
    decide (runEnv tick y.2 tr = some z.2) && (firstSubmit y.2 tr).any (P x.1)

theorem submitsNext_spec {M : Libm} {cfg : Config} {check : Consumer × ℤ → Label → Bool}
    {e : Event} {script : Script} {P : Consumer → ℤ → Bool} {x : Consumer × ℤ}
    (h : submitsNext M cfg check e script P x = true) :
    ∃ ls y tr z u,
      ((timedRunner M cfg).restrict fun x l => check x l = true).Run x ls y ∧
      ((timedRunner M cfg).restrict fun x l => check x l = true).step y (.update tr) z ∧
      SubmitsAt y.2 tr z.2 u ∧ P x.1 u = true := by
  obtain ⟨⟨y, tr, z⟩, hup, hP⟩ := (Option.any_eq_true _ _).mp h
  simp only [Bool.and_eq_true, decide_eq_true_eq, Option.any_eq_true] at hP
  obtain ⟨hrun, u, hu, hPu⟩ := hP
  obtain ⟨⟨tr₀, hstep₀⟩, hstep⟩ := replayUpdate_steps (fun _ => True) clock tick_clock hup
  exact ⟨_, y, tr, z, u, .snoc .nil hstep₀, hstep, submitsAt_firstSubmit hrun hu, hPu⟩

def rejecting (now : ℤ) : Answers := { paperAnswers with now := now, balance := fun _ => .ok 0 }

def askAgain : Event := upQuote "up-300" "btc-300" 300 (78 / 100) (8 / 10)

theorem patient_retry :
    ∃ x y z ls tr u, (patientRunner coarse quickLive).Run x ls y ∧
      (patientRunner coarse quickLive).step y (.update tr) z ∧ SubmitsAt y.2 tr z.2 u ∧
      x.1.paper.cooldownUntilNs = kCooldownNs ∧ x.1.paper.cooldownUntilNs ≤ u := by
  obtain ⟨x, -, hx⟩ := exists_in_environment coarse quickLive (fun _ => True) clock
    (waitsOut coarse quickLive) (s := 0) (signalUp (rejecting 0))
    (submitsNext coarse quickLive (waitsOut coarse quickLive) askAgain
      (rejecting 10000000000).script fun c _ => c.paper.cooldownUntilNs = kCooldownNs)
    tick_clock trivial (by decide +kernel)
  obtain ⟨ls, y, tr, z, u, hrun, hstep, hu, hcool⟩ := submitsNext_spec hx
  exact ⟨x, y, z, ls, tr, u, hrun, hstep, hu, by simpa using hcool,
    no_submit_during_cooldown hrun hstep hu⟩

theorem submit_during_cooldown :
    ∃ x y z ls tr u, (timedRunner coarse quickLive).Reachable x ∧
      (timedRunner coarse quickLive).Run x ls y ∧
      (timedRunner coarse quickLive).step y (.update tr) z ∧ SubmitsAt y.2 tr z.2 u ∧
      u < x.1.paper.cooldownUntilNs := by
  obtain ⟨x, hr, hx⟩ := exists_in_environment coarse quickLive (fun _ => True) clock
    (fun _ _ => true) (s := 0) (signalUp (rejecting 0))
    (submitsNext coarse quickLive (fun _ _ => true) askAgain (rejecting 1).script
      fun c u => decide (u < c.paper.cooldownUntilNs))
    tick_clock trivial (by decide +kernel)
  obtain ⟨ls, y, tr, z, u, hrun, hstep, hu, hlt⟩ := submitsNext_spec hx
  exact ⟨x, y, z, ls, tr, u, hr.of_restrict, hrun.of_restrict, hstep.1, hu, by simpa using hlt⟩

end LeadLag.Orders
