import LeadLag.Runner.Replay
import LeadLag.Runner.Ticks

/-!
# The persistence of an edge

`edge_up_ok_since_mono_ns` and its sibling hold the clock reading at which the
edge of a side appeared. `schedule` brings them up to date only where it does
not return early. While an order is pending it does, so an edge that is lost and
regained meanwhile looks uninterrupted. A BUY has waited for its edge in the
runs in which no armed side loses its edge while an order is pending.
-/

namespace LeadLag.Orders
open LeadLag.Execution LeadLag.Interaction LeadLag.Runner

/-! ### The timers -/

@[simp] theorem edgeOkSince_withEdges (h : HotState) (up down : ℤ) (o : Outcome) :
    (h.withEdges up down).edgeOkSinceMonoNs o = match o with
      | .up => up
      | .down => down := by
  cases o <;> rfl

theorem placeBuy_hot (cfg : Config) (v : HotView) (now : ℤ) (c : Consumer) (o : Outcome) :
    (placeBuy cfg v now c o).hot = c.hot := by
  unfold placeBuy
  split <;> rfl

theorem scheduleEntry_since {cfg : Config} {v : HotView} {t : Theo} {now : ℤ} {c : Consumer}
    (hen : c.tradingEnabled = true) (o : Outcome) :
    (scheduleEntry cfg v t now c).hot.edgeOkSinceMonoNs o =
      edgeSince (edgeRaw cfg (t.of o) (v.book o).bestAsk) (c.hot.edgeOkSinceMonoNs o) now := by
  unfold scheduleEntry
  simp only [hen, Bool.not_true, Bool.false_eq_true, if_false]
  split
  · cases o <;> rfl
  · rw [placeBuy_hot]
    cases o <;> rfl

theorem scheduleExit_hot (cfg : Config) (v : HotView) (t : Theo) (now : ℤ) (c : Consumer) :
    (scheduleExit cfg v t now c).hot = c.hot := by
  unfold scheduleExit
  dsimp only
  split <;> rfl

/-- What `schedule` makes of the timer of a side. -/
theorem scheduleAt_since (cfg : Config) (v : HotView) (t : Theo) (now : ℤ) {c : Consumer}
    (hen : c.tradingEnabled = true) (o : Outcome) :
    (scheduleAt cfg v t now c).hot.edgeOkSinceMonoNs o =
      if c.paper.pending = true ∨ c.paper.riskStop = true then c.hot.edgeOkSinceMonoNs o
      else if c.paper.havePos = true then -1
      else edgeSince (edgeRaw cfg (t.of o) (v.book o).bestAsk) (c.hot.edgeOkSinceMonoNs o)
        now := by
  unfold scheduleAt
  by_cases hp : c.paper.pending = true
  · simp [hp]
  · by_cases hr : c.paper.riskStop = true
    · simp [hp, hr]
    · by_cases hn : c.paper.havePos = true
      · simp only [hp, hr, hn, if_true, if_false, or_self, scheduleExit_hot, Bool.false_eq_true]
        cases o <;> rfl
      · simp only [hp, hr, hn, if_false, or_self, Bool.false_eq_true]
        exact scheduleEntry_since hen o

/-! ### An edge that holds -/

def edgeHolds (M : Libm) (cfg : Config) (c : Consumer) (o : Outcome) : Bool :=
  c.hot.view?.any fun v => edgeRaw cfg ((v.theo M cfg).of o) (v.book o).bestAsk

/-- In the bucket `epoch`, every hot update finds the edge of `o`. -/
def holdsEdge (M : Libm) (cfg : Config) (o : Outcome) (epoch : ℤ) (c : Consumer) : Label → Bool
  | .update _ => decide (c.hot.activeEpoch = epoch) && edgeHolds M cfg c o
  | .event (.rollover _) _ => false
  | .event _ _ => true

/-- The run `ls` from `s` to `c` has an update with the clock reading `t₀` such
that the edge of `o` held in it and in every update since, in one bucket. -/
def HeldSince (M : Libm) (cfg : Config) (s : Consumer) (ls : List Label) (c : Consumer)
    (o : Outcome) (epoch t₀ : ℤ) : Prop :=
  ∃ ls₁ a rest ls₂, ls = ls₁ ++ .update (⟨.steadyNs, t₀⟩ :: rest) :: ls₂ ∧
    (runner M cfg).Run s ls₁ a ∧
    ((runner M cfg).restrict fun c l => holdsEdge M cfg o epoch c l = true).Run a
      (.update (⟨.steadyNs, t₀⟩ :: rest) :: ls₂) c

section HeldSince

variable {M : Libm} {cfg : Config} {s c c' : Consumer} {ls : List Label} {l : Label}
  {o : Outcome} {epoch t₀ : ℤ}

theorem HeldSince.snoc (h : HeldSince M cfg s ls c o epoch t₀) (hst : Step M cfg c l c')
    (hl : holdsEdge M cfg o epoch c l = true) :
    HeldSince M cfg s (ls ++ [l]) c' o epoch t₀ := by
  obtain ⟨ls₁, a, rest, ls₂, rfl, ha, hheld⟩ := h
  refine ⟨ls₁, a, rest, ls₂ ++ [l], by simp, ha, ?_⟩
  rw [← List.cons_append]
  exact .snoc hheld ⟨hst, hl⟩

theorem heldSince_now {rest : Trace} (hrun : (runner M cfg).Run s ls c)
    (hst : Step M cfg c (.update (⟨.steadyNs, t₀⟩ :: rest)) c')
    (hl : holdsEdge M cfg o epoch c (.update (⟨.steadyNs, t₀⟩ :: rest)) = true) :
    HeldSince M cfg s (ls ++ [.update (⟨.steadyNs, t₀⟩ :: rest)]) c' o epoch t₀ :=
  ⟨ls, c, rest, [], rfl, hrun, Lts.run_singleton.mpr ⟨hst, hl⟩⟩

end HeldSince

/-! ### Runs in which no edge is lost unseen -/

def watchesEdges (M : Libm) (cfg : Config) (c : Consumer) : Label → Bool
  | .update _ => !c.paper.pending ||
      [Outcome.up, .down].all fun o =>
        decide (c.hot.edgeOkSinceMonoNs o < 0) || edgeHolds M cfg c o
  | .event _ _ => true

abbrev watchedRunner (M : Libm) (cfg : Config) : Lts Consumer Label :=
  (runner M cfg).restrict fun c l => watchesEdges M cfg c l = true

theorem watchesEdges_spec {M : Libm} {cfg : Config} {c : Consumer} {tr : Trace} {o : Outcome}
    (h : watchesEdges M cfg c (.update tr) = true) (hp : c.paper.pending = true)
    (hs : 0 ≤ c.hot.edgeOkSinceMonoNs o) : edgeHolds M cfg c o = true := by
  have hs' : ¬ c.hot.edgeOkSinceMonoNs o < 0 := not_lt.mpr hs
  simp only [watchesEdges, hp, Bool.not_true, Bool.false_or, List.all_eq_true, List.mem_cons,
    List.not_mem_nil, or_false, Bool.or_eq_true, decide_eq_true_eq] at h
  have hside := h o (by cases o <;> simp)
  exact hside.resolve_left hs'

/-- The timer of `o` is armed, and the edge has held since its reading. -/
structure EdgeArmed (M : Libm) (cfg : Config) (s : Consumer) (ls : List Label) (c : Consumer)
    (o : Outcome) : Prop where
  bucket : 0 ≤ c.hot.activeEpoch
  enabled : c.tradingEnabled = true
  view : c.hot.view?.isSome = true
  held : HeldSince M cfg s ls c o c.hot.activeEpoch (c.hot.edgeOkSinceMonoNs o)

/-- After `risk_stop` the timers no longer matter: no BUY is scheduled. -/
def EdgeInv (M : Libm) (cfg : Config) (s : Consumer) (ls : List Label) (c : Consumer) : Prop :=
  c.paper.riskStop = false → ∀ o, 0 ≤ c.hot.edgeOkSinceMonoNs o → EdgeArmed M cfg s ls c o

section Run

variable {M : Libm} {cfg : Config} {s c c' : Consumer} {ls : List Label}

theorem EdgeArmed.snoc {l : Label} {o : Outcome} (h : EdgeArmed M cfg s ls c o)
    (hst : Step M cfg c l c') (hl : holdsEdge M cfg o c.hot.activeEpoch c l = true)
    (hepoch : c'.hot.activeEpoch = c.hot.activeEpoch) (hen : c'.tradingEnabled = true)
    (hview : c'.hot.view?.isSome = true)
    (hsince : c'.hot.edgeOkSinceMonoNs o = c.hot.edgeOkSinceMonoNs o) :
    EdgeArmed M cfg s (ls ++ [l]) c' o where
  bucket := hepoch ▸ h.bucket
  enabled := hen
  view := hview
  held := by
    rw [hepoch, hsince]
    exact h.held.snoc hst hl

theorem spotFrame_since {h h' : HotState} (f : SpotFrame h h') (o : Outcome) :
    h'.edgeOkSinceMonoNs o = h.edgeOkSinceMonoNs o := by
  cases o with
  | up => exact f.edgeUp
  | down => exact f.edgeDn

theorem storeSide_since (h : HotState) (q : Quote) (o : Outcome) :
    (h.storeSide q).edgeOkSinceMonoNs o = h.edgeOkSinceMonoNs o := by
  unfold HotState.storeSide
  split <;> cases o <;> rfl

/-- A quote that names the bucket of a state without one resets the timers. -/
theorem storeQuote_armed {h : HotState} {q : Quote} {o : Outcome}
    (ho : 0 ≤ (h.storeQuote q).edgeOkSinceMonoNs o) : h.storeQuote q = h.storeSide q := by
  unfold HotState.storeQuote HotState.adoptBucket at ho ⊢
  split at ho
  · rw [edgeOkSince_withEdges] at ho
    cases o <;> simp at ho
  · rename_i hnot
    rw [if_neg hnot]

theorem storeSide_ready {h : HotState} (q : Quote) (hv : h.view?.isSome = true) :
    (h.storeSide q).view?.isSome = true := by
  rw [HotState.view?_isSome] at hv ⊢
  unfold HotState.storeSide
  obtain ⟨hbin, hK, hup, hdown, hepoch⟩ := hv
  split
  · exact ⟨hbin, hK, rfl, hdown, hepoch⟩
  · exact ⟨hbin, hK, hup, rfl, hepoch⟩
  · exact ⟨hbin, hK, hup, hdown, hepoch⟩

theorem edgeInv_event {e : Event} {tr : Trace} (inv : EdgeInv M cfg s ls c)
    (hst : Step M cfg c (.event e tr) c') : EdgeInv M cfg s (ls ++ [.event e tr]) c' := by
  cases hst with
  | event hdue hstart he =>
    have hstep : Step M cfg c (.event e tr) c' := .event hdue hstart he
    intro hr o ho
    cases take_taken M cfg c _ _ _ he with
    | spot hot f hs =>
      have harm : EdgeArmed M cfg s ls c o := inv hr o ((spotFrame_since f o).symm ▸ ho)
      obtain ⟨tick, _, _, ht, -⟩ := take_spot hs he
      have hstored : hot.bin = some tick := congrArg HotState.bin (step_stores hstep ht)
      have hview : hot.view?.isSome = true := by
        have hv := harm.view
        rw [HotState.view?_isSome] at hv ⊢
        rw [f.K, f.up, f.down, f.activeEpoch]
        exact ⟨by rw [hstored]; rfl, hv.2⟩
      refine harm.snoc hstep ?_ f.activeEpoch harm.enabled hview (spotFrame_since f o)
      cases e with
      | binBook | binTrade | chainlinkSpot => rfl
      | polyQuote | rollover | idle | startup => cases hs
    | quote q =>
      have hsame : c.hot.storeQuote q = c.hot.storeSide q := storeQuote_armed ho
      have hsince : (c.hot.storeQuote q).edgeOkSinceMonoNs o = c.hot.edgeOkSinceMonoNs o := by
        rw [hsame, storeSide_since]
      have harm : EdgeArmed M cfg s ls c o := inv hr o (hsince ▸ ho)
      have hview : (c.hot.storeQuote q).view?.isSome = true := by
        rw [hsame]
        exact storeSide_ready q harm.view
      have hepoch := (HotState.storeQuote_bucket q harm.bucket).1
      exact harm.snoc hstep rfl hepoch harm.enabled hview hsince
    | rollover ev c₁ hf =>
      have hreset : (c₁.enterBucket cfg ev).hot.edgeOkSinceMonoNs o = -1 := by
        cases o <;> rfl
      omega
    | idle =>
      have harm := inv hr o ho
      exact harm.snoc hstep rfl rfl harm.enabled harm.view rfl
    | startup =>
      have harm := inv hr o (by cases o <;> exact ho)
      exact absurd (hstart rfl) (by simp [harm.enabled])

/-- The timer of `o` after an update that ran `schedule` at the reading `now`. -/
theorem armed_scheduled {rest : Trace} {v : HotView} {now : ℤ} {o : Outcome}
    (hrun : (runner M cfg).Run s ls c) (inv : EdgeInv M cfg s ls c)
    (hw : watchesEdges M cfg c (.update (⟨.steadyNs, now⟩ :: rest)) = true)
    (hst : Step M cfg c (.update (⟨.steadyNs, now⟩ :: rest)) c') (hv : c.hot.view? = some v)
    (hr : c.paper.riskStop = false)
    (hsince : c'.hot.edgeOkSinceMonoNs o =
      (scheduleAt cfg v (v.theo M cfg) now c.updateDone).hot.edgeOkSinceMonoNs o)
    (hen : c.tradingEnabled = true) (ho : 0 ≤ c'.hot.edgeOkSinceMonoNs o) :
    HeldSince M cfg s (ls ++ [.update (⟨.steadyNs, now⟩ :: rest)]) c' o c.hot.activeEpoch
      (c'.hot.edgeOkSinceMonoNs o) := by
  have holds (h : edgeHolds M cfg c o = true) :
      holdsEdge M cfg o c.hot.activeEpoch c (.update (⟨.steadyNs, now⟩ :: rest)) = true := by
    simp [holdsEdge, h]
  have hen' : c.updateDone.tradingEnabled = true := hen
  rw [scheduleAt_since cfg v _ now hen'] at hsince
  change _ = if c.paper.pending = true ∨ c.paper.riskStop = true then
    c.hot.edgeOkSinceMonoNs o else if c.paper.havePos = true then -1 else
    edgeSince _ (c.hot.edgeOkSinceMonoNs o) now at hsince
  split at hsince
  · rename_i hp
    have hp' : c.paper.pending = true := by simpa [hr] using hp
    rw [hsince] at ho ⊢
    exact (inv hr o ho).held.snoc hst (holds (watchesEdges_spec hw hp' ho))
  · split at hsince
    · omega
    · unfold edgeSince at hsince
      split at hsince
      · rename_i hraw
        have hedge : edgeHolds M cfg c o = true := by simpa [edgeHolds, hv] using hraw
        split at hsince
        · rw [hsince]
          exact heldSince_now hrun hst (holds hedge)
        · rename_i hneg
          rw [hsince]
          exact (inv hr o (not_lt.mp hneg)).held.snoc hst (holds hedge)
      · omega

theorem edgeInv_update {tr : Trace} (hrun : (runner M cfg).Run s ls c)
    (inv : EdgeInv M cfg s ls c) (hw : watchesEdges M cfg c (.update tr) = true)
    (hst : Step M cfg c (.update tr) c') : EdgeInv M cfg s (ls ++ [.update tr]) c' := by
  cases hst with
  | update hdue he =>
    have hstep : Step M cfg c (.update tr) c' := .update hdue he
    intro hr o ho
    rcases onHotUpdate_executeDue he with ⟨-, rfl, hwhy⟩ | ⟨v, now, rest, hv, hen, rfl, hx⟩
    · have harm : EdgeArmed M cfg s ls c o := inv hr o ho
      rcases hwhy with hno | hno
      · have hview : c.hot.view? = none := hno
        simpa [hview] using harm.view
      · have hen : c.tradingEnabled = false := hno
        simpa [hen] using harm.enabled
    · have hexec := executeDue_executed M cfg _ _ _ hx
      have hsched := scheduleAt_cases cfg v (v.theo M cfg) now c.updateDone
      obtain ⟨a, b, hhot⟩ := hsched.hot
      have hepoch : c'.hot.activeEpoch = c.hot.activeEpoch := by
        rw [hexec.hot, hhot, HotState.activeEpoch_withEdges]
        rfl
      have hview : c'.hot.view? = some v := by
        rw [hexec.hot, hhot, HotState.view?_withEdges]
        exact hv
      have hr₁ : c.paper.riskStop = false := by
        have hr' := hexec.riskStop hr
        rw [hsched.riskStop] at hr'
        exact hr'
      refine ⟨?_, ?_, by rw [hview]; rfl, ?_⟩
      · rw [hepoch]
        exact (HotState.view?_spec hv).epoch
      · rw [hexec.tradingEnabled, hsched.tradingEnabled]
        exact hen
      · rw [hepoch]
        exact armed_scheduled hrun inv hw hstep hv hr₁ (by rw [hexec.hot]) hen ho

theorem edgeInv_run (hs : (runner M cfg).init s) (h : (watchedRunner M cfg).Run s ls c) :
    EdgeInv M cfg s ls c := by
  induction h with
  | nil =>
    obtain ⟨hist, rfl⟩ := hs
    intro _ o ho
    have hstart : (Consumer.start cfg hist).hot.edgeOkSinceMonoNs o = -1 := by
      cases o <;> rfl
    omega
  | snoc hr hst ih =>
    rename_i l
    cases l with
    | event e tr => exact edgeInv_event ih hst.1
    | update tr => exact edgeInv_update hr.of_restrict ih hst.2 hst.1

end Run

/-! ### The theorem -/

/-- The update with the calls `tr` makes a BUY of `o` pending at the reading `t`. -/
def schedulesBuy (M : Libm) (cfg : Config) (c : Consumer) (o : Outcome) (t : ℤ) : Trace → Bool
  | ⟨.steadyNs, r⟩ :: _ => decide (r = t) && !c.paper.pending && c.tradingEnabled &&
    c.hot.view?.any fun v =>
      let p := (scheduleAt cfg v (v.theo M cfg) t c.updateDone).paper
      p.pending && decide (p.pendingAction = some .buy) && decide (p.pendingSide = some o)
  | _ => false

def EdgePersisted (M : Libm) (cfg : Config) (s : Consumer) (ls : List Label) (c : Consumer)
    (o : Outcome) (epoch t : ℤ) : Prop :=
  ∃ t₀, t₀ ≤ t - cfg.edgePersistMs * 1000000 ∧ HeldSince M cfg s ls c o epoch t₀

theorem scheduled_bought {cfg : Config} {v : HotView} {t : Theo} {now : ℤ} {c c₁ : Consumer}
    {o : Outcome} (h : Scheduled cfg v t now c c₁) (hfree : c.paper.pending = false)
    (hp : c₁.paper.pending = true) (ha : c₁.paper.pendingAction = some .buy)
    (ho : c₁.paper.pendingSide = some o) :
    c.paper.riskStop = false ∧ entrySignal cfg v t now c.hot o = true := by
  cases h with
  | idle => exact absurd (hfree.symm.trans hp) (by decide)
  | buy _ _ o' _ hr _ _ hsig =>
    obtain rfl : o' = o := Option.some.inj ho
    exact ⟨hr, hsig⟩
  | sell => cases ha

theorem schedulesBuy_spec {M : Libm} {cfg : Config} {c : Consumer} {o : Outcome} {t : ℤ}
    {tr : Trace} (h : schedulesBuy M cfg c o t tr = true) :
    ∃ v rest, c.hot.view? = some v ∧ tr = ⟨.steadyNs, t⟩ :: rest ∧ c.paper.riskStop = false ∧
      entrySignal cfg v (v.theo M cfg) t c.hot o = true := by
  unfold schedulesBuy at h
  split at h
  · rename_i r rest
    simp only [Bool.and_eq_true, decide_eq_true_eq, Bool.not_eq_true', Option.any_eq_true] at h
    obtain ⟨⟨⟨rfl, hfree⟩, -⟩, v, hv, ⟨hp, ha⟩, hside⟩ := h
    have hsched := scheduleAt_cases cfg v (v.theo M cfg) r c.updateDone
    exact ⟨v, rest, hv, rfl, scheduled_bought (c := c.updateDone) hsched hfree hp ha hside⟩
  · cases h

/-- With an edge persistence of `P > 0` ms, in runs in which no armed side loses
its edge while an order is pending: when `schedule` makes a BUY pending at the
reading `t`, its edge has held in every hot update of the bucket from one with a
reading of at most `t - P` on. -/
theorem buy_edge_persisted {M : Libm} {cfg : Config} (hP : 0 < cfg.edgePersistMs)
    {s c c' : Consumer} {ls : List Label} {tr : Trace} {o : Outcome} {t : ℤ}
    (hs : (runner M cfg).init s) (hrun : (watchedRunner M cfg).Run s ls c)
    (hstep : (watchedRunner M cfg).step c (.update tr) c')
    (hbuy : schedulesBuy M cfg c o t tr = true) :
    EdgePersisted M cfg s (ls ++ [.update tr]) c' o c.hot.activeEpoch t := by
  obtain ⟨v, rest, hv, rfl, hr, hsig⟩ := schedulesBuy_spec hbuy
  have hns : cfg.edgePersistNs = cfg.edgePersistMs * 1000000 := by
    rw [Config.edgePersistNs, if_pos hP]
  simp only [entrySignal, edgePersisted, Bool.and_eq_true, decide_eq_true_eq, hns] at hsig
  obtain ⟨⟨hraw, hlong⟩, -⟩ := hsig
  simp only [edgeSince, hraw, if_true] at hlong
  have hedge : edgeHolds M cfg c o = true := by simpa [edgeHolds, hv] using hraw
  by_cases hneg : c.hot.edgeOkSinceMonoNs o < 0
  · rw [if_pos hneg] at hlong
    omega
  · rw [if_neg hneg] at hlong
    have harm := edgeInv_run hs hrun hr o (not_lt.mp hneg)
    refine ⟨c.hot.edgeOkSinceMonoNs o, by omega, harm.held.snoc hstep.1 ?_⟩
    simp [holdsEdge, hedge]

/-! ### Two runs -/

/-- An edge must hold for half a second, an order is executed after one second. -/
def persistEntry : Config := { quickEntry with edgePersistMs := 500, latMs := 1000 }

def atNs (now : ℤ) : Answers := { paperAnswers with now := now }

theorem steady_edge_persisted :
    ∃ s ls c tr c', (watchedRunner coarse persistEntry).Run s ls c ∧
      (watchedRunner coarse persistEntry).step c (.update tr) c' ∧
      schedulesBuy coarse persistEntry c .up 500000000 tr = true ∧
      EdgePersisted coarse persistEntry s (ls ++ [.update tr]) c' .up c.hot.activeEpoch
        500000000 := by
  obtain ⟨s, ls, c, tr, c', hs, hrun, hstep, hbuy⟩ := exists_update_of_replay coarse persistEntry
    (watchesEdges coarse persistEntry) (signalUp paperAnswers) (.polyQuote (dropTo (78 / 100)))
    (atNs 500000000).script (fun c tr _ => schedulesBuy coarse persistEntry c .up 500000000 tr)
    (by decide +kernel)
  exact ⟨s, ls, c, tr, c', hrun, hstep, hbuy, buy_edge_persisted (by decide) hs hrun hstep hbuy⟩

/-- The clock reading of an update is later than `b`. -/
def readsAfter (b : ℤ) : Label → Bool
  | .update (⟨.steadyNs, r⟩ :: _) => decide (b < r)
  | _ => true

/-- An edge lost in one update cannot have persisted when all later updates read
the clock after `t - P`. -/
theorem not_edgePersisted {M : Libm} {cfg : Config} {s x c' : Consumer} {ls₁ ls₂ : List Label}
    {tr : Trace} {o : Outcome} {epoch t : ℤ} (hx : (runner M cfg).Run s ls₁ x)
    (hlost : edgeHolds M cfg x o = false)
    (hlater : ∀ l ∈ ls₂, readsAfter (t - cfg.edgePersistMs * 1000000) l = true) :
    ¬ EdgePersisted M cfg s (ls₁ ++ .update tr :: ls₂) c' o epoch t := by
  rintro ⟨t₀, ht₀, w₁, a, rest, w₂, heq, ha, hheld⟩
  -- where the update that lost the edge stands in the part that held it
  have inside (m : List Label) (hw : w₁ ++ m = ls₁)
      (hm : .update (⟨.steadyNs, t₀⟩ :: rest) :: w₂ = m ++ .update tr :: ls₂) : False := by
    rw [hm] at hheld
    obtain ⟨y, hy, hrest⟩ := Lts.run_append.mp hheld
    obtain ⟨z, hz, -⟩ := Lts.run_cons.mp hrest
    have hrun : (runner M cfg).Run s ls₁ y :=
      hw ▸ Lts.run_append.mpr ⟨a, ha, hy.of_restrict⟩
    obtain rfl : x = y := hx.deterministic Step.deterministic hrun
    have hholds := hz.2
    simp [holdsEdge, hlost] at hholds
  rcases List.append_eq_append_iff.mp heq with ⟨m, hw, hm⟩ | ⟨m, hw, hm⟩
  · cases m with
    | nil => exact inside [] (by simpa using hw) (by simpa using hm.symm)
    | cons l m =>
      obtain ⟨rfl, hls⟩ := List.cons.inj hm
      have hread := hlater (.update (⟨.steadyNs, t₀⟩ :: rest)) (by rw [hls]; simp)
      simp only [readsAfter, decide_eq_true_eq] at hread
      omega
  · exact inside m hw.symm hm

def askUp (bid ask : ℚ) : Event := upQuote "up-300" "btc-300" 300 bid ask

/-- The ask rises to 0.95 while the BUY is pending and cancels it at 1.5 s; back
at 0.80 at 1.6 s, the BUY is scheduled again at once. -/
def edgeGap (cfg : Config) (a : Consumer) : Bool :=
  (replayTake coarse cfg a (askUp (9 / 10) (95 / 100)) (atNs 1500000000).script).any fun (_, x) =>
    !edgeHolds coarse cfg x .up &&
      (replayDue coarse cfg x (atNs 1500000000).script).any fun (_, y) =>
        (replayTake coarse cfg y (askUp (78 / 100) (8 / 10)) (atNs 1600000000).script).any
          fun (_, c) => (replayDue coarse cfg c (atNs 1600000000).script).any fun (tr, _) =>
            schedulesBuy coarse cfg c .up 1600000000 tr

theorem buy_after_edge_gap :
    ∃ s ls c tr c', (runner coarse persistEntry).init s ∧
      (runner coarse persistEntry).Run s ls c ∧
      (runner coarse persistEntry).step c (.update tr) c' ∧
      schedulesBuy coarse persistEntry c .up 1600000000 tr = true ∧
      ¬ EdgePersisted coarse persistEntry s (ls ++ [.update tr]) c' .up c.hot.activeEpoch
        1600000000 := by
  obtain ⟨a, ha, hgap⟩ := exists_reachable_of_replay coarse persistEntry
    (signalUp paperAnswers ++ [(askUp (78 / 100) (8 / 10), (atNs 500000000).script)])
    (edgeGap persistEntry) (by decide +kernel)
  simp only [edgeGap, Bool.and_eq_true, Bool.not_eq_true', Option.any_eq_true] at hgap
  obtain ⟨⟨tr₀, x⟩, hx, hlost, ⟨tr₁, y⟩, hy, ⟨tr₂, c⟩, hc, ⟨tr, c'⟩, hc', hbuy⟩ := hgap
  obtain ⟨s, ls, hs, hrun⟩ := ha.exists_run
  have hrunx := Lts.run_concat.mpr ⟨a, hrun, replayTake_step hx⟩
  have hruny := Lts.run_concat.mpr ⟨x, hrunx, replayDue_step hy⟩
  have hrunc := Lts.run_concat.mpr ⟨y, hruny, replayTake_step hc⟩
  obtain ⟨v, rest, -, htr, -⟩ := schedulesBuy_spec hbuy
  refine ⟨s, _, c, tr, c', hs, hrunc, replayDue_step hc', hbuy, ?_⟩
  have hlater : ∀ l ∈ [Label.event (askUp (78 / 100) (8 / 10)) tr₂, .update tr],
      readsAfter (1600000000 - persistEntry.edgePersistMs * 1000000) l = true := by
    have htr' : tr = ⟨.steadyNs, 1600000000⟩ :: rest := htr
    rw [htr']
    simp [readsAfter, persistEntry]
  rw [List.append_assoc, List.append_assoc, List.singleton_append]
  exact not_edgePersisted hrunx hlost hlater

end LeadLag.Orders
