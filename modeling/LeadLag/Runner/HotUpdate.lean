import LeadLag.Runner.Consumer

/-!
# What a hot update trades

When a hot update executes an order, the order was due: `schedule` found it
pending or had a signal for it. `orderDueOn` says so of the state before the
update and of the two clock readings. Orders and positions know their side.
-/

namespace LeadLag.Runner
open LeadLag.Execution LeadLag.Interaction

def PaperState.orderOutcome (p : PaperState) : Outcome :=
  if p.pendingAction = some .buy then p.pendingOutcome else p.outcome

/-- An order on side `o` is due at the reading `r₂` of `execute_due`: a pending
one, or one that `schedule` has cause to place at its own reading `r₁`. -/
def orderDueOn (M : Libm) (cfg : Config) (c : Consumer) (r₁ r₂ : ℤ) (o : Outcome) : Bool :=
  c.hot.view?.any fun v =>
    let t := v.theo M cfg
    if c.paper.pending then decide (c.paper.dueNs ≤ r₂) && decide (c.paper.orderOutcome = o)
    else decide (r₁ + cfg.latNs ≤ r₂) && !c.paper.riskStop &&
      if c.paper.havePos then decide (c.paper.outcome = o) && exitSignal cfg v t c.paper
      else entrySignal cfg v t r₁ c.hot o

theorem orderDueOn_of_scheduled {M : Libm} {cfg : Config} {v : HotView} {r₁ r₂ : ℤ}
    {c c₁ : Consumer} (hv : c.hot.view? = some v)
    (hs : Scheduled cfg v (v.theo M cfg) r₁ c c₁) (hp : c₁.paper.pending = true)
    (hdue : ¬ r₂ < c₁.paper.dueNs) : orderDueOn M cfg c r₁ r₂ c₁.paper.orderOutcome = true := by
  have hle : c₁.paper.dueNs ≤ r₂ := not_lt.mp hdue
  simp only [orderDueOn, hv, Option.any_some]
  cases hs with
  | idle =>
    rw [if_pos hp, decide_eq_true hle]
    exact decide_eq_true rfl
  | buy _ _ o hp' hr hn hen he =>
    have hlat : r₁ + cfg.latNs ≤ r₂ := hle
    have ho : (c.paper.scheduleBuy o (r₁ + cfg.latNs)).orderOutcome = o := by
      cases o <;> rfl
    simp [hp', hr, hn, hlat, ho, he]
  | sell _ _ reason hp' hr hn hx =>
    have hlat : r₁ + cfg.latNs ≤ r₂ := hle
    have ho : (c.paper.scheduleSell reason (r₁ + cfg.latNs)).orderOutcome = c.paper.outcome := rfl
    simp [hp', hr, hn, hlat, ho, hx]

/-- An update that does nothing, or the reading of `schedule` and then
`execute_due`. -/
theorem onHotUpdate_executeDue {M : Libm} {cfg : Config} {c c' : Consumer} {tr : Trace}
    (h : Exec (c.onHotUpdate M cfg) tr c') :
    (tr = [] ∧ c' = c ∧ (c.hot.view? = none ∨ c.tradingEnabled = false)) ∨
      ∃ (v : HotView) (r₁ : ℤ) (rest : Trace), c.hot.view? = some v ∧ c.tradingEnabled = true ∧
        tr = ⟨.steadyNs, r₁⟩ :: rest ∧
        Exec (executeDue M cfg (scheduleAt cfg v (v.theo M cfg) r₁ c)) rest c' := by
  unfold Consumer.onHotUpdate at h
  split at h
  · rename_i hv
    obtain ⟨htr, hc⟩ := exec_done.mp h
    exact .inl ⟨htr, hc, .inl hv⟩
  · rename_i v hv
    split at h
    · rename_i hen
      obtain ⟨tr₁, c₁, rest, h₁, h₂, rfl⟩ := exec_bind.mp h
      obtain ⟨_, r₁, _, hr, hc, rfl⟩ := exec_bind.mp h₁
      cases hr with
      | call r₁ hr =>
        obtain ⟨rfl, rfl⟩ := exec_done.mp hr
        obtain ⟨rfl, rfl⟩ := exec_done.mp hc
        exact .inr ⟨v, r₁, rest, hv, hen, rfl, h₂⟩
    · rename_i hen
      obtain ⟨htr, hc⟩ := exec_done.mp h
      exact .inl ⟨htr, hc, .inr (by simpa using hen)⟩

/-- No order was due, and the update called nothing but the clock, or one was and
`execute_due` goes on with it. -/
theorem onHotUpdate_due {M : Libm} {cfg : Config} {c c' : Consumer} {tr : Trace}
    (h : Exec (c.onHotUpdate M cfg) tr c') :
    ((∀ oi r, (⟨.submit oi, r⟩ : Obs Reply) ∉ tr) ∧
        (c' = c ∨ ∃ v t now, Scheduled cfg v t now c c')) ∨
      ∃ (v : HotView) (r₁ r₂ : ℤ) (rest : Trace) (c₁ : Consumer),
        Scheduled cfg v (v.theo M cfg) r₁ c c₁ ∧ c₁.paper.pending = true ∧
        orderDueOn M cfg c r₁ r₂ c₁.paper.orderOutcome = true ∧
        tr = ⟨.steadyNs, r₁⟩ :: ⟨.steadyNs, r₂⟩ :: rest ∧
        Exec (executeDueAt M cfg r₂ c₁) rest c' := by
  rcases onHotUpdate_executeDue h with ⟨rfl, rfl, -⟩ | ⟨v, r₁, rest, hv, -, rfl, hx⟩
  · exact .inl ⟨fun _ _ => List.not_mem_nil, .inl rfl⟩
  · have hs := scheduleAt_cases cfg v (v.theo M cfg) r₁ c
    unfold executeDue at hx
    split at hx
    · rename_i hp
      obtain ⟨_, r₂, rest, hr, hrest, rfl⟩ := exec_bind.mp hx
      cases hr with
      | call r₂ hr =>
        obtain ⟨rfl, rfl⟩ := exec_done.mp hr
        by_cases hdue : r₂ < (scheduleAt cfg v (v.theo M cfg) r₁ c).paper.dueNs
        · rw [executeDueAt, if_pos hdue] at hrest
          obtain ⟨rfl, rfl⟩ := exec_done.mp hrest
          exact .inl ⟨fun _ _ => by simp, .inr ⟨v, _, r₁, hs⟩⟩
        · have hd := orderDueOn_of_scheduled hv hs hp hdue
          exact .inr ⟨v, r₁, r₂, rest, _, hs, hp, hd, rfl, hrest⟩
    · obtain ⟨rfl, rfl⟩ := exec_done.mp hx
      exact .inl ⟨fun _ _ => by simp, .inr ⟨v, _, r₁, hs⟩⟩

/-! ### The hot state while trading -/

theorem ForceSold.hot {cfg : Config} {ev : Rollover} {c c₁ : Consumer}
    (h : ForceSold cfg ev c c₁) : c₁.hot = c.hot := by
  cases h <;> rfl

theorem Executed.hot {M : Libm} {cfg : Config} {c c₁ : Consumer} (h : Executed M cfg c c₁) :
    c₁.hot = c.hot := by
  cases h <;> rfl

theorem Executed.tradingEnabled {M : Libm} {cfg : Config} {c c₁ : Consumer}
    (h : Executed M cfg c c₁) : c₁.tradingEnabled = c.tradingEnabled := by
  cases h <;> rfl

theorem Scheduled.hot {cfg : Config} {v : HotView} {t : Theo} {now : ℤ} {c c₁ : Consumer}
    (h : Scheduled cfg v t now c c₁) : ∃ a b, c₁.hot = c.hot.withEdges a b := by
  cases h with
  | idle a b | buy a b | sell a b => exact ⟨a, b, rfl⟩

theorem Updated.hot {M : Libm} {cfg : Config} {c c' : Consumer} (h : Updated M cfg c c') :
    ∃ a b, c'.hot = c.hot.withEdges a b := by
  cases h with
  | skipped => exact ⟨c.hot.edgeUpOkSinceMonoNs, c.hot.edgeDnOkSinceMonoNs, rfl⟩
  | traded v now c₁ _ _ _ hs he =>
    obtain ⟨a, b, hab⟩ := hs.hot
    exact ⟨a, b, he.hot.trans hab⟩

theorem Executed.idle {M : Libm} {cfg : Config} {c c₁ : Consumer} (h : Executed M cfg c c₁)
    (hp : c.paper.pending = false) : c₁ = c := by
  have pending {P : Prop} (h : c.paper.pending = true) : P := by simp [hp] at h
  cases h with
  | kept => rfl
  | cleared h | unknown h | riskBlocked h => exact pending h
  | failed _ _ h | failedRow _ _ _ h | flattened _ h => exact pending h
  | bought _ _ _ _ h | stopIncomplete _ _ _ _ h => exact pending h
  | soldByStop _ _ _ _ h | soldAtBid _ _ _ h => exact pending h

theorem Executed.stillPending {M : Libm} {cfg : Config} {c c₁ : Consumer}
    (h : Executed M cfg c c₁) (hp : c₁.paper.pending = true) : c₁ = c := by
  cases h with
  | kept => rfl
  | cleared | unknown | riskBlocked | failed | failedRow | bought => cases hp
  | flattened | stopIncomplete | soldByStop | soldAtBid => cases hp

theorem Executed.riskStop {M : Libm} {cfg : Config} {c c₁ : Consumer} (h : Executed M cfg c c₁)
    (hr : c₁.paper.riskStop = false) : c.paper.riskStop = false := by
  cases h with
  | kept | cleared | unknown | failed | failedRow | flattened | stopIncomplete => exact hr
  | riskBlocked => cases hr
  | bought | soldByStop | soldAtBid => exact (Bool.or_eq_false_iff.mp hr).1

/-! ### The rows of a step -/

/-- The trades file grew by rows that satisfy `P`. -/
def NewRows (P : TradesRow → Prop) (c c' : Consumer) : Prop :=
  ∃ rows, c'.trades = rows ++ c.trades ∧ ∀ row ∈ rows, P row

section NewRows

variable {P : TradesRow → Prop} {c c₁ c₂ : Consumer}

theorem NewRows.same (h : c₁.trades = c.trades) : NewRows P c c₁ := by
  refine ⟨[], ?_, fun row hm => absurd hm List.not_mem_nil⟩
  rw [h, List.nil_append]

theorem NewRows.one {row : TradesRow} (h : c₁.trades = row :: c.trades) (hrow : P row) :
    NewRows P c c₁ := by
  refine ⟨[row], ?_, fun row' hm => ?_⟩
  · rw [h, List.singleton_append]
  · rw [List.mem_singleton.mp hm]
    exact hrow

theorem NewRows.trans (h₁ : NewRows P c c₁) (h₂ : NewRows P c₁ c₂) : NewRows P c c₂ := by
  obtain ⟨rows₁, ht₁, hP₁⟩ := h₁
  obtain ⟨rows₂, ht₂, hP₂⟩ := h₂
  refine ⟨rows₂ ++ rows₁, by rw [ht₂, ht₁, List.append_assoc], fun row hm => ?_⟩
  rcases List.mem_append.mp hm with hm | hm
  · exact hP₂ row hm
  · exact hP₁ row hm

theorem NewRows.mono {Q : TradesRow → Prop} (h : NewRows P c c₁) (hPQ : ∀ row, P row → Q row) :
    NewRows Q c c₁ := by
  obtain ⟨rows, ht, hP⟩ := h
  exact ⟨rows, ht, fun row hm => hPQ row (hP row hm)⟩

theorem NewRows.head {row : TradesRow} (h : NewRows P c c₁) (ht : c₁.trades = row :: c.trades) :
    P row := by
  obtain ⟨rows, hrows, hP⟩ := h
  rw [ht, ← List.singleton_append] at hrows
  rw [← List.append_cancel_right hrows] at hP
  exact hP row (List.mem_singleton_self row)

end NewRows

/-- The rows that `execute_due` writes for an order. -/
def TradesRow.isOrder : TradesRow → Bool
  | .buy _ | .sell _ => true
  | _ => false

theorem Scheduled.riskStop {cfg : Config} {v : HotView} {t : Theo} {now : ℤ} {c c₁ : Consumer}
    (h : Scheduled cfg v t now c c₁) : c₁.paper.riskStop = c.paper.riskStop := by
  cases h <;> rfl

theorem Scheduled.trades {cfg : Config} {v : HotView} {t : Theo} {now : ℤ} {c c₁ : Consumer}
    (h : Scheduled cfg v t now c c₁) : c₁.trades = c.trades := by
  cases h <;> rfl

theorem ForceSold.newRows {cfg : Config} {ev : Rollover} {c c₁ : Consumer}
    (h : ForceSold cfg ev c c₁) : NewRows (fun row => row.isOrder = false) c c₁ := by
  cases h with
  | noPosition | carried | paperZero => exact .same rfl
  | kept | nothingLeft | sold => exact .one rfl rfl

theorem Taken.newRows {cfg : Config} {c c' : Consumer} {e : Event} (h : Taken cfg c e c') :
    NewRows (fun row => row.isOrder = false) c c' := by
  cases h with
  | spot | quote | idle | startup => exact .same rfl
  | rollover ev c₁ hf => exact hf.newRows.trans (.one rfl rfl)

/-! ### Sides -/

structure SideInv (c : Consumer) : Prop where
  buy : c.paper.pending = true → c.paper.pendingAction = some .buy →
    ∃ o, c.paper.pendingSide = some o
  position : c.paper.havePos = true → ∃ o, c.paper.side = some o

theorem PaperState.outcome_of_side {p : PaperState} {o : Outcome} (h : p.side = some o) :
    p.outcome = o := by
  cases o <;> simp [PaperState.outcome, h]

theorem PaperState.pendingOutcome_of_side {p : PaperState} {o : Outcome}
    (h : p.pendingSide = some o) : p.pendingOutcome = o := by
  cases o <;> simp [PaperState.pendingOutcome, h]

theorem SideInv.updateDone {c : Consumer} (inv : SideInv c) : SideInv c.updateDone :=
  ⟨inv.buy, inv.position⟩

theorem SideInv.scheduled {cfg : Config} {v : HotView} {t : Theo} {now : ℤ} {c c₁ : Consumer}
    (inv : SideInv c) (h : Scheduled cfg v t now c c₁) : SideInv c₁ := by
  cases h with
  | idle => exact ⟨inv.buy, inv.position⟩
  | buy _ _ o => exact ⟨fun _ _ => ⟨o, rfl⟩, inv.position⟩
  | sell => exact ⟨fun _ h => by simp [PaperState.scheduleSell] at h, inv.position⟩

structure SamePosition (c c₁ : Consumer) : Prop where
  havePos : c₁.paper.havePos = c.paper.havePos
  outcome : c₁.paper.outcome = c.paper.outcome
  tokenId : c₁.paper.tokenId = c.paper.tokenId
  trades : c₁.trades = c.trades
  book : ∀ o, c₁.hot.book o = c.hot.book o
  activeEpoch : c₁.hot.activeEpoch = c.hot.activeEpoch
  slug : c₁.hot.slug = c.hot.slug
  sides : SideInv c → SideInv c₁

theorem SamePosition.rfl' (c : Consumer) : SamePosition c c :=
  ⟨rfl, rfl, rfl, rfl, fun _ => rfl, rfl, rfl, id⟩

theorem Scheduled.position {cfg : Config} {v : HotView} {t : Theo} {now : ℤ} {c c₁ : Consumer}
    (h : Scheduled cfg v t now c c₁) : SamePosition c c₁ := by
  obtain ⟨a, b, hhot⟩ := h.hot
  have hbook (o : Outcome) : c₁.hot.book o = c.hot.book o := by
    rw [hhot, HotState.book_withEdges]
  have hepoch : c₁.hot.activeEpoch = c.hot.activeEpoch := by
    rw [hhot, HotState.activeEpoch_withEdges]
  have hslug : c₁.hot.slug = c.hot.slug := by
    rw [hhot, HotState.slug_withEdges]
  have hsides : SideInv c → SideInv c₁ := fun inv => inv.scheduled h
  cases h <;> exact ⟨rfl, rfl, rfl, rfl, hbook, hepoch, hslug, hsides⟩

theorem SideInv.executed {M : Libm} {cfg : Config} {c c₁ : Consumer}
    (inv : SideInv c) (h : Executed M cfg c c₁) : SideInv c₁ := by
  cases h with
  | kept => exact inv
  | cleared | unknown | riskBlocked | failed | failedRow | stopIncomplete =>
    exact ⟨nofun, inv.position⟩
  | bought _ _ _ _ hp ha => exact ⟨nofun, fun _ => inv.buy hp ha⟩
  | flattened | soldByStop | soldAtBid => exact ⟨nofun, nofun⟩

theorem sideInv_runner (M : Libm) (cfg : Config) : RunnerInvariant M cfg SideInv where
  init _ := ⟨nofun, nofun⟩
  spot inv _ := ⟨inv.buy, inv.position⟩
  quote inv := ⟨inv.buy, inv.position⟩
  rollover inv h := by
    cases h with
    | noPosition | kept => exact ⟨inv.buy, inv.position⟩
    | carried | nothingLeft | paperZero | sold => exact ⟨nofun, nofun⟩
  startup inv _ := ⟨inv.buy, inv.position⟩
  done inv := inv.updateDone
  schedule inv _ _ h := inv.scheduled h
  execute inv _ h := inv.executed h

end LeadLag.Runner
