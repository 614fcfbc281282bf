import LeadLag.Runner.HotUpdate

/-!
# The spot ticks of a run

`spotTick?` is the tick a step stores, with the local clock that was read for
it. `received` is the history as it would be without trimming.
-/

namespace LeadLag.Runner
open LeadLag.Execution LeadLag.Interaction

def Label.spotTick? : Label → Option SpotTick
  | .event (.binBook bidPrice askPrice localWallMs) _ =>
    some { mid := 1 / 2 * (bidPrice + askPrice), wallMs := localWallMs
           entryClockWallMs := localWallMs }
  | .event (.binTrade price localWallMs) _ =>
    some { mid := price, wallMs := localWallMs, entryClockWallMs := localWallMs }
  | .event (.chainlinkSpot tsMs px) (⟨.systemMs, wall⟩ :: _) =>
    some { mid := px, wallMs := tsMs, entryClockWallMs := wall }
  | _ => none

def ticks (ls : List Label) : List SpotTick := ls.filterMap Label.spotTick?

def SpotTick.point (tick : SpotTick) : ℤ × ℚ := (tick.wallMs, tick.mid)

def received (hist : History) (ls : List Label) : History :=
  hist ++ (ticks ls).map SpotTick.point

@[simp] theorem received_nil (hist : History) : received hist [] = hist := by
  simp [received, ticks]

theorem received_append (hist : History) (ls₁ ls₂ : List Label) :
    received hist (ls₁ ++ ls₂) = received hist ls₁ ++ (ticks ls₂).map SpotTick.point := by
  simp [received, ticks, List.filterMap_append]

theorem ticks_concat (ls : List Label) (l : Label) :
    ticks (ls ++ [l]) = ticks ls ++ l.spotTick?.toList := by
  cases h : l.spotTick? <;> simp [ticks, List.filterMap_append, h]

theorem received_concat_tick {hist : History} {ls : List Label} {l : Label} {tick : SpotTick}
    (h : l.spotTick? = some tick) :
    received hist (ls ++ [l]) = received hist ls ++ [tick.point] := by
  simp [received, ticks_concat, h]

theorem received_concat_other {hist : History} {ls : List Label} {l : Label}
    (h : l.spotTick? = none) : received hist (ls ++ [l]) = received hist ls := by
  simp [received, ticks_concat, h]

section Step

variable {M : Libm} {cfg : Config} {c c' : Consumer} {tick : SpotTick}

theorem onSpot_ingest {tr : Trace} (h : Exec (c.onSpot M cfg tick) tr c') :
    ∃ hot, Exec (ingestSpot M cfg tick c.hot) tr hot ∧ c' = c.stored hot := by
  obtain ⟨tr₁, hot, tr₂, h₁, h₂, rfl⟩ := exec_bind.mp h
  obtain ⟨rfl, rfl⟩ := exec_done.mp h₂
  exact ⟨hot, by simpa using h₁, rfl⟩

theorem take_spot {e : Event} {tr : Trace} (he : e.isSpot = true)
    (h : Exec (c.take M cfg e) tr c') :
    ∃ tick hot tr', (Label.event e tr).spotTick? = some tick ∧
      Exec (ingestSpot M cfg tick c.hot) tr' hot ∧ c' = c.stored hot := by
  cases e with
  | binBook | binTrade =>
    obtain ⟨hot, hx, rfl⟩ := onSpot_ingest h
    exact ⟨_, hot, tr, rfl, hx, rfl⟩
  | chainlinkSpot tsMs px =>
    obtain ⟨tr₁, wall, tr₂, h₁, h₂, rfl⟩ := exec_bind.mp h
    cases h₁ with
    | call r h₁ =>
      obtain ⟨rfl, rfl⟩ := exec_done.mp h₁
      obtain ⟨hot, hx, rfl⟩ := onSpot_ingest h₂
      exact ⟨_, hot, tr₂, rfl, hx, rfl⟩
  | polyQuote | rollover | idle | startup => cases he

theorem step_tick {l : Label} (h : Step M cfg c l c') (ht : l.spotTick? = some tick) :
    ∃ hot tr, Exec (ingestSpot M cfg tick c.hot) tr hot ∧ c' = c.stored hot := by
  cases h with
  | update => cases ht
  | event _ _ he =>
    rename_i e tr _ _
    by_cases hs : e.isSpot = true
    · obtain ⟨tick', hot, tr', ht', hx, rfl⟩ := take_spot hs he
      obtain rfl := Option.some.inj (ht.symm.trans ht')
      exact ⟨hot, tr', hx, rfl⟩
    · cases e with
      | binBook | binTrade | chainlinkSpot => exact absurd rfl hs
      | polyQuote | rollover | idle | startup => cases ht

theorem step_stores {l : Label} (h : Step M cfg c l c') (ht : l.spotTick? = some tick) :
    SigmaOnly (c.hot.storeTick cfg tick) c'.hot := by
  obtain ⟨hot, tr, hx, rfl⟩ := step_tick h ht
  exact ingestSpot_sigmaOnly tick _ _ hx

theorem storeQuote_spot (h : HotState) (q : Quote) :
    (h.storeQuote q).bin = h.bin ∧ (h.storeQuote q).binHist = h.binHist := by
  have side : (h.storeSide q).bin = h.bin ∧ (h.storeSide q).binHist = h.binHist := by
    unfold HotState.storeSide
    split <;> exact ⟨rfl, rfl⟩
  unfold HotState.storeQuote HotState.adoptBucket
  split
  · exact side
  · exact side

theorem step_noTick {l : Label} (h : Step M cfg c l c') (ht : l.spotTick? = none) :
    c'.hot.bin = c.hot.bin ∧ c'.hot.binHist = c.hot.binHist := by
  cases h with
  | update _ he =>
    obtain ⟨a, b, hhot⟩ := (onHotUpdate_updated M cfg _ _ _ he).hot
    rw [hhot]
    exact ⟨rfl, rfl⟩
  | event _ _ he =>
    cases take_taken M cfg c _ _ _ he with
    | spot hot f hs =>
      obtain ⟨tick, _, _, ht', -⟩ := take_spot hs he
      rw [ht'] at ht
      cases ht
    | quote q => exact storeQuote_spot c.hot q
    | rollover ev c₁ hf =>
      change c₁.hot.bin = c.hot.bin ∧ c₁.hot.binHist = c.hot.binHist
      rw [hf.hot]
      exact ⟨rfl, rfl⟩
    | idle | startup => exact ⟨rfl, rfl⟩

theorem bin_run {s : Consumer} {ls : List Label} (hs : (runner M cfg).init s)
    (h : (runner M cfg).Run s ls c) : c.hot.bin = (ticks ls).getLast? := by
  induction h with
  | nil =>
    obtain ⟨hist, rfl⟩ := hs
    rfl
  | snoc hr hst ih =>
    rename_i l
    cases ht : l.spotTick? with
    | some tick =>
      rw [step_stores hst ht, ticks_concat, ht]
      simp [HotState.storeTick]
    | none =>
      rw [(step_noTick hst ht).1, ih, ticks_concat, ht]
      simp

end Step

end LeadLag.Runner
