import LeadLag.Spot.HistoryOrder

/-!
# The full-hour test

Sigma is estimated when the oldest observation kept is at most `anchor - 1h`. In
the same tick the history is trimmed to observations of at least `anchor - 1h`.
So the test passes only when an observation was made at that very millisecond.
-/

namespace LeadLag.Spot
open LeadLag.Execution LeadLag.Interaction LeadLag.Runner LeadLag.Timeline

/-- End of the hour: the bucket's start in `slug_fixed` mode, else the tick. -/
def anchorMs (cfg : Config) (h : HotState) (wallMs : ℤ) : ℤ :=
  if cfg.sigmaVolMode = .slugFixed then h.activeEpoch * 1000 else wallMs

/-- The test of `estimateSigma` and `rollSigma` when `tick` is processed. -/
def fullHourTest (cfg : Config) (h : HotState) (tick : SpotTick) : Bool :=
  hasFullHour (h.storeTick cfg tick).binHist (anchorMs cfg h tick.wallMs)

theorem histTrimFloorMs_of_anchor {cfg : Config} {h : HotState} {wallMs : ℤ}
    (hmode : cfg.sigmaVolMode = .slugFixed → 0 ≤ h.activeEpoch)
    (hanchor : anchorMs cfg h wallMs ≤ wallMs) :
    histTrimFloorMs cfg h.activeEpoch wallMs = anchorMs cfg h wallMs - oneHourMs := by
  unfold histTrimFloorMs
  unfold anchorMs at hanchor ⊢
  by_cases hs : cfg.sigmaVolMode = .slugFixed
  · rw [if_pos hs] at hanchor ⊢
    rw [if_pos ⟨hs, hmode hs⟩]
    omega
  · rw [if_neg hs, if_neg fun h => hs h.1]

theorem hasFullHour_iff {hist : History} {anchor : ℤ} :
    hasFullHour hist anchor = true ↔ ∃ p, hist.head? = some p ∧ p.1 ≤ anchor - oneHourMs := by
  simp [hasFullHour, Option.any_eq_true]

/-- What a tick leaves of the history and is older than it was there before. -/
theorem mem_of_stored {b : ℤ} {hist : History} {tick : SpotTick} {p : ℤ × ℚ}
    (hp : p ∈ trim b (hist ++ [tick.point])) (hlt : p.1 < tick.wallMs) : p ∈ hist := by
  rcases List.mem_append.mp ((trim_suffix _ _).mem hp) with hp | hp
  · exact hp
  · have hnow : p.1 = tick.wallMs := by
      rw [List.mem_singleton.mp hp]
      rfl
    omega

/-! ### Trim floors of a run -/

/-- No tick is processed with a trim floor above `b`. -/
def trimsUpTo (cfg : Config) (b : ℤ) (c : Consumer) (l : Label) : Prop :=
  ∀ tick, l.spotTick? = some tick → histTrimFloorMs cfg c.hot.activeEpoch tick.wallMs ≤ b

theorem histTrimFloorMs_lt (cfg : Config) (epoch wallMs : ℤ) :
    histTrimFloorMs cfg epoch wallMs < wallMs := by
  have hour : (0 : ℤ) < oneHourMs := by decide
  unfold histTrimFloorMs
  split
  · omega
  · omega

section Run

variable {M : Libm} {cfg : Config} {hist : History} {c : Consumer} {ls : List Label} {b : ℤ}

theorem trimmedTo_run (h : ((runner M cfg).restrict (trimsUpTo cfg b)).Run (.start cfg hist) ls c) :
    TrimmedTo b (received hist ls) c.hot.binHist := by
  induction h with
  | nil =>
    rw [received_nil]
    exact .refl b hist
  | snoc hr hst ih =>
    rename_i l
    cases ht : l.spotTick? with
    | none =>
      rw [(step_noTick hst.1 ht).2, received_concat_other ht]
      exact ih
    | some tick =>
      rw [step_binHist hst.1 ht, received_concat_tick ht]
      exact (ih.concat tick.point).trim (hst.2 tick ht)

theorem newer_of_trimmed (h : (runner M cfg).Run (.start cfg hist) ls c)
    (hsorted : InOrder (received hist ls)) :
    ((runner M cfg).restrict (trimsUpTo cfg b)).Run (.start cfg hist) ls c ∨
      (∀ p ∈ c.hot.binHist, b < p.1) ∧ ∃ q ∈ received hist ls, b < q.1 := by
  induction h with
  | nil => exact .inl .nil
  | snoc hr hst ih =>
    rename_i ls c c' l
    cases ht : l.spotTick? with
    | none =>
      rw [received_concat_other ht] at hsorted ⊢
      rw [(step_noTick hst ht).2]
      have hnone : trimsUpTo cfg b c l := by
        intro tick htick
        simp [ht] at htick
      exact (ih hsorted).imp_left fun hrun => .snoc hrun ⟨hst, hnone⟩
    | some tick =>
      rw [received_concat_tick ht] at hsorted ⊢
      rw [step_binHist hst ht]
      have hlast := inOrder_concat.mp hsorted
      have hwin : InOrder (c.hot.binHist ++ [tick.point]) := by
        obtain ⟨pre, hpre⟩ := binHist_suffix hr
        rw [← hpre, List.append_assoc] at hsorted
        exact hsorted.of_suffix (List.suffix_append pre _)
      rcases ih hlast.1 with hrun | ⟨hnew, q, hq, hbq⟩
      · by_cases hf : histTrimFloorMs cfg c.hot.activeEpoch tick.wallMs ≤ b
        · have hup : trimsUpTo cfg b c l := by
            intro tick' ht'
            obtain rfl := Option.some.inj (ht.symm.trans ht')
            exact hf
          exact .inl (.snoc hrun ⟨hst, hup⟩)
        · have hfloor := not_le.mp hf
          have hwall := hfloor.trans (histTrimFloorMs_lt cfg c.hot.activeEpoch tick.wallMs)
          refine .inr ⟨?_, tick.point, by simp, hwall⟩
          intro p hp
          exact hfloor.trans_le (hwin.le_of_mem_trim hp)
      · have hwall : b < tick.wallMs := hbq.trans_le (hlast.2 q hq)
        refine .inr ⟨?_, q, List.mem_append_left _ hq, hbq⟩
        intro p hp
        rcases List.mem_append.mp ((trim_suffix _ _).mem hp) with hp | hp
        · exact hnew p hp
        · rw [List.mem_singleton.mp hp]
          exact hwall

/-- When a tick at or after the anchor is processed, all observations in order of
time, the full-hour test succeeds exactly if one was made one hour before the
anchor to the millisecond, and no tick so far trimmed the history beyond that. -/
theorem full_hour_iff {tick : SpotTick} (h : (runner M cfg).Run (.start cfg hist) ls c)
    (hsorted : InOrder (received hist ls ++ [tick.point]))
    (hmode : cfg.sigmaVolMode = .slugFixed → 0 ≤ c.hot.activeEpoch)
    (hanchor : anchorMs cfg c.hot tick.wallMs ≤ tick.wallMs) :
    fullHourTest cfg c.hot tick = true ↔
      (∃ p ∈ received hist ls, p.1 = anchorMs cfg c.hot tick.wallMs - oneHourMs) ∧
        ((runner M cfg).restrict
          (trimsUpTo cfg (anchorMs cfg c.hot tick.wallMs - oneHourMs))).Run (.start cfg hist)
            ls c := by
  have hfloor := histTrimFloorMs_of_anchor hmode hanchor
  have hlast := inOrder_concat.mp hsorted
  have hour : (0 : ℤ) < oneHourMs := by decide
  rw [fullHourTest, hasFullHour_iff, binHist_storeTick, hfloor]
  constructor
  · intro ⟨p, hp, hle⟩
    have heq : p.1 = anchorMs cfg c.hot tick.wallMs - oneHourMs := le_antisymm hle (le_head_trim hp)
    have hmem : p ∈ c.hot.binHist := mem_of_stored (List.mem_of_mem_head? hp) (by omega)
    refine ⟨⟨p, (binHist_suffix h).mem hmem, heq⟩, ?_⟩
    rcases newer_of_trimmed h hlast.1 with hrun | ⟨hnew, -⟩
    · exact hrun
    · exact absurd (hnew p hmem) (not_lt.mpr hle)
  · intro ⟨⟨p, hp, heq⟩, hrun⟩
    have hkept : TrimmedTo (anchorMs cfg c.hot tick.wallMs - oneHourMs)
        (received hist ls ++ [tick.point])
        (trim (anchorMs cfg c.hot tick.wallMs - oneHourMs) (c.hot.binHist ++ [tick.point])) :=
      ((trimmedTo_run hrun).concat tick.point).trim le_rfl
    have hmem := hkept.mem (List.mem_append_left _ hp) heq.ge
    have horder := hsorted.of_suffix hkept.suffix
    obtain ⟨q, hq⟩ := Option.isSome_iff_exists.mp (List.isSome_head?.mpr (List.ne_nil_of_mem hmem))
    have hle : q.1 ≤ p.1 := horder.head_le hq hmem
    exact ⟨q, hq, hle.trans heq.le⟩

end Run

/-! ### Two runs -/

/-- Bucket 3900 opens; its hour begins at 300 s. -/
def earlyTick (wallMs : ℤ) : List (Event × Script) :=
  [(rolloverTo 3900 "btc-3900" 100 none none, paperAnswers.script),
   (.binTrade 100 wallMs, paperAnswers.script)]

def openingTick : SpotTick := { mid := 101, wallMs := 3900500, entryClockWallMs := 3900500 }

/-- The conditions of the theorem, for the opening tick and default options. -/
def atOpening (ls : List Label) (c : Consumer) : Bool :=
  decide (InOrder (received [] ls ++ [openingTick.point])) && decide (c.hot.activeEpoch = 3900) &&
    c.hot.sigmaBucket.isNone

theorem exists_atOpening (wallMs : ℤ) (P : List Label → Consumer → Bool)
    (h : (replayRun coarse {} (.start {} []) (earlyTick wallMs)).any (fun x =>
      atOpening x.1 x.2 && P x.1 x.2) = true) :
    ∃ ls c, (runner coarse {}).Run (.start {} []) ls c ∧
      InOrder (received [] ls ++ [openingTick.point]) ∧ c.hot.activeEpoch = 3900 ∧
      c.hot.sigmaBucket = none ∧ P ls c = true := by
  obtain ⟨ls, c, hrun, hopen⟩ := exists_run_of_replay coarse {} [] (earlyTick wallMs)
    (fun ls c => atOpening ls c && P ls c) h
  simp only [atOpening, Bool.and_eq_true, decide_eq_true_eq, Option.isNone_iff_eq_none] at hopen
  obtain ⟨⟨⟨hsorted, hepoch⟩, hsigma⟩, hP⟩ := hopen
  exact ⟨ls, c, hrun, hsorted, hepoch, hsigma, hP⟩

theorem anchorMs_opening {c : Consumer} (he : c.hot.activeEpoch = 3900) :
    anchorMs {} c.hot openingTick.wallMs = 3900000 := by
  simp [anchorMs, he]

theorem full_hour_at_opening :
    ∃ ls c, (runner coarse {}).Run (.start {} []) ls c ∧
      fullHourTest {} c.hot openingTick = true ∧ ∃ p ∈ received [] ls, p.1 = 300000 := by
  obtain ⟨ls, c, hrun, hsorted, hepoch, -, hP⟩ := exists_atOpening 300000
    (fun _ c => fullHourTest {} c.hot openingTick) (by decide +kernel)
  have hanchor := anchorMs_opening hepoch
  have hiff := full_hour_iff hrun hsorted (fun _ => by omega) (by rw [hanchor]; decide)
  rw [hanchor] at hiff
  exact ⟨ls, c, hrun, hP, (hiff.mp hP).1⟩

/-- An observation one millisecond too old covers the hour, but it is trimmed in
the tick that tests for it. -/
theorem covered_hour_fails :
    ∃ ls c p, (runner coarse {}).Run (.start {} []) ls c ∧
      InOrder (received [] ls ++ [openingTick.point]) ∧ 0 ≤ c.hot.activeEpoch ∧
      c.hot.sigmaBucket = none ∧ p ∈ received [] ls ∧
      p.1 ≤ anchorMs {} c.hot openingTick.wallMs - oneHourMs ∧
      anchorMs {} c.hot openingTick.wallMs ≤ openingTick.wallMs ∧
      fullHourTest {} c.hot openingTick = false := by
  obtain ⟨ls, c, hrun, hsorted, hepoch, hsigma, hP⟩ := exists_atOpening 299999
    (fun ls c => !fullHourTest {} c.hot openingTick &&
      (received [] ls).any fun p => decide (p.1 ≤ 300000)) (by decide +kernel)
  simp only [Bool.and_eq_true, Bool.not_eq_true', List.any_eq_true, decide_eq_true_eq] at hP
  obtain ⟨htest, p, hp, hle⟩ := hP
  have hanchor := anchorMs_opening hepoch
  have hopen : anchorMs {} c.hot openingTick.wallMs ≤ openingTick.wallMs := by
    rw [hanchor]
    decide
  exact ⟨ls, c, p, hrun, hsorted, by omega, hsigma, hp, by rw [hanchor]; exact hle, hopen, htest⟩

end LeadLag.Spot
