import LeadLag.Execution.Clock
import LeadLag.Runner.Replay
import LeadLag.Runner.Ticks

/-!
# The entry window

`entry_elapsed_ok` does not read a clock: it uses the local clock recorded with
the last spot tick, in `schedule` and again in `execute_due`. When ticks stop
and quotes go on, that clock stands still.
-/

namespace LeadLag.Orders
open LeadLag.Execution LeadLag.Interaction LeadLag.Runner

def elapsedSec (epoch wallMs : ℤ) : ℚ := ((wallMs - epoch * 1000 : ℤ) : ℚ) / 1000

def InWindow (cfg : Config) (epoch wallMs : ℤ) : Prop :=
  cfg.entryElapsedMinSec ≤ elapsedSec epoch wallMs ∧
    elapsedSec epoch wallMs ≤ cfg.entryElapsedMaxSec

theorem elapsedSec_mono (epoch : ℤ) {w w' : ℤ} (h : w ≤ w') :
    elapsedSec epoch w ≤ elapsedSec epoch w' := by
  have hcast : ((w - epoch * 1000 : ℤ) : ℚ) ≤ ((w' - epoch * 1000 : ℤ) : ℚ) := by
    exact_mod_cast sub_le_sub_right h _
  unfold elapsedSec
  linarith

theorem inWindow_of_ok {cfg : Config} {epoch wallMs : ℤ}
    (hw : cfg.useEntryElapsedWindow = true) (h : entryElapsedOk cfg epoch wallMs = true) :
    InWindow cfg epoch wallMs := by
  simp only [entryElapsedOk, hw, Bool.not_true, Bool.false_eq_true, if_false] at h
  split at h
  · cases h
  · have hin := of_decide_eq_true h
    exact hin

/-! ### The clock of the last tick -/

/-- A BUY row: the clock recorded with the spot in `c` is in the window. -/
def BoughtInWindow (cfg : Config) (tick : Option SpotTick) (epoch : ℤ) (row : TradesRow) : Prop :=
  ∀ r, row = .buy r → ∃ t, tick = some t ∧ InWindow cfg epoch t.entryClockWallMs

theorem executed_inWindow {M : Libm} {cfg : Config} {c c' : Consumer}
    (hw : cfg.useEntryElapsedWindow = true) (h : Executed M cfg c c') :
    NewRows (BoughtInWindow cfg c.hot.bin c.hot.activeEpoch) c c' := by
  cases h with
  | kept | cleared | unknown | riskBlocked | failed | flattened => exact .same rfl
  | failedRow | stopIncomplete | soldByStop | soldAtBid =>
    refine .one rfl ?_
    intro r hr
    cases hr
  | bought v plan fill tok _ _ _ hv hplan =>
    have hview := HotState.view?_spec hv
    obtain ⟨-, hrefused, -⟩ := buyCheck_order hplan
    simp only [buyRefused, Bool.or_eq_false_iff, Bool.not_eq_false'] at hrefused
    have hok : InWindow cfg c.hot.activeEpoch v.bin.entryClockWallMs := by
      rw [← hview.activeEpoch]
      exact inWindow_of_ok hw hrefused.1.2
    exact .one rfl fun r _ => ⟨v.bin, hview.bin, hok⟩

theorem step_inWindow {M : Libm} {cfg : Config} {c c' : Consumer} {l : Label}
    (hw : cfg.useEntryElapsedWindow = true) (h : Step M cfg c l c') :
    NewRows (BoughtInWindow cfg c.hot.bin c'.hot.activeEpoch) c c' := by
  cases h with
  | event _ _ he =>
    refine (take_taken M cfg c _ _ _ he).newRows.mono ?_
    intro row hrow r hr
    rw [hr] at hrow
    cases hrow
  | update _ he =>
    cases onHotUpdate_updated M cfg _ _ _ he with
    | skipped => exact .same rfl
    | traded v now c₁ _ hv _ hs hx =>
      obtain ⟨a, b, hhot⟩ := hs.hot
      have hbin : c₁.hot.bin = c.hot.bin := by
        rw [hhot]
        rfl
      have hrows := executed_inWindow hw hx
      rw [hbin, ← hx.hot] at hrows
      have hsame : NewRows (BoughtInWindow cfg c.hot.bin c'.hot.activeEpoch) c c₁ :=
        .same hs.trades
      exact hsame.trans hrows

/-! ### Under a wall clock -/

def Label.localStamp? : Label → Option ℤ
  | .event (.binBook _ _ localWallMs) _ | .event (.binTrade _ localWallMs) _ => some localWallMs
  | _ => none

/-- The wall clock does not go back, and no Binance tick is stamped ahead of it. -/
abbrev wallRunner (M : Libm) (cfg : Config) : Lts (Consumer × ℤ) Label :=
  (runnerIn M cfg (fun _ => True) wallClock).restrict fun x l =>
    ∀ w, Label.localStamp? l = some w → w ≤ x.2

def RecordedBefore (x : Consumer × ℤ) : Prop :=
  ∀ tick, x.1.hot.bin = some tick → tick.entryClockWallMs ≤ x.2

theorem recordedBefore_step {M : Libm} {cfg : Config} {x y : Consumer × ℤ} {l : Label}
    (h : (wallRunner M cfg).step x l y) (hx : RecordedBefore x) : RecordedBefore y := by
  obtain ⟨⟨hst, hacc⟩, hstamp⟩ := h
  have hle : x.2 ≤ y.2 := wallClock_le hacc
  intro tick hbin
  cases ht : l.spotTick? with
  | none =>
    rw [(step_noTick hst ht).1] at hbin
    exact (hx tick hbin).trans hle
  | some tick' =>
    rw [step_stores hst ht] at hbin
    obtain rfl : tick' = tick := Option.some.inj hbin
    unfold Label.spotTick? at ht
    split at ht
    · cases ht
      exact (hstamp _ rfl).trans hle
    · cases ht
      exact (hstamp _ rfl).trans hle
    · rename_i tsMs px wall tr
      cases ht
      obtain ⟨t, hcall, hrest⟩ := accepts_cons.mp hacc
      rw [hcall.2 wall rfl]
      exact wallClock_le hrest
    · cases ht

theorem recordedBefore_run {M : Libm} {cfg : Config} {x y : Consumer × ℤ} {ls : List Label}
    (hx : (wallRunner M cfg).init x) (h : (wallRunner M cfg).Run x ls y) : RecordedBefore y := by
  refine h.invariant ?_ fun s l t hs hst => recordedBefore_step hst hs
  obtain ⟨⟨hist, hstart⟩, -⟩ := hx
  intro tick hbin
  rw [hstart] at hbin
  cases hbin

/-- With the window enabled a BUY is executed only when the local clock recorded
with the last spot tick, in seconds since `active_epoch`, is in the window. If
the wall clock does not go back and no Binance tick is ahead of it, the wall
clock is not before that recorded clock, hence not before the window opens. -/
theorem entry_window_of_last_tick {M : Libm} {cfg : Config}
    (hw : cfg.useEntryElapsedWindow = true) :
    (∀ s ls c l c', (runner M cfg).init s → (runner M cfg).Run s ls c →
      (runner M cfg).step c l c' →
      NewRows (BoughtInWindow cfg (ticks ls).getLast? c'.hot.activeEpoch) c c') ∧
    ∀ x ls y l z, (wallRunner M cfg).init x → (wallRunner M cfg).Run x ls y →
      (wallRunner M cfg).step y l z →
      NewRows (fun row => ∀ r, row = .buy r → ∃ tick, (ticks ls).getLast? = some tick ∧
        InWindow cfg z.1.hot.activeEpoch tick.entryClockWallMs ∧ tick.entryClockWallMs ≤ y.2 ∧
        cfg.entryElapsedMinSec ≤ elapsedSec z.1.hot.activeEpoch y.2) y.1 z.1 := by
  constructor
  · intro s ls c l c' hs hrun hstep
    rw [← bin_run hs hrun]
    exact step_inWindow hw hstep
  · intro x ls y l z hx hrun hstep
    have hbin : y.1.hot.bin = (ticks ls).getLast? := bin_run hx.1 (runnerIn_run hrun.of_restrict)
    refine (step_inWindow hw hstep.1.1).mono ?_
    intro row hrow r hr
    obtain ⟨tick, htick, hin⟩ := hrow r hr
    have hle := recordedBefore_run hx hrun tick htick
    have hopen := hin.1.trans (elapsedSec_mono z.1.hot.activeEpoch hle)
    rw [hbin] at htick
    exact ⟨tick, htick, hin, hle, hopen⟩

/-! ### Two runs -/

def windowEntry : Config := { edgePersistMs := 0 }

def atSec (sec : ℤ) : Answers :=
  { paperAnswers with now := sec * 1000000000, wallMs := sec * 1000 }

/-- The window of bucket 300 is open from 560 s to 600 s; the only spot tick is
processed at 570 s. At `sec` there is no edge yet. -/
def oneTick (sec : ℤ) : List (Event × Script) :=
  [(.startup "btc-0" 0 (some 100) false, (atSec 540).script),
   (rolloverTo 300 "btc-300" 100 none none, (atSec 541).script),
   (.chainlinkSpot 569000 110, (atSec 570).script),
   (downQuote "down-300" "btc-300" 300 (18 / 100) (2 / 10), (atSec 571).script),
   (upQuote "up-300" "btc-300" 300 (9 / 10) (95 / 100), (atSec sec).script)]

def stampsPast (x : Consumer × ℤ) (l : Label) : Bool :=
  (Label.localStamp? l).all fun w => decide (w ≤ x.2)

theorem wallRunner_run {M : Libm} {cfg : Config} {x y : Consumer × ℤ} {ls : List Label}
    (h : (checkedIn M cfg (fun _ => True) wallClock stampsPast).Run x ls y) :
    (wallRunner M cfg).Run x ls y := by
  refine h.mono ?_
  intro x l y hst
  refine ⟨hst.1, ?_⟩
  intro w hw
  simpa [stampsPast, hw] using hst.2

/-- The update for an Up quote of 0.80 at `sec` buys, with the wall clock before
it at `P`. -/
def buysNext (sec : ℤ) (P : ℚ → Bool) (x : Consumer × ℤ) : Bool :=
  (replayUpdate coarse windowEntry wallTick stampsPast x (.polyQuote (dropTo (78 / 100)))
    (atSec sec).script).any fun (y, _, z) =>
      (boughtNow y.1 z.1).isSome && P (elapsedSec z.1.hot.activeEpoch y.2)

theorem exists_buysNext (sec : ℤ) (P : ℚ → Bool)
    (h : (replayEvents coarse windowEntry wallTick stampsPast (.start windowEntry [], 0)
      (oneTick sec)).any (buysNext sec P) = true) :
    ∃ x ls y tr z r, (wallRunner coarse windowEntry).init x ∧
      (wallRunner coarse windowEntry).Run x ls y ∧
      (wallRunner coarse windowEntry).step y (.update tr) z ∧
      z.1.trades = .buy r :: y.1.trades ∧ P (elapsedSec z.1.hot.activeEpoch y.2) = true := by
  obtain ⟨x, hx, hbuy⟩ := exists_in_environment coarse windowEntry (fun _ => True) wallClock
    stampsPast (s := 0) (oneTick sec) _ wallTick_wallClock trivial h
  obtain ⟨⟨y, tr, z⟩, hup, hP⟩ := (Option.any_eq_true _ _).mp hbuy
  simp only [Bool.and_eq_true] at hP
  obtain ⟨r, hr⟩ := Option.isSome_iff_exists.mp hP.1
  obtain ⟨⟨tr₀, hstep₀⟩, hstep⟩ :=
    replayUpdate_steps (fun _ => True) wallClock wallTick_wallClock hup
  obtain ⟨s, ls, hs, hrun⟩ := hx.exists_run
  have hruny := wallRunner_run (hrun.snoc hstep₀)
  have hlast := Lts.run_singleton.mp (wallRunner_run (Lts.run_singleton.mpr hstep))
  exact ⟨s, _, y, tr, z, r, hs, hruny, hlast, boughtNow_spec hr, hP.2⟩

theorem buy_in_window :
    ∃ x ls y tr z r tick, (wallRunner coarse windowEntry).Run x ls y ∧
      (wallRunner coarse windowEntry).step y (.update tr) z ∧
      z.1.trades = .buy r :: y.1.trades ∧ (ticks ls).getLast? = some tick ∧
      InWindow windowEntry z.1.hot.activeEpoch tick.entryClockWallMs ∧
      260 ≤ elapsedSec z.1.hot.activeEpoch y.2 := by
  obtain ⟨x, ls, y, tr, z, r, hx, hrun, hstep, hrow, -⟩ :=
    exists_buysNext 575 (fun _ => true) (by decide +kernel)
  have hin := ((entry_window_of_last_tick rfl).2 x ls y _ z hx hrun hstep).head hrow
  obtain ⟨tick, htick, hwin, -, hmin⟩ := hin r rfl
  exact ⟨x, ls, y, tr, z, r, tick, hrun, hstep, hrow, htick, hwin, hmin⟩

/-- A quote at 700 s, 400 s into the bucket, buys on the clock of the tick at 570 s. -/
theorem buy_after_window :
    ∃ x ls y tr z r, (wallRunner coarse windowEntry).init x ∧
      (wallRunner coarse windowEntry).Run x ls y ∧
      (wallRunner coarse windowEntry).step y (.update tr) z ∧
      z.1.trades = .buy r :: y.1.trades ∧
      windowEntry.entryElapsedMaxSec < elapsedSec z.1.hot.activeEpoch y.2 := by
  obtain ⟨x, ls, y, tr, z, r, hx, hrun, hstep, hrow, hlate⟩ :=
    exists_buysNext 700 (fun e => decide (windowEntry.entryElapsedMaxSec < e))
      (by decide +kernel)
  exact ⟨x, ls, y, tr, z, r, hx, hrun, hstep, hrow, by simpa using hlate⟩

end LeadLag.Orders
