import LeadLag.Pipeline.Rtds
import Mathlib.Algebra.Order.Group.Abs
import Mathlib.Algebra.Order.Group.Int
import Mathlib.Data.List.DropRight

/-!
# Strike selection (rtds_chainlink_feed.cpp:97-158, 300-317, 399-437, 530-657)

`wait_strike_inner` polls the buffer until its deadline and returns as soon as
a tick of the window at or after the boundary is there; then it falls back on
the last snapshot. The number of polls is the clock's. Differences of
timestamps are exact, where `std::int64_t` would leave its range and C++ gives
no meaning.
-/

namespace LeadLag.Rtds
open LeadLag.Core LeadLag.Pipeline

inductive FeedEvent where
  | push (batch : List Tick)
  | reconnect

def FeedEvent.apply (buffer : List Tick) : FeedEvent → List Tick
  | .push batch => pushTicks buffer batch
  | .reconnect => []

def bufferAfter (buffer : List Tick) (events : List FeedEvent) : List Tick :=
  events.foldl FeedEvent.apply buffer

inductive Pick where
  | after
  | before
  | nearest
  deriving DecidableEq, Repr

structure Strike where
  tick : Tick
  pick : Pick
  immediate : Bool
  deriving DecidableEq

/-- `assign_fallback` with the name of the candidate it takes. -/
def fallbackPick (targetMs maxSkewMs : ℤ) (sel : TickSel) : Option (Tick × Pick) :=
  match sel.after, sel.before with
  | some t, _ => some (t, .after)
  | none, some t => some (t, .before)
  | none, none =>
    (sel.nearest.filter fun t => |t.tsMs - targetMs| ≤ maxSkewMs).map fun t => (t, .nearest)

theorem fallbackPick_fst (targetMs maxSkewMs : ℤ) (sel : TickSel) :
    (fallbackPick targetMs maxSkewMs sel).map Prod.fst =
      sel.assignFallback targetMs maxSkewMs := by
  unfold fallbackPick TickSel.assignFallback
  cases sel.after with
  | some t => rfl
  | none =>
    cases sel.before with
    | some t => rfl
    | none => simp [Option.map_map, Function.comp_def]

/-- The text left in `error_message`; it held `msg` before. -/
def failureText (targetMs maxSkewMs : ℤ) (msg : String) (sel : TickSel) : String :=
  match sel.nearest with
  | some t => "RTDS btc/usd skew too large (best |dt|=" ++ toString |t.tsMs - targetMs| ++
      " ms vs max " ++ toString maxSkewMs ++ " ms)"
  | none =>
    if msg = "" then "no RTDS crypto_prices_chainlink btc/usd samples within timeout" else msg

def waitFinal (targetMs maxSkewMs : ℤ) (msg : String) (buffer : List Tick) :
    Except String Strike :=
  let sel := select targetMs maxSkewMs buffer
  match fallbackPick targetMs maxSkewMs sel with
  | some (t, pick) => .ok ⟨t, pick, false⟩
  | none => .error (failureText targetMs maxSkewMs msg sel)

/-- `polls` are the events before each snapshot taken ahead of the deadline,
`last` those before the snapshot taken after it. -/
def waitPolls (targetMs maxSkewMs : ℤ) (msg : String) (buffer : List Tick) :
    List (List FeedEvent) → List FeedEvent → Except String Strike
  | [], last => waitFinal targetMs maxSkewMs msg (bufferAfter buffer last)
  | events :: polls, last =>
    let snap := bufferAfter buffer events
    match (select targetMs maxSkewMs snap).after with
    | some t => .ok ⟨t, .after, true⟩
    | none => waitPolls targetMs maxSkewMs msg snap polls last

/-- `started` is the state after `ensure_started_inner`, with its error text. -/
def waitStrike (boundaryMs maxSkewMs : ℤ) (msg : String) (started : Except String Unit)
    (buffer : List Tick) (polls : List (List FeedEvent)) (last : List FeedEvent) :
    Except String Strike :=
  match started with
  | .error err => .error (if err = "" then "RTDS feed failed to start" else err)
  | .ok () => waitPolls boundaryMs (max maxSkewMs 1000) msg buffer polls last

/-! ### The buffer -/

/-- The ticks pushed since the last reconnect, in the order of arrival. -/
def arrive (ticks : List Tick) : FeedEvent → List Tick
  | .push batch => ticks ++ batch
  | .reconnect => []

def sinceReconnect (events : List FeedEvent) : List Tick := events.foldl arrive []

/-- The last ticks of these, as many as the buffer holds. -/
def kept (events : List FeedEvent) : List Tick := (sinceReconnect events).rtake kMaxBuffer

theorem pushTick_rtake (ticks : List Tick) (t : Tick) :
    pushTick (ticks.rtake kMaxBuffer) t = (ticks ++ [t]).rtake kMaxBuffer := by
  unfold pushTick List.rtake
  generalize kMaxBuffer = n
  have hle : ticks.length - n ≤ ticks.length := Nat.sub_le _ _
  rw [← List.drop_append_of_le_length hle, List.drop_drop]
  congr 1
  simp only [List.length_append, List.length_drop, List.length_singleton]
  omega

theorem pushTicks_cons (buffer : List Tick) (t : Tick) (batch : List Tick) :
    pushTicks buffer (t :: batch) = pushTicks (pushTick buffer t) batch := by
  unfold pushTicks
  rw [List.foldl_cons]

theorem pushTicks_nil (buffer : List Tick) : pushTicks buffer [] = buffer := rfl

theorem pushTicks_rtake (ticks batch : List Tick) :
    pushTicks (ticks.rtake kMaxBuffer) batch = (ticks ++ batch).rtake kMaxBuffer := by
  induction batch generalizing ticks with
  | nil => rw [pushTicks_nil, List.append_nil]
  | cons t batch ih =>
    rw [pushTicks_cons, pushTick_rtake, ih, List.append_assoc, List.singleton_append]

theorem bufferAfter_cons (buffer : List Tick) (e : FeedEvent) (events : List FeedEvent) :
    bufferAfter buffer (e :: events) = bufferAfter (e.apply buffer) events := rfl

theorem bufferAfter_rtake (ticks : List Tick) (events : List FeedEvent) :
    bufferAfter (ticks.rtake kMaxBuffer) events = (events.foldl arrive ticks).rtake kMaxBuffer := by
  induction events generalizing ticks with
  | nil => simp only [bufferAfter, List.foldl_nil]
  | cons e events ih =>
    rw [bufferAfter_cons, List.foldl_cons]
    cases e with
    | push batch =>
      simp only [FeedEvent.apply, arrive]
      rw [pushTicks_rtake, ih]
    | reconnect =>
      simp only [FeedEvent.apply, arrive]
      rw [← ih, List.rtake_nil]

theorem bufferAfter_eq_kept (events : List FeedEvent) : bufferAfter [] events = kept events := by
  rw [kept, sinceReconnect, ← bufferAfter_rtake, List.rtake_nil]

theorem bufferAfter_append (buffer : List Tick) (es fs : List FeedEvent) :
    bufferAfter buffer (es ++ fs) = bufferAfter (bufferAfter buffer es) fs :=
  List.foldl_append

/-! ### The candidates -/

def InBefore (targetMs maxSkewMs : ℤ) (t : Tick) : Prop :=
  targetMs - maxSkewMs ≤ t.tsMs ∧ t.tsMs ≤ targetMs

section Candidates

variable (targetMs maxSkewMs : ℤ)

theorem replaces_before_iff (o : Option Tick) (t : Tick) :
    (t.tsMs ≤ targetMs ∧ targetMs - t.tsMs ≤ maxSkewMs ∧ o.all (·.tsMs < t.tsMs) = true) ↔
      Replaces (InBefore targetMs maxSkewMs) (fun u => OrderDual.toDual u.tsMs) o t := by
  simp only [Replaces, InBefore, Option.all_eq_true, decide_eq_true_eq,
    OrderDual.toDual_lt_toDual]
  constructor
  · rintro ⟨hle, hskew, hall⟩
    exact ⟨⟨by omega, hle⟩, hall⟩
  · rintro ⟨⟨hskew, hle⟩, hall⟩
    exact ⟨hle, by omega, hall⟩

theorem replaces_nearest_iff (o : Option Tick) (t : Tick) :
    (o.all fun u => |t.tsMs - targetMs| < |u.tsMs - targetMs|) = true ↔
      Replaces (fun _ => True) (fun u : Tick => |u.tsMs - targetMs|) o t := by
  simp only [Replaces, Option.all_eq_true, decide_eq_true_eq, true_and]

theorem scanned_before (buffer : List Tick) :
    Scanned (InBefore targetMs maxSkewMs) (fun u => OrderDual.toDual u.tsMs) buffer
      (select targetMs maxSkewMs buffer).before := by
  refine scanned_foldl _ TickSel.before (fun sel t => ?_) {} [] buffer scanned_nil
  rw [← replaces_before_iff]
  by_cases h : t.tsMs ≤ targetMs ∧ targetMs - t.tsMs ≤ maxSkewMs ∧
      sel.before.all (·.tsMs < t.tsMs) = true
  · exact .inl ⟨h, if_pos h⟩
  · exact .inr ⟨h, if_neg h⟩

theorem scanned_nearest (buffer : List Tick) :
    Scanned (fun _ => True) (fun u : Tick => |u.tsMs - targetMs|) buffer
      (select targetMs maxSkewMs buffer).nearest := by
  refine scanned_foldl _ TickSel.nearest (fun sel t => ?_) {} [] buffer scanned_nil
  rw [← replaces_nearest_iff]
  by_cases h : (sel.nearest.all fun u => |t.tsMs - targetMs| < |u.tsMs - targetMs|) = true
  · exact .inl ⟨h, if_pos h⟩
  · exact .inr ⟨h, if_neg h⟩

end Candidates

/-! ### The choice -/

/-- What is chosen from `buffer`: never the nearest tick. -/
inductive Settled (targetMs maxSkewMs : ℤ) (buffer : List Tick) : Option (Tick × Pick) → Prop
  | after {t : Tick} (h : FirstLeast (InWindow targetMs maxSkewMs) Tick.tsMs buffer t) :
      Settled targetMs maxSkewMs buffer (some (t, .after))
  | before {t : Tick} (hafter : NoneIn targetMs maxSkewMs buffer)
      (h : FirstGreatest (InBefore targetMs maxSkewMs) Tick.tsMs buffer t) :
      Settled targetMs maxSkewMs buffer (some (t, .before))
  | failed (hafter : NoneIn targetMs maxSkewMs buffer)
      (hbefore : ∀ t ∈ buffer, ¬ InBefore targetMs maxSkewMs t) :
      Settled targetMs maxSkewMs buffer none

def chooseFrom (targetMs maxSkewMs : ℤ) (buffer : List Tick) : Option (Tick × Pick) :=
  fallbackPick targetMs maxSkewMs (select targetMs maxSkewMs buffer)

/-- A tick within the skew lies on one side of the boundary and is a candidate there. -/
theorem nearest_too_far {targetMs maxSkewMs : ℤ} {buffer : List Tick}
    (hafter : NoneIn targetMs maxSkewMs buffer)
    (hbefore : ∀ t ∈ buffer, ¬ InBefore targetMs maxSkewMs t) :
    ((select targetMs maxSkewMs buffer).nearest.filter fun t =>
      |t.tsMs - targetMs| ≤ maxSkewMs) = none := by
  have hscan := scanned_nearest targetMs maxSkewMs buffer
  cases hnear : (select targetMs maxSkewMs buffer).nearest with
  | none => rfl
  | some t =>
    rw [hnear] at hscan
    have hin : ¬ InWindow targetMs maxSkewMs t := hafter t hscan.mem
    have hbef : ¬ InBefore targetMs maxSkewMs t := hbefore t hscan.mem
    have hfar : ¬ |t.tsMs - targetMs| ≤ maxSkewMs := by
      intro hskew
      obtain ⟨hlow, hhigh⟩ := abs_le.mp hskew
      rcases le_total targetMs t.tsMs with hle | hle
      · exact hin ⟨hle, by omega⟩
      · exact hbef ⟨by omega, hle⟩
    exact Option.filter_some_neg (by simpa using hfar)

theorem chooseFrom_settled (targetMs maxSkewMs : ℤ) (buffer : List Tick) :
    Settled targetMs maxSkewMs buffer (chooseFrom targetMs maxSkewMs buffer) := by
  have hafter := scanned_after targetMs maxSkewMs buffer
  have hbefore := scanned_before targetMs maxSkewMs buffer
  unfold chooseFrom fallbackPick
  cases ha : (select targetMs maxSkewMs buffer).after with
  | some t =>
    rw [ha] at hafter
    exact .after hafter
  | none =>
    rw [ha] at hafter
    cases hb : (select targetMs maxSkewMs buffer).before with
    | some t =>
      rw [hb] at hbefore
      exact .before hafter hbefore
    | none =>
      rw [hb] at hbefore
      simp only [nearest_too_far hafter hbefore, Option.map_none]
      exact .failed hafter hbefore

theorem Settled.not_nearest {targetMs maxSkewMs : ℤ} {buffer : List Tick}
    {o : Option (Tick × Pick)} (h : Settled targetMs maxSkewMs buffer o) (t : Tick) :
    o ≠ some (t, .nearest) := by
  intro ho
  subst ho
  cases h

theorem chooseFrom_tsMs (targetMs maxSkewMs : ℤ) (buffer : List Tick) :
    (chooseFrom targetMs maxSkewMs buffer).map (·.1.tsMs) =
      ((select targetMs maxSkewMs buffer).after.map Tick.tsMs).or
        ((select targetMs maxSkewMs buffer).before.map Tick.tsMs) := by
  have hafter := scanned_after targetMs maxSkewMs buffer
  have hbefore := scanned_before targetMs maxSkewMs buffer
  unfold chooseFrom fallbackPick
  cases ha : (select targetMs maxSkewMs buffer).after with
  | some t => rfl
  | none =>
    cases hb : (select targetMs maxSkewMs buffer).before with
    | some t => rfl
    | none =>
      rw [ha] at hafter
      rw [hb] at hbefore
      simp only [nearest_too_far hafter hbefore]
      rfl

/-- The chosen timestamp depends on which ticks the buffer holds, not on their order. -/
theorem chooseFrom_perm {buffer buffer' : List Tick} (h : buffer'.Perm buffer)
    (targetMs maxSkewMs : ℤ) :
    (chooseFrom targetMs maxSkewMs buffer').map (·.1.tsMs) =
      (chooseFrom targetMs maxSkewMs buffer).map (·.1.tsMs) := by
  have hafter := (scanned_after targetMs maxSkewMs buffer').key_perm
    (scanned_after targetMs maxSkewMs buffer) h
  have hbefore : (select targetMs maxSkewMs buffer').before.map Tick.tsMs =
      (select targetMs maxSkewMs buffer).before.map Tick.tsMs :=
    (scanned_before targetMs maxSkewMs buffer').key_perm
      (scanned_before targetMs maxSkewMs buffer) h
  rw [chooseFrom_tsMs, chooseFrom_tsMs, hafter, hbefore]

/-! ### The snapshot that decides -/

/-- The events before the first snapshot that holds a tick of the window, or
all of them. -/
def deciding (targetMs maxSkewMs : ℤ) (history : List FeedEvent) :
    List (List FeedEvent) → List FeedEvent → List FeedEvent
  | [], last => history ++ last
  | events :: polls, last =>
    if (kept (history ++ events)).any fun t =>
        targetMs ≤ t.tsMs ∧ t.tsMs ≤ targetMs + maxSkewMs then history ++ events
    else deciding targetMs maxSkewMs (history ++ events) polls last

def chosen (r : Except String Strike) : Option (Tick × Pick) :=
  r.toOption.map fun s => (s.tick, s.pick)

theorem chosen_waitFinal (targetMs maxSkewMs : ℤ) (msg : String) (buffer : List Tick) :
    chosen (waitFinal targetMs maxSkewMs msg buffer) = chooseFrom targetMs maxSkewMs buffer := by
  unfold waitFinal chooseFrom
  simp only
  cases fallbackPick targetMs maxSkewMs (select targetMs maxSkewMs buffer) with
  | none => rfl
  | some pair => rfl

theorem after_eq_none_iff (targetMs maxSkewMs : ℤ) (buffer : List Tick) :
    (select targetMs maxSkewMs buffer).after = none ↔
      (buffer.any fun t => targetMs ≤ t.tsMs ∧ t.tsMs ≤ targetMs + maxSkewMs) = false := by
  have hscan := scanned_after targetMs maxSkewMs buffer
  rw [List.any_eq_false]
  constructor
  · intro hnone t ht
    rw [hnone] at hscan
    simpa [InWindow] using hscan t ht
  · intro hnone
    apply hscan.eq_none
    intro t ht hin
    exact hnone t ht (by simpa [InWindow] using hin)

theorem chosen_waitPolls (targetMs maxSkewMs : ℤ) (msg : String) (history : List FeedEvent)
    (polls : List (List FeedEvent)) (last : List FeedEvent) :
    chosen (waitPolls targetMs maxSkewMs msg (kept history) polls last) =
      chooseFrom targetMs maxSkewMs (kept (deciding targetMs maxSkewMs history polls last)) := by
  induction polls generalizing history with
  | nil =>
    rw [waitPolls, deciding, chosen_waitFinal, ← bufferAfter_eq_kept, ← bufferAfter_append,
      bufferAfter_eq_kept]
  | cons events polls ih =>
    have hsnap : bufferAfter (kept history) events = kept (history ++ events) := by
      rw [← bufferAfter_eq_kept, ← bufferAfter_append, bufferAfter_eq_kept]
    rw [waitPolls, deciding, hsnap]
    have hnone := after_eq_none_iff targetMs maxSkewMs (kept (history ++ events))
    cases hafter : (select targetMs maxSkewMs (kept (history ++ events))).after with
    | none =>
      rw [hnone.mp hafter]
      exact ih (history ++ events)
    | some t =>
      have hany : ((kept (history ++ events)).any fun t =>
          targetMs ≤ t.tsMs ∧ t.tsMs ≤ targetMs + maxSkewMs) = true := by
        rw [← Bool.not_eq_false]
        intro hfalse
        rw [hnone.mpr hfalse] at hafter
        cases hafter
      rw [hany]
      simp [chosen, chooseFrom, fallbackPick, hafter, Except.toOption]

/-- For any sequence of batches and reconnects, before and between the polls:
with the skew raised to a second, the strike is the first of the earliest ticks
of the window from the boundary on, else the first of the latest ticks of the
window before it, else there is none. Its timestamp does not depend on the order
of the ticks kept, and `nearest` decides no strike. -/
theorem waitStrike_settled (boundaryMs maxSkewMs : ℤ) (msg : String) (history : List FeedEvent)
    (polls : List (List FeedEvent)) (last : List FeedEvent) :
    let m := max maxSkewMs 1000
    let B := kept (deciding boundaryMs m history polls last)
    let strike := chosen (waitStrike boundaryMs maxSkewMs msg (.ok ()) (bufferAfter [] history)
      polls last)
    Settled boundaryMs m B strike ∧
      (∀ B', B'.Perm B →
        (chooseFrom boundaryMs m B').map (·.1.tsMs) = strike.map (·.1.tsMs)) ∧
      ∀ t, strike ≠ some (t, .nearest) := by
  intro m B strike
  have hstrike : strike = chooseFrom boundaryMs m B := by
    show chosen (waitPolls boundaryMs m msg (bufferAfter [] history) polls last) = _
    rw [bufferAfter_eq_kept, chosen_waitPolls]
  rw [hstrike]
  have hsettled := chooseFrom_settled boundaryMs m B
  exact ⟨hsettled, fun B' hperm => chooseFrom_perm hperm boundaryMs m, hsettled.not_nearest⟩

/-- A skew below a second is raised: the tick 800 ms after the boundary is taken
where a skew of 500 was asked for. -/
theorem waitStrike_small_skew :
    ¬ ∀ (boundaryMs maxSkewMs : ℤ) (msg : String) (history : List FeedEvent)
      (polls : List (List FeedEvent)) (last : List FeedEvent),
      Settled boundaryMs maxSkewMs (kept (deciding boundaryMs maxSkewMs history polls last))
        (chosen (waitStrike boundaryMs maxSkewMs msg (.ok ()) (bufferAfter [] history)
          polls last)) := by
  intro h
  have hsettled := h 0 500 "" [] [] [.push [⟨800, 1, one_pos⟩]]
  have hchosen : chosen (waitStrike 0 500 "" (.ok ()) (bufferAfter [] []) []
      [.push [⟨800, 1, one_pos⟩]]) = some (⟨800, 1, one_pos⟩, .after) := by decide
  rw [hchosen] at hsettled
  cases hsettled with
  | after hfirst =>
    have hin : (800 : ℤ) ≤ 0 + 500 := hfirst.holds.2
    omega

end LeadLag.Rtds
