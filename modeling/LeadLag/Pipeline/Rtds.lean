import LeadLag.Core.FirstLeast
import Mathlib.Algebra.Order.Ring.Rat

/-!
# RTDS ticks (rtds_chainlink_feed.cpp:97-158, 300-317, 530-598)

The buffer of the last ticks and the tick chosen from it for a boundary. A tick
whose price is not positive is not kept.
-/

namespace LeadLag.Pipeline
open LeadLag.Core

structure Tick where
  tsMs : ℤ
  px : ℚ
  pos : 0 < px
  deriving DecidableEq, Repr

def kMaxBuffer : ℕ := 900

def pushTick (buffer : List Tick) (t : Tick) : List Tick :=
  (buffer ++ [t]).drop (buffer.length + 1 - kMaxBuffer)

def pushTicks (buffer batch : List Tick) : List Tick := batch.foldl pushTick buffer

/-! ### Selection -/

structure TickSel where
  before : Option Tick := none
  after : Option Tick := none
  nearest : Option Tick := none

namespace TickSel

def consider (targetMs maxSkewMs : ℤ) (sel : TickSel) (t : Tick) : TickSel where
  before :=
    if t.tsMs ≤ targetMs ∧ targetMs - t.tsMs ≤ maxSkewMs ∧ sel.before.all (·.tsMs < t.tsMs) then
      some t
    else sel.before
  after :=
    if targetMs ≤ t.tsMs ∧ t.tsMs - targetMs ≤ maxSkewMs ∧ sel.after.all (t.tsMs < ·.tsMs) then
      some t
    else sel.after
  nearest :=
    if sel.nearest.all fun u => |t.tsMs - targetMs| < |u.tsMs - targetMs| then some t
    else sel.nearest

def assignFallback (targetMs maxSkewMs : ℤ) (sel : TickSel) : Option Tick :=
  match sel.after, sel.before with
  | some t, _ => some t
  | none, some t => some t
  | none, none => sel.nearest.filter fun t => |t.tsMs - targetMs| ≤ maxSkewMs

/-- A tick of the window is preferred to every other. -/
theorem after_of_assignFallback {targetMs maxSkewMs : ℤ} {sel : TickSel} {t : Tick}
    (h : sel.assignFallback targetMs maxSkewMs = some t) :
    sel.after = none ∨ sel.after = some t := by
  unfold assignFallback at h
  cases hafter : sel.after with
  | none => exact .inl rfl
  | some first =>
    rw [hafter] at h
    exact .inr h

end TickSel

def select (targetMs maxSkewMs : ℤ) (buffer : List Tick) : TickSel :=
  buffer.foldl (TickSel.consider targetMs maxSkewMs) {}

/-! ### The earliest tick of the window -/

def InWindow (targetMs maxSkewMs : ℤ) (t : Tick) : Prop :=
  targetMs ≤ t.tsMs ∧ t.tsMs ≤ targetMs + maxSkewMs

def NoneIn (targetMs maxSkewMs : ℤ) (buffer : List Tick) : Prop :=
  ∀ t ∈ buffer, ¬ InWindow targetMs maxSkewMs t

structure Earliest (targetMs maxSkewMs : ℤ) (buffer : List Tick) (t : Tick) : Prop where
  mem : t ∈ buffer
  inWindow : InWindow targetMs maxSkewMs t
  le : ∀ u ∈ buffer, InWindow targetMs maxSkewMs u → t.tsMs ≤ u.tsMs

section Earliest

variable {targetMs maxSkewMs : ℤ} {buffer : List Tick}

/-- What `after` holds when the ticks of the buffer have been considered. -/
def After (targetMs maxSkewMs : ℤ) (buffer : List Tick) : Option Tick → Prop
  | none => NoneIn targetMs maxSkewMs buffer
  | some t => Earliest targetMs maxSkewMs buffer t

theorem replaces_after_iff (o : Option Tick) (t : Tick) :
    (targetMs ≤ t.tsMs ∧ t.tsMs - targetMs ≤ maxSkewMs ∧ o.all (t.tsMs < ·.tsMs) = true) ↔
      Replaces (InWindow targetMs maxSkewMs) Tick.tsMs o t := by
  simp only [Replaces, InWindow, Option.all_eq_true, decide_eq_true_eq]
  constructor
  · rintro ⟨hle, hskew, hall⟩
    exact ⟨⟨hle, by omega⟩, hall⟩
  · rintro ⟨⟨hle, hskew⟩, hall⟩
    exact ⟨hle, by omega, hall⟩

/-- `after` is the first of the earliest ticks of the window. -/
theorem scanned_after (targetMs maxSkewMs : ℤ) (buffer : List Tick) :
    Scanned (InWindow targetMs maxSkewMs) Tick.tsMs buffer
      (select targetMs maxSkewMs buffer).after := by
  refine scanned_foldl _ TickSel.after (fun sel t => ?_) {} [] buffer scanned_nil
  rw [← replaces_after_iff]
  by_cases h : targetMs ≤ t.tsMs ∧ t.tsMs - targetMs ≤ maxSkewMs ∧
      sel.after.all (t.tsMs < ·.tsMs) = true
  · exact .inl ⟨h, if_pos h⟩
  · exact .inr ⟨h, if_neg h⟩

theorem select_after (targetMs maxSkewMs : ℤ) (buffer : List Tick) :
    After targetMs maxSkewMs buffer (select targetMs maxSkewMs buffer).after := by
  have hscan := scanned_after targetMs maxSkewMs buffer
  cases hsel : (select targetMs maxSkewMs buffer).after with
  | none =>
    rw [hsel] at hscan
    exact hscan
  | some t =>
    rw [hsel] at hscan
    exact ⟨hscan.mem, hscan.holds, hscan.le⟩

end Earliest

end LeadLag.Pipeline
