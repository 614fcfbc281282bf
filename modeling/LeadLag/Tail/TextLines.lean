import LeadLag.Core.SplitOn
import LeadLag.Daemon.Text

/-!
# The lines of a text (`for line in f: line = line.strip(); if line: …`)
-/

namespace LeadLag.Tail
open LeadLag.Core (pieces_induction)
open LeadLag.Daemon

/-- The line, unless it is blank. -/
def nonBlank (cs : List Char) : List (List Char) := [strip cs].filter (· ≠ [])

def textLines (cs : List Char) : List (List Char) := (cs.splitOnP endsLine).flatMap nonBlank

theorem nonBlank_eq_nil_iff {cs : List Char} :
    nonBlank cs = [] ↔ ∀ c ∈ cs, isSpace c = true := by
  rw [← strip_eq_nil_iff, nonBlank]
  simp

theorem nonBlank_congr {cs ds : List Char} (h : strip cs = strip ds) :
    nonBlank cs = nonBlank ds := by
  rw [nonBlank, nonBlank, h]

theorem textLines_append_endsLine {b : Char} (hb : endsLine b = true) (xs ys : List Char) :
    textLines (xs ++ b :: ys) = textLines xs ++ textLines ys := by
  rw [textLines, List.splitOnP_append_cons xs ys hb, List.flatMap_append, textLines, textLines]

theorem textLines_of_forall {cs : List Char} (h : ∀ c ∈ cs, endsLine c = false) :
    textLines cs = nonBlank cs := by
  rw [textLines, List.splitOnP_eq_singleton h, List.flatMap_singleton]

theorem textLines_eq_nil_iff {cs : List Char} :
    textLines cs = [] ↔ ∀ c ∈ cs, isSpace c = true := by
  induction cs using pieces_induction endsLine with
  | last cs hcs => rw [textLines_of_forall hcs, nonBlank_eq_nil_iff]
  | piece xs b ys hxs hb ih =>
    rw [textLines_append_endsLine hb, List.append_eq_nil_iff, ih, textLines_of_forall hxs,
      nonBlank_eq_nil_iff, List.forall_mem_append, List.forall_mem_cons]
    simp [isSpace_of_endsLine hb]

theorem textLines_append_left {lead : List Char} (hlead : ∀ c ∈ lead, isSpace c = true)
    (cs : List Char) : textLines (lead ++ cs) = textLines cs := by
  induction lead using pieces_induction endsLine with
  | last lead hline =>
    induction cs using pieces_induction endsLine with
    | last cs hcs =>
      rw [textLines_of_forall (List.forall_mem_append.mpr ⟨hline, hcs⟩),
        textLines_of_forall hcs]
      exact nonBlank_congr (strip_append_left hlead cs)
    | piece xs b ys hxs hb _ =>
      rw [← List.append_assoc, textLines_append_endsLine hb, textLines_append_endsLine hb,
        textLines_of_forall (List.forall_mem_append.mpr ⟨hline, hxs⟩), textLines_of_forall hxs,
        nonBlank_congr (strip_append_left hlead xs)]
  | piece xs b ys _ hb ih =>
    have hxs : textLines xs = [] :=
      textLines_eq_nil_iff.mpr fun c hc => hlead c (List.mem_append_left _ hc)
    have hys : ∀ c ∈ ys, isSpace c = true :=
      fun c hc => hlead c (List.mem_append_right _ (List.mem_cons_of_mem _ hc))
    rw [List.append_assoc, List.cons_append, textLines_append_endsLine hb, hxs, ih hys,
      List.nil_append]

theorem textLines_append_right {trail : List Char} (htrail : ∀ c ∈ trail, isSpace c = true)
    (cs : List Char) : textLines (cs ++ trail) = textLines cs := by
  induction cs using pieces_induction endsLine with
  | last cs hcs =>
    induction trail using pieces_induction endsLine with
    | last trail hline =>
      rw [textLines_of_forall (List.forall_mem_append.mpr ⟨hcs, hline⟩),
        textLines_of_forall hcs]
      exact nonBlank_congr (strip_append_right htrail cs)
    | piece xs b ys hxs hb _ =>
      have hspace : ∀ c ∈ xs, isSpace c = true := fun c hc => htrail c (List.mem_append_left _ hc)
      have hys : textLines ys = [] :=
        textLines_eq_nil_iff.mpr fun c hc =>
          htrail c (List.mem_append_right _ (List.mem_cons_of_mem _ hc))
      rw [← List.append_assoc, textLines_append_endsLine hb, hys, List.append_nil,
        textLines_of_forall (List.forall_mem_append.mpr ⟨hcs, hxs⟩), textLines_of_forall hcs,
        nonBlank_congr (strip_append_right hspace cs)]
  | piece xs b ys _ hb ih =>
    rw [List.append_assoc, List.cons_append, textLines_append_endsLine hb, ih,
      textLines_append_endsLine hb]

theorem textLines_strip (cs : List Char) : textLines (strip cs) = textLines cs := by
  obtain ⟨lead, trail, hcs, hlead, htrail⟩ := exists_strip cs
  have h := congrArg textLines hcs
  rw [textLines_append_right htrail, textLines_append_left hlead] at h
  exact h.symm

/-! ## One line of the file -/

theorem textLines_eq_nonBlank {cs : List Char} (hn : '\n' ∉ cs) (hr : '\r' ∉ strip cs) :
    textLines cs = nonBlank cs := by
  have hline : ∀ c ∈ strip cs, endsLine c = false := by
    intro c hc
    have hcn : c ≠ '\n' := fun h => hn (h ▸ mem_of_mem_strip hc)
    have hcr : c ≠ '\r' := fun h => hr (h ▸ hc)
    simp [endsLine, hcn, hcr]
  rw [← textLines_strip, textLines_of_forall hline]
  exact nonBlank_congr (strip_strip cs)

/-- A carriage return inside the line gives at least two. -/
theorem length_nonBlank_lt {cs : List Char} (hr : '\r' ∈ strip cs) :
    (nonBlank cs).length < (textLines cs).length := by
  obtain ⟨xs, ys, hcs⟩ := List.append_of_mem hr
  have hlength := congrArg List.length hcs
  simp only [List.length_append, List.length_cons] at hlength
  have hspace : isSpace '\r' = true := by decide
  have hxs : textLines xs ≠ [] := by
    intro h
    have hblank := textLines_eq_nil_iff.mp h
    have hlead : ∀ c ∈ xs ++ ['\r'], isSpace c = true :=
      List.forall_mem_append.mpr ⟨hblank, by simp [hspace]⟩
    have hstrip : strip cs = strip ys := by
      rw [← strip_strip, hcs, ← strip_append_left hlead ys]
      simp
    have := length_strip_le ys
    rw [← hstrip] at this
    omega
  have hys : textLines ys ≠ [] := by
    intro h
    have htrail : ∀ c ∈ '\r' :: ys, isSpace c = true :=
      List.forall_mem_cons.mpr ⟨hspace, textLines_eq_nil_iff.mp h⟩
    have hstrip : strip cs = strip xs := by
      rw [← strip_strip, hcs, strip_append_right htrail]
    have := length_strip_le xs
    rw [← hstrip] at this
    omega
  have hle : (nonBlank cs).length ≤ 1 := List.length_filter_le _ _
  rw [← textLines_strip, hcs, textLines_append_endsLine (by decide), List.length_append]
  have := List.length_pos_iff.mpr hxs
  have := List.length_pos_iff.mpr hys
  omega

end LeadLag.Tail
