import Mathlib.Data.List.DropRight

/-!
# Text as Python reads it

`str.strip`, and where a line read in text mode ends.
-/

namespace LeadLag.Daemon

/-- `str.isspace`. -/
def isSpace (c : Char) : Bool :=
  let n := c.toNat
  decide (9 ≤ n ∧ n ≤ 13 ∨ 28 ≤ n ∧ n ≤ 32 ∨ n = 133 ∨ n = 160 ∨ n = 5760 ∨
    8192 ≤ n ∧ n ≤ 8202 ∨ n = 8232 ∨ n = 8233 ∨ n = 8239 ∨ n = 8287 ∨ n = 12288)

/-- `str.strip`. -/
def strip (cs : List Char) : List Char :=
  ((cs.dropWhile isSpace).reverse.dropWhile isSpace).reverse

/-- Python's universal newlines. Of CR LF the LF makes a blank line, which is skipped. -/
def endsLine (c : Char) : Bool := c = '\n' || c = '\r'

theorem isSpace_of_endsLine {c : Char} (h : endsLine c = true) : isSpace c = true := by
  have hc : c = '\n' ∨ c = '\r' := by simpa [endsLine] using h
  rcases hc with rfl | rfl <;> decide

theorem strip_eq_rdropWhile (cs : List Char) :
    strip cs = (cs.dropWhile isSpace).rdropWhile isSpace := rfl

theorem strip_append_left {lead : List Char} (hlead : ∀ c ∈ lead, isSpace c = true)
    (cs : List Char) : strip (lead ++ cs) = strip cs := by
  rw [strip, List.dropWhile_append_of_pos hlead, strip]

theorem strip_concat {c : Char} (hc : isSpace c = true) (cs : List Char) :
    strip (cs ++ [c]) = strip cs := by
  rw [strip_eq_rdropWhile, strip_eq_rdropWhile, List.dropWhile_append]
  split
  · rename_i h
    rw [List.isEmpty_iff.mp h]
    simp [hc]
  · exact List.rdropWhile_concat_pos isSpace _ c hc

theorem strip_append_right {trail : List Char} (htrail : ∀ c ∈ trail, isSpace c = true)
    (cs : List Char) : strip (cs ++ trail) = strip cs := by
  induction trail using List.reverseRecOn with
  | nil => rw [List.append_nil]
  | append_singleton trail c ih =>
    have hc : isSpace c = true := htrail c (by simp)
    have hrest : ∀ d ∈ trail, isSpace d = true := fun d hd => htrail d (by simp [hd])
    rw [← List.append_assoc, strip_concat hc, ih hrest]

theorem strip_eq_nil_iff {cs : List Char} : strip cs = [] ↔ ∀ c ∈ cs, isSpace c = true := by
  constructor
  · intro h c hc
    rw [strip_eq_rdropWhile, List.rdropWhile_eq_nil_iff] at h
    rw [← List.takeWhile_append_dropWhile (p := isSpace) (l := cs)] at hc
    rcases List.mem_append.mp hc with hc | hc
    · exact List.mem_takeWhile_imp hc
    · exact h c hc
  · intro h
    have hstrip := strip_append_left h []
    rw [List.append_nil] at hstrip
    exact hstrip

theorem exists_strip (cs : List Char) :
    ∃ lead trail, cs = lead ++ strip cs ++ trail ∧ (∀ c ∈ lead, isSpace c = true) ∧
      ∀ c ∈ trail, isSpace c = true := by
  refine ⟨cs.takeWhile isSpace, (cs.dropWhile isSpace).rtakeWhile isSpace, ?_, ?_, ?_⟩
  · rw [strip_eq_rdropWhile, List.append_assoc, List.rdropWhile_append_rtakeWhile,
      List.takeWhile_append_dropWhile]
  · exact fun c hc => List.mem_takeWhile_imp hc
  · exact fun c hc => List.mem_rtakeWhile_imp hc

theorem strip_strip (cs : List Char) : strip (strip cs) = strip cs := by
  obtain ⟨lead, trail, hcs, hlead, htrail⟩ := exists_strip cs
  have h := congrArg strip hcs
  rw [strip_append_right htrail, strip_append_left hlead] at h
  exact h.symm

theorem length_strip_le (cs : List Char) : (strip cs).length ≤ cs.length := by
  obtain ⟨lead, trail, hcs, -, -⟩ := exists_strip cs
  have h := congrArg List.length hcs
  simp only [List.length_append] at h
  omega

theorem mem_of_mem_strip {c : Char} {cs : List Char} (h : c ∈ strip cs) : c ∈ cs := by
  obtain ⟨lead, trail, hcs, -, -⟩ := exists_strip cs
  rw [hcs]
  simp [h]

end LeadLag.Daemon
