import LeadLag.Tail.Codec
import LeadLag.Tail.TextLines

/-!
# The lines of a file and the lines of its text

A line of the file is ended by a newline byte. The text of the file has one line
for each of them and one for what follows the last, unless a carriage return
cuts one in two.
-/

namespace LeadLag.Tail
open LeadLag.Core LeadLag.Daemon

def isNewline (b : UInt8) : Bool := b == newline

/-- The lines that have been ended. -/
def endedLines (bytes : List UInt8) : List (List UInt8) := (bytes.splitOnP isNewline).dropLast

/-- What follows the last newline. -/
def unended (bytes : List UInt8) : List UInt8 :=
  (bytes.splitOnP isNewline).getLast (List.splitOnP_ne_nil isNewline bytes)

/-- What the writer has written after `rows` and a part of the next one. -/
def written (rows : List (List UInt8)) (part : List UInt8) : List UInt8 :=
  rows.flatMap (· ++ [newline]) ++ part

theorem newline_not_mem_of_forall {bytes : List UInt8} (h : ∀ b ∈ bytes, isNewline b = false) :
    newline ∉ bytes := by
  intro hmem
  exact absurd (h newline hmem) (by decide)

theorem forall_of_newline_not_mem {bytes : List UInt8} (h : newline ∉ bytes) :
    ∀ b ∈ bytes, isNewline b = false := by
  intro b hb
  have hne : b ≠ newline := fun heq => h (heq ▸ hb)
  simpa [isNewline] using hne

theorem endedLines_append_unended (bytes : List UInt8) :
    endedLines bytes ++ [unended bytes] = bytes.splitOnP isNewline :=
  List.dropLast_append_getLast _

theorem newline_not_mem_of_mem_endedLines {bytes row : List UInt8} (h : row ∈ endedLines bytes) :
    newline ∉ row :=
  newline_not_mem_of_forall (eq_false_of_mem_splitOnP (List.dropLast_subset _ h))

theorem splitOnP_written {rows : List (List UInt8)} {part : List UInt8}
    (hrows : ∀ row ∈ rows, newline ∉ row) (hpart : newline ∉ part) :
    (written rows part).splitOnP isNewline = rows ++ [part] := by
  induction rows with
  | nil => exact List.splitOnP_eq_singleton (forall_of_newline_not_mem hpart)
  | cons row rows ih =>
    have hrow := forall_of_newline_not_mem (hrows row List.mem_cons_self)
    have hwritten : written (row :: rows) part = row ++ newline :: written rows part := by
      simp [written]
    rw [hwritten, List.splitOnP_append_cons_of_forall_mem hrow newline rfl,
      ih fun r hr => hrows r (List.mem_cons_of_mem row hr)]
    rfl

theorem endedLines_written {rows : List (List UInt8)} {part : List UInt8}
    (hrows : ∀ row ∈ rows, newline ∉ row) (hpart : newline ∉ part) :
    endedLines (written rows part) = rows := by
  rw [endedLines, splitOnP_written hrows hpart, List.dropLast_concat]

section Decoded

variable (codec : Codec)

/-- A line as it is returned. -/
def lineText (row : List UInt8) : List Char := strip (codec.decode row)

def completeLines (bytes : List UInt8) : List (List Char) :=
  (endedLines bytes).flatMap fun row => nonBlank (codec.decode row)

/-- What a read of the whole of `bytes` returns. -/
def decodedLines (bytes : List UInt8) : List (List Char) := textLines (codec.decode bytes)

/-- The file ends at a line, up to white space, and no line has a carriage return
inside. -/
def EndsAtLine (bytes : List UInt8) : Prop :=
  (∀ row ∈ endedLines bytes, '\r' ∉ lineText codec row) ∧ lineText codec (unended bytes) = []

instance (bytes : List UInt8) : Decidable (EndsAtLine codec bytes) :=
  inferInstanceAs (Decidable (_ ∧ _))

variable {codec}

@[simp] theorem decodedLines_nil : decodedLines codec [] = [] := by
  rw [decodedLines, codec.decode_nil]
  rfl

theorem decodedLines_append_newline (xs ys : List UInt8) :
    decodedLines codec (xs ++ newline :: ys) = decodedLines codec xs ++ decodedLines codec ys := by
  rw [decodedLines, codec.decode_newline, textLines_append_endsLine rfl, decodedLines, decodedLines]

theorem decodedLines_eq (bytes : List UInt8) :
    decodedLines codec bytes =
      (endedLines bytes).flatMap (decodedLines codec) ++ decodedLines codec (unended bytes) := by
  have hsplit : ∀ xs sep ys, isNewline sep = true → decodedLines codec (xs ++ sep :: ys) =
      decodedLines codec xs ++ decodedLines codec ys := by
    intro xs sep ys hsep
    obtain rfl : sep = newline := by simpa [isNewline] using hsep
    exact decodedLines_append_newline xs ys
  rw [← flatMap_splitOnP hsplit bytes, ← endedLines_append_unended, List.flatMap_append,
    List.flatMap_singleton]

theorem decodedLines_eq_nil_iff {bytes : List UInt8} :
    decodedLines codec bytes = [] ↔ lineText codec bytes = [] := by
  rw [decodedLines, textLines_eq_nil_iff, lineText, strip_eq_nil_iff]

theorem decodedLines_row_iff {row : List UInt8} (h : newline ∉ row) :
    decodedLines codec row = nonBlank (codec.decode row) ↔ '\r' ∉ lineText codec row := by
  constructor
  · intro heq hr
    have hlt := length_nonBlank_lt hr
    have hlength := congrArg List.length heq
    rw [decodedLines] at hlength
    omega
  · exact textLines_eq_nonBlank (codec.not_mem_decode row h)

/-- A read of the whole file returns its complete lines exactly when it ends at
a line. -/
theorem decodedLines_eq_completeLines_iff {bytes : List UInt8} :
    decodedLines codec bytes = completeLines codec bytes ↔ EndsAtLine codec bytes := by
  have hrow : ∀ row ∈ endedLines bytes, decodedLines codec row = nonBlank (codec.decode row) ∨
      (nonBlank (codec.decode row)).length < (decodedLines codec row).length := by
    intro row hmem
    by_cases hr : '\r' ∈ lineText codec row
    · exact .inr (length_nonBlank_lt hr)
    · exact .inl ((decodedLines_row_iff (newline_not_mem_of_mem_endedLines hmem)).mpr hr)
  rw [decodedLines_eq, completeLines, flatMap_append_eq_flatMap_iff hrow, decodedLines_eq_nil_iff,
    EndsAtLine]
  refine and_congr_left fun _ => forall₂_congr fun row hmem => ?_
  exact decodedLines_row_iff (newline_not_mem_of_mem_endedLines hmem)

theorem decodedLines_append_of_blank {xs : List UInt8} (h : lineText codec xs = [])
    (ys : List UInt8) :
    decodedLines codec (xs ++ ys) = decodedLines codec ys := by
  have hspace := strip_eq_nil_iff.mp h
  have hreplacement : replacement ∉ codec.decode xs := by
    intro hmem
    exact absurd (hspace replacement hmem) (by decide)
  rw [decodedLines, codec.decode_append xs ys hreplacement, textLines_append_left hspace,
    decodedLines]

theorem decodedLines_append {bytes : List UInt8} (h : lineText codec (unended bytes) = [])
    (more : List UInt8) :
    decodedLines codec (bytes ++ more) = decodedLines codec bytes ++ decodedLines codec more := by
  have hblank : ∀ xs : List UInt8, lineText codec xs = [] →
      decodedLines codec (xs ++ more) = decodedLines codec xs ++ decodedLines codec more := by
    intro xs hxs
    rw [decodedLines_append_of_blank hxs, decodedLines_eq_nil_iff.mpr hxs, List.nil_append]
  induction bytes using pieces_induction isNewline with
  | last bytes hbytes =>
    have hunended : unended bytes = bytes := by
      simp [unended, List.splitOnP_eq_singleton hbytes]
    exact hblank bytes (hunended ▸ h)
  | piece xs sep ys hxs hsep ih =>
    obtain rfl : sep = newline := by simpa [isNewline] using hsep
    have hunended : unended (xs ++ newline :: ys) = unended ys := by
      simp [unended, List.splitOnP_append_cons_of_forall_mem hxs newline rfl,
        List.getLast_cons (List.splitOnP_ne_nil isNewline ys)]
    rw [hunended] at h
    rw [List.append_assoc, List.cons_append, decodedLines_append_newline, ih h,
      decodedLines_append_newline, List.append_assoc]

theorem completeLines_written {rows : List (List UInt8)} {part : List UInt8}
    (hrows : ∀ row ∈ rows, newline ∉ row ∧ lineText codec row ≠ []) (hpart : newline ∉ part) :
    completeLines codec (written rows part) = rows.map (lineText codec) := by
  rw [completeLines, endedLines_written (fun row hmem => (hrows row hmem).1) hpart,
    ← List.flatMap_pure_eq_map]
  refine List.flatMap_congr fun row hmem => ?_
  have hne := (hrows row hmem).2
  rw [lineText] at hne
  simp [nonBlank, hne, lineText]

end Decoded

end LeadLag.Tail
