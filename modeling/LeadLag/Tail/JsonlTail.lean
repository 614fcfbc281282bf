import LeadLag.Interaction.Runs
import LeadLag.Tail.Codec
import LeadLag.Tail.TextLines

/-!
# JsonlTail (live_plot_common.py:24-60)

A call of `lines_since_last` stats the file, seeks to where the last call
stopped and reads to the end. The writer appends in chunks that need not end at
a line, also between the two.
-/

namespace LeadLag.Tail
open LeadLag.Interaction

/-- `st_size` and `st_ino`. -/
structure Stat where
  size : ℕ
  ino : Option ℕ

structure JsonlTail where
  fno : Option ℕ := none
  pos : ℕ := 0
  deriving DecidableEq, Repr

namespace JsonlTail

/-- `_reset`. -/
def reset : JsonlTail where
  pos := 0
  fno := none

/-- Up to `open`. The call returns there if the file is missing or empty. -/
def statFile (t : JsonlTail) : Option Stat → Option JsonlTail
  | none => none
  | some st =>
    if st.size = 0 then none
    else
      let t := if st.ino.isSome && t.fno.isSome && st.ino != t.fno then reset else t
      let t := if st.size < t.pos then reset else t
      some { t with fno := st.ino }

/-- The loop over the file; `tell` at its end is the end of the file. -/
def readLines (codec : Codec) (t : JsonlTail) (content : List UInt8) :
    JsonlTail × List (List Char) :=
  ({ t with pos := max t.pos content.length }, textLines (codec.decode (content.drop t.pos)))

theorem statFile_same {t : JsonlTail} {size : ℕ} {ino : Option ℕ} (hsize : size ≠ 0)
    (hfno : t.fno = none ∨ t.fno = ino) (hpos : t.pos ≤ size) :
    t.statFile (some { size, ino }) = some { t with fno := ino } := by
  have hsame : (ino.isSome && t.fno.isSome && ino != t.fno) = false := by
    rcases hfno with h | h
    · simp [h]
    · simp [h]
  have hlt : ¬ size < t.pos := by omega
  simp [statFile, hsize, hsame, hlt]

end JsonlTail

/-- `reading` is between `stat` and the end of the loop. -/
structure State where
  file : Option (List UInt8) := none
  tail : JsonlTail := {}
  reading : Bool := false
  results : List (List Char) := []
  deriving DecidableEq, Repr

inductive Label where
  | append (chunk : List UInt8)
  | stat
  | read
  deriving DecidableEq

def Label.isPoll : Label → Bool
  | .append _ => false
  | .stat | .read => true

namespace State

def bytes (s : State) : List UInt8 := s.file.getD []

def append (s : State) (chunk : List UInt8) : State := { s with file := some (s.bytes ++ chunk) }

def stat (ino : Option ℕ) (s : State) : State :=
  match s.tail.statFile (s.file.map fun bytes => { size := bytes.length, ino }) with
  | none => { s with tail := .reset }
  | some t => { s with tail := t, reading := true }

def read (codec : Codec) (s : State) : State :=
  let (t, lines) := s.tail.readLines codec s.bytes
  { s with tail := t, reading := false, results := s.results ++ lines }

def next (codec : Codec) (ino : Option ℕ) (s : State) : Label → Option State
  | .append chunk => some (s.append chunk)
  | .stat => if s.reading then none else some (s.stat ino)
  | .read => if s.reading then some (s.read codec) else none

section Next

variable {codec : Codec} {ino : Option ℕ} {s t : State}

theorem next_append {chunk : List UInt8} :
    s.next codec ino (.append chunk) = some t ↔ s.append chunk = t := by
  simp [next]

theorem next_stat : s.next codec ino .stat = some t ↔ s.reading = false ∧ s.stat ino = t := by
  simp [next]

theorem next_read :
    s.next codec ino .read = some t ↔ s.reading = true ∧ s.read codec = t := by
  simp [next]

end Next

end State

/-- One file: its inode stays and it never shrinks. -/
def tailing (codec : Codec) (ino : Option ℕ) : Lts State Label where
  init s := s = {}
  step s l t := s.next codec ino l = some t

end LeadLag.Tail
