import LeadLag.Tail.FileLines
import LeadLag.Tail.JsonlTail

/-!
# What the polls return (live_plot_common.py:24-60)

A read takes what the file ends in for a line, whether it is ended or not, and
does not come back to it. As long as every read finds the file ending at a line,
the polls together return the lines of the file.
-/

namespace LeadLag.Tail
open LeadLag.Interaction

section Runs

variable {codec : Codec} {ino : Option ℕ} {s t : State} {l : Label}

/-- A read finds the file ending at a line. -/
def ReadsWholeLines (codec : Codec) (s : State) : Label → Prop
  | .append _ | .stat => True
  | .read => EndsAtLine codec s.bytes

instance (s : State) (l : Label) : Decidable (ReadsWholeLines codec s l) :=
  match l with
  | .append _ | .stat => .isTrue trivial
  | .read => inferInstanceAs (Decidable (EndsAtLine codec s.bytes))

/-- The polls so far have read up to `pos`, and stopped between lines. -/
structure UpTo (codec : Codec) (ino : Option ℕ) (s : State) : Prop where
  pos_le : s.tail.pos ≤ s.bytes.length
  fno : s.tail.fno = none ∨ s.tail.fno = ino
  results : s.results = decodedLines codec (s.bytes.take s.tail.pos)
  splits : ∀ more, decodedLines codec (s.bytes.take s.tail.pos ++ more) =
    decodedLines codec (s.bytes.take s.tail.pos) ++ decodedLines codec more

theorem upTo_start : UpTo codec ino {} where
  pos_le := le_rfl
  fno := .inl rfl
  results := decodedLines_nil.symm
  splits more := by simp [State.bytes]

theorem upTo_append (inv : UpTo codec ino s) (chunk : List UInt8) :
    UpTo codec ino (s.append chunk) := by
  have htake : (s.bytes ++ chunk).take s.tail.pos = s.bytes.take s.tail.pos :=
    List.take_append_of_le_length inv.pos_le
  refine ⟨?_, inv.fno, ?_, ?_⟩
  · have := inv.pos_le
    show s.tail.pos ≤ (s.bytes ++ chunk).length
    rw [List.length_append]
    omega
  · show s.results = decodedLines codec ((s.bytes ++ chunk).take s.tail.pos)
    rw [htake]
    exact inv.results
  · intro more
    show decodedLines codec ((s.bytes ++ chunk).take s.tail.pos ++ more) =
      decodedLines codec ((s.bytes ++ chunk).take s.tail.pos) ++ decodedLines codec more
    rw [htake]
    exact inv.splits more

/-- With neither a truncation nor a rotation the position stays. -/
theorem stat_cases (inv : UpTo codec ino s) :
    (s.bytes = [] ∧ s.stat ino = { s with tail := .reset }) ∨
      s.stat ino = { s with tail := { s.tail with fno := ino }, reading := true } := by
  cases hfile : s.file with
  | none =>
    have hbytes : s.bytes = [] := by simp [State.bytes, hfile]
    refine .inl ⟨hbytes, ?_⟩
    simp [State.stat, hfile, JsonlTail.statFile]
  | some bytes =>
    have hbytes : s.bytes = bytes := by simp [State.bytes, hfile]
    by_cases hsize : bytes.length = 0
    · refine .inl ⟨hbytes.trans (List.length_eq_zero_iff.mp hsize), ?_⟩
      simp [State.stat, hfile, JsonlTail.statFile, hsize]
    · have hpos : s.tail.pos ≤ bytes.length := hbytes ▸ inv.pos_le
      have hstat := JsonlTail.statFile_same hsize inv.fno hpos
      refine .inr ?_
      simp [State.stat, hfile, hstat]

theorem upTo_stat (inv : UpTo codec ino s) : UpTo codec ino (s.stat ino) := by
  rcases stat_cases inv with ⟨hbytes, heq⟩ | heq
  · have hresults : s.results = [] := by
      rw [inv.results, hbytes, List.take_nil, decodedLines_nil]
    rw [heq]
    refine ⟨Nat.zero_le _, .inl rfl, ?_, fun more => ?_⟩
    · show s.results = decodedLines codec []
      rw [hresults, decodedLines_nil]
    · show decodedLines codec more = decodedLines codec [] ++ decodedLines codec more
      rw [decodedLines_nil, List.nil_append]
  · rw [heq]
    exact ⟨inv.pos_le, .inr rfl, inv.results, inv.splits⟩

theorem results_read (inv : UpTo codec ino s) :
    (s.read codec).results = decodedLines codec s.bytes := by
  show s.results ++ decodedLines codec (s.bytes.drop s.tail.pos) = decodedLines codec s.bytes
  rw [inv.results, ← inv.splits, List.take_append_drop]

theorem upTo_read (inv : UpTo codec ino s) (h : EndsAtLine codec s.bytes) :
    UpTo codec ino (s.read codec) := by
  have hpos : max s.tail.pos s.bytes.length = s.bytes.length := max_eq_right inv.pos_le
  have htake : s.bytes.take (max s.tail.pos s.bytes.length) = s.bytes := by
    rw [hpos, List.take_length]
  refine ⟨hpos.le, inv.fno, ?_, ?_⟩
  · show _ = decodedLines codec (s.bytes.take (max s.tail.pos s.bytes.length))
    rw [htake]
    exact results_read inv
  · intro more
    show decodedLines codec (s.bytes.take (max s.tail.pos s.bytes.length) ++ more) =
      decodedLines codec (s.bytes.take (max s.tail.pos s.bytes.length)) ++ decodedLines codec more
    rw [htake]
    exact decodedLines_append h.2 more

theorem upTo_of_reachable
    (h : ((tailing codec ino).restrict (ReadsWholeLines codec)).Reachable s) :
    UpTo codec ino s := by
  refine h.invariant (I := UpTo codec ino) ?_ ?_
  · intro s hs
    obtain rfl : s = {} := hs
    exact upTo_start
  · intro s l t _ inv hst
    obtain ⟨hnext, hwhole⟩ := hst
    cases l with
    | append chunk =>
      obtain rfl := State.next_append.mp hnext
      exact upTo_append inv chunk
    | stat =>
      obtain ⟨-, rfl⟩ := State.next_stat.mp hnext
      exact upTo_stat inv
    | read =>
      obtain ⟨-, rfl⟩ := State.next_read.mp hnext
      exact upTo_read inv hwhole

theorem endsAtLine_nil : EndsAtLine codec [] := by
  have hended : endedLines [] = [] := rfl
  have hunended : unended [] = [] := rfl
  refine ⟨?_, ?_⟩
  · simp [hended]
  · rw [hunended, lineText, codec.decode_nil]
    rfl

/-- Where a poll ends, what has been returned is the text of the whole file. -/
theorem results_of_poll (inv : UpTo codec ino s) (hst : (tailing codec ino).step s l t)
    (hpoll : l.isPoll = true) (hdone : t.reading = false) :
    t.results = decodedLines codec t.bytes ∧
      (ReadsWholeLines codec s l ↔ EndsAtLine codec t.bytes) := by
  cases l with
  | append chunk => exact Bool.noConfusion hpoll
  | stat =>
    obtain ⟨-, rfl⟩ := State.next_stat.mp hst
    rcases stat_cases inv with ⟨hbytes, heq⟩ | heq
    · have hresults : s.results = [] := by
        rw [inv.results, hbytes, List.take_nil, decodedLines_nil]
      have hbytes' : (s.stat ino).bytes = [] := by
        rw [heq]
        exact hbytes
      rw [hbytes', decodedLines_nil, heq]
      exact ⟨hresults, iff_of_true trivial endsAtLine_nil⟩
    · rw [heq] at hdone
      exact absurd hdone (by simp)
  | read =>
    obtain ⟨-, rfl⟩ := State.next_read.mp hst
    exact ⟨results_read inv, Iff.rfl⟩

end Runs

/-- In a run whose reads so far found the file ending at a line, the polls have
returned the lines of the file, each once and whole, exactly when the last read
finds it so too. -/
theorem polls_return_lines_iff {codec : Codec} {ino : Option ℕ} {s t : State} {l : Label}
    {rows : List (List UInt8)} {part : List UInt8}
    (h : ((tailing codec ino).restrict (ReadsWholeLines codec)).Reachable s)
    (hst : (tailing codec ino).step s l t) (hpoll : l.isPoll = true) (hdone : t.reading = false)
    (hrows : ∀ row ∈ rows, newline ∉ row ∧ lineText codec row ≠ []) (hpart : newline ∉ part)
    (hbytes : t.bytes = written rows part) :
    t.results = rows.map (lineText codec) ↔ ReadsWholeLines codec s l := by
  obtain ⟨hresults, hwhole⟩ := results_of_poll (upTo_of_reachable h) hst hpoll hdone
  rw [hresults, hwhole, ← decodedLines_eq_completeLines_iff, hbytes,
    completeLines_written hrows hpart]

section Steps

variable {codec : Codec} {ino : Option ℕ} {cond : State → Label → Prop} {s : State}

theorem reachable_append (h : ((tailing codec ino).restrict cond).Reachable s)
    (chunk : List UInt8) (hcond : cond s (.append chunk)) :
    ((tailing codec ino).restrict cond).Reachable (s.append chunk) :=
  h.step ⟨State.next_append.mpr rfl, hcond⟩

theorem reachable_stat (h : ((tailing codec ino).restrict cond).Reachable s)
    (hreading : s.reading = false) (hcond : cond s .stat) :
    ((tailing codec ino).restrict cond).Reachable (s.stat ino) :=
  h.step ⟨State.next_stat.mpr ⟨hreading, rfl⟩, hcond⟩

theorem reachable_read (h : ((tailing codec ino).restrict cond).Reachable s)
    (hreading : s.reading = true) (hcond : cond s .read) :
    ((tailing codec ino).restrict cond).Reachable (s.read codec) :=
  h.step ⟨State.next_read.mpr ⟨hreading, rfl⟩, hcond⟩

end Steps

/-- One line, and a part of the next one. -/
def secondLineBegun : State :=
  (((State.append {} [0x61, newline]).stat (some 7)).read utf8).append [0x62]

theorem secondLineBegun_reachable :
    ((tailing utf8 (some 7)).restrict (ReadsWholeLines utf8)).Reachable secondLineBegun := by
  have hstart : ((tailing utf8 (some 7)).restrict (ReadsWholeLines utf8)).Reachable {} := .init rfl
  have hline := reachable_append hstart [0x61, newline] trivial
  have hread := reachable_read (reachable_stat hline rfl trivial) rfl (by decide)
  exact reachable_append hread [0x62] trivial

/-- The poll comes when the second line has been ended. -/
theorem polls_return_lines_second :
    ∃ t, (tailing utf8 (some 7)).step
        ((secondLineBegun.append [0x63, newline]).stat (some 7)) .read t ∧
      t.results = [['a'], ['b', 'c']] := by
  have hend := reachable_append secondLineBegun_reachable [0x63, newline] trivial
  have hstat := reachable_stat hend rfl trivial
  have hbytes : (State.read utf8 (.stat (some 7) (secondLineBegun.append [0x63, newline]))).bytes =
      written [[0x61], [0x62, 0x63]] [] := rfl
  refine ⟨_, rfl, ?_⟩
  exact (polls_return_lines_iff hstat (State.next_read.mpr ⟨rfl, rfl⟩) rfl rfl (by decide)
    (by decide) hbytes).mpr (by decide)

/-- A poll before that returns the second line in two parts. -/
theorem poll_cuts_line :
    ¬ ∀ (codec : Codec) (ino : Option ℕ) (s t : State) (l : Label) (rows : List (List UInt8))
      (part : List UInt8), (tailing codec ino).Reachable s → (tailing codec ino).step s l t →
        l.isPoll = true → t.reading = false →
        (∀ row ∈ rows, newline ∉ row ∧ lineText codec row ≠ []) → newline ∉ part →
        t.bytes = written rows part → t.results = rows.map (lineText codec) := by
  intro h
  have hbegun : ((tailing utf8 (some 7)).restrict fun _ _ => True).Reachable secondLineBegun :=
    secondLineBegun_reachable.restrict_mono fun _ _ _ => trivial
  have hread := reachable_read (reachable_stat hbegun rfl trivial) rfl trivial
  have hend := reachable_append hread [0x63, newline] trivial
  have hstat := reachable_stat hend rfl trivial
  have hresults := h utf8 (some 7) _ _ .read [[0x61], [0x62, 0x63]] [] hstat.of_restrict
    (State.next_read.mpr ⟨rfl, rfl⟩) rfl rfl (by decide) (by decide) rfl
  exact absurd hresults (by decide)

end LeadLag.Tail
