import LeadLag.Dashboard.Charts

/-!
# Every trade is marked once (live_web_dashboard.py:200-283, 320-340)

A change of bucket reads the whole trades file for the trades of the new bucket,
while the tail of the same file may be behind. What the tail reads again is met
among the markers seen.
-/

namespace LeadLag.Dashboard
open LeadLag.Core LeadLag.Interaction

/-! ### Drawing a list of markers -/

/-- A marker is met for the first time. -/
def Marks.drawn (k : Marks) (m : TradeMarker) : Marks :=
  ({ k with markerSeen := k.markerSeen ++ [m.key] }.addSide m (xOf m.wallMs)).addBtc m
    (xOf m.wallMs)

def markersOf (ms : List TradeMarker) : Marks := ms.foldl Marks.drawn {}

section Marks

variable {ms ms' : List TradeMarker} {m : TradeMarker} {k k' : Marks} {rs : ℚ}

theorem markersOf_concat : markersOf (ms ++ [m]) = (markersOf ms).drawn m := by
  unfold markersOf
  rw [List.foldl_append, List.foldl_cons, List.foldl_nil]

theorem markerSeen_addSide : (k.addSide m rs).markerSeen = k.markerSeen := by
  unfold Marks.addSide
  split
  · split
    · split <;> rfl
    · split
      · split <;> rfl
      · rfl
  · rfl
  · rfl

theorem markerSeen_addBtc : (k.addBtc m rs).markerSeen = k.markerSeen := by
  unfold Marks.addBtc
  split
  · split <;> rfl
  · rfl
  · rfl

theorem markerSeen_markersOf : (markersOf ms).markerSeen = ms.map TradeMarker.key := by
  induction ms using List.reverseRecOn with
  | nil => rfl
  | append_singleton ms m ih =>
    rw [markersOf_concat, Marks.drawn, markerSeen_addBtc, markerSeen_addSide, ih, List.map_append]
    rfl

theorem applyTradeMarker_ok (h : k.applyTradeMarker m = (k', none)) :
    m.key ∈ k.markerSeen ∧ k' = k ∨ m.key ∉ k.markerSeen ∧ k' = k.drawn m := by
  unfold Marks.applyTradeMarker at h
  by_cases hseen : m.key ∈ k.markerSeen
  · rw [if_pos hseen] at h
    exact .inl ⟨hseen, (Prod.mk.inj h).1.symm⟩
  · rw [if_neg hseen] at h
    cases hrel : relSInBucket m.wallMs with
    | error e => simp [hrel] at h
    | ok rel =>
      obtain ⟨b, rs⟩ := rel
      obtain ⟨-, hrs⟩ := relSInBucket_ok hrel
      simp only [hrel] at h
      refine .inr ⟨hseen, ?_⟩
      rw [Marks.drawn, ← hrs]
      exact (Prod.mk.inj h).1.symm

theorem applyTradeMarker_firsts
    (h : (markersOf (firsts TradeMarker.key ms)).applyTradeMarker m = (k', none)) :
    k' = markersOf (firsts TradeMarker.key (ms ++ [m])) := by
  have hseen : m.key ∈ (markersOf (firsts TradeMarker.key ms)).markerSeen ↔
      m.key ∈ ms.map TradeMarker.key := by
    rw [markerSeen_markersOf, mem_map_firsts]
  rcases applyTradeMarker_ok h with ⟨hmem, rfl⟩ | ⟨hnew, rfl⟩
  · rw [firsts_concat_of_mem (hseen.mp hmem)]
  · rw [firsts_concat_of_not_mem fun hmem => hnew (hseen.mpr hmem), markersOf_concat]

theorem applyAll_firsts
    (h : (markersOf (firsts TradeMarker.key ms)).applyAll ms' = (k', none)) :
    k' = markersOf (firsts TradeMarker.key (ms ++ ms')) := by
  induction ms' generalizing ms with
  | nil =>
    rw [List.append_nil]
    exact (Prod.mk.inj h).1.symm
  | cons m ms' ih =>
    unfold Marks.applyAll at h
    cases hone : (markersOf (firsts TradeMarker.key ms)).applyTradeMarker m with
    | mk k₁ raised =>
      cases raised with
      | some e => simp [hone] at h
      | none =>
        simp only [hone] at h
        rw [applyTradeMarker_firsts hone] at h
        rw [← List.singleton_append, ← List.append_assoc]
        exact ih h

end Marks

/-! ### The trades of a bucket -/

def bucketMarkers (py : Python) (b : ℤ) (lines : List Line) : List TradeMarker :=
  (accepted (parseTradeLine py) lines).filter fun m => m.bucket = b

section BucketMarkers

variable {py : Python} {b : ℤ} {lines : List Line} {line : Line} {m : TradeMarker}

theorem bucketMarkers_concat_none (h : parseTradeLine py line = .ok none) :
    bucketMarkers py b (lines ++ [line]) = bucketMarkers py b lines := by
  rw [bucketMarkers, accepted_concat_none h, bucketMarkers]

theorem bucketMarkers_concat_other (h : parseTradeLine py line = .ok (some m))
    (hb : m.bucket ≠ b) : bucketMarkers py b (lines ++ [line]) = bucketMarkers py b lines := by
  rw [bucketMarkers, accepted_concat_some h, List.filter_append, bucketMarkers]
  simp [hb]

theorem bucketMarkers_concat_same (h : parseTradeLine py line = .ok (some m))
    (hb : m.bucket = b) :
    bucketMarkers py b (lines ++ [line]) = bucketMarkers py b lines ++ [m] := by
  rw [bucketMarkers, accepted_concat_some h, List.filter_append, bucketMarkers]
  simp [hb]

theorem iterTradeMarkersFromFile_ok {ms : List TradeMarker}
    (h : iterTradeMarkersFromFile py b lines = .ok ms) : ms = bucketMarkers py b lines := by
  induction lines generalizing ms with
  | nil =>
    cases h
    rfl
  | cons line rest ih =>
    unfold iterTradeMarkersFromFile at h
    cases hparse : parseTradeLine py line with
    | error e => simp [hparse, bind, Except.bind] at h
    | ok parsed =>
      cases hrest : iterTradeMarkersFromFile py b rest with
      | error e => simp [hparse, hrest, bind, Except.bind] at h
      | ok out =>
        simp only [hparse, hrest, bind, Except.bind, pure, Except.pure, Except.ok.injEq] at h
        rw [← h, ih hrest]
        cases parsed with
        | none => simp [bucketMarkers, accepted, hparse, Except.toOption]
        | some m =>
          by_cases hb : m.bucket = b
          · simp [bucketMarkers, accepted, hparse, Except.toOption, hb, Option.filter]
          · simp [bucketMarkers, accepted, hparse, Except.toOption, hb, Option.filter]

end BucketMarkers

/-! ### Runs -/

/-- How many lines of the trades file the markers are of: what the backfill has read or
the tail, whichever is more. -/
def State.markedLines (s : State) : ℕ := max s.tradesUpTo (s.processed .trades)

structure Marked (py : Python) (s : State) (b : ℤ) : Prop where
  upTo_le : s.tradesUpTo ≤ (s.file .trades).length
  marks : s.page.marks = markersOf (firsts TradeMarker.key
    (bucketMarkers py b ((s.file .trades).take s.markedLines)))

section Runs

variable {py : Python} {cfg : Options} {s : State} {b : ℤ}

theorem markedLines_le (inv : Cursors s) (h : s.tradesUpTo ≤ (s.file .trades).length) :
    s.markedLines ≤ (s.file .trades).length :=
  max_le h ((s.processed_le_tail .trades).trans (inv.tail_le .trades))

theorem Marked.append (inv : Cursors s) (h : Marked py s b) (f : File) (line : Line) :
    Marked py (s.append f line) b := by
  have hle := markedLines_le inv h.upTo_le
  obtain ⟨more, hmore⟩ := s.file_append_prefix f .trades line
  refine ⟨?_, ?_⟩
  · rw [← hmore, List.length_append]
    exact h.upTo_le.trans (Nat.le_add_right _ _)
  · show s.page.marks = markersOf (firsts TradeMarker.key
      (bucketMarkers py b (((s.append f line).file .trades).take s.markedLines)))
    rw [← hmore, List.take_append_of_le_length hle]
    exact h.marks

theorem enterBucket_marks {trades : List Line} {p p' : Page} (htrades : cfg.haveTrades = true)
    (h : p.enterBucket py cfg trades b = (p', none)) :
    p'.marks = markersOf (firsts TradeMarker.key (bucketMarkers py b trades)) := by
  obtain ⟨marks, hback, rfl⟩ := Page.enterBucket_ok h
  unfold Page.backfillTrades at hback
  simp only [htrades, Bool.not_true, Bool.false_eq_true, if_false] at hback
  split at hback
  · cases hback
  · rename_i ms hiter
    have hall : (markersOf (firsts TradeMarker.key [])).applyAll ms = (marks, none) := by
      refine Prod.ext ?_ (Prod.mk.inj hback).2
      exact congrArg Page.marks (Prod.mk.inj hback).1
    show marks = _
    rw [applyAll_firsts hall, List.nil_append, iterTradeMarkersFromFile_ok hiter]

section TakeLine

variable {line : Line} {rest : List Line}

/-- A line of the trades file, the `processed`-th: known already, or the next one. -/
theorem Marked.takeTrade {p' : Page} (inv : Cursors s)
    (hpending : s.pending = line :: rest) (hphase : s.phase = .trades)
    (h : Marked py s b) (hb : s.page.lastBucket = some b)
    (hstep : (s.page.onParsed (parseTradeLine py line) fun m => s.page.onTradeMarker m) =
      (p', none)) :
    p'.marks = markersOf (firsts TradeMarker.key (bucketMarkers py b
      ((s.file .trades).take (max s.tradesUpTo (s.processed .trades + 1))))) := by
  have hmarks := h.marks
  have hnext := State.take_processed_succ inv hpending
  rw [hphase] at hnext
  rcases Nat.lt_or_ge (s.processed .trades) s.tradesUpTo with hlt | hge
  · -- the backfill has read this line
    have hupTo : s.markedLines = s.tradesUpTo := max_eq_left hlt.le
    have hlater : max s.tradesUpTo (s.processed .trades + 1) = s.tradesUpTo := max_eq_left hlt
    rw [hupTo] at hmarks
    rw [hlater]
    have hmem : line ∈ (s.file .trades).take s.tradesUpTo := by
      have hle : s.processed .trades + 1 ≤ s.tradesUpTo := hlt
      have hstart : (s.file .trades).take (s.processed .trades + 1) <+:
          (s.file .trades).take s.tradesUpTo := List.take_prefix_take_left hle
      exact hstart.subset (hnext ▸ by simp)
    rcases Page.onParsed_ok hstep with ⟨-, rfl⟩ | ⟨m, hparse, hm⟩
    · exact hmarks
    · rcases Page.onTradeMarker_ok hm with ⟨-, rfl⟩ | ⟨hbucket, marks, happly, rfl⟩
      · exact hmarks
      · have hmb : m.bucket = b := Option.some.inj (hbucket.symm.trans hb)
        have hknown : m ∈ bucketMarkers py b ((s.file .trades).take s.tradesUpTo) := by
          refine List.mem_filter.mpr ⟨?_, decide_eq_true hmb⟩
          exact List.mem_filterMap.mpr ⟨line, hmem, by simp [hparse, Except.toOption]⟩
        rw [hmarks] at happly
        show marks = _
        rw [applyTradeMarker_firsts happly,
          firsts_concat_of_mem (List.mem_map_of_mem hknown)]
  · have hread : s.markedLines = s.processed .trades := max_eq_right hge
    have hlater : max s.tradesUpTo (s.processed .trades + 1) = s.processed .trades + 1 := by
      omega
    have htaken : (s.file .trades).take (s.processed .trades) = s.taken .trades := rfl
    rw [hread, htaken] at hmarks
    rw [hlater, hnext]
    rcases Page.onParsed_ok hstep with ⟨hparse, rfl⟩ | ⟨m, hparse, hm⟩
    · rw [bucketMarkers_concat_none hparse]
      exact hmarks
    · rcases Page.onTradeMarker_ok hm with ⟨hother, rfl⟩ | ⟨hbucket, marks, happly, rfl⟩
      · have hmb : m.bucket ≠ b := fun h => hother (h ▸ hb)
        rw [bucketMarkers_concat_other hparse hmb]
        exact hmarks
      · have hmb : m.bucket = b := Option.some.inj (hbucket.symm.trans hb)
        rw [bucketMarkers_concat_same hparse hmb]
        rw [hmarks] at happly
        exact applyTradeMarker_firsts happly

/-- A line that keeps the bucket and the markers, of another file. -/
theorem Marked.kept (inv : Cursors s) (hpending : s.pending = line :: rest)
    (hphase : s.phase ≠ .trades)
    (hbucket : (s.takeLine py cfg line rest).page.lastBucket = s.page.lastBucket)
    (hmarks : (s.takeLine py cfg line rest).page.marks = s.page.marks) (h : Marked py s b) :
    Marked py (s.takeLine py cfg line rest) b := by
  have hupTo : (s.takeLine py cfg line rest).tradesUpTo = s.tradesUpTo :=
    State.tradesUpTo_takeLine.trans (if_pos hbucket)
  have hprocessed : (s.takeLine py cfg line rest).processed .trades = s.processed .trades :=
    (State.processed_takeLine inv hpending .trades).trans (if_neg hphase)
  refine ⟨?_, ?_⟩
  · rw [hupTo]
    exact h.upTo_le
  · rw [hmarks, State.markedLines, hupTo, hprocessed]
    exact h.marks

/-- A row of another bucket: the backfill has read the whole file. -/
theorem Marked.entered {row : SeriesRow} {q : Page} (inv : Cursors s)
    (htrades : cfg.haveTrades = true) (hnew : s.page.lastBucket ≠ some row.bucket)
    (hentered : s.page.enterBucket py cfg (s.file .trades) row.bucket = (q, none))
    (hpage : (s.takeLine py cfg line rest).page = q.drawSeries cfg row (xOf row.wallMs)) :
    Marked py (s.takeLine py cfg line rest) row.bucket := by
  have hmarks := enterBucket_marks htrades hentered
  obtain ⟨marks, -, rfl⟩ := Page.enterBucket_ok hentered
  have hupTo : (s.takeLine py cfg line rest).tradesUpTo = (s.file .trades).length := by
    refine State.tradesUpTo_takeLine.trans (if_neg ?_)
    rw [hpage]
    exact fun heq => hnew heq.symm
  have hle : (s.takeLine py cfg line rest).processed .trades ≤ (s.file .trades).length :=
    ((s.takeLine py cfg line rest).processed_le_tail .trades).trans (inv.tail_le .trades)
  refine ⟨hupTo.le, ?_⟩
  rw [State.markedLines, hupTo, max_eq_left hle, hpage]
  show marks = markersOf (firsts TradeMarker.key
    (bucketMarkers py row.bucket ((s.file .trades).take (s.file .trades).length)))
  rw [List.take_length]
  exact hmarks

/-- Rows of the other files keep the markers, unless the bucket changes. -/
theorem Marked.takeLine {b' : ℤ} (inv : Cursors s) (htrades : cfg.haveTrades = true)
    (hpending : s.pending = line :: rest)
    (hlive : (s.takeLine py cfg line rest).raised = none)
    (h : ∀ b, s.page.lastBucket = some b → Marked py s b)
    (hb' : (s.takeLine py cfg line rest).page.lastBucket = some b') :
    Marked py (s.takeLine py cfg line rest) b' := by
  have hupdate : s.update py cfg line = ((s.takeLine py cfg line rest).page, none) :=
    Prod.ext rfl hlive
  unfold State.update at hupdate
  cases hphase : s.phase with
  | series =>
    simp only [hphase] at hupdate
    have hother : s.phase ≠ .trades := by simp [hphase]
    rcases Page.onParsed_ok hupdate with ⟨-, hpage⟩ | ⟨row, -, hrow⟩
    · have hbefore := h b' (by rw [← hpage, hb'])
      exact hbefore.kept inv hpending hother (by rw [hpage]) (by rw [hpage])
    · obtain ⟨q, hq, hpage⟩ := Page.onSeriesRow_ok hrow
      rcases hq with ⟨-, rfl⟩ | ⟨hnew, hentered⟩
      · have hbefore := h b' (by rw [← hb', hpage]; rfl)
        exact hbefore.kept inv hpending hother (by rw [hpage]; rfl) (by rw [hpage]; rfl)
      · have hentered' := Marked.entered inv htrades hnew hentered hpage
        obtain ⟨marks, -, rfl⟩ := Page.enterBucket_ok hentered
        rw [hpage] at hb'
        obtain rfl : row.bucket = b' := Option.some.inj hb'
        exact hentered'
  | chain =>
    simp only [hphase] at hupdate
    have hother : s.phase ≠ .trades := by simp [hphase]
    obtain ⟨hbucket, hmarks⟩ := Page.onParsed_chain hupdate
    have hbefore := h b' (hbucket.symm.trans hb')
    exact hbefore.kept inv hpending hother hbucket hmarks
  | trades =>
    simp only [hphase] at hupdate
    have hprocessed : (s.takeLine py cfg line rest).processed .trades =
        s.processed .trades + 1 :=
      (State.processed_takeLine inv hpending .trades).trans (if_pos hphase)
    have hbucket : (s.takeLine py cfg line rest).page.lastBucket = s.page.lastBucket := by
      obtain ⟨marks, hpage⟩ := Page.onParsed_trade hupdate
      rw [hpage]
    have hlast : s.page.lastBucket = some b' := hbucket.symm.trans hb'
    have hupTo : (s.takeLine py cfg line rest).tradesUpTo = s.tradesUpTo :=
      State.tradesUpTo_takeLine.trans (if_pos hbucket)
    have hbefore := h b' hlast
    refine ⟨?_, ?_⟩
    · rw [hupTo]
      exact hbefore.upTo_le
    · rw [State.markedLines, hupTo, hprocessed]
      exact hbefore.takeTrade inv hpending hphase hlast hupdate

end TakeLine

/-- While nothing has escaped from an update, the markers of the page are those of the
trades of its bucket among the lines that the backfill or the tail has read: one marker
for each key, and none of another bucket. -/
theorem trades_marked_once (h : (dashboard py cfg).Reachable s) (hlive : s.raised = none)
    (htrades : cfg.haveTrades = true) (hb : s.page.lastBucket = some b) :
    (buildJson s.page).marks = markersOf (firsts TradeMarker.key (bucketMarkers py b
      ((s.file .trades).take (max s.tradesUpTo (s.processed .trades))))) := by
  have hall : s.raised = none → ∀ b, s.page.lastBucket = some b → Marked py s b := by
    refine reachable_invariant (I := fun s => s.raised = none →
      ∀ b, s.page.lastBucket = some b → Marked py s b) h ?_ ?_ ?_ ?_
    · intro _ b hb
      cases hb
    · intro s f line inv ih hlive b hb
      exact (ih hlive b hb).append inv f line
    · intro s inv hraised hpending ih _ b hb
      obtain ⟨hfile, hpage, hupTo, -⟩ := s.poll_frame cfg
      rw [hpage] at hb
      have hbefore := ih hraised b hb
      refine ⟨?_, ?_⟩
      · rw [hupTo, hfile]
        exact hbefore.upTo_le
      · rw [hpage, hfile, State.markedLines, hupTo, State.processed_poll inv hpending]
        exact hbefore.marks
    · intro s line rest inv hraised hpending ih hlive b hb
      exact Marked.takeLine inv htrades hpending hlive (ih hraised) hb
  exact (hall hlive b hb).marks

theorem trades_marked_once_sample : sampleEnd.page.marks.buY = [1 / 2] ∧
    (buildJson sampleEnd.page).marks = markersOf (firsts TradeMarker.key
      (bucketMarkers samplePython 600 ((sampleEnd.file .trades).take
        (max sampleEnd.tradesUpTo (sampleEnd.processed .trades))))) :=
  ⟨by decide +kernel,
    trades_marked_once sampleEnd_reachable (by decide +kernel) rfl (by decide +kernel)⟩

end Runs

end LeadLag.Dashboard
