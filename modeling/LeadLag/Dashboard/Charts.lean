import LeadLag.Core.SplitOn
import LeadLag.Dashboard.Reading

/-!
# What the charts show (live_web_dashboard.py:283-385)

The rows read so far decide the charts: those of the bucket of the last row, back
to the row before which the bucket changed, and of these the last `max_points`.
-/

namespace LeadLag.Dashboard
open LeadLag.Interaction

/-- The rows since the bucket last changed. -/
def currentRows (rows : List SeriesRow) : List SeriesRow :=
  match rows.getLast? with
  | none => []
  | some last => rows.rtakeWhile fun r => r.bucket = last.bucket

theorem currentRows_concat_same {rows : List SeriesRow} {row : SeriesRow}
    (h : rows.getLast?.map SeriesRow.bucket = some row.bucket) :
    currentRows (rows ++ [row]) = currentRows rows ++ [row] := by
  obtain ⟨last, hlast, hbucket⟩ := Option.map_eq_some_iff.mp h
  simp only [currentRows, hlast, List.getLast?_concat, hbucket]
  exact List.rtakeWhile_concat_pos _ _ _ (by simp)

theorem currentRows_concat_other {rows : List SeriesRow} {row : SeriesRow}
    (h : rows.getLast?.map SeriesRow.bucket ≠ some row.bucket) :
    currentRows (rows ++ [row]) = [row] := by
  simp only [currentRows, List.getLast?_concat]
  rw [List.rtakeWhile_concat_pos _ _ _ (by simp)]
  have hnone : rows.rtakeWhile (fun r => decide (r.bucket = row.bucket)) = [] := by
    rw [List.rtakeWhile_eq_nil_iff]
    intro hne heq
    rw [List.getLast?_eq_getLast_of_ne_nil hne] at h
    exact h (congrArg some (of_decide_eq_true heq))
  rw [hnone, List.nil_append]

/-- The last finite sigma. -/
def lastSigma (cur : List SeriesRow) : PyFloat :=
  ((cur.filter fun r => finite r.sigma).getLast?.map SeriesRow.sigma).getD .nan

/-- The queues and the sigma line hold the rows of `cur`. -/
structure Shows (cfg : Options) (cur : List SeriesRow) (p : Page) : Prop where
  xs : p.dqX = (cur.map fun r => xOf r.wallMs).rtake cfg.maxPoints
  theoUp : p.dqTu = (cur.map SeriesRow.theoUp).rtake cfg.maxPoints
  upMid : p.dqUm = (cur.map SeriesRow.upMid).rtake cfg.maxPoints
  theoDn : p.dqTd = (cur.map SeriesRow.theoDn).rtake cfg.maxPoints
  dnMid : p.dqDm = (cur.map SeriesRow.dnMid).rtake cfg.maxPoints
  spotX : p.dqSx = ((cur.filter fun r => !cfg.useChain && finite r.S).map
    fun r => xOf r.wallMs).rtake cfg.maxPoints
  spotY : p.dqSy = ((cur.filter fun r => !cfg.useChain && finite r.S).map
    SeriesRow.S).rtake cfg.maxPoints
  sigma : p.latestSigma = lastSigma cur
  windowFull : p.latestSigmaWindowFull = (cur.getLast?.map SeriesRow.sigmaVolWindowFull).getD false
  slugReady : p.latestSigmaSlugReady = (cur.getLast?.map SeriesRow.sigmaSlugReady).getD false
  fallback : p.latestSigmaFallback = (cur.getLast?.map SeriesRow.sigmaFallback).getD true

section Shows

variable {cfg : Options} {cur : List SeriesRow} {p : Page} {row : SeriesRow} {A : Type}

theorem push_map {q : List A} {n : ℕ} (f : SeriesRow → A) (h : q = (cur.map f).rtake n) :
    push n q (f row) = ((cur ++ [row]).map f).rtake n := by
  rw [h, push_rtake, List.map_append]
  rfl

theorem push_filter_map {q : List A} {n : ℕ} (f : SeriesRow → A) (keep : SeriesRow → Bool)
    (h : q = ((cur.filter keep).map f).rtake n) :
    (if keep row then push n q (f row) else q) =
      (((cur ++ [row]).filter keep).map f).rtake n := by
  cases hkeep : keep row with
  | true => simp [hkeep, h, push_rtake]
  | false => simp [hkeep, h]

theorem lastSigma_concat : lastSigma (cur ++ [row]) =
    if finite row.sigma then row.sigma else lastSigma cur := by
  cases h : finite row.sigma with
  | true => simp [lastSigma, h]
  | false => simp [lastSigma, h]

theorem Shows.draw (h : Shows cfg cur p) :
    Shows cfg (cur ++ [row]) (p.drawSeries cfg row (xOf row.wallMs)) where
  xs := push_map (fun r => xOf r.wallMs) h.xs
  theoUp := push_map SeriesRow.theoUp h.theoUp
  upMid := push_map SeriesRow.upMid h.upMid
  theoDn := push_map SeriesRow.theoDn h.theoDn
  dnMid := push_map SeriesRow.dnMid h.dnMid
  spotX := push_filter_map (fun r => xOf r.wallMs) (fun r => !cfg.useChain && finite r.S) h.spotX
  spotY := push_filter_map SeriesRow.S (fun r => !cfg.useChain && finite r.S) h.spotY
  sigma := by
    rw [lastSigma_concat, ← h.sigma]
    rfl
  windowFull := by
    rw [List.getLast?_concat]
    rfl
  slugReady := by
    rw [List.getLast?_concat]
    rfl
  fallback := by
    rw [List.getLast?_concat]
    rfl

/-- Nothing has been drawn since the queues were cleared. -/
theorem shows_nil (hx : p.dqX = []) (htu : p.dqTu = []) (hum : p.dqUm = []) (htd : p.dqTd = [])
    (hdm : p.dqDm = []) (hsx : p.dqSx = []) (hsy : p.dqSy = []) (hsigma : p.sigmaReset = p) :
    Shows cfg [] p := by
  rw [← hsigma]
  exact ⟨hx.trans (by simp), htu.trans (by simp), hum.trans (by simp), htd.trans (by simp),
    hdm.trans (by simp), hsx.trans (by simp), hsy.trans (by simp), rfl, rfl, rfl, rfl⟩

theorem Shows.withMarks (h : Shows cfg cur p) (marks : Marks) :
    Shows cfg cur { p with marks } :=
  ⟨h.xs, h.theoUp, h.upMid, h.theoDn, h.dnMid, h.spotX, h.spotY, h.sigma, h.windowFull,
    h.slugReady, h.fallback⟩

end Shows

/-! ### Rows of the Chainlink file -/

/-- The queues hold those of `rows` that are in the bucket of the page. -/
structure ShowsChain (cfg : Options) (rows : List ChainRow) (p : Page) : Prop where
  xs : p.dqCx = ((rows.filter fun r =>
    p.lastBucket = some (bucketEpochFromWallMs r.wallMs)).map fun r => xOf r.wallMs).rtake
      cfg.maxPoints
  ys : p.dqCy = ((rows.filter fun r =>
    p.lastBucket = some (bucketEpochFromWallMs r.wallMs)).map ChainRow.px).rtake cfg.maxPoints

section ShowsChain

variable {cfg : Options} {rows : List ChainRow} {p q : Page} {row : ChainRow}

theorem ShowsChain.congr (h : ShowsChain cfg rows p) (hbucket : q.lastBucket = p.lastBucket)
    (hx : q.dqCx = p.dqCx) (hy : q.dqCy = p.dqCy) : ShowsChain cfg rows q where
  xs := by rw [hx, hbucket, h.xs]
  ys := by rw [hy, hbucket, h.ys]

theorem showsChain_of_nil (hx : p.dqCx = []) (hy : p.dqCy = []) : ShowsChain cfg [] p where
  xs := by
    rw [hx]
    simp
  ys := by
    rw [hy]
    simp

theorem Page.onChainRow_ok (h : p.onChainRow cfg row = (q, none)) :
    p.lastBucket ≠ some (bucketEpochFromWallMs row.wallMs) ∧ q = p ∨
      p.lastBucket = some (bucketEpochFromWallMs row.wallMs) ∧
        q = { p with dqCx := push cfg.maxPoints p.dqCx (xOf row.wallMs)
                     dqCy := push cfg.maxPoints p.dqCy row.px } := by
  unfold Page.onChainRow at h
  split at h
  · rename_i hlast
    cases h
    exact .inl ⟨by simp [hlast], rfl⟩
  · rename_i last hlast
    split at h
    · cases h
    · rename_i b rs hrel
      obtain ⟨hb, hrs⟩ := relSInBucket_ok hrel
      split at h
      · rename_i hsame
        cases h
        refine .inr ⟨?_, ?_⟩
        · rw [hlast, ← hsame, hb]
        · rw [hrs]
      · rename_i hother
        cases h
        refine .inl ⟨?_, rfl⟩
        rw [hlast, ← hb]
        exact fun heq => hother (Option.some.inj heq).symm

/-- A line of the Chainlink file changes the queues only. -/
theorem Page.onParsed_chain {parsed : Raises (Option ChainRow)}
    (h : (p.onParsed parsed fun row => p.onChainRow cfg row) = (q, none)) :
    q.lastBucket = p.lastBucket ∧ q.marks = p.marks := by
  rcases Page.onParsed_ok h with ⟨-, hpage⟩ | ⟨row, -, hrow⟩
  · rw [hpage]
    exact ⟨rfl, rfl⟩
  · rcases Page.onChainRow_ok hrow with ⟨-, hpage⟩ | ⟨-, hpage⟩
    · rw [hpage]
      exact ⟨rfl, rfl⟩
    · rw [hpage]
      exact ⟨rfl, rfl⟩

theorem ShowsChain.onChainRow (h : ShowsChain cfg rows p)
    (hstep : p.onChainRow cfg row = (q, none)) : ShowsChain cfg (rows ++ [row]) q := by
  rcases Page.onChainRow_ok hstep with ⟨hother, rfl⟩ | ⟨hsame, rfl⟩
  · refine ⟨?_, ?_⟩
    · rw [h.xs, List.filter_append]
      simp [hother]
    · rw [h.ys, List.filter_append]
      simp [hother]
  · refine ⟨?_, ?_⟩
    · show push cfg.maxPoints p.dqCx (xOf row.wallMs) = _
      rw [h.xs, push_rtake, List.filter_append, List.map_append]
      simp only [hsame, List.filter_singleton]
      simp
    · show push cfg.maxPoints p.dqCy row.px = _
      rw [h.ys, push_rtake, List.filter_append, List.map_append]
      simp only [hsame, List.filter_singleton]
      simp

end ShowsChain

/-! ### A row of the series file -/

theorem Page.enterBucket_ok {py : Python} {cfg : Options} {trades : List Line} {b : ℤ}
    {p p' : Page} (h : p.enterBucket py cfg trades b = (p', none)) :
    ∃ marks, (p.cleared b).backfillTrades py cfg trades b = ({ p.cleared b with marks }, none) ∧
      p' = { (p.cleared b).sigmaReset with marks } := by
  unfold Page.enterBucket at h
  unfold Page.backfillTrades at h ⊢
  by_cases htrades : cfg.haveTrades = true
  · simp only [htrades, Bool.not_true, Bool.false_eq_true, if_false] at h ⊢
    cases hiter : iterTradeMarkersFromFile py b trades with
    | error e => simp [hiter] at h
    | ok ms =>
      simp only [hiter] at h ⊢
      cases hall : (p.cleared b).marks.applyAll ms with
      | mk marks raised =>
        simp only [hall] at h ⊢
        cases raised with
        | some e => cases h
        | none =>
          cases h
          exact ⟨marks, rfl, rfl⟩
  · simp only [Bool.not_eq_true] at htrades
    simp only [htrades, Bool.not_false, if_true] at h ⊢
    cases h
    exact ⟨(p.cleared b).marks, rfl, rfl⟩

/-- The page after the row, and the page that the row was drawn on. -/
theorem Page.onSeriesRow_ok {py : Python} {cfg : Options} {trades : List Line}
    {row : SeriesRow} {p p' : Page} (h : p.onSeriesRow py cfg trades row = (p', none)) :
    ∃ q, (p.lastBucket = some row.bucket ∧ q = p ∨
        p.lastBucket ≠ some row.bucket ∧
          p.enterBucket py cfg trades row.bucket = (q, none)) ∧
      p' = q.drawSeries cfg row (xOf row.wallMs) := by
  unfold Page.onSeriesRow at h
  generalize hentered : (if p.lastBucket = some row.bucket then (p, none)
    else p.enterBucket py cfg trades row.bucket) = entered at h
  obtain ⟨q, raised⟩ := entered
  cases raised with
  | some e => cases h
  | none =>
    have hpage : p' = q.drawSeries cfg row (xOf row.wallMs) := by
      cases hrel : relSInBucket row.wallMs with
      | error e => simp [hrel] at h
      | ok rel =>
        obtain ⟨b, rs⟩ := rel
        obtain ⟨-, hrs⟩ := relSInBucket_ok hrel
        simp only [hrel] at h
        cases h
        rw [hrs]
    by_cases hsame : p.lastBucket = some row.bucket
    · rw [if_pos hsame] at hentered
      cases hentered
      exact ⟨p, .inl ⟨hsame, rfl⟩, hpage⟩
    · rw [if_neg hsame] at hentered
      exact ⟨q, .inr ⟨hsame, hentered⟩, hpage⟩

/-! ### Runs -/

/-- The page shows the rows read from the series file, and those read from the Chainlink
file since the bucket last changed. -/
structure Charts (cfg : Options) (rows : List SeriesRow) (chain : List ChainRow) (p : Page) :
    Prop where
  bucket : p.lastBucket = rows.getLast?.map SeriesRow.bucket
  slug : p.slug = (p.lastBucket.map fun b => "btc-updown-5m-" ++ toString b).getD ""
  series : Shows cfg (currentRows rows) p
  chain : ShowsChain cfg chain p

section Charts

variable {py : Python} {cfg : Options} {rows : List SeriesRow} {chain : List ChainRow}
  {p p' : Page} {trades : List Line}

theorem charts_start : Charts cfg [] [] {} where
  bucket := rfl
  slug := rfl
  series := shows_nil rfl rfl rfl rfl rfl rfl rfl rfl
  chain := showsChain_of_nil rfl rfl

theorem Charts.onSeriesRow {row : SeriesRow} (h : Charts cfg rows chain p)
    (hstep : p.onSeriesRow py cfg trades row = (p', none)) :
    Charts cfg (rows ++ [row]) (if p'.lastBucket = p.lastBucket then chain else []) p' := by
  obtain ⟨q, hq, rfl⟩ := Page.onSeriesRow_ok hstep
  rcases hq with ⟨hsame, rfl⟩ | ⟨hother, hentered⟩
  · have hcur : currentRows (rows ++ [row]) = currentRows rows ++ [row] :=
      currentRows_concat_same (h.bucket ▸ hsame)
    have hkept : (q.drawSeries cfg row (xOf row.wallMs)).lastBucket = q.lastBucket := rfl
    rw [if_pos hkept]
    refine ⟨?_, h.slug, ?_, h.chain.congr rfl rfl rfl⟩
    · rw [List.getLast?_concat]
      exact hsame
    · rw [hcur]
      exact h.series.draw
  · have hcur : currentRows (rows ++ [row]) = [row] :=
      currentRows_concat_other fun heq => hother (h.bucket.trans heq)
    obtain ⟨marks, -, rfl⟩ := Page.enterBucket_ok hentered
    rw [if_neg fun heq => hother heq.symm]
    refine ⟨?_, rfl, ?_, showsChain_of_nil rfl rfl⟩
    · rw [List.getLast?_concat]
      rfl
    · rw [hcur]
      have hempty : Shows cfg [] (p.cleared row.bucket).sigmaReset :=
        shows_nil rfl rfl rfl rfl rfl rfl rfl rfl
      exact (hempty.withMarks marks).draw

theorem Charts.onChainRow {row : ChainRow} (h : Charts cfg rows chain p)
    (hstep : p.onChainRow cfg row = (p', none)) : Charts cfg rows (chain ++ [row]) p' := by
  have hchain := h.chain.onChainRow hstep
  rcases Page.onChainRow_ok hstep with ⟨-, rfl⟩ | ⟨-, rfl⟩
  · exact ⟨h.bucket, h.slug, h.series, hchain⟩
  · have hshows := h.series
    exact ⟨h.bucket, h.slug, ⟨hshows.xs, hshows.theoUp, hshows.upMid, hshows.theoDn,
      hshows.dnMid, hshows.spotX, hshows.spotY, hshows.sigma, hshows.windowFull,
      hshows.slugReady, hshows.fallback⟩, hchain⟩

theorem Charts.withMarks (h : Charts cfg rows chain p) (marks : Marks) :
    Charts cfg rows chain { p with marks } :=
  ⟨h.bucket, h.slug, h.series.withMarks marks, h.chain.congr rfl rfl rfl⟩

end Charts

section Runs

variable {py : Python} {cfg : Options} {s : State}

/-- The Chainlink rows read since the bucket last changed. -/
def chainRows (py : Python) (s : State) : List ChainRow :=
  accepted (parseChainlinkLine py) ((s.taken .chain).drop s.chainFrom)

structure ChartsInv (py : Python) (cfg : Options) (s : State) : Prop where
  chainFrom_le : s.chainFrom ≤ s.processed .chain
  charts : Charts cfg (accepted (parseSeriesLine py) (s.taken .series)) (chainRows py s) s.page

theorem chainRows_of_taken {t : State} (htaken : t.taken .chain = s.taken .chain)
    (hfrom : t.chainFrom = s.chainFrom) : chainRows py t = chainRows py s := by
  rw [chainRows, htaken, hfrom, chainRows]

section TakeLine

variable {line : Line} {rest : List Line}

/-- The line is one of the series file. -/
theorem ChartsInv.series (inv : Cursors s) (h : ChartsInv py cfg s)
    (hpending : s.pending = line :: rest) (hphase : s.phase = .series)
    (hupdate : s.update py cfg line = ((s.takeLine py cfg line rest).page, none)) :
    ChartsInv py cfg (s.takeLine py cfg line rest) := by
  have htaken (f : File) : (s.takeLine py cfg line rest).taken f =
      if s.phase = f then s.taken f ++ [line] else s.taken f :=
    State.taken_takeLine inv hpending f
  have hprocessed : s.processed .chain = s.tail .chain := if_neg (by simp [hphase])
  have hlater : (s.takeLine py cfg line rest).processed .chain = s.tail .chain :=
    if_neg (by simp [hphase, State.takeLine])
  have hseries := htaken .series
  have hchain := htaken .chain
  simp only [hphase, if_true, reduceCtorEq, if_false] at hseries hchain
  have hlen := State.length_taken inv .chain
  have hfrom := h.chainFrom_le
  unfold State.update at hupdate
  simp only [hphase] at hupdate
  by_cases hsame : (s.takeLine py cfg line rest).page.lastBucket = s.page.lastBucket
  · have hkept : (s.takeLine py cfg line rest).chainFrom = s.chainFrom :=
      State.chainFrom_takeLine.trans (if_pos hsame)
    refine ⟨by omega, ?_⟩
    rw [hseries, chainRows_of_taken hchain hkept]
    rcases Page.onParsed_ok hupdate with ⟨hparse, hpage⟩ | ⟨row, hparse, hrow⟩
    · rw [accepted_concat_none hparse, hpage]
      exact h.charts
    · rw [accepted_concat_some hparse]
      have hdrawn := h.charts.onSeriesRow hrow
      rw [if_pos hsame] at hdrawn
      exact hdrawn
  · have hreset : (s.takeLine py cfg line rest).chainFrom = s.tail .chain :=
      State.chainFrom_takeLine.trans (if_neg hsame)
    have hnone : chainRows py (s.takeLine py cfg line rest) = [] := by
      rw [chainRows, hchain, hreset, List.drop_of_length_le (by omega), accepted_nil]
    refine ⟨by omega, ?_⟩
    rw [hseries, hnone]
    rcases Page.onParsed_ok hupdate with ⟨-, hpage⟩ | ⟨row, hparse, hrow⟩
    · rw [hpage] at hsame
      exact absurd rfl hsame
    · rw [accepted_concat_some hparse]
      have hdrawn := h.charts.onSeriesRow hrow
      rw [if_neg hsame] at hdrawn
      exact hdrawn

theorem ChartsInv.chain (inv : Cursors s) (h : ChartsInv py cfg s)
    (hpending : s.pending = line :: rest) (hphase : s.phase = .chain)
    (hupdate : s.update py cfg line = ((s.takeLine py cfg line rest).page, none)) :
    ChartsInv py cfg (s.takeLine py cfg line rest) := by
  have htaken (f : File) : (s.takeLine py cfg line rest).taken f =
      if s.phase = f then s.taken f ++ [line] else s.taken f :=
    State.taken_takeLine inv hpending f
  have hprocessed : (s.takeLine py cfg line rest).processed .chain = s.processed .chain + 1 :=
    (State.processed_takeLine inv hpending .chain).trans (if_pos hphase)
  have hseries := htaken .series
  have hchain := htaken .chain
  simp only [hphase, if_true, reduceCtorEq, if_false] at hseries hchain
  have hlen := State.length_taken inv .chain
  have hfrom := h.chainFrom_le
  unfold State.update at hupdate
  simp only [hphase] at hupdate
  have hrows (hkept : (s.takeLine py cfg line rest).chainFrom = s.chainFrom) :
      chainRows py (s.takeLine py cfg line rest) =
        accepted (parseChainlinkLine py) ((s.taken .chain).drop s.chainFrom ++ [line]) := by
    rw [chainRows, hchain, hkept, List.drop_append_of_le_length (by omega)]
  have hkept : (s.takeLine py cfg line rest).chainFrom = s.chainFrom :=
    State.chainFrom_takeLine.trans (if_pos (Page.onParsed_chain hupdate).1)
  refine ⟨by omega, ?_⟩
  rw [hseries, hrows hkept]
  rcases Page.onParsed_ok hupdate with ⟨hparse, hpage⟩ | ⟨row, hparse, hrow⟩
  · rw [accepted_concat_none hparse, hpage]
    exact h.charts
  · rw [accepted_concat_some hparse]
    exact h.charts.onChainRow hrow

theorem ChartsInv.trades (inv : Cursors s) (h : ChartsInv py cfg s)
    (hpending : s.pending = line :: rest) (hphase : s.phase = .trades)
    (hupdate : s.update py cfg line = ((s.takeLine py cfg line rest).page, none)) :
    ChartsInv py cfg (s.takeLine py cfg line rest) := by
  have htaken (f : File) : (s.takeLine py cfg line rest).taken f =
      if s.phase = f then s.taken f ++ [line] else s.taken f :=
    State.taken_takeLine inv hpending f
  have hprocessed : (s.takeLine py cfg line rest).processed .chain = s.processed .chain :=
    (State.processed_takeLine inv hpending .chain).trans (if_neg (by simp [hphase]))
  have hseries := htaken .series
  have hchain := htaken .chain
  simp only [hphase, reduceCtorEq, if_false] at hseries hchain
  unfold State.update at hupdate
  simp only [hphase] at hupdate
  obtain ⟨marks, hpage⟩ := Page.onParsed_trade hupdate
  have hkept : (s.takeLine py cfg line rest).chainFrom = s.chainFrom := by
    refine State.chainFrom_takeLine.trans (if_pos ?_)
    rw [hpage]
  refine ⟨?_, ?_⟩
  · rw [hkept, hprocessed]
    exact h.chainFrom_le
  · rw [hseries, chainRows_of_taken hchain hkept, hpage]
    exact h.charts.withMarks marks

end TakeLine

theorem charts_of_reachable (h : (dashboard py cfg).Reachable s) (hlive : s.raised = none) :
    ChartsInv py cfg s := by
  refine reachable_invariant (I := fun s => s.raised = none → ChartsInv py cfg s) h ?_ ?_ ?_ ?_
    hlive
  · exact fun _ => ⟨le_rfl, charts_start⟩
  · intro s f line inv ih hlive
    obtain ⟨hfrom, hcharts⟩ := ih hlive
    refine ⟨hfrom, ?_⟩
    rw [State.taken_append inv, chainRows_of_taken (State.taken_append inv f .chain line) rfl]
    exact hcharts
  · intro s inv hraised hpending ih _
    obtain ⟨hfrom, hcharts⟩ := ih hraised
    obtain ⟨-, hpage, -, hkept⟩ := s.poll_frame cfg
    refine ⟨?_, ?_⟩
    · rw [hkept, State.processed_poll inv hpending]
      exact hfrom
    · rw [State.taken_poll inv hpending,
        chainRows_of_taken (State.taken_poll inv hpending .chain) hkept, hpage]
      exact hcharts
  · intro s line rest inv hraised hpending ih hlive
    have hupdate : s.update py cfg line = ((s.takeLine py cfg line rest).page, none) :=
      Prod.ext rfl hlive
    have hbefore := ih hraised
    cases hphase : s.phase with
    | series => exact hbefore.series inv hpending hphase hupdate
    | chain => exact hbefore.chain inv hpending hphase hupdate
    | trades => exact hbefore.trades inv hpending hphase hupdate

end Runs

/-! ### The page as it is served -/

theorem mem_rtake_map_xOf {A : Type} {f : A → ℤ} {xs ys : List A} {n : ℕ} {x : ℚ}
    (h : x ∈ (xs.map fun a => xOf (f a)).rtake n) (hsub : xs ⊆ ys)
    (hys : ∀ a ∈ ys, 0 ≤ f a ∧ f a ≤ 2 ^ 52) : 0 ≤ x ∧ x ≤ 300 := by
  have hmem : x ∈ xs.map fun a => xOf (f a) := List.mem_of_mem_drop h
  obtain ⟨a, ha, rfl⟩ := List.mem_map.mp hmem
  obtain ⟨hlo, hhi⟩ := hys a (hsub ha)
  exact xOf_range hlo hhi

theorem currentRows_subset (rows : List SeriesRow) : currentRows rows ⊆ rows := by
  unfold currentRows
  split
  · exact List.nil_subset rows
  · exact (List.rtakeWhile_suffix _ rows).subset

theorem length_rtake_map {A B C : Type} (f : A → B) (g : A → C) (xs : List A) (n : ℕ) :
    ((xs.map f).rtake n).length = ((xs.map g).rtake n).length := by
  simp [List.rtake]

/-- While nothing has escaped from an update, the page served is decided by the
lines read: the points of the bucket of the last series row, as many of the last
as the queues hold, all within the five minutes of the axis. -/
theorem charts_served {py : Python} {cfg : Options} {s : State}
    (h : (dashboard py cfg).Reachable s) (hlive : s.raised = none) :
    let rows := accepted (parseSeriesLine py) (s.taken .series)
    let chain := accepted (parseChainlinkLine py) ((s.taken .chain).drop s.chainFrom)
    Charts cfg rows chain s.page ∧
      (buildJson s.page).btcX.length = (buildJson s.page).btcY.length ∧
      ((∀ r ∈ rows, 0 ≤ r.wallMs ∧ r.wallMs ≤ 2 ^ 52) →
        (∀ r ∈ chain, 0 ≤ r.wallMs ∧ r.wallMs ≤ 2 ^ 52) →
          ∀ x ∈ (buildJson s.page).xs ++ (buildJson s.page).btcX, 0 ≤ x ∧ x ≤ 300) := by
  intro rows chain
  have hcharts : Charts cfg rows chain s.page := (charts_of_reachable h hlive).charts
  refine ⟨hcharts, ?_, ?_⟩
  · simp only [buildJson]
    split
    · rw [hcharts.chain.xs, hcharts.chain.ys]
      exact length_rtake_map _ _ _ _
    · rw [hcharts.series.spotX, hcharts.series.spotY]
      exact length_rtake_map _ _ _ _
  · intro hrows hchain x hx
    have hcur := currentRows_subset rows
    rcases List.mem_append.mp hx with hx | hx
    · have hxs : x ∈ s.page.dqX := hx
      rw [hcharts.series.xs] at hxs
      exact mem_rtake_map_xOf hxs hcur hrows
    · simp only [buildJson] at hx
      split at hx
      · rw [hcharts.chain.xs] at hx
        exact mem_rtake_map_xOf hx (List.filter_subset_self _) hchain
      · rw [hcharts.series.spotX] at hx
        exact mem_rtake_map_xOf hx (List.Subset.trans (List.filter_subset_self _) hcur) hrows

section Sample

def sampleSeriesLine : Line :=
  Core.literal "\x7b\"event_type\":\"series\",\"local_ts_wall_ms\":600500," String.toList_ofList ++
    Core.literal "\"active_epoch\":600,\"theo_up\":0.5,\"theo_down\":0.5\x7d" String.toList_ofList

def sampleTradeLine : Line :=
  Core.literal "\x7b\"event_type\":\"trade\",\"action\":\"BUY\"," String.toList_ofList ++
    Core.literal "\"slug\":\"btc-updown-5m-600\",\"local_ts_wall_ms\":600700,"
      String.toList_ofList ++
    Core.literal "\"side\":\"Up\",\"mid\":0.5\x7d" String.toList_ofList

def samplePython : Python where
  loads line :=
    if line = sampleSeriesLine then
      .ok (.dict [("event_type", .str "series"), ("local_ts_wall_ms", .int 600500),
        ("active_epoch", .int 600), ("theo_up", .float (.finite (1 / 2))),
        ("theo_down", .float (.finite (1 / 2)))])
    else if line = sampleTradeLine then
      .ok (.dict [("event_type", .str "trade"), ("action", .str "BUY"),
        ("slug", .str "btc-updown-5m-600"), ("local_ts_wall_ms", .int 600700),
        ("side", .str "Up"), ("mid", .float (.finite (1 / 2)))])
    else .error .decode
  intOfStr s := if s = "600" then some 600 else none
  floatOfStr _ := none
  strOf _ := ""

/-- The trade is read when the bucket changes, and once more by the tail. -/
def sampleRun : List Label :=
  [.append .trades sampleTradeLine, .append .series sampleSeriesLine, .poll, .line, .poll, .poll,
    .line]

def sampleEnd : State := (Lts.stepAll (State.next samplePython {}) {} sampleRun).getD {}

theorem sampleEnd_reachable : (dashboard samplePython {}).Reachable sampleEnd := by
  have hsome : (Lts.stepAll (State.next samplePython {}) {} sampleRun).isSome = true := by
    decide +kernel
  obtain ⟨s, hs⟩ := Option.isSome_iff_exists.mp hsome
  have hend : sampleEnd = s := congrArg (fun o => o.getD {}) hs
  rw [hend]
  exact (Lts.run_stepAll (fun _ _ _ h => h) hs).reachable (.init rfl)

end Sample

theorem charts_served_sample : sampleEnd.page.lastBucket = some 600 ∧
    Charts {} (accepted (parseSeriesLine samplePython) (sampleEnd.taken .series))
      (accepted (parseChainlinkLine samplePython)
        ((sampleEnd.taken .chain).drop sampleEnd.chainFrom)) sampleEnd.page :=
  ⟨by decide +kernel, (charts_served sampleEnd_reachable (by decide +kernel)).1⟩

end LeadLag.Dashboard
