import LeadLag.Sim.Fills

/-!
# Fills come after their signal, and fewer with more latency

A call that returns has looked at every signal at every latency. It returns when
the quotes of the timeline can be read and no time overflows.
-/

namespace LeadLag.Sim
open LeadLag.Core LeadLag.TokenFeed

variable {timeline : List LogEvent} {cfg : SimConfig} {signals : List Signal}
  {rows : List SimResultRow}

/-! ### When the call returns -/

/-- Every event answers to the test, and every quote has a mid. -/
def Readable (timeline : List LogEvent) : Prop :=
  ∀ e ∈ timeline, ∃ b, isPolymarketQuote e = some b ∧ (b = true → ∃ m, polyMid e = some m)

theorem firstQuote_returns {es : List LogEvent} (h : Readable es) :
    ∃ o, firstQuote es = some o := by
  induction es with
  | nil => exact ⟨none, rfl⟩
  | cons e es ih =>
    obtain ⟨b, hb, -⟩ := h e List.mem_cons_self
    cases b with
    | true => exact ⟨some e, by simp only [firstQuote, hb]⟩
    | false =>
      obtain ⟨o, ho⟩ := ih fun a ha => h a (List.mem_cons_of_mem e ha)
      exact ⟨o, by simp only [firstQuote, hb, ho]⟩

theorem firstPoly_returns (h : Readable timeline) (t : ℤ) :
    ∃ o, firstPolyAtOrAfter timeline t = some o :=
  firstQuote_returns fun e he => h e (List.mem_of_mem_drop he)

theorem int64_of_fits {e : ℤ} (h : fitsInt64 e = true) : int64 e = some e := if_pos h

theorem trySignal_returns (hm : TimeSorted timeline) (h : Readable timeline) {latency : ℤ}
    {s : Signal} (hentry : fitsInt64 (s.atMonoNs + latency * 1000000) = true)
    (hexit : ∀ e ∈ timeline, fitsInt64 (e.sortKeyNs + cfg.exitHorizonMs * 1000000) = true)
    (si : ℕ) : ∃ o, trySignal timeline cfg latency si s = some o := by
  have hmid {t : ℤ} {e : LogEvent} (he : EarliestQuote timeline t e) : ∃ m, polyMid e = some m := by
    obtain ⟨b, hb, hmid⟩ := h e he.mem
    rw [he.holds.1] at hb
    exact hmid (Option.some.inj hb).symm
  unfold trySignal
  split
  · exact ⟨none, rfl⟩
  · rw [int64_of_fits hentry, Option.bind_some]
    obtain ⟨o0, hfirst⟩ := firstPoly_returns h (s.atMonoNs + latency * 1000000)
    have hscan0 := firstPoly_scanned hm hfirst
    rw [hfirst, Option.bind_some]
    cases o0 with
    | none => exact ⟨none, rfl⟩
    | some e0 =>
      dsimp only
      rw [int64_of_fits (hexit e0 hscan0.mem), Option.bind_some]
      obtain ⟨o1, hsecond⟩ := firstPoly_returns h (e0.sortKeyNs + cfg.exitHorizonMs * 1000000)
      have hscan1 := firstPoly_scanned hm hsecond
      rw [hsecond, Option.bind_some]
      cases o1 with
      | none => exact ⟨none, rfl⟩
      | some e1 =>
        obtain ⟨m0, hm0⟩ := hmid hscan0
        obtain ⟨m1, hm1⟩ := hmid hscan1
        dsimp only
        rw [hm0, hm1]
        exact ⟨_, rfl⟩

theorem fillsFrom_returns {latency : ℤ}
    (h : ∀ s ∈ signals, ∀ si, ∃ o, trySignal timeline cfg latency si s = some o) (si : ℕ) :
    ∃ fills, fillsFrom timeline cfg latency si signals = some fills := by
  induction signals generalizing si with
  | nil => exact ⟨[], rfl⟩
  | cons s rest ih =>
    obtain ⟨o, ho⟩ := h s List.mem_cons_self si
    obtain ⟨fills, hfills⟩ := ih (fun s' hs' => h s' (List.mem_cons_of_mem s hs')) (si + 1)
    rw [fillsFrom, ho, Option.bind_some, hfills]
    exact ⟨_, rfl⟩

theorem mapM_returns {A B : Type*} {f : A → Option B} {as : List A}
    (h : ∀ a ∈ as, ∃ b, f a = some b) : ∃ bs, as.mapM f = some bs := by
  induction as with
  | nil => exact ⟨[], rfl⟩
  | cons a as ih =>
    obtain ⟨b, hb⟩ := h a List.mem_cons_self
    obtain ⟨bs, hbs⟩ := ih fun a' ha' => h a' (List.mem_cons_of_mem a ha')
    rw [List.mapM_cons, hb, hbs]
    exact ⟨_, rfl⟩

theorem runLatencySweep_returns (hm : TimeSorted timeline) (h : Readable timeline)
    (hentry : ∀ s ∈ signals, ∀ latency ∈ cfg.latenciesMs,
      fitsInt64 (s.atMonoNs + latency * 1000000) = true)
    (hexit : ∀ e ∈ timeline, fitsInt64 (e.sortKeyNs + cfg.exitHorizonMs * 1000000) = true) :
    ∃ rows, runLatencySweep signals timeline cfg = some rows := by
  apply mapM_returns
  intro latency hlatency
  have htry : ∀ s ∈ signals, ∀ si, ∃ o, trySignal timeline cfg latency si s = some o := by
    intro s hs si
    exact trySignal_returns hm h (hentry s hs latency hlatency) hexit si
  obtain ⟨fills, hfills⟩ := fillsFrom_returns htry 0
  rw [sweepSignals_eq, hfills]
  exact ⟨_, rfl⟩

/-! ### What it returns -/

/-- Entry and exit of a fill are the earliest quotes from their target times, a
row counts every signal once as an attempt, and the signals filled at a latency
are filled at every smaller one of the sweep. -/
theorem latencySweep_causal_monotone (hm : TimeSorted timeline)
    (h : runLatencySweep signals timeline cfg = some rows) :
    rows.map SimResultRow.latencyMs = cfg.latenciesMs ∧
    (∀ row ∈ rows, row.attempts = signals.length ∧
      ∃ fills, fillsAt timeline cfg row.latencyMs signals = some fills ∧
        row.fills = fills.length ∧
        ∀ p ∈ fills, ∃ s, signals[p.1]? = some s ∧
          EarliestQuote timeline (s.atMonoNs + row.latencyMs * 1000000) p.2.entry ∧
          EarliestQuote timeline (p.2.entry.sortKeyNs + cfg.exitHorizonMs * 1000000) p.2.exit) ∧
    ∀ row1 ∈ rows, ∀ row2 ∈ rows, row1.latencyMs ≤ row2.latencyMs → row2.fills ≤ row1.fills ∧
      ∀ fills1 fills2, fillsAt timeline cfg row1.latencyMs signals = some fills1 →
        fillsAt timeline cfg row2.latencyMs signals = some fills2 →
          ∀ p2 ∈ fills2, ∃ p1 ∈ fills1, p1.1 = p2.1 := by
  refine ⟨runLatencySweep_latencies h, ?_, ?_⟩
  · intro row hrow
    obtain ⟨fills, hfills, hcount⟩ := mem_runLatencySweep h hrow
    have hattempts : row.attempts = signals.length := by
      rw [hcount]
      exact Nat.zero_add _
    have hnumber : row.fills = fills.length := by
      rw [hcount]
      exact Nat.zero_add _
    refine ⟨hattempts, fills, hfills, hnumber, ?_⟩
    rintro ⟨j, f⟩ hf
    obtain ⟨k, s, hj, hs, htry⟩ := (mem_fillsFrom hfills j f).mp hf
    obtain ⟨-, hentry, hexit⟩ := trySignal_fill hm htry
    rw [Nat.zero_add] at hj
    subst hj
    exact ⟨s, hs, hentry, hexit⟩
  · intro row1 hrow1 row2 hrow2 hle
    obtain ⟨fills1, hfills1, hcount1⟩ := mem_runLatencySweep h hrow1
    obtain ⟨fills2, hfills2, hcount2⟩ := mem_runLatencySweep h hrow2
    have hsub := fillsFrom_mono hm hle hfills1 hfills2
    constructor
    · have hlen := hsub.length_le
      rw [List.length_map, List.length_map] at hlen
      rw [hcount1, hcount2]
      simpa [addFills] using hlen
    · intro g1 g2 hg1 hg2 p2 hp2
      obtain rfl := Option.some.inj (hfills1.symm.trans hg1)
      obtain rfl := Option.some.inj (hfills2.symm.trans hg2)
      have hmem : p2.1 ∈ fills1.map Prod.fst := hsub.subset (List.mem_map_of_mem hp2)
      obtain ⟨p1, hp1, heq⟩ := List.mem_map.mp hmem
      exact ⟨p1, hp1, heq⟩

/-- Two quotes of one token, a second apart. -/
def twoQuotes : List LogEvent :=
  [quoteEvent 1 { tokenId := "up", bestBid := 2 / 5, bestAsk := 1 / 2, localMonoNs := 0 },
    quoteEvent 2 { tokenId := "up", bestBid := 1 / 2, bestAsk := 3 / 5, localMonoNs := 1000000000 }]

theorem timeSorted_twoQuotes : TimeSorted twoQuotes := by
  simp [TimeSorted, twoQuotes, quoteEvent]

/-- A signal at the time of the first quote, tried at two latencies. -/
theorem latencySweep_two_quotes :
    ∃ rows, runLatencySweep [⟨0⟩] twoQuotes { latenciesMs := [0, 600] } = some rows ∧
      rows.map SimResultRow.latencyMs = [0, 600] ∧ ∀ row ∈ rows, row.attempts = 1 := by
  have hreturns : (runLatencySweep [⟨0⟩] twoQuotes { latenciesMs := [0, 600] }).isSome = true := by
    decide +kernel
  obtain ⟨rows, h⟩ := Option.isSome_iff_exists.mp hreturns
  obtain ⟨hlatencies, hrows, -⟩ := latencySweep_causal_monotone timeSorted_twoQuotes h
  exact ⟨rows, h, hlatencies, fun row hrow => (hrows row hrow).1⟩

end LeadLag.Sim
