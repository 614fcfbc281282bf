import LeadLag.Sim.Causality

/-!
# The tokens of a fill (latency_backtest.cpp:10-31, 44-91)

The searches look at the source and the type of an event and not at its token.
A quote is found when none of its time stands before it in the timeline. With
horizons of a millisecond, ahead and back, any two such quotes are linked by the
entries and exits of sweeps.
-/

namespace LeadLag.Sim
open LeadLag.Core

/-- Entry and exit of every counted fill carry one token id. -/
def SingleToken (signals : List Signal) (timeline : List LogEvent) (cfg : SimConfig)
    (rows : List SimResultRow) : Prop :=
  ∀ row ∈ rows, ∀ fills, fillsAt timeline cfg row.latencyMs signals = some fills →
    ∀ p ∈ fills, symbolOrMarketId p.2.entry = symbolOrMarketId p.2.exit

/-- In the timeline, the quote that stands first from a target time of a signal
and the one that stands first a horizon after it carry one token id. -/
def HorizonsAgree (signals : List Signal) (timeline : List LogEvent) (cfg : SimConfig) : Prop :=
  ∀ latency ∈ cfg.latenciesMs, ∀ k s, signals[k]? = some s →
    deterministicMiss k cfg.missedFillProbability = false →
      ∀ e0 e1, EarliestQuote timeline (s.atMonoNs + latency * 1000000) e0 →
        EarliestQuote timeline (e0.sortKeyNs + cfg.exitHorizonMs * 1000000) e1 →
          symbolOrMarketId e0 = symbolOrMarketId e1

variable {timeline : List LogEvent} {cfg : SimConfig} {signals : List Signal}
  {rows : List SimResultRow}

/-- Of the quotes of one time, the first in the timeline. -/
def Leading (timeline : List LogEvent) (e : LogEvent) : Prop :=
  EarliestQuote timeline e.sortKeyNs e

def OneToken (timeline : List LogEvent) : Prop :=
  ∀ a b, Leading timeline a → Leading timeline b → symbolOrMarketId a = symbolOrMarketId b

/-- The fills of one sweep. -/
theorem singleToken_iff_horizonsAgree (hm : TimeSorted timeline)
    (h : runLatencySweep signals timeline cfg = some rows) :
    SingleToken signals timeline cfg rows ↔ HorizonsAgree signals timeline cfg := by
  constructor
  · intro hsingle latency hlatency k s hs hmiss e0 e1 h0 h1
    rw [← runLatencySweep_latencies h] at hlatency
    obtain ⟨row, hrow, rfl⟩ := List.mem_map.mp hlatency
    obtain ⟨fills, hfills, -⟩ := mem_runLatencySweep h hrow
    obtain ⟨o, htry⟩ := exists_trySignal hfills hs
    rw [Nat.zero_add] at htry
    obtain ⟨f, rfl⟩ := trySignal_filled hm hmiss htry h0.mem h0.holds h1.mem h1.holds
    have hmem : (k, f) ∈ fills :=
      (mem_fillsFrom hfills k f).mpr ⟨k, s, (Nat.zero_add k).symm, hs, htry⟩
    obtain ⟨-, hentry, hexit⟩ := trySignal_fill hm htry
    obtain rfl := hentry.unique h0
    obtain rfl := hexit.unique h1
    exact hsingle row hrow fills hfills (k, f) hmem
  · intro hagree row hrow fills hfills
    rintro ⟨j, f⟩ hf
    obtain ⟨k, s, hj, hs, htry⟩ := (mem_fillsFrom hfills j f).mp hf
    rw [Nat.zero_add] at hj
    subst hj
    obtain ⟨hmiss, hentry, hexit⟩ := trySignal_fill hm htry
    have hlatency : row.latencyMs ∈ cfg.latenciesMs := by
      rw [← runLatencySweep_latencies h]
      exact List.mem_map_of_mem hrow
    exact hagree row.latencyMs hlatency j s hs hmiss f.entry f.exit hentry hexit

/-! ### Which times lead to which quotes -/

theorem EarliestQuote.leading {t : ℤ} {e : LogEvent} (h : EarliestQuote timeline t e) :
    Leading timeline e := by
  obtain ⟨hmem, ⟨hquote, hfrom⟩, -, pre, post, hsplit, hpre⟩ := h
  constructor
  · exact hmem
  · exact ⟨hquote, le_rfl⟩
  · intro b _ hb
    exact hb.2
  · refine ⟨pre, post, hsplit, ?_⟩
    intro b hb hquoteb
    exact hpre b hb ⟨hquoteb.1, hfrom.trans hquoteb.2⟩

theorem Leading.eq_of_key {a b : LogEvent} (ha : Leading timeline a) (hb : Leading timeline b)
    (hkey : a.sortKeyNs = b.sortKeyNs) : a = b := by
  unfold Leading at ha
  rw [hkey] at ha
  exact FirstLeast.unique ha hb

theorem exists_earliest (hm : TimeSorted timeline) (hread : Readable timeline) {t : ℤ}
    {e : LogEvent} (he : e ∈ timeline) (hfrom : QuoteFrom t e) :
    ∃ a, EarliestQuote timeline t a ∧ a.sortKeyNs ≤ e.sortKeyNs := by
  obtain ⟨o, ho⟩ := firstPoly_returns hread t
  have hscan := firstPoly_scanned hm ho
  obtain ⟨a, rfl, hle⟩ := hscan.exists_le he hfrom
  exact ⟨a, hscan, hle⟩

/-- The last quotes before a quote that is not the first. -/
theorem exists_previous {a b : LogEvent} (ha : Leading timeline a)
    (hlt : a.sortKeyNs < b.sortKeyNs) :
    ∃ p, Leading timeline p ∧ p.sortKeyNs < b.sortKeyNs ∧
      ∀ c, Leading timeline c → p.sortKeyNs < c.sortKeyNs → b.sortKeyNs ≤ c.sortKeyNs := by
  have hbounded : ∃ top : ℤ, ∀ z : ℤ,
      (∃ c, Leading timeline c ∧ c.sortKeyNs = z ∧ z < b.sortKeyNs) → z ≤ top := by
    refine ⟨b.sortKeyNs, ?_⟩
    intro z hz
    obtain ⟨c, -, -, hbefore⟩ := hz
    exact hbefore.le
  obtain ⟨z, ⟨p, hp, hkey, hbefore⟩, hgreatest⟩ :=
    Int.exists_greatest_of_bdd hbounded ⟨a.sortKeyNs, a, ha, rfl, hlt⟩
  refine ⟨p, hp, by omega, ?_⟩
  intro c hc hafter
  by_contra hearly
  have hle := hgreatest c.sortKeyNs ⟨c, hc, rfl, by omega⟩
  omega

/-! ### Every sweep of a timeline -/

/-- Times a millisecond away fit 64 bits. -/
def TimesFit (timeline : List LogEvent) : Prop :=
  ∀ e ∈ timeline, fitsInt64 (e.sortKeyNs - 1000000) = true ∧
    fitsInt64 (e.sortKeyNs + 1000000) = true

def EverySweepSingle (timeline : List LogEvent) : Prop :=
  ∀ signals cfg rows, runLatencySweep signals timeline cfg = some rows →
    SingleToken signals timeline cfg rows

/-- The sweep of one signal, at the time of a quote. -/
theorem EverySweepSingle.horizon (h : EverySweepSingle timeline) (hm : TimeSorted timeline)
    (hread : Readable timeline) {a b : LogEvent} (ha : Leading timeline a) {ms : ℤ}
    (hfits : fitsInt64 a.sortKeyNs = true)
    (hexit : ∀ e ∈ timeline, fitsInt64 (e.sortKeyNs + ms * 1000000) = true)
    (hb : EarliestQuote timeline (a.sortKeyNs + ms * 1000000) b) :
    symbolOrMarketId a = symbolOrMarketId b := by
  have hentry : ∀ s ∈ [(⟨a.sortKeyNs⟩ : Signal)], ∀ latency ∈ [(0 : ℤ)],
      fitsInt64 (s.atMonoNs + latency * 1000000) = true := by
    intro s hs latency hlatency
    rw [List.mem_singleton.mp hs, List.mem_singleton.mp hlatency, zero_mul, add_zero]
    exact hfits
  obtain ⟨rows, hrows⟩ : ∃ rows, runLatencySweep [⟨a.sortKeyNs⟩] timeline
      { latenciesMs := [0], exitHorizonMs := ms } = some rows :=
    runLatencySweep_returns hm hread hentry hexit
  have hagree := (singleToken_iff_horizonsAgree hm hrows).mp (h _ _ _ hrows)
  have hstart : EarliestQuote timeline (a.sortKeyNs + 0 * 1000000) a := by
    rw [zero_mul, add_zero]
    exact ha
  exact hagree 0 List.mem_cons_self 0 ⟨a.sortKeyNs⟩ rfl rfl a b hstart hb

/-- By induction on the time since the first quote. A quote within a millisecond of `b`
has its token by a sweep that looks back, the quote before a longer pause by one that
looks ahead. -/
theorem EverySweepSingle.token_eq (h : EverySweepSingle timeline) (hm : TimeSorted timeline)
    (hread : Readable timeline) (hfit : TimesFit timeline) {first : LogEvent}
    (hfirst : Leading timeline first)
    (hleast : ∀ e, Leading timeline e → first.sortKeyNs ≤ e.sortKeyNs)
    {b : LogEvent} (hb : Leading timeline b) : symbolOrMarketId b = symbolOrMarketId first := by
  have hown (e : LogEvent) (he : e ∈ timeline) : fitsInt64 e.sortKeyNs = true := by
    obtain ⟨hlow, hhigh⟩ := hfit e he
    have hlow' := of_decide_eq_true hlow
    have hhigh' := of_decide_eq_true hhigh
    exact decide_eq_true (by omega)
  induction hage : (b.sortKeyNs - first.sortKeyNs).toNat using Nat.strong_induction_on
    generalizing b with
  | _ age ih =>
    have hearlier (e : LogEvent) (he : Leading timeline e) (hlt : e.sortKeyNs < b.sortKeyNs) :
        symbolOrMarketId e = symbolOrMarketId first := by
      have hle := hleast e he
      exact ih _ (by omega) he rfl
    obtain ⟨f, hf, hle⟩ := exists_earliest hm hread (t := b.sortKeyNs + -1 * 1000000) hb.mem
      ⟨hb.holds.1, by omega⟩
    by_cases hnear : f.sortKeyNs < b.sortKeyNs
    · have hback := h.horizon hm hread hb (hown b hb.mem)
        (fun e he => by
          have hlow := (hfit e he).1
          rw [neg_one_mul, ← sub_eq_add_neg]
          exact hlow) hf
      rw [hback]
      exact hearlier f hf.leading hnear
    · by_cases hstart : first.sortKeyNs < b.sortKeyNs
      · obtain ⟨p, hp, hbefore, hnext⟩ := exists_previous hfirst hstart
        have hpause : p.sortKeyNs + 1 * 1000000 ≤ b.sortKeyNs := by
          by_contra hshort
          have hfrom := hf.le p hp.mem ⟨hp.holds.1, by omega⟩
          omega
        obtain ⟨c, hc, hcle⟩ := exists_earliest hm hread (t := p.sortKeyNs + 1 * 1000000) hb.mem
          ⟨hb.holds.1, hpause⟩
        have hafter := hc.holds.2
        have hge := hnext c hc.leading (by omega)
        obtain rfl := hc.leading.eq_of_key hb (by omega)
        have hahead := h.horizon hm hread hp (hown p hp.mem)
          (fun e he => by
            have hhigh := (hfit e he).2
            rw [one_mul]
            exact hhigh) hc
        rw [← hahead]
        exact hearlier p hp hbefore
      · have hle := hleast b hb
        rw [hb.eq_of_key hfirst (by omega)]

/-- Every sweep of a timeline, with any signals and any configuration, has fills of one
token each exactly when the quotes it can find carry one token; that they do is enough
for every timeline, and needed where its rows can be read and its times fit 64 bits. -/
theorem latencySweep_singleToken_iff (hm : TimeSorted timeline) :
    (OneToken timeline → EverySweepSingle timeline) ∧
      (Readable timeline → TimesFit timeline → EverySweepSingle timeline → OneToken timeline) := by
  constructor
  · intro hone signals cfg rows hrows
    refine (singleToken_iff_horizonsAgree hm hrows).mpr ?_
    intro latency _ k s _ _ e0 e1 h0 h1
    exact hone e0 e1 h0.leading h1.leading
  · intro hread hfit h a b ha hb
    have hlow := of_decide_eq_true (hfit a ha.mem).1
    obtain ⟨first, hfirst, -⟩ := exists_earliest hm hread (t := -2 ^ 63) ha.mem
      ⟨ha.holds.1, by omega⟩
    have hleast (e : LogEvent) (he : Leading timeline e) : first.sortKeyNs ≤ e.sortKeyNs := by
      have hfits := of_decide_eq_true (hfit e he.mem).1
      exact hfirst.le e he.mem ⟨he.holds.1, by omega⟩
    rw [h.token_eq hm hread hfit hfirst.leading hleast ha,
      h.token_eq hm hread hfit hfirst.leading hleast hb]

theorem latencySweep_singleToken_two_quotes :
    EverySweepSingle twoQuotes ∧ (EverySweepSingle twoQuotes → OneToken twoQuotes) ∧
      ∃ rows, runLatencySweep [⟨0⟩] twoQuotes { latenciesMs := [0, 600] } = some rows := by
  have hquote (e : LogEvent) (he : e ∈ twoQuotes) : ∃ seq q, e = quoteEvent seq q ∧
      q.tokenId = "up" ∧ fitsInt64 (q.localMonoNs - 1000000) = true ∧
      fitsInt64 (q.localMonoNs + 1000000) = true := by
    rcases List.mem_pair.mp he with rfl | rfl
    · exact ⟨_, _, rfl, rfl, by decide, by decide⟩
    · exact ⟨_, _, rfl, rfl, by decide, by decide⟩
  have hone : OneToken twoQuotes := by
    intro a b ha hb
    obtain ⟨_, _, rfl, htokena, -⟩ := hquote a ha.mem
    obtain ⟨_, _, rfl, htokenb, -⟩ := hquote b hb.mem
    rw [(quoteEvent_read _ _).2.1, (quoteEvent_read _ _).2.1, htokena, htokenb]
  have hread : Readable twoQuotes := by
    intro e he
    obtain ⟨_, _, rfl, -⟩ := hquote e he
    exact ⟨true, (quoteEvent_read _ _).1, fun _ => ⟨_, (quoteEvent_read _ _).2.2⟩⟩
  have hfit : TimesFit twoQuotes := by
    intro e he
    obtain ⟨_, _, rfl, -, hlow, hhigh⟩ := hquote e he
    exact ⟨hlow, hhigh⟩
  have hreturns : (runLatencySweep [⟨0⟩] twoQuotes { latenciesMs := [0, 600] }).isSome = true := by
    decide +kernel
  obtain ⟨henough, hneeded⟩ := latencySweep_singleToken_iff timeSorted_twoQuotes
  exact ⟨henough hone, hneeded hread hfit, Option.isSome_iff_exists.mp hreturns⟩

/-- Quotes of the Up and the Down token, half a second apart. -/
def upThenDown : List LogEvent :=
  [quoteEvent 1 { tokenId := "up", bestBid := 2 / 5, bestAsk := 1 / 2, localMonoNs := 0 },
    quoteEvent 2
      { tokenId := "down", bestBid := 1 / 2, bestAsk := 3 / 5, localMonoNs := 500000000 }]

/-- The price of the Down token less that of the Up token counts as a gain. -/
theorem latencySweep_mixes_tokens :
    ¬ ∀ (signals : List Signal) (timeline : List LogEvent) (cfg : SimConfig)
      (rows : List SimResultRow), TimeSorted timeline →
        runLatencySweep signals timeline cfg = some rows →
          SingleToken signals timeline cfg rows := by
  intro h
  have hm : TimeSorted upThenDown := by simp [TimeSorted, upThenDown, quoteEvent]
  have hreturns : (runLatencySweep [⟨0⟩] upThenDown { latenciesMs := [0] }).isSome = true := by
    decide +kernel
  obtain ⟨rows, hrows⟩ := Option.isSome_iff_exists.mp hreturns
  have hsingle := h [⟨0⟩] upThenDown { latenciesMs := [0] } rows hm hrows
  have hlatency : 0 ∈ rows.map SimResultRow.latencyMs := by
    rw [runLatencySweep_latencies hrows]
    exact List.mem_cons_self
  obtain ⟨row, hrow, hzero⟩ := List.mem_map.mp hlatency
  obtain ⟨fills, hfills, -⟩ := mem_runLatencySweep hrows hrow
  have hall := hsingle row hrow fills hfills
  rw [hzero] at hfills
  have htokens : (fillsAt upThenDown { latenciesMs := [0] } 0 [⟨0⟩]).map (List.map fun p =>
      (symbolOrMarketId p.2.entry, symbolOrMarketId p.2.exit)) =
        some [(some "up", some "down")] := by
    decide +kernel
  rw [hfills] at htokens
  have hmem : (some "up", some "down") ∈ fills.map fun p : ℕ × Fill =>
      (symbolOrMarketId p.2.entry, symbolOrMarketId p.2.exit) := by
    rw [Option.some.inj htokens]
    exact List.mem_cons_self
  obtain ⟨p, hp, heq⟩ := List.mem_map.mp hmem
  have htoken := hall p hp
  rw [(Prod.mk.inj heq).1, (Prod.mk.inj heq).2] at htoken
  exact absurd htoken (by decide)

end LeadLag.Sim
