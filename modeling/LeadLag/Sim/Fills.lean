import LeadLag.Sim.LatencySweep

/-!
# The fills of a row (latency_backtest.cpp:44-91)

A row is the number of signals, the number of the fills counted for it and the
sum of their adjusted price changes. A later target time finds nothing that an
earlier one does not find: a signal filled at one latency is filled at every
smaller one.
-/

namespace LeadLag.Sim
open LeadLag.Core

/-- The fills of a row, each with the index of its signal. -/
def fillsFrom (timeline : List LogEvent) (cfg : SimConfig) (latency : ℤ) :
    ℕ → List Signal → Option (List (ℕ × Fill))
  | _, [] => some []
  | si, s :: rest =>
    (trySignal timeline cfg latency si s).bind fun o =>
    (fillsFrom timeline cfg latency (si + 1) rest).map fun fills =>
      (o.map fun f => (si, f)).toList ++ fills

def fillsAt (timeline : List LogEvent) (cfg : SimConfig) (latency : ℤ) (signals : List Signal) :
    Option (List (ℕ × Fill)) :=
  fillsFrom timeline cfg latency 0 signals

def addFills (cfg : SimConfig) (row : SimResultRow) (attempts : ℕ) (fills : List (ℕ × Fill)) :
    SimResultRow :=
  { row with
    attempts := row.attempts + attempts
    fills := row.fills + fills.length
    pnlProbabilityPoints :=
      row.pnlProbabilityPoints + (fills.map fun p => adjusted cfg p.2).sum }

variable {timeline : List LogEvent} {cfg : SimConfig} {latency : ℤ}

/-- The loop counts a row's fills, one round a signal. -/
theorem sweepSignals_eq (signals : List Signal) (si : ℕ) (row : SimResultRow) :
    sweepSignals timeline cfg latency si row signals =
      (fillsFrom timeline cfg latency si signals).map (addFills cfg row signals.length) := by
  induction signals generalizing si row with
  | nil => simp [sweepSignals, fillsFrom, addFills]
  | cons s rest ih =>
    simp only [sweepSignals, fillsFrom, Option.map_bind]
    congr 1
    funext o
    rw [Function.comp_apply, Option.map_map]
    cases o with
    | none =>
      show sweepSignals timeline cfg latency (si + 1) _ rest = _
      rw [ih]
      congr 1
      funext fills
      simp [addFills, Nat.add_comm, Nat.add_left_comm]
    | some f =>
      show sweepSignals timeline cfg latency (si + 1) _ rest = _
      rw [ih]
      congr 1
      funext fills
      simp [addFills, Nat.add_comm, add_assoc]

/-! ### One signal -/

variable {si : ℕ} {s : Signal}

theorem int64_eq_some {e v : ℤ} (h : int64 e = some v) : v = e := by
  unfold int64 at h
  split at h
  · exact (Option.some.inj h).symm
  · cases h

/-- A counted fill is of a signal that is not missed, from its two earliest quotes. -/
theorem trySignal_fill (hm : TimeSorted timeline) {f : Fill}
    (h : trySignal timeline cfg latency si s = some (some f)) :
    deterministicMiss si cfg.missedFillProbability = false ∧
      EarliestQuote timeline (s.atMonoNs + latency * 1000000) f.entry ∧
      EarliestQuote timeline (f.entry.sortKeyNs + cfg.exitHorizonMs * 1000000) f.exit := by
  unfold trySignal at h
  split at h
  · cases h
  · rename_i hmiss
    obtain ⟨entryNs, hentry, h⟩ := Option.bind_eq_some_iff.mp h
    obtain rfl := int64_eq_some hentry
    obtain ⟨o0, hfirst, h⟩ := Option.bind_eq_some_iff.mp h
    cases o0 with
    | none => cases h
    | some e0 =>
      obtain ⟨exitNs, hexit, h⟩ := Option.bind_eq_some_iff.mp h
      obtain rfl := int64_eq_some hexit
      obtain ⟨o1, hsecond, h⟩ := Option.bind_eq_some_iff.mp h
      cases o1 with
      | none => cases h
      | some e1 =>
        obtain ⟨m0, -, h⟩ := Option.bind_eq_some_iff.mp h
        obtain ⟨m1, -, h⟩ := Option.map_eq_some_iff.mp h
        cases h
        exact ⟨by simpa using hmiss, firstPoly_scanned hm hfirst, firstPoly_scanned hm hsecond⟩

/-- A signal that is not missed is filled as soon as there is a quote late enough
for both searches, unless the call does not return. -/
theorem trySignal_filled (hm : TimeSorted timeline) {o : Option Fill} {e0 e1 : LogEvent}
    (hmiss : deterministicMiss si cfg.missedFillProbability = false)
    (h : trySignal timeline cfg latency si s = some o) (h0 : e0 ∈ timeline)
    (hfrom0 : QuoteFrom (s.atMonoNs + latency * 1000000) e0) (h1 : e1 ∈ timeline)
    (hfrom1 : QuoteFrom (e0.sortKeyNs + cfg.exitHorizonMs * 1000000) e1) : ∃ f, o = some f := by
  unfold trySignal at h
  rw [if_neg (by simp [hmiss])] at h
  obtain ⟨entryNs, hentry, h⟩ := Option.bind_eq_some_iff.mp h
  obtain rfl := int64_eq_some hentry
  obtain ⟨o0, hfirst, h⟩ := Option.bind_eq_some_iff.mp h
  obtain ⟨a0, rfl, hle0⟩ := (firstPoly_scanned hm hfirst).exists_le h0 hfrom0
  obtain ⟨exitNs, hexit, h⟩ := Option.bind_eq_some_iff.mp h
  obtain rfl := int64_eq_some hexit
  obtain ⟨o1, hsecond, h⟩ := Option.bind_eq_some_iff.mp h
  have hfrom : QuoteFrom (a0.sortKeyNs + cfg.exitHorizonMs * 1000000) e1 := by
    have hge := hfrom1.2
    exact ⟨hfrom1.1, by omega⟩
  obtain ⟨a1, rfl, -⟩ := (firstPoly_scanned hm hsecond).exists_le h1 hfrom
  obtain ⟨m0, -, h⟩ := Option.bind_eq_some_iff.mp h
  obtain ⟨m1, -, h⟩ := Option.map_eq_some_iff.mp h
  exact ⟨_, h.symm⟩

theorem trySignal_mono (hm : TimeSorted timeline) {latency' : ℤ} (hle : latency ≤ latency')
    {o : Option Fill} {f' : Fill} (h : trySignal timeline cfg latency si s = some o)
    (h' : trySignal timeline cfg latency' si s = some (some f')) : ∃ f, o = some f := by
  obtain ⟨hmiss, hentry, hexit⟩ := trySignal_fill hm h'
  have hfrom : QuoteFrom (s.atMonoNs + latency * 1000000) f'.entry := by
    have hge := hentry.holds.2
    exact ⟨hentry.holds.1, by omega⟩
  exact trySignal_filled hm hmiss h hentry.mem hfrom hexit.mem hexit.holds

/-! ### All signals -/

theorem mem_fillsFrom {signals : List Signal} {fills : List (ℕ × Fill)}
    (h : fillsFrom timeline cfg latency si signals = some fills) (j : ℕ) (f : Fill) :
    (j, f) ∈ fills ↔ ∃ k s, j = si + k ∧ signals[k]? = some s ∧
      trySignal timeline cfg latency j s = some (some f) := by
  induction signals generalizing si fills with
  | nil =>
    cases h
    simp
  | cons s rest ih =>
    obtain ⟨o, ho, h⟩ := Option.bind_eq_some_iff.mp h
    obtain ⟨fills', hrest, rfl⟩ := Option.map_eq_some_iff.mp h
    have hhead : (j, f) ∈ (o.map fun f => (si, f)).toList ↔ j = si ∧ o = some f := by
      rw [Option.mem_toList, Option.map_eq_some_iff]
      constructor
      · rintro ⟨f', hf', heq⟩
        cases heq
        exact ⟨rfl, hf'⟩
      · rintro ⟨rfl, hf⟩
        exact ⟨f, hf, rfl⟩
    rw [List.mem_append, hhead, ih hrest]
    constructor
    · rintro (⟨rfl, rfl⟩ | ⟨k, s', rfl, hget, htry⟩)
      · exact ⟨0, s, rfl, rfl, ho⟩
      · refine ⟨k + 1, s', by omega, ?_, htry⟩
        rw [List.getElem?_cons_succ]
        exact hget
    · rintro ⟨k, s', rfl, hget, htry⟩
      cases k with
      | zero =>
        cases hget
        refine .inl ⟨rfl, ?_⟩
        rw [Nat.add_zero, ho] at htry
        exact Option.some.inj htry
      | succ k =>
        rw [List.getElem?_cons_succ] at hget
        exact .inr ⟨k, s', by omega, hget, htry⟩

/-- No round of a row that is returned was cut off. -/
theorem exists_trySignal {signals : List Signal} {fills : List (ℕ × Fill)}
    (h : fillsFrom timeline cfg latency si signals = some fills) {k : ℕ}
    (hk : signals[k]? = some s) :
    ∃ o, trySignal timeline cfg latency (si + k) s = some o := by
  induction signals generalizing si fills k with
  | nil => cases hk
  | cons s' rest ih =>
    obtain ⟨o, ho, h⟩ := Option.bind_eq_some_iff.mp h
    obtain ⟨fills', hrest, -⟩ := Option.map_eq_some_iff.mp h
    cases k with
    | zero =>
      cases hk
      exact ⟨o, ho⟩
    | succ k =>
      rw [List.getElem?_cons_succ] at hk
      have htail := ih hrest hk
      rw [show si + (k + 1) = si + 1 + k by omega]
      exact htail

/-- The signals filled at a latency are, in order, among those filled at a smaller one. -/
theorem fillsFrom_mono (hm : TimeSorted timeline) {latency' : ℤ} (hle : latency ≤ latency')
    {signals : List Signal} {fills fills' : List (ℕ × Fill)}
    (h : fillsFrom timeline cfg latency si signals = some fills)
    (h' : fillsFrom timeline cfg latency' si signals = some fills') :
    (fills'.map Prod.fst).Sublist (fills.map Prod.fst) := by
  induction signals generalizing si fills fills' with
  | nil =>
    cases h
    cases h'
    exact List.Sublist.refl _
  | cons s rest ih =>
    obtain ⟨o, ho, h⟩ := Option.bind_eq_some_iff.mp h
    obtain ⟨rest1, hrest, rfl⟩ := Option.map_eq_some_iff.mp h
    obtain ⟨o', ho', h'⟩ := Option.bind_eq_some_iff.mp h'
    obtain ⟨rest2, hrest', rfl⟩ := Option.map_eq_some_iff.mp h'
    have htail := ih hrest hrest'
    cases o' with
    | none =>
      have hsub : (rest1.map Prod.fst).Sublist
          (((o.map fun f => (si, f)).toList ++ rest1).map Prod.fst) :=
        (List.sublist_append_right _ rest1).map Prod.fst
      exact htail.trans hsub
    | some f' =>
      obtain ⟨f, rfl⟩ := trySignal_mono hm hle ho ho'
      exact htail.cons_cons si

/-! ### The rows -/

theorem exists_of_mem_mapM {A B : Type*} {f : A → Option B} {as : List A} {bs : List B}
    (h : as.mapM f = some bs) {b : B} (hb : b ∈ bs) : ∃ a ∈ as, f a = some b := by
  induction as generalizing bs with
  | nil =>
    cases h
    exact absurd hb List.not_mem_nil
  | cons a as ih =>
    rw [List.mapM_cons] at h
    obtain ⟨b', hb', h⟩ := Option.bind_eq_some_iff.mp h
    obtain ⟨bs', hbs, h⟩ := Option.bind_eq_some_iff.mp h
    cases h
    rcases List.mem_cons.mp hb with heq | hmem
    · exact ⟨a, List.mem_cons_self, by rw [heq, hb']⟩
    · obtain ⟨a', ha', hf⟩ := ih hbs hmem
      exact ⟨a', List.mem_cons_of_mem a ha', hf⟩

/-- What brings a result back to its argument brings the list back. -/
theorem map_of_mapM {A B : Type*} {f : A → Option B} {g : B → A}
    (hg : ∀ a b, f a = some b → g b = a) {as : List A} {bs : List B}
    (h : as.mapM f = some bs) : bs.map g = as := by
  induction as generalizing bs with
  | nil =>
    cases h
    rfl
  | cons a as ih =>
    rw [List.mapM_cons] at h
    obtain ⟨b, hb, h⟩ := Option.bind_eq_some_iff.mp h
    obtain ⟨bs', hbs, h⟩ := Option.bind_eq_some_iff.mp h
    cases h
    rw [List.map_cons, hg a b hb, ih hbs]

theorem runLatencySweep_latencies {signals : List Signal} {rows : List SimResultRow}
    (h : runLatencySweep signals timeline cfg = some rows) :
    rows.map SimResultRow.latencyMs = cfg.latenciesMs := by
  refine map_of_mapM ?_ h
  intro latency row hrow
  rw [sweepSignals_eq] at hrow
  obtain ⟨fills, -, rfl⟩ := Option.map_eq_some_iff.mp hrow
  rfl

theorem mem_runLatencySweep {signals : List Signal} {rows : List SimResultRow}
    (h : runLatencySweep signals timeline cfg = some rows) {row : SimResultRow}
    (hrow : row ∈ rows) :
    ∃ fills, fillsAt timeline cfg row.latencyMs signals = some fills ∧
      row = addFills cfg { latencyMs := row.latencyMs } signals.length fills := by
  obtain ⟨latency, -, hsweep⟩ := exists_of_mem_mapM h hrow
  rw [sweepSignals_eq] at hsweep
  obtain ⟨fills, hfills, rfl⟩ := Option.map_eq_some_iff.mp hsweep
  exact ⟨fills, hfills, rfl⟩

end LeadLag.Sim
