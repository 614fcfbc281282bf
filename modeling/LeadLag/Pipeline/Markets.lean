import LeadLag.Pipeline.System

/-!
# What the main thread installs

A market goes to the feeds and to `hot` with the epoch that its slug names, with
a strike of the same slug, and after every earlier market.
-/

namespace LeadLag.Pipeline
open LeadLag.Core LeadLag.Execution LeadLag.Interaction
open LeadLag.Gamma (BtcFiveMinuteBucketDiscovery slugForBucket parseBucketEpochFromSlug
  parseEpochFromConfirmedSlug parseEpoch_eq epochOf Confirms)

/-! ### Slugs -/

def Names (slug : String) (epoch : ℤ) : Prop := parseBucketEpochFromSlug slug = some epoch

theorem Names.unique {slug : String} {e e' : ℤ} (h : Names slug e) (h' : Names slug e') :
    e = e' := Option.some.inj (h.symm.trans h')

theorem slugForBucket_names {e : ℤ} (h : fitsInt64 e = true) : Names (slugForBucket e) e := by
  rw [Names, Gamma.parse_slugForBucket, if_pos h]

/-! ### Lookups -/

section Lookups

variable {parse : String → Option Json}

theorem bucketEpoch_names {slug : String} {d : BtcFiveMinuteBucketDiscovery} {e : ℤ}
    (h : Confirms slug d) (he : bucketEpoch? d = some e) : Names d.confirmedSlug e := by
  obtain ⟨hslug, hbucket⟩ := h
  unfold bucketEpoch? at he
  split at he
  · rw [parseEpoch_eq] at he
    exact he
  · rename_i hnonneg
    cases hparse : parseBucketEpochFromSlug slug with
    | none =>
      rw [hparse] at hbucket
      exact absurd (by rw [hbucket]; decide) hnonneg
    | some e' =>
      rw [hparse] at hbucket
      rw [Names, hslug, hparse, ← he, hbucket]
      rfl

theorem bucketEpoch_eq {d : BtcFiveMinuteBucketDiscovery} (h : 0 ≤ epochOf (-1) d) :
    bucketEpoch? d = some (epochOf (-1) d) := by
  unfold epochOf at h ⊢
  unfold bucketEpoch?
  split
  · rename_i hneg
    rw [if_pos hneg] at h
    cases hparse : parseEpochFromConfirmedSlug d.confirmedSlug with
    | none =>
      rw [hparse] at h
      exact absurd h (by decide)
    | some e => rfl
  · rfl

theorem probeOffsets_names {nowS base : ℤ} {offsets : List ℤ}
    {out : BtcFiveMinuteBucketDiscovery} :
    Returns (Gamma.probeOffsets parse nowS base offsets out) fun r => r.1 = true →
      Names r.2.confirmedSlug r.2.bucketEpochSeconds ∧
        ∃ off ∈ offsets, r.2.bucketEpochSeconds = base + off := by
  refine (Gamma.probeOffsets_accepts fun _ _ => Gamma.trySlug_confirms).mono ?_
  intro r h hfound
  obtain ⟨off, hoff, d, epoch, hconfirms, hepoch, -, heq⟩ := h hfound
  have hbucket : bucketEpoch? d = some epoch := by
    unfold bucketEpoch?
    rw [parseEpoch_eq]
    exact hepoch
  have hnames : Names d.confirmedSlug epoch := bucketEpoch_names hconfirms hbucket
  rw [heq]
  refine ⟨hnames, off, hoff, ?_⟩
  rw [Names, hconfirms.1, Gamma.parse_slugForBucket] at hnames
  split at hnames
  · exact (Option.some.inj hnames).symm
  · cases hnames

theorem findNext_names (parse : String → Option Json) {nextEpoch : ℤ} (hnext : 0 ≤ nextEpoch) :
    Returns (Gamma.findNext parse nextEpoch) fun r => ∀ how d, r = some (how, d) →
      nextEpoch ≤ epochOf (-1) d ∧ Names d.confirmedSlug (epochOf (-1) d) := by
  refine Gamma.findNext_accepts (fun out => ?_) fun nowS base offsets out => ?_
  · refine Gamma.trySlug_confirms.mono ?_
    intro r hconfirms hfound hep
    have hepoch := bucketEpoch_eq (hnext.trans hep)
    exact ⟨hep, bucketEpoch_names (hconfirms hfound) hepoch⟩
  · refine probeOffsets_names.mono ?_
    intro r hnames hfound hep
    have hepoch : epochOf (-1) r.2 = r.2.bucketEpochSeconds := if_neg (by omega)
    rw [hepoch]
    exact ⟨hep, (hnames hfound).1⟩

end Lookups

/-! ### Calls that touch neither feeds nor `hot` -/

def Call.aside : Call → Prop
  | .switchToken .. | .setMarketContext .. | .install .. => False
  | .steadyMs | .outside _ | .waitStrike .. => True

def Aside {A : Type} (P : A → Prop) (p : Prog A) : Prop :=
  Safe (fun o => outsidePossible o = true) Call.aside P p

section Aside

variable {A B : Type} {d : BtcFiveMinuteBucketDiscovery}

theorem Aside.bind {P : A → Prop} {Q : B → Prop} {p : Prog A} {f : A → Prog B} (hp : Aside P p)
    (hf : ∀ a, P a → Aside Q (f a)) : Aside Q (p >>= f) :=
  safe_bind.mpr (Safe.mono hp hf)

def Call.isOutside : Call → Prop
  | .outside _ => True
  | _ => False

theorem safe_lookup {P : A → Prop} {p : Gamma.Prog A}
    (h : Safe (fun o => possible o = true) (fun _ => True) P p) :
    Safe (fun o => outsidePossible o = true) Call.isOutside P (lookup p) := by
  induction p with
  | done a => exact h
  | call c k ih => exact ⟨trivial, fun r hr => ih r (h.2 r hr)⟩

theorem aside_lookup {P : A → Prop} {p : Gamma.Prog A}
    (h : Safe (fun o => possible o = true) (fun _ => True) P p) : Aside P (lookup p) := by
  refine (safe_lookup h).weaken (fun _ ho => ho) fun c hc => ?_
  cases c with
  | outside c => trivial
  | _ => exact hc.elim

theorem aside_fillStrike :
    Aside d.SameMarket (fillStrikeFromPolymarketRtdsChainlink d) := by
  unfold fillStrikeFromPolymarketRtdsChainlink
  split
  · exact ⟨rfl, rfl, rfl, rfl⟩
  split
  · exact ⟨rfl, rfl, rfl, rfl⟩
  refine safe_bind.mpr ⟨trivial, fun t _ => ?_⟩
  cases t with
  | none => exact ⟨rfl, rfl, rfl, rfl⟩
  | some t => exact ⟨rfl, rfl, rfl, rfl⟩

theorem aside_livePipeMaybeRtdsStrike : Aside d.SameMarket (livePipeMaybeRtdsStrike d) := by
  unfold livePipeMaybeRtdsStrike
  split
  · exact ⟨rfl, rfl, rfl, rfl⟩
  · exact aside_fillStrike

theorem aside_livePipeMaybeWebThenRtdsStrike {web : Bool} :
    Aside d.SameMarket (livePipeMaybeWebThenRtdsStrike web d) := by
  unfold livePipeMaybeWebThenRtdsStrike
  split
  · exact ⟨rfl, rfl, rfl, rfl⟩
  split
  · refine safe_bind.mpr ⟨trivial, fun ptb _ => ?_⟩
    cases ptb with
    | none => exact aside_livePipeMaybeRtdsStrike
    | some ptb => exact ⟨rfl, rfl, rfl, rfl⟩
  · exact aside_livePipeMaybeRtdsStrike

theorem strikeOf_slug {k : Strike} (h : strikeOf d = some k) : k.slug = d.confirmedSlug := by
  unfold strikeOf at h
  split at h
  · cases h
    rfl
  · cases h

end Aside

/-! ### Start -/

section Start

variable {cfg : Config}

theorem aside_exactSlug (slug : String) :
    Aside (fun r => r.1 = true → Confirms slug r.2) (cfg.discoverBtcUpdown5mForExactSlug slug) :=
  aside_lookup Gamma.trySlug_confirms.safe

theorem aside_systemSeconds :
    Aside (fun s => 0 ≤ s ∧ fitsInt64 s = true) (lookup Gamma.systemSeconds) := by
  refine aside_lookup ⟨trivial, fun s hs => ?_⟩
  obtain ⟨hnonneg, hfits⟩ := (Bool.and_eq_true _ _).mp hs
  exact ⟨of_decide_eq_true hnonneg, hfits⟩

/-- A bucket that is open at a clock reading is not negative: it is a multiple of
five minutes and less than five minutes back. -/
theorem aside_scan {out : BtcFiveMinuteBucketDiscovery} :
    Aside (fun r => r.1 = true →
        Names r.2.confirmedSlug r.2.bucketEpochSeconds ∧ 0 ≤ r.2.bucketEpochSeconds)
      (lookup (Gamma.discoverActiveBtcUpdown5mViaBucket cfg.parse out)) := by
  refine aside_lookup (safe_bind.mpr ⟨trivial, fun nowS hs => ?_⟩)
  obtain ⟨hnonneg, -⟩ := (Bool.and_eq_true _ _).mp hs
  have hnonneg : (0 : ℤ) ≤ nowS := of_decide_eq_true hnonneg
  refine (probeOffsets_names.safe.and_returns Gamma.probeOffsets_found).mono ?_
  rintro r ⟨hnames, hwindow⟩ hfound
  obtain ⟨hnames, off, hoff, heq⟩ := hnames hfound
  refine ⟨hnames, ?_⟩
  have hopen := (hwindow hfound).2
  rw [Int.tdiv_eq_ediv_of_nonneg hnonneg] at heq
  simp only [List.mem_cons, List.not_mem_nil, or_false] at hoff
  rcases hoff with rfl | rfl | rfl <;> omega

def StartOk (cfg : Config) (d : BtcFiveMinuteBucketDiscovery) : Prop :=
  ∀ e, bucketEpoch? d = some e → Names d.confirmedSlug e ∧ (cfg.polyDiscover = true → 0 ≤ e)

theorem aside_initialDiscovery :
    Aside (fun r => ∀ d, r = some d → StartOk cfg d) (initialDiscovery cfg) := by
  unfold initialDiscovery
  split
  · refine aside_systemSeconds.bind fun wallNowS _ => ?_
    refine (aside_exactSlug _).bind ?_
    rintro ⟨found, d⟩ hconfirms
    dsimp only
    split
    · rename_i haccept
      obtain ⟨hfound, hopen⟩ := (Bool.and_eq_true _ _).mp haccept
      have hep : 0 ≤ epochOf (-1) d := (of_decide_eq_true hopen).1
      rintro _ ⟨⟩ e he
      have heq := bucketEpoch_eq hep
      rw [he] at heq
      cases heq
      exact ⟨bucketEpoch_names (hconfirms hfound) he, fun _ => hep⟩
    · refine aside_scan.bind ?_
      rintro ⟨found, d⟩ hscan _ hd e he
      dsimp only at hd
      split at hd
      · rename_i hfound
        cases hd
        obtain ⟨hnames, hnonneg⟩ := hscan hfound
        rw [bucketEpoch?, if_neg (not_lt.mpr hnonneg)] at he
        cases he
        exact ⟨hnames, fun _ => hnonneg⟩
      · cases hd
  · rename_i hmanual
    refine (aside_exactSlug _).bind ?_
    rintro ⟨found, d⟩ hconfirms _ hd e he
    split at hd
    · rename_i haccept
      cases hd
      have hfound : found = true := ((Bool.and_eq_true _ _).mp haccept).1
      refine ⟨bucketEpoch_names (hconfirms hfound) he, ?_⟩
      simp [Config.polyDiscover, hmanual]
    · cases hd

theorem aside_startup :
    Aside (fun r => ∀ d e, r = some (d, e) →
      Names d.confirmedSlug e ∧ (cfg.polyDiscover = true → 0 ≤ e)) (startup cfg) := by
  unfold startup
  refine aside_initialDiscovery.bind fun r hr => ?_
  cases r with
  | none => exact nofun
  | some d =>
    dsimp only
    split
    · exact nofun
    · split
      · rename_i activeEpoch hepoch
        refine aside_livePipeMaybeWebThenRtdsStrike.bind fun d' hsame => ?_
        rintro _ _ ⟨⟩
        rw [hsame.1]
        exact hr d rfl _ hepoch
      · exact nofun

end Start

end LeadLag.Pipeline
