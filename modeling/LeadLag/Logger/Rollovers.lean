import LeadLag.Logger.Main

/-!
# What the main thread of the logger attaches to

The feeds as the main thread sees them: the token and the labels of each, and the
rows it has written. Every market it attaches to is one that Gamma confirmed for the
slug of a bucket, and while the clock does not go back each bucket is later than the
one before.
-/

namespace LeadLag.Logger
open LeadLag.Core LeadLag.Execution LeadLag.Interaction
open LeadLag.Gamma (BtcFiveMinuteBucketDiscovery slugForBucket epochOf Confirms)
open LeadLag.Pipeline (bucketEpoch? possible Names)

/-! ### Markets and the rows between them -/

structure Attached where
  slug : String
  epoch : ℤ
  token : Outcome → String

def rolloverRow (a b : Attached) : MarketRollover :=
  { oldSlug := a.slug, newSlug := b.slug, oldUpTokenId := a.token .up
    newUpTokenId := b.token .up, oldDownTokenId := a.token .down, newDownTokenId := b.token .down }

/-- The rows of a logger that was attached to the markets one after another. -/
def rolloverRows (markets : List Attached) : List MarketRollover :=
  markets.zipWith rolloverRow markets.tail

theorem rolloverRows_concat {markets : List Attached} {a : Attached}
    (h : markets.getLast? = some a) (b : Attached) :
    rolloverRows (markets ++ [b]) = rolloverRows markets ++ [rolloverRow a b] := by
  induction markets with
  | nil => cases h
  | cons x rest ih =>
    cases rest with
    | nil =>
      cases h
      rfl
    | cons y rest =>
      rw [List.getLast?_cons_cons] at h
      have htail := ih h
      simp only [rolloverRows, List.cons_append, List.tail_cons, List.zipWith_cons_cons] at htail ⊢
      rw [htail]

/-- A five-minute bucket with the slug that names it. -/
structure Attached.Ok (a : Attached) : Prop where
  slug : a.slug = slugForBucket a.epoch
  nonneg : 0 ≤ a.epoch
  bucket : 300 ∣ a.epoch
  token : ∀ o, a.token o ≠ ""

/-! ### The desk -/

structure Desk where
  wallS : ℤ
  running : Outcome → Bool
  token : Outcome → String
  label : Outcome → String × ℤ
  markets : List Attached
  rows : List MarketRollover

def outcomeName : Outcome → String
  | .up => "Up"
  | .down => "Down"

namespace Desk

def shown (g : Desk) : Attached := ⟨(g.label .up).1, (g.label .up).2, g.token⟩

def after (g : Desk) : Obs Reply → Desk
  | ⟨.outside c, r⟩ => { g with wallS := wallAfter g.wallS ⟨.outside c, r⟩ }
  | ⟨.switchToken o m, r⟩ =>
    if r then { g with token := Function.update g.token o m.tokenId } else g
  | ⟨.setMarketContext o m, _⟩ =>
    { g with label := Function.update g.label o (m.eventSlug, m.bucketEpoch) }
  | ⟨.append r, _⟩ => { g with rows := g.rows ++ [r], markets := g.markets ++ [g.shown] }
  | ⟨.stop o, _⟩ =>
    { g with running := Function.update g.running o false, token := Function.update g.token o "" }
  | _ => g

end Desk

section Env

variable (fwd : Prop)

/-- The replies that the desk can give; `fwd` says that the clock does not go back. -/
def answers (g : Desk) : Obs Reply → Prop
  | ⟨.outside c, r⟩ =>
    possible ⟨c, r⟩ = true ∧ (fwd → g.wallS ≤ wallAfter g.wallS ⟨.outside c, r⟩)
  | ⟨.tokenId o, r⟩ => r = g.token o
  | ⟨.switchToken o m, r⟩ => g.running o = true → m.tokenId ≠ "" → r = true
  | _ => True

def deskEnv (g : Desk) (o : Obs Reply) (g' : Desk) : Prop := answers fwd g o ∧ g' = g.after o

structure DeskOk (g : Desk) : Prop where
  rows : g.rows = rolloverRows g.markets
  ok : ∀ a ∈ g.markets, a.Ok
  chain : fwd → g.markets.Pairwise fun a b => a.epoch + 300 ≤ b.epoch

/-- The label is that of a market in the rows. -/
def Desk.Listed (g : Desk) (slug : String) (epoch : ℤ) : Prop :=
  ∃ a ∈ g.markets, a.slug = slug ∧ a.epoch = epoch

def Guard (g : Desk) (c : Call) : Prop :=
  DeskOk fwd g ∧
    match c with
    | .switchToken o m => g.running o = true ∧ m.tokenId ≠ ""
    | .setMarketContext o m => g.Listed (g.label o).1 (g.label o).2 ∧
        m.eventSlug = slugForBucket m.bucketEpoch ∧ 0 ≤ m.bucketEpoch ∧
        m.outcome = outcomeName o
    | _ => True

structure NextOk (nextEpoch : ℤ) (n : Next) : Prop where
  slug : n.confirmedSlug = slugForBucket nextEpoch
  upToken : n.upToken ≠ ""
  downToken : n.downToken ≠ ""

/-- At the top of the loop both feeds show the last market. -/
structure LoopOk (g : Desk) (loop : Loop) : Prop where
  desk : DeskOk fwd g
  running : ∀ o, g.running o = true
  last : g.markets.getLast? = some ⟨loop.currentSlug, loop.activeEpoch, g.token⟩
  label : ∀ o, g.label o = (loop.currentSlug, loop.activeEpoch)
  next : ∀ n, loop.next = some n → NextOk loop.nextEpoch n

/-- What a pass of the loop ends in. -/
def PassOk (g : Desk) : Option Loop → Prop
  | some loop => LoopOk fwd g loop
  | none => DeskOk fwd g ∧ (∀ o, g.running o = false) ∧ ∀ o, g.Listed (g.label o).1 (g.label o).2

/-! ### Lookups -/

/-- Only the clock has moved. -/
def Desk.Later (g g' : Desk) : Prop :=
  g' = { g with wallS := g'.wallS } ∧ (fwd → g.wallS ≤ g'.wallS)

variable {fwd}

theorem later_refl (g : Desk) : g.Later fwd g := ⟨rfl, fun _ => le_rfl⟩

theorem Desk.Later.trans {g g' g'' : Desk} (h : g.Later fwd g') (h' : g'.Later fwd g'') :
    g.Later fwd g'' := by
  obtain ⟨heq, hle⟩ := h
  obtain ⟨heq', hle'⟩ := h'
  refine ⟨?_, fun hf => (hle hf).trans (hle' hf)⟩
  rw [heq', heq]

theorem DeskOk.later {g g' : Desk} (h : DeskOk fwd g) (hl : g.Later fwd g') : DeskOk fwd g' := by
  obtain ⟨heq, -⟩ := hl
  rw [heq]
  exact ⟨h.rows, h.ok, h.chain⟩

theorem LoopOk.later {g g' : Desk} {loop : Loop} (h : LoopOk fwd g loop) (hl : g.Later fwd g') :
    LoopOk fwd g' loop := by
  have hdesk := h.desk.later hl
  obtain ⟨heq, -⟩ := hl
  rw [heq] at hdesk ⊢
  exact ⟨hdesk, h.running, h.last, h.label, h.next⟩

def Call.isOutside : Call → Prop
  | .outside _ => True
  | _ => False

theorem lookup_ok {A : Type} {p : Gamma.Prog A} {P : A → Prop} {g : Desk}
    (h : Safe (fun o => possible o = true) (fun _ => True) P p) (hg : DeskOk fwd g) :
    SafeFrom (deskEnv fwd) (Guard fwd) (fun g' a => g.Later fwd g' ∧ P a) (lookup p) g := by
  have hsafe : Safe (fun o => outsidePossible o = true) Call.isOutside P (lookup p) :=
    h.embed (fun _ _ hr => hr) fun _ _ => trivial
  refine hsafe.safeFrom_le later_refl (fun _ _ _ => Desk.Later.trans) ?_ ?_
  · intro t o u haside henv
    obtain ⟨c, r⟩ := o
    cases c with
    | outside c =>
      obtain ⟨⟨hpossible, hclock⟩, rfl⟩ := henv
      exact ⟨⟨rfl, hclock⟩, hpossible⟩
    | _ => exact haside.elim
  · intro t c hle haside
    refine ⟨hg.later hle, ?_⟩
    cases c with
    | outside => trivial
    | _ => exact haside.elim

section Lookups

variable {parse : String → Option Json}

theorem exactSlug_safe (slug : String) : Safe (fun o => possible o = true) (fun _ => True)
    (fun r => r.1 = true → Confirms slug r.2)
    (Gamma.discoverBtcUpdown5mForExactSlug parse slug {}) :=
  Gamma.trySlug_confirms.safe

/-- A bucket that the scan accepts is one of the three it asked for, and open. -/
structure ScanOk (nowS : ℤ) (d : BtcFiveMinuteBucketDiscovery) : Prop where
  slug : d.confirmedSlug = slugForBucket d.bucketEpochSeconds
  nonneg : 0 ≤ d.bucketEpochSeconds
  bucket : 300 ∣ d.bucketEpochSeconds
  le : d.bucketEpochSeconds ≤ nowS
  lt : nowS < d.bucketEpochSeconds + 300

theorem probeOffsets_slug {nowS base : ℤ} {offsets : List ℤ} {out : BtcFiveMinuteBucketDiscovery} :
    Returns (Gamma.probeOffsets parse nowS base offsets out) fun r => r.1 = true →
      ∃ off, r.2.confirmedSlug = slugForBucket (base + off) := by
  refine (Gamma.probeOffsets_accepts fun _ _ => Gamma.trySlug_confirms).mono ?_
  intro r h hfound
  obtain ⟨off, -, d, epoch, hconfirms, -, -, heq⟩ := h hfound
  rw [heq]
  exact ⟨off, hconfirms.1⟩

theorem probeOffsets_scanOk {nowS : ℤ} (hnow : 0 ≤ nowS) {out : BtcFiveMinuteBucketDiscovery} :
    Returns (Gamma.probeOffsets parse nowS (nowS.tdiv 300 * 300) [0, 300, -300] out) fun r =>
      r.1 = true → ScanOk nowS r.2 := by
  intro tr r hx hfound
  obtain ⟨hnames, off, hoff, hepoch⟩ := Pipeline.probeOffsets_names tr r hx hfound
  obtain ⟨off', hslug⟩ := probeOffsets_slug tr r hx hfound
  obtain ⟨hle, hlt⟩ := Gamma.probeOffsets_found tr r hx hfound
  have hsame : r.2.confirmedSlug = slugForBucket r.2.bucketEpochSeconds := by
    have hparse := hnames
    rw [hslug, Names, Gamma.parse_slugForBucket] at hparse
    split at hparse
    · rw [hslug, Option.some.inj hparse]
    · cases hparse
  have hdvd : (300 : ℤ) ∣ off := by
    simp only [List.mem_cons, List.not_mem_nil, or_false] at hoff
    omega
  have hbucket : (300 : ℤ) ∣ r.2.bucketEpochSeconds := by
    rw [hepoch]
    exact dvd_add (Dvd.intro_left _ rfl) hdvd
  exact ⟨hsame, by omega, hbucket, hle, hlt⟩

end Lookups

/-! ### The programs -/

section Programs

variable {parse : String → Option Json} {g : Desk} {loop : Loop}

/-- The loop after a prefetch: only `next` and the time of the last one have changed. -/
structure Prefetched (loop l : Loop) : Prop where
  active : l.activeEpoch = loop.activeEpoch
  slug : l.currentSlug = loop.currentSlug
  next : ∀ n, l.next = some n → NextOk l.nextEpoch n

theorem LoopOk.prefetched {l : Loop} (h : LoopOk fwd g loop) (hl : Prefetched loop l) :
    LoopOk fwd g l := by
  refine ⟨h.desk, h.running, ?_, ?_, hl.next⟩
  · rw [hl.slug, hl.active]
    exact h.last
  · rw [hl.slug, hl.active]
    exact h.label

theorem prefetch_ok (h : LoopOk fwd g loop) (nowNs : ℤ) :
    SafeFrom (deskEnv fwd) (Guard fwd) (fun g' l => g.Later fwd g' ∧ Prefetched loop l)
      (prefetch parse nowNs loop) g := by
  unfold prefetch
  split
  · exact ⟨later_refl g, rfl, rfl, h.next⟩
  · refine safeFrom_bind.mpr ((lookup_ok (exactSlug_safe _) h.desk).mono ?_)
    intro g' r hr
    obtain ⟨found, nd⟩ := r
    obtain ⟨hlater, hconfirms⟩ := hr
    dsimp only at hconfirms ⊢
    split
    · exact ⟨hlater, rfl, rfl, h.next⟩
    · rename_i hkept
      simp only [Bool.or_eq_true, Bool.not_eq_true', decide_eq_true_eq, not_or,
        Bool.not_eq_false] at hkept
      obtain ⟨⟨hfound, hup⟩, hdown⟩ := hkept
      refine ⟨hlater, rfl, rfl, ?_⟩
      intro n hn
      cases hn
      exact ⟨(hconfirms hfound).1, hup, hdown⟩

/-- What the loop may roll over to. -/
structure TargetOk (fwd : Prop) (loop : Loop) (t : Target) : Prop where
  slug : t.slug = slugForBucket t.epoch
  bucket : 300 ∣ loop.activeEpoch → 300 ∣ t.epoch
  later : fwd → 300 ∣ loop.activeEpoch → loop.activeEpoch + 300 ≤ t.epoch

theorem exactEpoch_eq {nextEpoch : ℤ} {d : BtcFiveMinuteBucketDiscovery}
    (h : Confirms (slugForBucket nextEpoch) d) :
    (if 0 ≤ d.bucketEpochSeconds then d.bucketEpochSeconds else nextEpoch) = nextEpoch := by
  have hepoch := h.2
  rw [Gamma.parse_slugForBucket] at hepoch
  split at hepoch
  · rw [hepoch]
    exact ite_self nextEpoch
  · rw [hepoch]
    rfl

theorem nextEpoch_targetOk {t : Target} (hepoch : t.epoch = loop.nextEpoch)
    (hslug : t.slug = slugForBucket loop.nextEpoch) : TargetOk fwd loop t := by
  have hnext := loop.next_sub
  refine ⟨?_, ?_, ?_⟩
  · rw [hslug, hepoch]
  · intro hdvd
    omega
  · intro _ _
    omega

theorem scanned_targetOk {nowS : ℤ} {d : BtcFiveMinuteBucketDiscovery} (h : ScanOk nowS d)
    (hdue : fwd → loop.activeEpoch + 300 ≤ nowS) :
    TargetOk fwd loop { upToken := d.upTokenId, downToken := d.downTokenId
                        slug := d.confirmedSlug, epoch := epochOf (-1) d } := by
  have hepoch : epochOf (-1) d = d.bucketEpochSeconds := if_neg (not_lt.mpr h.nonneg)
  have hbucket := h.bucket
  have hlt := h.lt
  rw [hepoch]
  refine ⟨h.slug, fun _ => hbucket, ?_⟩
  intro hf hdvd
  have hle := hdue hf
  show loop.activeEpoch + 300 ≤ d.bucketEpochSeconds
  omega

theorem discoveredTarget_ok (h : LoopOk fwd g loop)
    (hdue : fwd → loop.activeEpoch + 300 ≤ g.wallS) :
    SafeFrom (deskEnv fwd) (Guard fwd)
      (fun g' r => g.Later fwd g' ∧ ∀ t, r = some t → TargetOk fwd loop t)
      (discoveredTarget parse loop.nextEpoch) g := by
  unfold discoveredTarget
  refine safeFrom_bind.mpr ((lookup_ok (exactSlug_safe _) h.desk).mono ?_)
  intro g₁ r hr
  obtain ⟨found, d⟩ := r
  obtain ⟨hlater, hconfirms⟩ := hr
  dsimp only at hconfirms ⊢
  split
  · rename_i hfound
    refine ⟨hlater, ?_⟩
    intro t ht
    cases ht
    exact nextEpoch_targetOk (exactEpoch_eq (hconfirms hfound)) (hconfirms hfound).1
  · -- the scan reads the clock once more, before it asks
    have hclock (nowS : ℤ) (g₂ : Desk)
        (henv : deskEnv fwd g₁ ⟨.outside .systemSeconds, nowS⟩ g₂) :
        0 ≤ nowS ∧ g.Later fwd g₂ ∧ (fwd → loop.activeEpoch + 300 ≤ nowS) := by
      obtain ⟨⟨hpossible, hforward⟩, rfl⟩ := henv
      have hnonneg := of_decide_eq_true ((Bool.and_eq_true _ _).mp hpossible).1
      refine ⟨hnonneg, hlater.trans ⟨rfl, hforward⟩, fun hf => ?_⟩
      have hle : g₁.wallS ≤ nowS := hforward hf
      have hdue := hdue hf
      have hwall := hlater.2 hf
      omega
    refine safeFrom_bind.mpr ⟨⟨h.desk.later hlater, trivial⟩, ?_⟩
    intro nowS g₂ henv
    obtain ⟨hnonneg, hlater₂, hdue₂⟩ := hclock nowS g₂ henv
    refine (lookup_ok (probeOffsets_scanOk hnonneg).safe (h.desk.later hlater₂)).mono ?_
    intro g₃ r hr
    obtain ⟨found, d2⟩ := r
    obtain ⟨hlater₃, hscan⟩ := hr
    dsimp only at hscan ⊢
    split
    · exact ⟨hlater₂.trans hlater₃, nofun⟩
    · rename_i hfound
      refine ⟨hlater₂.trans hlater₃, ?_⟩
      intro t ht
      cases ht
      exact scanned_targetOk (hscan (by simpa using hfound)) hdue₂

/-- The desk while the target is attached: its market is shown, the row not written. -/
def Desk.attaching (g : Desk) (t : Target) : Desk :=
  { g with
    token := fun | .up => t.upToken | .down => t.downToken
    label := fun _ => (t.slug, t.epoch) }

theorem LoopOk.listed (h : LoopOk fwd g loop) (o : Outcome) :
    g.Listed (g.label o).1 (g.label o).2 := by
  refine ⟨_, List.mem_of_getLast? h.last, ?_⟩
  rw [h.label o]
  exact ⟨rfl, rfl⟩

theorem LoopOk.bucket (h : LoopOk fwd g loop) : 300 ∣ loop.activeEpoch :=
  (h.desk.ok _ (List.mem_of_getLast? h.last)).bucket

/-- The row is that of the two markets, and both feeds show the new one. -/
theorem DeskOk.append (h : LoopOk fwd g loop) {t : Target} (ht : TargetOk fwd loop t)
    (hup : t.upToken ≠ "") (hdown : t.downToken ≠ "") (hnonneg : 0 ≤ t.epoch) :
    DeskOk fwd { g.attaching t with
      rows := g.rows ++ [⟨loop.currentSlug, t.slug, g.token .up, t.upToken, g.token .down,
        t.downToken⟩]
      markets := g.markets ++ [(g.attaching t).shown] } := by
  have hok : (g.attaching t).shown.Ok := by
    refine ⟨ht.slug, hnonneg, ht.bucket h.bucket, fun o => ?_⟩
    cases o with
    | up => exact hup
    | down => exact hdown
  have hmax (hf : fwd) : ∀ a ∈ g.markets, a.epoch ≤ loop.activeEpoch := by
    intro a ha
    obtain ⟨init, hinit⟩ := List.getLast?_eq_some_iff.mp h.last
    have hchain := h.desk.chain hf
    rw [hinit] at ha hchain
    rcases List.mem_append.mp ha with ha | ha
    · have hle := (List.pairwise_append.mp hchain).2.2 a ha _ List.mem_cons_self
      dsimp only at hle
      omega
    · rw [List.mem_singleton.mp ha]
  refine ⟨?_, ?_, ?_⟩
  · show g.rows ++ _ = rolloverRows (g.markets ++ [(g.attaching t).shown])
    rw [rolloverRows_concat h.last, h.desk.rows]
    rfl
  · intro a ha
    rcases List.mem_append.mp ha with ha | ha
    · exact h.desk.ok a ha
    · rw [List.mem_singleton.mp ha]
      exact hok
  · intro hf
    refine List.pairwise_append.mpr ⟨h.desk.chain hf, List.pairwise_singleton _ _, ?_⟩
    intro a ha b hb
    rw [List.mem_singleton.mp hb]
    have hle := hmax hf a ha
    have hlater := ht.later hf h.bucket
    show a.epoch + 300 ≤ t.epoch
    omega

theorem attach_ok (h : LoopOk fwd g loop) {t : Target} (ht : TargetOk fwd loop t) :
    SafeFrom (deskEnv fwd) (Guard fwd) (LoopOk fwd) (attach loop t) g := by
  unfold attach
  split
  · exact h
  rename_i hchecked
  simp only [not_or, not_lt] at hchecked
  obtain ⟨hup, hdown, hnonneg, -⟩ := hchecked
  have hdesk := h.desk
  -- the two reads of the tokens
  refine safeFrom_bind.mpr ⟨⟨hdesk, trivial⟩, ?_⟩
  intro oldUp g₁ henv
  obtain ⟨hold, hg⟩ := henv
  have hold : oldUp = g.token .up := hold
  have hg : g₁ = g := hg
  rw [hold, hg]
  refine safeFrom_bind.mpr ⟨⟨hdesk, trivial⟩, ?_⟩
  intro oldDown g₁ henv
  obtain ⟨hold, hg⟩ := henv
  have hold : oldDown = g.token .down := hold
  have hg : g₁ = g := hg
  rw [hold, hg]
  -- neither switch is refused
  refine safeFrom_bind.mpr ⟨⟨hdesk, h.running .up, hup⟩, ?_⟩
  intro switched g₁ henv
  obtain ⟨hswitched, rfl⟩ := henv
  have hswitched : switched = true := hswitched (h.running .up) hup
  subst hswitched
  refine safeFrom_bind.mpr ⟨⟨⟨hdesk.rows, hdesk.ok, hdesk.chain⟩, h.running .down, hdown⟩, ?_⟩
  intro switched g₁ henv
  obtain ⟨hswitched, rfl⟩ := henv
  have hswitched : switched = true := hswitched (h.running .down) hdown
  subst hswitched
  -- the labels
  refine safeFrom_bind.mpr ⟨⟨⟨hdesk.rows, hdesk.ok, hdesk.chain⟩, h.listed .up, ht.slug, hnonneg,
    rfl⟩, ?_⟩
  intro _ g₁ henv
  obtain ⟨-, rfl⟩ := henv
  refine safeFrom_bind.mpr ⟨⟨⟨hdesk.rows, hdesk.ok, hdesk.chain⟩, h.listed .down, ht.slug,
    hnonneg, rfl⟩, ?_⟩
  intro _ g₁ henv
  obtain ⟨-, rfl⟩ := henv
  -- the row
  refine safeFrom_bind.mpr ⟨⟨⟨hdesk.rows, hdesk.ok, hdesk.chain⟩, trivial⟩, ?_⟩
  intro _ g₁ henv
  obtain ⟨-, rfl⟩ := henv
  have htoken : Function.update (Function.update g.token .up t.upToken) .down t.downToken =
      (g.attaching t).token := by
    funext o
    cases o with
    | up => rfl
    | down => rfl
  have hlabel : Function.update (Function.update g.label .up (t.slug, t.epoch)) .down
      (t.slug, t.epoch) = (g.attaching t).label := by
    funext o
    cases o with
    | up => rfl
    | down => rfl
  have hafter := DeskOk.append h ht hup hdown hnonneg
  refine ⟨?_, h.running, ?_, ?_, nofun⟩
  · simp only [Desk.after, if_true, htoken, hlabel]
    exact hafter
  · simp only [Desk.after, if_true, htoken, hlabel]
    rw [List.getLast?_append]
    rfl
  · intro o
    cases o with
    | up => rfl
    | down => rfl

theorem rollover_ok (h : LoopOk fwd g loop) {wallNow : ℤ}
    (hdue : loop.activeEpoch + 300 ≤ wallNow) (hwall : fwd → wallNow ≤ g.wallS) :
    SafeFrom (deskEnv fwd) (Guard fwd) (LoopOk fwd) (rollover parse wallNow loop) g := by
  have hnext (n : Option Next) (hn : n = none ∨ n = loop.next) :
      LoopOk fwd g { loop with next := n } := by
    refine ⟨h.desk, h.running, h.last, h.label, ?_⟩
    rcases hn with rfl | rfl
    · exact nofun
    · exact h.next
  have hloop := hnext (if loop.nextEpoch + 300 ≤ wallNow then none else loop.next) (by
    split
    · exact .inl rfl
    · exact .inr rfl)
  unfold rollover
  dsimp only
  generalize (if loop.nextEpoch + 300 ≤ wallNow then none else loop.next) = next at hloop ⊢
  cases next with
  | some n =>
    have hn : NextOk loop.nextEpoch n := hloop.next n rfl
    refine attach_ok hloop (nextEpoch_targetOk rfl ?_)
    rw [hn.slug, ite_self]
  | none =>
    have hdue' (hf : fwd) : loop.activeEpoch + 300 ≤ g.wallS := hdue.trans (hwall hf)
    refine safeFrom_bind.mpr ((discoveredTarget_ok hloop hdue').mono ?_)
    intro g' r hr
    obtain ⟨hlater, htarget⟩ := hr
    cases r with
    | none => exact hloop.later hlater
    | some t => exact attach_ok (hloop.later hlater) (htarget t rfl)

theorem iteration_ok (h : LoopOk fwd g loop) :
    SafeFrom (deskEnv fwd) (Guard fwd) (PassOk fwd) (iteration parse loop) g := by
  unfold iteration
  refine safeFrom_bind.mpr ⟨⟨h.desk, trivial⟩, ?_⟩
  intro stop g₁ henv
  have hg : g₁ = g := henv.2
  rw [hg]
  cases stop with
  | true =>
    have hdesk := h.desk
    refine safeFrom_bind.mpr ⟨⟨hdesk, trivial⟩, ?_⟩
    intro _ g₁ henv
    obtain ⟨-, rfl⟩ := henv
    refine safeFrom_bind.mpr ⟨⟨⟨hdesk.rows, hdesk.ok, hdesk.chain⟩, trivial⟩, ?_⟩
    intro _ g₁ henv
    obtain ⟨-, rfl⟩ := henv
    refine ⟨⟨hdesk.rows, hdesk.ok, hdesk.chain⟩, ?_, h.listed⟩
    intro o
    cases o with
    | up => rfl
    | down => rfl
  | false =>
    refine safeFrom_bind.mpr ⟨⟨h.desk, trivial⟩, ?_⟩
    intro nowNs g₁ henv
    have hg : g₁ = g := henv.2
    rw [hg]
    refine safeFrom_bind.mpr ⟨⟨h.desk, trivial⟩, ?_⟩
    intro wallNow g₁ henv
    obtain ⟨⟨-, hforward⟩, rfl⟩ := henv
    have hread : LoopOk fwd { g with wallS := wallNow } loop := h.later ⟨rfl, hforward⟩
    refine safeFrom_bind.mpr ((prefetch_ok hread nowNs).mono ?_)
    intro g₂ l hl
    obtain ⟨hlater, hprefetched⟩ := hl
    have hl : LoopOk fwd g₂ l := (hread.later hlater).prefetched hprefetched
    split
    · rename_i hdue
      exact safeFrom_bind.mpr (rollover_ok hl hdue hlater.2)
    · exact hl

end Programs

/-! ### The start -/

theorem startup_ok {parse : String → Option Json} {tr : Gamma.Trace}
    {d : BtcFiveMinuteBucketDiscovery} {activeEpoch : ℤ}
    (hx : Exec (startup parse) tr (some (d, activeEpoch))) (hp : ∀ o ∈ tr, possible o = true) :
    d.confirmedSlug = slugForBucket activeEpoch ∧ 0 ≤ activeEpoch ∧ 300 ∣ activeEpoch ∧
      d.upTokenId ≠ "" ∧ d.downTokenId ≠ "" := by
  have hsafe : Safe (fun o => possible o = true) (fun _ => True)
      (fun r => ∀ d e, r = some (d, e) → d.confirmedSlug = slugForBucket e ∧ 0 ≤ e ∧ 300 ∣ e ∧
        d.upTokenId ≠ "" ∧ d.downTokenId ≠ "") (startup parse) := by
    unfold startup
    refine safe_bind.mpr (safe_bind.mpr ⟨trivial, fun nowS hpossible => ?_⟩)
    have hnonneg := of_decide_eq_true ((Bool.and_eq_true _ _).mp hpossible).1
    refine safe_pure.mpr ((probeOffsets_scanOk hnonneg).safe.mono ?_)
    intro r hscan
    obtain ⟨found, d⟩ := r
    dsimp only at hscan ⊢
    split
    · exact nofun
    · rename_i hkept
      simp only [Bool.or_eq_true, Bool.not_eq_true', decide_eq_true_eq, not_or,
        Bool.not_eq_false] at hkept
      obtain ⟨⟨hfound, hup⟩, hdown⟩ := hkept
      have hok := hscan hfound
      intro d' e hd
      obtain ⟨e', he, heq⟩ := Option.map_eq_some_iff.mp hd
      rw [bucketEpoch?, if_neg (not_lt.mpr hok.nonneg)] at he
      cases he
      cases heq
      exact ⟨hok.slug, hok.nonneg, hok.bucket, hup, hdown⟩
  exact (hsafe.ensures tr _ hx hp).2 d activeEpoch rfl

end Env

end LeadLag.Logger
