import LeadLag.Pipeline.Markets
import LeadLag.TokenFeed.Labels

/-!
# The market of the hot state (live_pipeline.cpp:553-626, 758-790)

A quote carries the labels its feed had when it was copied, and its callback
writes them over those of `hot`. The rollover labels both feeds before it
installs the market in `hot`, so a quote copied before may be stored after and
a quote copied after the labels may be stored before the install.
-/

namespace LeadLag.Pipeline
open LeadLag.Core LeadLag.Execution LeadLag.Interaction
open LeadLag.Gamma (BtcFiveMinuteBucketDiscovery slugForBucket epochOf)
open LeadLag.Runner (Libm coarse)

/-! ### One iteration goes forward -/

/-- The epoch of the last market that the main thread has set anywhere. -/
def targetAfter (g : ℤ) : Obs Reply → ℤ
  | ⟨.setMarketContext _ m, _⟩ => m.bucketEpoch
  | ⟨.install _ epoch _, _⟩ => epoch
  | _ => g

def targetEnv (g : ℤ) (o : Obs Reply) (g' : ℤ) : Prop :=
  outsidePossible o = true ∧ g' = targetAfter g o

structure Later (g : ℤ) (slug : String) (epoch : ℤ) : Prop where
  le : g ≤ epoch
  nonneg : 0 ≤ epoch
  names : Names slug epoch

def Forward (cfg : Config) (g : ℤ) : Call → Prop
  | .setMarketContext _ m => cfg.polyDiscover = true ∧ Later g m.eventSlug m.bucketEpoch
  | .install slug epoch K =>
    cfg.polyDiscover = true ∧ Later g slug epoch ∧ ∀ k, K = some k → k.slug = slug
  | _ => True

structure NextOk (nextEpoch : ℤ) (n : Next) : Prop where
  slug : n.confirmedSlug = slugForBucket nextEpoch
  strike : ∀ k, n.strike = some k → k.slug = n.confirmedSlug

structure LoopOk (cfg : Config) (g : ℤ) (loop : Loop) : Prop where
  active : loop.activeEpoch = g
  nonneg : cfg.polyDiscover = true → 0 ≤ g
  next : ∀ n, loop.next = some n → NextOk loop.nextEpoch n

structure TargetOk (g : ℤ) (t : Target) : Prop where
  le : g ≤ t.epoch
  names : Names t.slug t.epoch
  strike : ∀ k, t.strike = some k → k.slug = t.slug

section Programs

variable {cfg : Config} {g : ℤ} {loop : Loop}

theorem Aside.safeFrom {A : Type} {P : A → Prop} {p : Prog A} (h : Aside P p) :
    SafeFrom targetEnv (Forward cfg) (fun g' a => g' = g ∧ P a) p g := by
  refine Safe.safeFrom h ?_ ?_
  · rintro ⟨c, r⟩ g' haside ⟨hpossible, rfl⟩
    refine ⟨?_, hpossible⟩
    cases c with
    | steadyMs | outside | waitStrike => rfl
    | switchToken | setMarketContext | install => exact haside.elim
  · intro c haside
    cases c with
    | steadyMs | outside | waitStrike => trivial
    | switchToken | setMarketContext | install => exact haside.elim

/-- What a prefetch leaves as it was. -/
structure Prefetched (loop l : Loop) : Prop where
  active : l.activeEpoch = loop.activeEpoch
  next : ∀ n, l.next = some n → NextOk loop.nextEpoch n

theorem aside_prefetch (h : ∀ n, loop.next = some n → NextOk loop.nextEpoch n) (nowMs : ℤ) :
    Aside (Prefetched loop) (prefetch cfg nowMs loop) := by
  unfold prefetch
  split
  · exact ⟨rfl, h⟩
  · refine (aside_exactSlug _).bind ?_
    rintro ⟨found, nd⟩ hconfirms
    dsimp only at hconfirms ⊢
    split
    · exact ⟨rfl, h⟩
    · rename_i hfound
      have hfound : found = true := by simp at hfound; exact hfound.1.1
      refine aside_livePipeMaybeRtdsStrike.bind fun nd' hsame => ⟨rfl, ?_⟩
      rintro n ⟨⟩
      exact ⟨hsame.1.trans (hconfirms hfound).1, fun k hk => strikeOf_slug hk⟩

theorem LoopOk.prefetched {l : Loop} (h : LoopOk cfg g loop) (hl : Prefetched loop l) :
    LoopOk cfg g l := by
  refine ⟨hl.active.trans h.active, h.nonneg, ?_⟩
  rw [l.next_eq, hl.active, ← loop.next_eq]
  exact hl.next

theorem aside_prefetchedTarget {nextEpoch : ℤ} {n : Next} (h : NextOk nextEpoch n) :
    Aside (fun t => t.epoch = nextEpoch ∧ t.slug = slugForBucket nextEpoch ∧
      ∀ k, t.strike = some k → k.slug = t.slug) (prefetchedTarget cfg nextEpoch n) := by
  have hslug : (if n.confirmedSlug = "" then slugForBucket nextEpoch else n.confirmedSlug) =
      slugForBucket nextEpoch := by
    rw [h.slug, ite_self]
  unfold prefetchedTarget
  rw [hslug]
  dsimp only
  split
  · exact ⟨rfl, rfl, fun k hk => (h.strike k hk).trans h.slug⟩
  · refine (aside_exactSlug _).bind ?_
    rintro ⟨found, pf⟩ hconfirms
    dsimp only at hconfirms ⊢
    cases found with
    | false => exact ⟨rfl, rfl, nofun⟩
    | true =>
      refine aside_livePipeMaybeWebThenRtdsStrike.bind fun pf' hsame => ⟨rfl, rfl, ?_⟩
      intro k hk
      exact (strikeOf_slug hk).trans (hsame.1.trans (hconfirms rfl).1)

theorem aside_discoveredTarget {d2 : BtcFiveMinuteBucketDiscovery} :
    Aside (fun t => t.epoch = epochOf (-1) d2 ∧ t.slug = d2.confirmedSlug ∧
      ∀ k, t.strike = some k → k.slug = t.slug) (discoveredTarget cfg d2) := by
  unfold discoveredTarget
  dsimp only
  split
  · exact ⟨rfl, rfl, fun k hk => strikeOf_slug hk⟩
  · refine aside_livePipeMaybeWebThenRtdsStrike.bind fun d hsame => ⟨rfl, rfl, ?_⟩
    intro k hk
    rcases Option.or_eq_some_iff.mp hk with hk | ⟨-, hk⟩
    · exact (strikeOf_slug hk).trans hsame.1
    · exact strikeOf_slug hk

theorem forward_installTarget {t : Target} (hd : cfg.polyDiscover = true)
    (h : LoopOk cfg g loop) (ht : TargetOk g t) :
    SafeFrom targetEnv (Forward cfg) (LoopOk cfg) (installTarget loop t) g := by
  unfold installTarget
  split
  · exact h
  · rename_i hready
    have hnonneg : 0 ≤ t.epoch := not_lt.mp fun hneg => hready (.inr (.inr (.inl hneg)))
    have hlater : Later g t.slug t.epoch := ⟨ht.le, hnonneg, ht.names⟩
    have hsame : Later t.epoch t.slug t.epoch := ⟨le_rfl, hnonneg, ht.names⟩
    refine safeFrom_bind.mpr ⟨trivial, ?_⟩
    rintro upSwitched _ ⟨-, rfl⟩
    cases upSwitched with
    | false => exact h
    | true =>
      refine safeFrom_bind.mpr ⟨trivial, ?_⟩
      rintro downSwitched _ ⟨-, rfl⟩
      cases downSwitched with
      | false => exact h
      | true =>
        refine safeFrom_bind.mpr ⟨⟨hd, hlater⟩, ?_⟩
        rintro _ _ ⟨-, rfl⟩
        refine safeFrom_bind.mpr ⟨⟨hd, hsame⟩, ?_⟩
        rintro _ _ ⟨-, rfl⟩
        refine safeFrom_bind.mpr ⟨⟨hd, hsame, ht.strike⟩, ?_⟩
        rintro _ _ ⟨-, rfl⟩
        exact ⟨rfl, fun _ => hnonneg, nofun⟩

theorem forward_rollover {wallNow : ℤ} (hd : cfg.polyDiscover = true) (h : LoopOk cfg g loop)
    (hfits : fitsInt64 wallNow = true) (hpast : loop.activeEpoch + 300 ≤ wallNow) :
    SafeFrom targetEnv (Forward cfg) (LoopOk cfg) (rollover cfg wallNow loop) g := by
  have hnext : loop.nextEpoch = g + 300 := by rw [loop.next_eq, h.active]
  have hg := h.nonneg hd
  have hle : g ≤ loop.nextEpoch := by omega
  unfold rollover
  generalize hn : (if loop.nextEpoch + 300 ≤ wallNow then none else loop.next) = next
  dsimp only
  have hloop : LoopOk cfg g { loop with next := next } := by
    refine ⟨h.active, h.nonneg, fun n hnext => ?_⟩
    split at hn
    · rw [← hn] at hnext
      cases hnext
    · exact h.next n (hn.trans hnext)
  cases next with
  | some n =>
    have hfitsNext : fitsInt64 loop.nextEpoch = true := by
      have hrange := of_decide_eq_true hfits
      have hactive := h.active
      rw [hnext]
      exact decide_eq_true (by omega)
    have hnames := slugForBucket_names hfitsNext
    refine safeFrom_bind.mpr ((aside_prefetchedTarget (hloop.next n rfl)).safeFrom.mono ?_)
    rintro _ t ⟨rfl, hepoch, hslug, hstrike⟩
    refine forward_installTarget hd hloop ⟨?_, ?_, hstrike⟩
    · rw [hepoch]
      exact hle
    · rw [hepoch, hslug]
      exact hnames
  | none =>
    have hfound := aside_lookup (findNext_names cfg.parse (hg.trans hle)).safe
    refine safeFrom_bind.mpr (hfound.safeFrom.mono ?_)
    rintro _ r ⟨rfl, hr⟩
    cases r with
    | none => exact hloop
    | some r =>
      obtain ⟨how, d2⟩ := r
      obtain ⟨hfrom, hnames⟩ := hr how d2 rfl
      refine safeFrom_bind.mpr (aside_discoveredTarget.safeFrom.mono ?_)
      rintro _ t ⟨rfl, hepoch, hslug, hstrike⟩
      refine forward_installTarget hd hloop ⟨?_, ?_, hstrike⟩
      · rw [hepoch]
        exact hle.trans hfrom
      · rw [hepoch, hslug]
        exact hnames

theorem forward_iteration (h : LoopOk cfg g loop) :
    SafeFrom targetEnv (Forward cfg) (LoopOk cfg) (iteration cfg loop) g := by
  unfold iteration
  cases hd : cfg.polyDiscover with
  | false => exact h
  | true =>
    refine safeFrom_bind.mpr ⟨trivial, ?_⟩
    rintro nowMs _ ⟨-, rfl⟩
    refine safeFrom_bind.mpr (aside_systemSeconds.safeFrom.mono ?_)
    rintro _ wallNow ⟨rfl, -, hfits⟩
    refine safeFrom_bind.mpr ((aside_prefetch h.next nowMs).safeFrom.mono ?_)
    rintro _ l ⟨rfl, hkept⟩
    have hl := h.prefetched hkept
    split
    · rename_i hpast
      exact forward_rollover hd hl hfits hpast
    · exact hl

end Programs

/-! ### Labels in a feed -/

/-- The labels of a feed now, and those of the quotes it has copied and not delivered. -/
structure Labels (P : String → ℤ → Prop) (f : TokenFeed.System) : Prop where
  fields : P f.fields.quoteEventSlug f.fields.quoteMarketBucketEpoch
  undelivered : ∀ t ∈ f.active, ∀ q, t.undelivered? = some q →
    P q.eventSlug q.marketBucketEpoch

section Labels

variable {P : String → ℤ → Prop} {n : ℕ} {f f' : TokenFeed.System} {mv : TokenFeed.Move}

theorem Labels.mono {P' : String → ℤ → Prop} (h : Labels P f)
    (hP : ∀ slug e, P slug e → P' slug e) : Labels P' f :=
  ⟨hP _ _ h.fields, fun t ht q hq => hP _ _ (h.undelivered t ht q hq)⟩

theorem labels_start {m : TokenFeed.Market} (h : P m.eventSlug m.bucketEpoch) :
    Labels P (.start m) := ⟨h, fun _ ht => absurd ht List.not_mem_nil⟩

theorem Labels.frame (h : Labels P f) (hfields : f'.fields.market = f.fields.market)
    (hactive : ∀ t ∈ f'.active, t ∈ f.active ∨ t.undelivered? = none) : Labels P f' := by
  have hslug : f'.fields.quoteEventSlug = f.fields.quoteEventSlug :=
    congrArg TokenFeed.Market.eventSlug hfields
  have hepoch : f'.fields.quoteMarketBucketEpoch = f.fields.quoteMarketBucketEpoch :=
    congrArg TokenFeed.Market.bucketEpoch hfields
  refine ⟨?_, ?_⟩
  · rw [hslug, hepoch]
    exact h.fields
  · intro t ht q hq
    rcases hactive t ht with hmem | hno
    · exact h.undelivered t hmem q hq
    · rw [hno] at hq
      cases hq

theorem Labels.work (h : Labels P f) (i : ℕ) (task : TokenFeed.Task) :
    Labels P (f.afterWork i (task.step f.fields)) := by
  obtain ⟨hfields, -⟩ := TokenFeed.afterWork_frame (s := f) i task
  have hsame : P (f.afterWork i (task.step f.fields)).fields.quoteEventSlug
      (f.afterWork i (task.step f.fields)).fields.quoteMarketBucketEpoch := by
    let relabelled := { f with fields := (f.afterWork i (task.step f.fields)).fields }
    have hframe : Labels P relabelled := h.frame hfields fun t ht => .inl ht
    exact hframe.fields
  refine ⟨hsame, ?_⟩
  intro t ht q hq
  rcases TokenFeed.undelivered_afterWork ht hq with hold | ⟨-, hlabels⟩
  · exact h.undelivered t hold q hq
  · have hslug : q.eventSlug = f.fields.quoteEventSlug :=
      congrArg TokenFeed.Market.eventSlug hlabels
    have hepoch : q.marketBucketEpoch = f.fields.quoteMarketBucketEpoch :=
      congrArg TokenFeed.Market.bucketEpoch hlabels
    rw [hslug, hepoch]
    exact h.fields

theorem Labels.moved (h : Labels P f) (hm : TokenFeed.Moved n f mv f') (hmv : mv ≠ .setContext) :
    Labels P f' := by
  cases hm with
  | work i task => exact h.work i task
  | setContext => exact absurd rfl hmv
  | assign m =>
    exact ⟨h.fields, h.undelivered⟩
  | callback => exact ⟨h.fields, h.undelivered⟩
  | receiveInline msg =>
    refine ⟨h.fields, fun t ht q hq => ?_⟩
    rw [List.mem_singleton.mp ht] at hq
    cases hq
  | take msg rest =>
    refine h.frame rfl fun t ht => ?_
    rcases List.mem_append.mp ht with hmem | hnew
    · exact .inl hmem
    · rw [List.mem_singleton.mp hnew]
      exact .inr rfl
  | opened | closed | snapshot | send | receiveQueued => exact ⟨h.fields, h.undelivered⟩
  | sameToken | noToken | begun => exact ⟨h.fields, h.undelivered⟩
  | unsubscribe | setSnapshot | subscribe => exact ⟨h.fields, h.undelivered⟩

theorem delivered_moved (hm : TokenFeed.Moved n f mv f') :
    f'.delivered = f.delivered ∨ ∃ i q rest, mv = .work i ∧
      f.active[i]? = some (.calling q rest) ∧ f'.delivered = f.delivered ++ [q] := by
  cases hm with
  | work i task htask =>
    have hstep := task.step_stepped f.fields
    generalize task.step f.fields = eff at hstep
    cases hstep with
    | delivered q rest => exact .inr ⟨i, q, rest, rfl, htask, rfl⟩
    | finished | threw | skipped | checked => exact .inl rfl
    | dropped | suppressed | copied | stored => exact .inl rfl
  | opened | closed | snapshot | send | callback => exact .inl rfl
  | receiveInline | receiveQueued | take => exact .inl rfl
  | sameToken | noToken | begun => exact .inl rfl
  | unsubscribe | assign | setSnapshot | subscribe | setContext => exact .inl rfl

end Labels

/-! ### The condition -/

/-- The quote stored has the epoch that `hot` has. Without a strike a later one
does no harm. -/
def agrees (s : State) : Move → Bool
  | .feed o (.work i) => ((s.feed o).active[i]?.bind (·.undelivered?)).all fun q =>
    let epoch := HotState.storedEpoch s.activeEpoch q.marketBucketEpoch
    decide (epoch = s.hot.activeEpoch ∨ s.hot.K = none ∧ s.hot.activeEpoch ≤ epoch)
  | _ => true

/-- With a strike in `hot`, strike, slug and sigma are those of `active_epoch`. -/
structure Consistent (hot : HotState) : Prop where
  strike : ∀ k, hot.K = some k → Names k.slug hot.activeEpoch
  slug : hot.K ≠ none → Names hot.slug hot.activeEpoch
  sigma : ∀ sigma, hot.K ≠ none → hot.sigmaBucket = some sigma → sigma.bucket = hot.activeEpoch

/-! ### The invariant -/

/-- A label that a callback may store while `active_epoch` is `active`. -/
structure Fits (cfg : Config) (active g : ℤ) (slug : String) (epoch : ℤ) : Prop where
  names : Names slug (HotState.storedEpoch active epoch)
  le : HotState.storedEpoch active epoch ≤ g
  nonneg : cfg.polyDiscover = true → 0 ≤ epoch

structure Inv (cfg : Config) (s : State) (g : ℤ) : Prop where
  main : SafeFrom targetEnv (Forward cfg) (LoopOk cfg) s.main g
  manual : cfg.polyDiscover = false → s.activeEpoch = g
  le : s.hot.activeEpoch ≤ g
  slug : Names s.hot.slug s.hot.activeEpoch
  strike : ∀ k, s.hot.K = some k → Names k.slug s.hot.activeEpoch
  sigma : ∀ sigma, s.hot.sigmaBucket = some sigma →
    s.hot.K ≠ none ∧ sigma.bucket = s.hot.activeEpoch
  feed : ∀ o, Labels (Fits cfg s.activeEpoch g) (s.feed o)

section Inv

variable {cfg : Config} {M : Libm} {s t : State} {mv : Move} {g : ℤ}

theorem Fits.later {active active' g' : ℤ} {slug : String} {epoch : ℤ}
    (h : Fits cfg active g slug epoch) (hg : g ≤ g')
    (hactive : cfg.polyDiscover = false → active' = active) :
    Fits cfg active' g' slug epoch := by
  have hstored : HotState.storedEpoch active' epoch = HotState.storedEpoch active epoch := by
    cases hd : cfg.polyDiscover with
    | false => rw [hactive hd]
    | true =>
      have hnonneg := h.nonneg hd
      rw [HotState.storedEpoch, HotState.storedEpoch, if_pos hnonneg, if_pos hnonneg]
  refine ⟨?_, ?_, h.nonneg⟩
  · rw [hstored]
    exact h.names
  · rw [hstored]
    exact h.le.trans hg

theorem Inv.consistent (inv : Inv cfg s g) : Consistent s.hot :=
  ⟨inv.strike, fun _ => inv.slug, fun sigma _ h => (inv.sigma sigma h).2⟩

/-- A step of the main thread, or of none, that leaves `hot` and the labels alone. -/
theorem Inv.frame (inv : Inv cfg s g)
    (hmain : SafeFrom targetEnv (Forward cfg) (LoopOk cfg) t.main g)
    (hactive : t.activeEpoch = s.activeEpoch) (hhot : t.hot = s.hot)
    (hfeed : ∀ o, Labels (Fits cfg s.activeEpoch g) (t.feed o)) : Inv cfg t g where
  main := hmain
  manual := by
    rw [hactive]
    exact inv.manual
  le := by
    rw [hhot]
    exact inv.le
  slug := by
    rw [hhot]
    exact inv.slug
  strike := by
    rw [hhot]
    exact inv.strike
  sigma := by
    rw [hhot]
    exact inv.sigma
  feed := by
    rw [hactive]
    exact hfeed

theorem Inv.setFeed (inv : Inv cfg s g) {o : Outcome} {f : TokenFeed.System}
    (hf : Labels (Fits cfg s.activeEpoch g) f) (o' : Outcome) :
    Labels (Fits cfg s.activeEpoch g) ((s.setFeed o f).feed o') := by
  by_cases ho : o' = o
  · subst ho
    simp only [State.setFeed, Function.update_self]
    exact hf
  · simp only [State.setFeed, Function.update_of_ne ho]
    exact inv.feed o'

theorem Inv.onTick (inv : Inv cfg s g) (stepMs : ℤ) (tick : Tick) (rest : List Tick) :
    Inv cfg { s with callbacks := rest, hot := s.hot.onTick M stepMs tick } g where
  main := inv.main
  manual := inv.manual
  le := by
    rw [HotState.onTick_activeEpoch]
    exact inv.le
  slug := by
    rw [HotState.onTick_slug, HotState.onTick_activeEpoch]
    exact inv.slug
  strike := by
    rw [HotState.onTick_K, HotState.onTick_activeEpoch]
    exact inv.strike
  sigma := by
    intro sigma hsigma
    rw [HotState.onTick_K, HotState.onTick_activeEpoch]
    rcases HotState.onTick_sigmaBucket hsigma with hold | hnew
    · exact inv.sigma sigma hold
    · exact hnew
  feed := inv.feed

theorem afterFeed_quiet {o : Outcome} {f : TokenFeed.System}
    (h : f.delivered = (s.feed o).delivered) : s.afterFeed o f = s.setFeed o f := by
  simp only [State.afterFeed, h, List.drop_length, List.foldl_nil]
  rfl

theorem afterFeed_delivers {o : Outcome} {f : TokenFeed.System} {q : TokenFeed.WsQuote}
    (h : f.delivered = (s.feed o).delivered ++ [q]) :
    s.afterFeed o f = { s.setFeed o f with hot := s.hot.onQuote s.activeEpoch o q } := by
  simp only [State.afterFeed, h, List.drop_left, List.foldl_cons, List.foldl_nil]

theorem agrees_calling {o : Outcome} {i : ℕ} {q : TokenFeed.WsQuote} {rest : List TokenFeed.Item}
    (hq : (s.feed o).active[i]? = some (.calling q rest))
    (h : agrees s (.feed o (.work i)) = true) :
    HotState.storedEpoch s.activeEpoch q.marketBucketEpoch = s.hot.activeEpoch ∨
      s.hot.K = none ∧
        s.hot.activeEpoch ≤ HotState.storedEpoch s.activeEpoch q.marketBucketEpoch := by
  simp only [agrees, hq, Option.bind_some, TokenFeed.Task.undelivered?, Option.all_some,
    decide_eq_true_eq] at h
  exact h

theorem delivered_work {f f' : TokenFeed.System} {i : ℕ} {task : TokenFeed.Task}
    {q : TokenFeed.WsQuote} (h : f.apply 0 (.work i) = some f') (htask : f.active[i]? = some task)
    (hq : task.undelivered? = some q) : f'.delivered = f.delivered ++ [q] := by
  cases TokenFeed.apply_moved h with
  | work _ task' htask' =>
    rw [htask] at htask'
    cases htask'
    cases task with
    | calling q' rest =>
      cases hq
      rfl
    | scanning | emitting | storing => cases hq

theorem Inv.afterFeed (inv : Inv cfg s g) {o : Outcome} {fmv : TokenFeed.Move}
    {f : TokenFeed.System} (hmv : isCallerMove fmv = false) (hf : (s.feed o).apply 0 fmv = some f)
    (hagrees : agrees s (.feed o fmv) = true) :
    Inv cfg (s.afterFeed o f) g ∧ s.hot.activeEpoch ≤ (s.afterFeed o f).hot.activeEpoch := by
  have hmoved := TokenFeed.apply_moved hf
  have hcontext : fmv ≠ .setContext := by
    rintro rfl
    cases hmv
  have hfeed (o' : Outcome) : Labels (Fits cfg s.activeEpoch g) ((s.setFeed o f).feed o') :=
    inv.setFeed ((inv.feed o).moved hmoved hcontext) o'
  rcases delivered_moved hmoved with hsame | ⟨i, q, rest, rfl, hcalling, hdelivered⟩
  · rw [afterFeed_quiet hsame]
    exact ⟨inv.frame inv.main rfl rfl hfeed, le_rfl⟩
  · have hfits := (inv.feed o).undelivered _ (List.mem_of_getElem? hcalling) q rfl
    have hlabel := agrees_calling hcalling hagrees
    -- with a strike in `hot` the quote has the epoch of `hot`
    have hsame (hK : s.hot.K ≠ none) :
        HotState.storedEpoch s.activeEpoch q.marketBucketEpoch = s.hot.activeEpoch :=
      hlabel.resolve_right fun hno => hK hno.1
    rw [afterFeed_delivers hdelivered]
    refine ⟨⟨inv.main, inv.manual, ?_, ?_, ?_, ?_, hfeed⟩, ?_⟩
    · rw [HotState.onQuote_activeEpoch]
      exact hfits.le
    · rw [HotState.onQuote_slug, HotState.onQuote_activeEpoch]
      exact hfits.names
    · intro k hk
      rw [HotState.onQuote_K] at hk
      rw [HotState.onQuote_activeEpoch, hsame (by rw [hk]; nofun)]
      exact inv.strike k hk
    · intro sigma hsigma
      rw [HotState.onQuote_sigmaBucket] at hsigma
      obtain ⟨hK, hbucket⟩ := inv.sigma sigma hsigma
      rw [HotState.onQuote_K, HotState.onQuote_activeEpoch, hsame hK]
      exact ⟨hK, hbucket⟩
    · rw [HotState.onQuote_activeEpoch]
      rcases hlabel with heq | ⟨-, hle⟩
      · exact le_of_eq heq.symm
      · exact hle

theorem Inv.setMarketContext (inv : Inv cfg s g) {o : Outcome} {m : TokenFeed.Market}
    {k : Unit → Prog Loop} (hmain : s.main = .call (.setMarketContext o m) k) :
    Inv cfg { s.setMarketContext o m with main := k () } m.bucketEpoch := by
  have hsafe := inv.main
  rw [hmain] at hsafe
  obtain ⟨⟨hd, hlater⟩, hrest⟩ := hsafe
  have hmono (o' : Outcome) : Labels (Fits cfg s.activeEpoch m.bucketEpoch) (s.feed o') :=
    (inv.feed o').mono fun _ _ h => h.later hlater.le fun _ => rfl
  have hstored : HotState.storedEpoch s.activeEpoch m.bucketEpoch = m.bucketEpoch :=
    if_pos hlater.nonneg
  have hfits : Fits cfg s.activeEpoch m.bucketEpoch m.eventSlug m.bucketEpoch := by
    refine ⟨?_, ?_, fun _ => hlater.nonneg⟩
    · rw [hstored]
      exact hlater.names
    · exact le_of_eq hstored
  refine ⟨hrest () _ ⟨rfl, rfl⟩, ?_, inv.le.trans hlater.le, inv.slug, inv.strike, inv.sigma, ?_⟩
  · rw [hd]
    nofun
  · intro o'
    by_cases ho : o' = o
    · subst ho
      simp only [State.setMarketContext, State.setFeed, Function.update_self]
      exact ⟨hfits, (hmono o').undelivered⟩
    · simp only [State.setMarketContext, State.setFeed, Function.update_of_ne ho]
      exact hmono o'

theorem Inv.install (inv : Inv cfg s g) {slug : String} {epoch : ℤ} {K : Option Strike}
    {k : Unit → Prog Loop} (hmain : s.main = .call (.install slug epoch K) k) :
    Inv cfg { s with main := k (), hot := s.hot.install slug epoch K, pick := none } epoch ∧
      s.hot.activeEpoch ≤ epoch := by
  have hsafe := inv.main
  rw [hmain] at hsafe
  obtain ⟨⟨hd, hlater, hstrike⟩, hrest⟩ := hsafe
  refine ⟨⟨hrest () _ ⟨rfl, rfl⟩, ?_, le_rfl, hlater.names, ?_, nofun, ?_⟩, ?_⟩
  · rw [hd]
    nofun
  · intro k hk
    rw [hstrike k hk]
    exact hlater.names
  · exact fun o => (inv.feed o).mono fun _ _ h => h.later hlater.le fun _ => rfl
  · exact inv.le.trans hlater.le

theorem Inv.next (inv : Inv cfg s g) {loop : Loop} (hmain : s.main = .done loop)
    (pick : Option Pick) : Inv cfg { s with
      main := iteration cfg loop, activeEpoch := loop.activeEpoch, pick := pick } g := by
  have hloop := inv.main
  rw [hmain] at hloop
  have hactive : loop.activeEpoch = g := hloop.active
  refine ⟨forward_iteration hloop, fun _ => hactive, inv.le, inv.slug, inv.strike, inv.sigma, ?_⟩
  refine fun o => (inv.feed o).mono fun _ _ h => h.later le_rfl fun hmanual => ?_
  rw [inv.manual hmanual]
  exact hactive

theorem Inv.step (inv : Inv cfg s g) (h : Moved cfg M s mv t) (hagrees : agrees s mv = true) :
    ∃ g', Inv cfg t g' ∧ s.hot.activeEpoch ≤ t.hot.activeEpoch := by
  have hsafe := inv.main
  cases h with
  | elapse | receiveTicks | reconnect | waits =>
    exact ⟨g, inv.frame inv.main rfl rfl inv.feed, le_rfl⟩
  | onTick tick rest =>
    refine ⟨g, inv.onTick cfg.sigmaStepMs tick rest, le_of_eq ?_⟩
    exact HotState.onTick_activeEpoch.symm
  | feed o fmv f hmv hf => exact ⟨g, inv.afterFeed hmv hf hagrees⟩
  | answer _ c r k hmain hpossible =>
    rw [hmain] at hsafe
    exact ⟨g, inv.frame (hsafe.2 r g ⟨hpossible, rfl⟩) rfl rfl inv.feed, le_rfl⟩
  | rtdsDown boundaryMs slug k hmain | strike boundaryMs slug k hmain =>
    rw [hmain] at hsafe
    exact ⟨g, inv.frame (hsafe.2 _ g ⟨rfl, rfl⟩) rfl rfl inv.feed, le_rfl⟩
  | next loop hmain => exact ⟨g, inv.next hmain _, le_rfl⟩
  | steadyMs k hmain =>
    rw [hmain] at hsafe
    exact ⟨g, inv.frame (hsafe.2 s.steadyMs g ⟨rfl, rfl⟩) rfl rfl inv.feed, le_rfl⟩
  | begins o m f hf =>
    have hlabels := (inv.feed o).moved (TokenFeed.apply_moved hf) nofun
    exact ⟨g, inv.frame inv.main rfl rfl (inv.setFeed hlabels), le_rfl⟩
  | switches o f hf =>
    have hlabels := (inv.feed o).moved (TokenFeed.apply_moved hf) nofun
    exact ⟨g, inv.frame inv.main rfl rfl (inv.setFeed hlabels), le_rfl⟩
  | switched o m k r hmain =>
    rw [hmain] at hsafe
    exact ⟨g, inv.frame (hsafe.2 r g ⟨rfl, rfl⟩) rfl rfl inv.feed, le_rfl⟩
  | setMarketContext o m k hmain => exact ⟨_, inv.setMarketContext hmain, le_rfl⟩
  | install slug epoch K k hmain =>
    obtain ⟨hinv, hle⟩ := inv.install hmain
    exact ⟨epoch, hinv, hle⟩

end Inv

/-! ### Runs -/

section Runs

variable {cfg : Config} {M : Libm} {s : State}

theorem inv_start (h : (pipeline cfg M).init s) : Inv cfg s s.activeEpoch := by
  obtain ⟨tr, d, e, last, steady, buffer, hx, hpossible, -, -, rfl⟩ := h
  obtain ⟨-, hstart⟩ := Safe.ensures aside_startup tr _ hx hpossible
  obtain ⟨hnames, hnonneg⟩ := hstart d e rfl
  have hstored : HotState.storedEpoch e e = e := ite_self e
  have hfits : Fits cfg e e d.confirmedSlug e := by
    refine ⟨?_, ?_, hnonneg⟩
    · rw [hstored]
      exact hnames
    · exact le_of_eq hstored
  refine ⟨⟨rfl, hnonneg, nofun⟩, fun _ => rfl, le_rfl, hnames, ?_, nofun, ?_⟩
  · intro k hk
    rw [strikeOf_slug hk]
    exact hnames
  · intro o
    cases o with
    | up | down => exact labels_start hfits

theorem inv_reachable (h : ((pipeline cfg M).restrict fun s mv => agrees s mv = true).Reachable s) :
    ∃ g, Inv cfg s g := by
  apply h.invariant (I := fun s => ∃ g, Inv cfg s g)
  · exact fun s hs => ⟨_, inv_start (M := M) hs⟩
  · rintro s mv t - ⟨g, inv⟩ ⟨hst, hagrees⟩
    obtain ⟨g', hinv, -⟩ := inv.step (apply_moved hst) hagrees
    exact ⟨g', hinv⟩

/-- A quote that does not agree breaks the law at once. -/
theorem agrees_of_consistent {g : ℤ} {mv : Move} {t : State} (inv : Inv cfg s g)
    (h : Moved cfg M s mv t) (ht : Consistent t.hot) (hle : s.hot.activeEpoch ≤ t.hot.activeEpoch) :
    agrees s mv = true := by
  cases h with
  | feed o fmv f hmv hf =>
    cases fmv with
    | work i =>
      simp only [agrees, Option.all_eq_true, decide_eq_true_eq, Option.bind_eq_some_iff]
      rintro q ⟨task, htask, hq⟩
      rw [afterFeed_delivers (delivered_work hf htask hq)] at ht hle
      rw [HotState.onQuote_activeEpoch] at hle
      cases hK : s.hot.K with
      | none => exact .inr ⟨rfl, hle⟩
      | some k =>
        have hthere := ht.strike k (by rw [HotState.onQuote_K, hK])
        rw [HotState.onQuote_activeEpoch] at hthere
        exact .inl (hthere.unique (inv.strike k hK))
    | _ => rfl
  | _ => rfl

end Runs

/-- In every run in which no callback stores a quote of another epoch than that of
`hot` (an earlier one, or any other with a strike in `hot`), strike, slug and
sigma are those of `active_epoch` and it never decreases; and the first such
quote breaks this. -/
theorem hot_state_consistent {cfg : Config} {M : Libm} {s : State}
    (h : ((pipeline cfg M).restrict fun s mv => agrees s mv = true).Reachable s) :
    Consistent s.hot ∧ ∀ mv t, (pipeline cfg M).step s mv t →
      (agrees s mv = true ↔ Consistent t.hot ∧ s.hot.activeEpoch ≤ t.hot.activeEpoch) := by
  obtain ⟨g, inv⟩ := inv_reachable h
  refine ⟨inv.consistent, fun mv t hst => ⟨fun hagrees => ?_, fun ht => ?_⟩⟩
  · obtain ⟨g', hinv, hle⟩ := inv.step (apply_moved hst) hagrees
    exact ⟨hinv.consistent, hle⟩
  · exact agrees_of_consistent inv (apply_moved hst) ht.1 ht.2

/-! ### Two runs -/

def feedUp (mvs : List TokenFeed.Move) : List Move := mvs.map (.feed .up)

/-- At 601 s the market is prefetched with Gamma's strike and installed. -/
def rollTo600 : List Move :=
  [.main, .main, .answer (gammaReplies 601 fun _ => some 101),
    .answer (gammaReplies 601 fun _ => some 101)] ++ List.replicate 15 .main

/-- A quote of each bucket, delivered before and after the rollover. -/
theorem hot_state_in_turn :
    ∃ s t, (pipeline config300 coarse).Reachable s ∧
      (pipeline config300 coarse).step s (.feed .up (.work 0)) t ∧ s.hot.activeEpoch = 600 ∧
      s.hot.K ≠ none ∧ Consistent s.hot ∧ Consistent t.hot ∧ t.hot.activeEpoch = 600 := by
  obtain ⟨s, hr, hP⟩ := exists_pipeline_run agrees
    (feedUp (TokenFeed.openSocket ++
        TokenFeed.bestBidAskMsg "up-300" "0.5" "0.52" :: TokenFeed.handled) ++ rollTo600 ++
      feedUp [TokenFeed.bestBidAskMsg "up-600" "0.60" "0.62", .work 0, .work 0])
    (fun s => decide (s.hot.activeEpoch = 600 ∧ s.hot.K ≠ none) &&
      agrees s (.feed .up (.work 0)) &&
      (s.apply config300 coarse (.feed .up (.work 0))).any fun t : State =>
        decide (t.hot.activeEpoch = 600 ∧ t.hot.up ≠ s.hot.up))
    (by decide +kernel)
  simp only [Bool.and_eq_true, decide_eq_true_eq, Option.any_eq_true] at hP
  obtain ⟨⟨⟨hepoch, hK⟩, hagrees⟩, t, hst, htEpoch, -⟩ := hP
  obtain ⟨hs, hstep⟩ := hot_state_consistent hr
  exact ⟨s, t, hr.of_restrict, hst, hepoch, hK, hs, ((hstep _ t hst).mp hagrees).1, htEpoch⟩

/-- A quote of bucket 300 is copied before the rollover and stored after it. -/
theorem late_quote_takes_back_epoch :
    ∃ s t, (pipeline config300 coarse).Reachable s ∧
      (pipeline config300 coarse).step s (.feed .up (.work 0)) t ∧ Consistent s.hot ∧
      t.hot.activeEpoch < s.hot.activeEpoch ∧ t.hot.K ≠ none ∧ ¬ Consistent t.hot := by
  obtain ⟨s, hr, hP⟩ := exists_pipeline_run agrees
    (feedUp (TokenFeed.openSocket ++
        [TokenFeed.bestBidAskMsg "up-300" "0.5" "0.52", .work 0, .work 0]) ++ rollTo600)
    (fun s => (s.apply config300 coarse (.feed .up (.work 0))).any fun t : State =>
      decide (t.hot.activeEpoch < s.hot.activeEpoch ∧ t.hot.activeEpoch = 300) &&
        t.hot.K.any fun k => decide (k.slug = "btc-updown-5m-600"))
    (by decide +kernel)
  obtain ⟨t, hst, hP⟩ := (Option.any_eq_true _ _).mp hP
  obtain ⟨hepoch, hK⟩ := (Bool.and_eq_true _ _).mp hP
  obtain ⟨hlt, h300⟩ := of_decide_eq_true hepoch
  obtain ⟨k, hk, hslug⟩ := (Option.any_eq_true _ _).mp hK
  refine ⟨s, t, hr.of_restrict, hst, (hot_state_consistent hr).1, hlt, by rw [hk]; nofun, ?_⟩
  intro hconsistent
  have hnames := hconsistent.strike k hk
  rw [of_decide_eq_true hslug, h300] at hnames
  exact absurd hnames (by unfold Names; decide +kernel)

end LeadLag.Pipeline
