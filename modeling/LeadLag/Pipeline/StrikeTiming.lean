import LeadLag.Pipeline.Consistency

/-!
# When the strike is fixed (live_pipeline.cpp:647-698, 741-772, rtds_chainlink_feed.cpp:530-598)

`wait_strike` prefers the earliest tick of the window and falls back to a tick
before it after 15 seconds. The prefetch asks up to five minutes before the
window begins, and what it gets is installed when the bucket opens.
-/

namespace LeadLag.Pipeline
open LeadLag.Core LeadLag.Execution LeadLag.Interaction
open LeadLag.Gamma (BtcFiveMinuteBucketDiscovery slugForBucket parseBucketEpochFromSlug)
open LeadLag.Runner (Libm coarse)

/-! ### The strikes an iteration holds -/

def pickAfter (pick : Option Pick) : Obs Reply → Option Pick
  | ⟨.waitStrike boundaryMs slug, r⟩ => Option.map (fun t => ⟨boundaryMs, slug, t⟩) r
  | ⟨.install .., _⟩ => none
  | _ => pick

def pickEnv (pick : Option Pick) (o : Obs Reply) (pick' : Option Pick) : Prop :=
  outsidePossible o = true ∧ pick' = pickAfter pick o

/-- A strike from RTDS is the last one that `wait_strike` returned. -/
def Picked (pick : Option Pick) (strike : Option Strike) : Prop :=
  ∀ k, strike = some k → k.fromRtds = true →
    ∃ p, pick = some p ∧ p.slug = k.slug ∧ p.tick.px = k.price

def InstallsPicked (pick : Option Pick) : Call → Prop
  | .install _ _ K => Picked pick K
  | _ => True

def HoldsPicked (pick : Option Pick) (loop : Loop) : Prop :=
  ∀ n, loop.next = some n → Picked pick n.strike

section Programs

variable {cfg : Config} {pick : Option Pick} {loop : Loop} {d : BtcFiveMinuteBucketDiscovery}

theorem outside_safeFrom {A : Type} {P : A → Prop} {p : Prog A}
    (h : Safe (fun o => outsidePossible o = true) Call.isOutside P p) :
    SafeFrom pickEnv InstallsPicked (fun pick' a => pick' = pick ∧ P a) p pick := by
  refine Safe.safeFrom h ?_ ?_
  · rintro ⟨c, r⟩ pick' hout ⟨hpossible, rfl⟩
    cases c with
    | outside c => exact ⟨rfl, hpossible⟩
    | _ => exact hout.elim
  · intro c hout
    cases c with
    | outside c => trivial
    | _ => exact hout.elim

theorem trySlug_fresh {parse : String → Option Json} {slug : String} :
    Returns (Gamma.trySlug parse slug d) fun r => r.1 = true →
      r.2.strikeFromPolymarketRtdsChainlink = false := by
  unfold Gamma.trySlug
  refine returns_bind.mpr ((returns_trivial _).mono fun events _ => ?_)
  split
  · split
    · unfold Gamma.validateAndExtract
      refine returns_bind.mpr ((returns_trivial _).mono fun market _ => ?_)
      cases market with
      | none => exact returns_pure.mpr nofun
      | some out =>
        refine returns_bind.mpr ((returns_trivial _).mono fun source _ => ?_)
        exact returns_pure.mpr fun _ => rfl
    · exact returns_pure.mpr nofun
  · exact returns_pure.mpr nofun

theorem findNext_fresh {parse : String → Option Json} {nextEpoch : ℤ} :
    Returns (Gamma.findNext parse nextEpoch) fun r => ∀ how d, r = some (how, d) →
      d.strikeFromPolymarketRtdsChainlink = false := by
  refine Gamma.findNext_accepts (fun out => ?_) fun nowS base offsets out => ?_
  · exact trySlug_fresh.mono fun r hfresh hfound _ => hfresh hfound
  · have hfresh : ∀ slug out, Returns (Gamma.trySlug parse slug out) fun r =>
        r.1 = true → r.2.strikeFromPolymarketRtdsChainlink = false := fun _ _ => trySlug_fresh
    refine (Gamma.probeOffsets_accepts (P := fun _ d => d.strikeFromPolymarketRtdsChainlink = false)
      hfresh).mono ?_
    intro r h hfound _
    obtain ⟨_, -, d, epoch, hfresh, -, -, heq⟩ := h hfound
    rw [heq]
    exact hfresh

/-! ### Filling -/

theorem picked_of_fresh (h : d.strikeFromPolymarketRtdsChainlink = false) :
    Picked pick (strikeOf d) := by
  intro k hk hrtds
  unfold strikeOf at hk
  split at hk
  · cases hk
    rw [h] at hrtds
    cases hrtds
  · cases hk

theorem picks_fillStrike (h : d.strikeFromPolymarketRtdsChainlink = false) :
    SafeFrom pickEnv InstallsPicked (fun pick' d' => Picked pick' (strikeOf d'))
      (fillStrikeFromPolymarketRtdsChainlink d) pick := by
  unfold fillStrikeFromPolymarketRtdsChainlink
  split
  · exact picked_of_fresh h
  split
  · exact picked_of_fresh h
  refine safeFrom_bind.mpr ⟨trivial, ?_⟩
  rintro r _ ⟨-, rfl⟩
  cases r with
  | none => exact picked_of_fresh h
  | some t =>
    intro k hk _
    refine ⟨⟨_, d.confirmedSlug, t⟩, rfl, ?_⟩
    unfold strikeOf at hk
    split at hk
    · cases hk
      exact ⟨rfl, rfl⟩
    · cases hk

theorem picks_livePipeMaybeRtdsStrike (h : d.strikeFromPolymarketRtdsChainlink = false) :
    SafeFrom pickEnv InstallsPicked (fun pick' d' => Picked pick' (strikeOf d'))
      (livePipeMaybeRtdsStrike d) pick := by
  unfold livePipeMaybeRtdsStrike
  split
  · exact picked_of_fresh h
  · exact picks_fillStrike h

theorem picks_livePipeMaybeWebThenRtdsStrike {web : Bool}
    (h : d.strikeFromPolymarketRtdsChainlink = false) :
    SafeFrom pickEnv InstallsPicked (fun pick' d' => Picked pick' (strikeOf d'))
      (livePipeMaybeWebThenRtdsStrike web d) pick := by
  unfold livePipeMaybeWebThenRtdsStrike
  split
  · exact picked_of_fresh h
  split
  · refine safeFrom_bind.mpr ⟨trivial, ?_⟩
    rintro ptb _ ⟨-, rfl⟩
    cases ptb with
    | none => exact picks_livePipeMaybeRtdsStrike h
    | some ptb => exact picked_of_fresh rfl
  · exact picks_livePipeMaybeRtdsStrike h

theorem picks_exactSlug (slug : String) :
    SafeFrom pickEnv InstallsPicked (fun pick' r => pick' = pick ∧
      (r.1 = true → r.2.strikeFromPolymarketRtdsChainlink = false))
      (cfg.discoverBtcUpdown5mForExactSlug slug) pick :=
  outside_safeFrom (safe_lookup trySlug_fresh.safe)

theorem picks_prefetch (h : HoldsPicked pick loop) (nowMs : ℤ) :
    SafeFrom pickEnv InstallsPicked HoldsPicked (prefetch cfg nowMs loop) pick := by
  unfold prefetch
  split
  · exact h
  · refine safeFrom_bind.mpr ((picks_exactSlug _).mono ?_)
    rintro _ ⟨found, nd⟩ ⟨rfl, hfresh⟩
    dsimp only at hfresh ⊢
    split
    · exact h
    · rename_i hfound
      have hfound : found = true := by simp at hfound; exact hfound.1.1
      refine safeFrom_bind.mpr ((picks_livePipeMaybeRtdsStrike (hfresh hfound)).mono ?_)
      rintro pick' nd' hpicked n ⟨⟩
      exact hpicked

theorem picks_prefetchedTarget {nextEpoch : ℤ} {n : Next} (h : Picked pick n.strike) :
    SafeFrom pickEnv InstallsPicked
      (fun pick' t => Picked pick' n.strike ∧ Picked pick' t.strike)
      (prefetchedTarget cfg nextEpoch n) pick := by
  unfold prefetchedTarget
  dsimp only
  split
  · exact ⟨h, h⟩
  · rename_i hnone
    have hkept (pick' : Option Pick) : Picked pick' n.strike := by
      rw [Option.not_isSome_iff_eq_none.mp hnone]
      exact nofun
    refine safeFrom_bind.mpr ((picks_exactSlug _).mono ?_)
    rintro _ ⟨found, pf⟩ ⟨rfl, hfresh⟩
    cases found with
    | false => exact ⟨hkept _, nofun⟩
    | true =>
      refine safeFrom_bind.mpr ((picks_livePipeMaybeWebThenRtdsStrike (hfresh rfl)).mono ?_)
      exact fun pick' pf' hpicked => ⟨hkept pick', hpicked⟩

theorem picks_discoveredTarget (h : d.strikeFromPolymarketRtdsChainlink = false) :
    SafeFrom pickEnv InstallsPicked (fun pick' t => Picked pick' t.strike)
      (discoveredTarget cfg d) pick := by
  unfold discoveredTarget
  dsimp only
  split
  · exact picked_of_fresh h
  · refine safeFrom_bind.mpr ((picks_livePipeMaybeWebThenRtdsStrike h).mono ?_)
    intro pick' d' hpicked k hk
    rcases Option.or_eq_some_iff.mp hk with hk | ⟨-, hk⟩
    · exact hpicked k hk
    · exact picked_of_fresh h k hk

/-! ### Installing -/

theorem picks_installTarget {t : Target} (h : HoldsPicked pick loop) (ht : Picked pick t.strike) :
    SafeFrom pickEnv InstallsPicked HoldsPicked (installTarget loop t) pick := by
  unfold installTarget
  split
  · exact h
  · refine safeFrom_bind.mpr ⟨trivial, ?_⟩
    rintro upSwitched _ ⟨-, rfl⟩
    cases upSwitched with
    | false => exact h
    | true =>
      refine safeFrom_bind.mpr ⟨trivial, ?_⟩
      rintro downSwitched _ ⟨-, rfl⟩
      cases downSwitched with
      | false => exact h
      | true =>
        refine safeFrom_bind.mpr ⟨trivial, ?_⟩
        rintro _ _ ⟨-, rfl⟩
        refine safeFrom_bind.mpr ⟨trivial, ?_⟩
        rintro _ _ ⟨-, rfl⟩
        refine safeFrom_bind.mpr ⟨ht, ?_⟩
        rintro _ _ ⟨-, rfl⟩
        intro k hk
        cases hk

theorem picks_rollover (h : HoldsPicked pick loop) (wallNow : ℤ) :
    SafeFrom pickEnv InstallsPicked HoldsPicked (rollover cfg wallNow loop) pick := by
  unfold rollover
  generalize hn : (if loop.nextEpoch + 300 ≤ wallNow then none else loop.next) = next
  dsimp only
  cases next with
  | some n =>
    have hnext : loop.next = some n := by
      split at hn
      · cases hn
      · exact hn
    refine safeFrom_bind.mpr ((picks_prefetchedTarget (h n hnext)).mono ?_)
    rintro pick' t ⟨hkept, hpicked⟩
    refine picks_installTarget ?_ hpicked
    rintro _ ⟨⟩
    exact hkept
  | none =>
    refine safeFrom_bind.mpr ((outside_safeFrom (safe_lookup findNext_fresh.safe)).mono ?_)
    rintro _ r ⟨rfl, hr⟩
    cases r with
    | none => exact nofun
    | some r =>
      obtain ⟨how, d2⟩ := r
      refine safeFrom_bind.mpr ((picks_discoveredTarget (hr how d2 rfl)).mono ?_)
      exact fun pick' t hpicked => picks_installTarget nofun hpicked

theorem picks_iteration (h : HoldsPicked pick loop) :
    SafeFrom pickEnv InstallsPicked HoldsPicked (iteration cfg loop) pick := by
  unfold iteration
  cases cfg.polyDiscover with
  | false => exact h
  | true =>
    refine safeFrom_bind.mpr ⟨trivial, ?_⟩
    rintro nowMs _ ⟨-, rfl⟩
    refine safeFrom_bind.mpr ⟨trivial, ?_⟩
    rintro wallNow _ ⟨-, rfl⟩
    refine safeFrom_bind.mpr ((picks_prefetch h nowMs).mono ?_)
    intro pick' l hl
    split
    · exact picks_rollover hl wallNow
    · exact hl

end Programs

/-! ### What a step does to the main thread -/

/-- Nothing, or it returns from a call, or it starts the next iteration. -/
inductive MainMoved (cfg : Config) (s t : State) : Prop where
  | kept : t.main = s.main → t.pick = s.pick → MainMoved cfg s t
  | returned (c : Call) (r : Reply c) (k : Reply c → Prog Loop) : s.main = .call c k →
      t.main = k r → outsidePossible ⟨c, r⟩ = true → t.pick = pickAfter s.pick ⟨c, r⟩ →
      MainMoved cfg s t
  | next (loop : Loop) : s.main = .done loop → t.main = iteration cfg loop →
      t.pick = (if loop.holdsRtdsStrike then s.pick else none) → MainMoved cfg s t

theorem Moved.main {cfg : Config} {M : Libm} {s t : State} {mv : Move} (h : Moved cfg M s mv t) :
    MainMoved cfg s t := by
  cases h with
  | elapse | receiveTicks | onTick | reconnect | feed => exact .kept rfl rfl
  | waits | begins | switches => exact .kept rfl rfl
  | answer _ c r k hmain hpossible => exact .returned (.outside c) r k hmain rfl hpossible rfl
  | rtdsDown boundaryMs slug k hmain =>
    exact .returned (.waitStrike boundaryMs slug) none k hmain rfl rfl rfl
  | strike boundaryMs slug k hmain =>
    exact .returned (.waitStrike boundaryMs slug) _ k hmain rfl rfl rfl
  | next loop hmain => exact .next loop hmain rfl rfl
  | steadyMs k hmain => exact .returned .steadyMs s.steadyMs k hmain rfl rfl rfl
  | switched o m k r hmain => exact .returned (.switchToken o m) r k hmain rfl rfl rfl
  | setMarketContext o m k hmain => exact .returned (.setMarketContext o m) () k hmain rfl rfl rfl
  | install slug epoch K k hmain => exact .returned (.install slug epoch K) () k hmain rfl rfl rfl

/-! ### The condition -/

/-- The earliest tick of the window, the first in the buffer among several. -/
def earliest? (boundaryMs : ℤ) (buffer : List Tick) : Option Tick :=
  (select boundaryMs kLivePipeRtdsMaxSkewMs buffer).after

/-- A strike is asked for at the start of the bucket that the slug names. While
one is held, ticks received leave the earliest tick of its window where it is, or
leave no tick of the window in the buffer. -/
def onTime (s : State) : Move → Bool
  | .main =>
    match s.main with
    | .call (.waitStrike boundaryMs slug) _ =>
      (parseBucketEpochFromSlug slug).all fun epoch => decide (boundaryMs = epoch * 1000)
    | _ => true
  | .receiveTicks batch => s.pick.all fun p =>
    let after := earliest? p.boundaryMs (pushTicks s.buffer batch)
    decide (after = none ∨ after = earliest? p.boundaryMs s.buffer)
  | _ => true

/-! ### The invariant -/

/-- The strike held is the earliest tick of its window as long as there is one. -/
structure Kept (buffer : List Tick) (p : Pick) : Prop where
  boundary : ∀ epoch, Names p.slug epoch → p.boundaryMs = epoch * 1000
  earliest : earliest? p.boundaryMs buffer = none ∨ earliest? p.boundaryMs buffer = some p.tick

structure StrikeInv (cfg : Config) (s : State) : Prop where
  forward : ∃ g, SafeFrom targetEnv (Forward cfg) (LoopOk cfg) s.main g
  picks : SafeFrom pickEnv InstallsPicked HoldsPicked s.main s.pick
  kept : ∀ p, s.pick = some p → Kept s.buffer p

section Invariant

variable {cfg : Config} {M : Libm} {s t : State} {mv : Move}

theorem MainMoved.forward (h : MainMoved cfg s t)
    (hs : ∃ g, SafeFrom targetEnv (Forward cfg) (LoopOk cfg) s.main g) :
    ∃ g, SafeFrom targetEnv (Forward cfg) (LoopOk cfg) t.main g := by
  obtain ⟨g, hs⟩ := hs
  cases h with
  | kept hmain =>
    rw [hmain]
    exact ⟨g, hs⟩
  | returned c r k hcall hmain hpossible =>
    rw [hcall] at hs
    rw [hmain]
    exact ⟨_, hs.2 r _ ⟨hpossible, rfl⟩⟩
  | next loop hdone hmain =>
    rw [hdone] at hs
    rw [hmain]
    exact ⟨g, forward_iteration hs⟩

/-- A loop that holds no strike from RTDS needs no pick. -/
theorem HoldsPicked.released {loop : Loop} {pick : Option Pick} (h : HoldsPicked pick loop) :
    HoldsPicked (if loop.holdsRtdsStrike then pick else none) loop := by
  split
  · exact h
  · rename_i hno
    intro n hn k hk hrtds
    have hholds : loop.holdsRtdsStrike = true := by
      rw [Loop.holdsRtdsStrike, hn, Option.any_some, hk, Option.any_some]
      exact hrtds
    exact absurd hholds hno

theorem MainMoved.picks (h : MainMoved cfg s t)
    (hs : SafeFrom pickEnv InstallsPicked HoldsPicked s.main s.pick) :
    SafeFrom pickEnv InstallsPicked HoldsPicked t.main t.pick := by
  cases h with
  | kept hmain hpick =>
    rw [hmain, hpick]
    exact hs
  | returned c r k hcall hmain hpossible hpick =>
    rw [hcall] at hs
    rw [hmain, hpick]
    exact hs.2 r _ ⟨hpossible, rfl⟩
  | next loop hdone hmain hpick =>
    rw [hdone] at hs
    rw [hmain, hpick]
    exact picks_iteration (HoldsPicked.released hs)

theorem kept_strike {boundaryMs : ℤ} {slug : String} {k : Option Tick → Prog Loop} {p : Pick}
    (hmain : s.main = .call (.waitStrike boundaryMs slug) k) (htime : onTime s .main = true)
    (hp : (s.strikeReply boundaryMs slug k ((select boundaryMs kLivePipeRtdsMaxSkewMs
      s.buffer).assignFallback boundaryMs kLivePipeRtdsMaxSkewMs)).pick = some p) :
    Kept s.buffer p := by
  obtain ⟨tick, htick, rfl⟩ := Option.map_eq_some_iff.mp hp
  simp only [onTime, hmain, Option.all_eq_true, decide_eq_true_eq] at htime
  exact ⟨fun epoch hnames => htime epoch hnames, TickSel.after_of_assignFallback htick⟩

theorem kept_ticks {batch : List Tick} {p : Pick} (h : Kept s.buffer p) (hp : s.pick = some p)
    (htime : onTime s (.receiveTicks batch) = true) : Kept (pushTicks s.buffer batch) p := by
  simp only [onTime, hp, Option.all_some, decide_eq_true_eq] at htime
  refine ⟨h.boundary, ?_⟩
  rcases htime with hnone | hsame
  · exact .inl hnone
  · rw [hsame]
    exact h.earliest

theorem StrikeInv.step (inv : StrikeInv cfg s) (h : Moved cfg M s mv t)
    (htime : onTime s mv = true) : StrikeInv cfg t := by
  refine ⟨h.main.forward inv.forward, h.main.picks inv.picks, ?_⟩
  intro p hp
  cases h with
  | receiveTicks batch => exact kept_ticks (inv.kept p hp) hp htime
  | reconnect => exact ⟨(inv.kept p hp).boundary, .inl rfl⟩
  | strike boundaryMs slug k hmain => exact kept_strike (s := s) hmain htime hp
  | rtdsDown => cases hp
  | install => cases hp
  | next loop hmain =>
    obtain ⟨-, hp⟩ := Option.ite_none_right_eq_some.mp hp
    exact inv.kept p hp
  | elapse | onTick | feed | answer | steadyMs | waits => exact inv.kept p hp
  | begins | switches | switched | setMarketContext => exact inv.kept p hp

theorem strikeInv_reachable
    (h : ((pipeline cfg M).restrict fun s mv => onTime s mv = true).Reachable s) :
    StrikeInv cfg s := by
  apply h.invariant
  · intro s hs
    have hforward := (inv_start (M := M) hs).main
    obtain ⟨tr, d, e, last, steady, buffer, -, -, -, -, rfl⟩ := hs
    exact ⟨⟨_, hforward⟩, nofun, nofun⟩
  · intro s mv t _ inv hst
    exact inv.step (apply_moved hst.1) hst.2

end Invariant

/-- The main thread is about to install a strike for a bucket. -/
def State.Installs (s : State) (epoch : ℤ) (k : Strike) : Prop :=
  ∃ slug rest, s.main = .call (.install slug epoch (some k)) rest

/-- In every run that is on time, a strike from RTDS that is installed while the
buffer has ticks of the bucket's first three minutes is the earliest of them. -/
theorem installed_strike_earliest {cfg : Config} {M : Libm} {s t : State} {epoch : ℤ} {k : Strike}
    (h : ((pipeline cfg M).restrict fun s mv => onTime s mv = true).Reachable s)
    (hinstalls : s.Installs epoch k) (hst : (pipeline cfg M).step s .main t)
    (hrtds : k.fromRtds = true)
    (hwindow : ∃ u ∈ s.buffer, InWindow (epoch * 1000) kLivePipeRtdsMaxSkewMs u) :
    t.hot.activeEpoch = epoch ∧ t.hot.K = some k ∧
      ∃ tick, Earliest (epoch * 1000) kLivePipeRtdsMaxSkewMs s.buffer tick ∧
        k.price = tick.px := by
  have inv := strikeInv_reachable h
  obtain ⟨slug, rest, hmain⟩ := hinstalls
  obtain ⟨u, hu, hin⟩ := hwindow
  obtain ⟨g, hforward⟩ := inv.forward
  have hpicks := inv.picks
  rw [hmain] at hforward hpicks
  obtain ⟨⟨-, hlater, hslug⟩, -⟩ := hforward
  obtain ⟨p, hp, hpslug, hprice⟩ := hpicks.1 k rfl hrtds
  have hkept := inv.kept p hp
  have hnames : Names p.slug epoch := by
    rw [hpslug, hslug k rfl]
    exact hlater.names
  have hfirst : earliest? (epoch * 1000) s.buffer = none ∨
      earliest? (epoch * 1000) s.buffer = some p.tick := by
    rw [← hkept.boundary epoch hnames]
    exact hkept.earliest
  have hafter := select_after (epoch * 1000) kLivePipeRtdsMaxSkewMs s.buffer
  have hhot : t.hot = s.hot.install slug epoch (some k) := by
    have happly := (Option.ite_none_left_eq_some.mp hst).2
    simp only [State.mainMove, hmain, Option.some.injEq] at happly
    rw [← happly]
  rw [hhot]
  refine ⟨rfl, rfl, p.tick, ?_, hprice.symm⟩
  rcases hfirst with hnone | hsome
  · rw [earliest?] at hnone
    rw [hnone] at hafter
    exact (hafter u hu hin).elim
  · rw [earliest?] at hsome
    rw [hsome] at hafter
    exact hafter

/-! ### Two runs -/

def tick494 : Tick := ⟨494000, 100, by norm_num⟩
def tick600 : Tick := ⟨600200, 101, by norm_num⟩
def tick601 : Tick := ⟨600900, 102, by norm_num⟩

/-- Gamma has no strike for bucket 600. -/
def noStrike600 (wallS : ℤ) : Move :=
  .answer (gammaReplies wallS fun e => if e = 300 then some 100 else none)

/-- At 480 s the next market is prefetched. -/
def prefetch600 : List Move := [.main, .main, noStrike600 480, noStrike600 480, .main]

def switchBoth : List Move := List.replicate 14 .main

def installsRtds (epoch : ℤ) (price : ℚ) (s : State) : Bool :=
  match s.main with
  | .call (.install _ e (some k)) _ => decide (e = epoch ∧ k.price = price ∧ k.fromRtds = true)
  | _ => false

theorem installs_of_check {epoch : ℤ} {price : ℚ} {s : State}
    (h : installsRtds epoch price s = true) :
    ∃ k, s.Installs epoch k ∧ k.price = price ∧ k.fromRtds = true := by
  unfold installsRtds at h
  split at h
  · rename_i slug e k rest hmain
    obtain ⟨rfl, hprice, hrtds⟩ := of_decide_eq_true h
    exact ⟨k, ⟨slug, rest, hmain⟩, hprice, hrtds⟩
  · cases h

/-- The prefetch finds no tick; the strike is the first tick after the boundary. -/
theorem strike_after_boundary :
    ∃ s t k, (pipeline config300 coarse).Reachable s ∧ s.Installs 600 k ∧ k.fromRtds = true ∧
      (pipeline config300 coarse).step s .main t ∧
      (∃ u ∈ s.buffer, InWindow (600 * 1000) kLivePipeRtdsMaxSkewMs u) ∧
      ∃ tick, Earliest (600 * 1000) kLivePipeRtdsMaxSkewMs s.buffer tick ∧
        k.price = tick.px := by
  obtain ⟨s, hr, hP⟩ := exists_pipeline_run onTime
    (prefetch600 ++ [.elapse 121000, .main, .receiveTicks [tick600, tick601]] ++
      [.main, .main, noStrike600 601, noStrike600 601, .main, .main] ++ switchBoth)
    (fun s => installsRtds 600 101 s && decide (tick600 ∈ s.buffer) &&
      onTime s .main && (s.apply config300 coarse .main).isSome)
    (by decide +kernel)
  simp only [Bool.and_eq_true, decide_eq_true_eq, Option.isSome_iff_exists] at hP
  obtain ⟨⟨⟨hinstalls, hmem⟩, -⟩, t, hst⟩ := hP
  obtain ⟨k, hinstalls, -, hrtds⟩ := installs_of_check hinstalls
  have hwindow : ∃ u ∈ s.buffer, InWindow (600 * 1000) kLivePipeRtdsMaxSkewMs u :=
    ⟨_, hmem, by decide, by decide⟩
  have hearliest := installed_strike_earliest hr hinstalls hst hrtds hwindow
  exact ⟨s, t, k, hr.of_restrict, hinstalls, hrtds, hst, hwindow, hearliest.2.2⟩

/-- The prefetch gives up at 495 s and takes the tick of 494 s, 106 s before the
bucket opens. At 601 s it is installed, with a tick of 600.2 s in the buffer. -/
theorem stale_strike_installed :
    ∃ s t k, (pipeline config300 coarse).Reachable s ∧ s.Installs 600 k ∧ k.fromRtds = true ∧
      (pipeline config300 coarse).step s .main t ∧
      (∃ u ∈ s.buffer, InWindow (600 * 1000) kLivePipeRtdsMaxSkewMs u) ∧
      ¬ ∃ tick, Earliest (600 * 1000) kLivePipeRtdsMaxSkewMs s.buffer tick ∧
        k.price = tick.px := by
  obtain ⟨s, hr, hP⟩ := exists_pipeline_run (fun _ _ => true)
    (prefetch600 ++ [.receiveTicks [tick494], .onTick, .elapse 15000, .main] ++
      [.elapse 106000, .receiveTicks [tick600], .main, .main, noStrike600 601] ++
      switchBoth)
    (fun s => installsRtds 600 100 s && decide (s.buffer = [tick494, tick600]) &&
      (s.apply config300 coarse .main).isSome)
    (by decide +kernel)
  simp only [Bool.and_eq_true, decide_eq_true_eq, Option.isSome_iff_exists] at hP
  obtain ⟨⟨hinstalls, hbuffer⟩, t, hst⟩ := hP
  obtain ⟨k, hinstalls, hprice, hrtds⟩ := installs_of_check hinstalls
  refine ⟨s, t, k, hr.of_restrict, hinstalls, hrtds, hst, ?_, ?_⟩
  · rw [hbuffer]
    exact ⟨_, List.mem_cons_of_mem _ List.mem_cons_self, by decide, by decide⟩
  · rintro ⟨tick, hearliest, heq⟩
    have hmem := hearliest.mem
    have hin := hearliest.inWindow
    rw [hbuffer] at hmem
    simp only [List.mem_cons, List.not_mem_nil, or_false] at hmem
    rcases hmem with rfl | rfl
    · exact absurd hin.1 (by decide)
    · rw [hprice] at heq
      exact absurd heq (by decide)

end LeadLag.Pipeline
