import LeadLag.Gamma.Monitor

/-!
# Switching both feeds (btc_poly_runner.cpp:3080-3092, ws_fixed_token_feed.cpp:333-379)

The monitor switches the Up feed, then the Down feed, and does not undo the
first when the second is refused. A running feed refuses only an empty token.
-/

namespace LeadLag.Gamma
open LeadLag.Core LeadLag.Execution LeadLag.Feeds LeadLag.Interaction LeadLag.Runner

/-- The two running feeds and the events pushed by the monitor. -/
structure Running where
  feed : Outcome → Feed
  pushed : List Rollover

def Running.setFeed (s : Running) (o : Outcome) (f : Feed) : Running :=
  { s with feed := Function.update s.feed o f }

/-- How the feeds and the queue answer the monitor; Gamma, the clocks, the strike
and `hot` answer anything. -/
def feedStep (s : Running) (o : Obs Reply) : Option Running :=
  match o with
  | ⟨.switchToken side tok, r⟩ =>
    match (s.feed side).switchToken tok with
    | some f => if r then some (s.setFeed side f) else none
    | none => if r then none else some s
  | ⟨.setMarketContext side slug epoch, _⟩ =>
    some (s.setFeed side ((s.feed side).setMarketContext slug epoch))
  | ⟨.pushRollover ev, _⟩ => some { s with pushed := s.pushed ++ [ev] }
  | _ => some s

def feedEnv (s : Running) (o : Obs Reply) (t : Running) : Prop := feedStep s o = some t

/-! ### Calls that leave the feeds alone -/

def Call.aside : Call → Prop
  | .switchToken .. | .setMarketContext .. | .pushRollover _ => False
  | _ => True

theorem feedEnv_aside {s t : Running} {o : Obs Reply} (h : feedEnv s o t) (ho : o.call.aside) :
    t = s := by
  obtain ⟨c, r⟩ := o
  cases c with
  | switchToken => exact ho.elim
  | setMarketContext => exact ho.elim
  | pushRollover => exact ho.elim
  | _ => exact (Option.some.inj h).symm

def Aside {A : Type} (p : Prog A) : Prop := Safe (fun _ => True) Call.aside (fun _ => True) p

section Aside
variable {A B : Type}

theorem aside_pure {a : A} : Aside (pure a : Prog A) := trivial

theorem aside_perform {c : Call} (hc : c.aside) : Aside (Prog.perform c) := ⟨hc, fun _ _ => trivial⟩

theorem aside_bind {p : Prog A} {f : A → Prog B} (hp : Aside p) (hf : ∀ a, Aside (f a)) :
    Aside (p >>= f) :=
  safe_bind.mpr (Safe.mono hp fun a _ => hf a)

theorem aside_orUncaught {o : Option A} : Aside (orUncaught o) := by
  cases o with
  | none => exact aside_bind (aside_perform trivial) fun r => r.elim
  | some a => exact aside_pure

theorem Aside.under {p : Prog A} {P : A → Prop} {s : Running} (h : Aside p) (hp : Returns p P) :
    Under feedEnv s p fun t a => t = s ∧ P a := by
  have hkept := Safe.under_kept (I := fun t => t = s) (h.and_returns hp)
    (fun _ _ _ hc henv hs => hs ▸ feedEnv_aside henv hc) rfl
  exact hkept.mono fun _ _ ht => ⟨ht.1, ht.2.2⟩

end Aside

section
variable {parse : String → Option Json}

theorem aside_strikeSource {event : Json} {slug : String} : Aside (strikeSource event slug) := by
  unfold strikeSource
  dsimp only
  split
  · exact aside_pure
  · refine aside_bind (aside_perform trivial) fun events => ?_
    split
    · split
      · exact aside_pure
      · exact aside_bind aside_orUncaught fun _ => aside_pure
    · exact aside_pure

theorem aside_validateAndExtract {event : Json} {slug : String}
    {out : BtcFiveMinuteBucketDiscovery} : Aside (validateAndExtract parse event slug out) := by
  unfold validateAndExtract
  refine aside_bind aside_orUncaught fun market => ?_
  split
  · exact aside_pure
  · exact aside_bind aside_strikeSource fun _ => aside_pure

theorem aside_trySlug {slug : String} {out : BtcFiveMinuteBucketDiscovery} :
    Aside (trySlug parse slug out) := by
  unfold trySlug
  refine aside_bind (aside_perform trivial) fun events => ?_
  split
  · split
    · exact aside_validateAndExtract
    · exact aside_pure
  · exact aside_pure

theorem aside_probeOffsets {nowS base : ℤ} {offsets : List ℤ}
    {out : BtcFiveMinuteBucketDiscovery} : Aside (probeOffsets parse nowS base offsets out) := by
  induction offsets generalizing out with
  | nil => exact aside_pure
  | cons off rest ih =>
    unfold probeOffsets
    refine aside_bind aside_trySlug ?_
    rintro ⟨found, out⟩
    dsimp only
    split
    · exact ih
    · split
      · exact ih
      · split
        · exact aside_pure
        · exact ih

theorem aside_findNext {nextEpoch : ℤ} : Aside (findNext parse nextEpoch) := by
  unfold findNext
  refine aside_bind aside_trySlug ?_
  rintro ⟨found, d2⟩
  dsimp only
  split
  · exact aside_pure
  · refine aside_bind (aside_bind (aside_perform trivial) fun _ => aside_probeOffsets) ?_
    rintro ⟨found, d2⟩
    dsimp only
    split
    · exact aside_pure
    · exact aside_pure

end

theorem aside_maybeFillStrikeRtds {d : BtcFiveMinuteBucketDiscovery} :
    Aside (maybeFillStrikeRtds d) := by
  unfold maybeFillStrikeRtds
  split
  · exact aside_pure
  split
  · exact aside_pure
  refine aside_bind (aside_perform trivial) fun px => ?_
  split
  · exact aside_pure
  · exact aside_pure

theorem aside_maybeFillStrikeWebThenRtds (webPtb : Bool) (d : BtcFiveMinuteBucketDiscovery) :
    Aside (maybeFillStrikeWebThenRtds webPtb d) := by
  unfold maybeFillStrikeWebThenRtds
  split
  · exact aside_pure
  split
  · refine aside_bind (aside_perform trivial) fun ptb => ?_
    split
    · exact aside_maybeFillStrikeRtds
    · exact aside_pure
  · exact aside_maybeFillStrikeRtds

/-! ### One rollover -/

/-- Both feeds are on the tokens of `d` under its labels, the monitor has advanced
and the event is in the queue. -/
structure RolledOver (s : Running) (m : Monitor) (d : BtcFiveMinuteBucketDiscovery) (t : Running)
    (m' : Monitor) : Prop where
  up : t.feed .up = { tokenId := d.upTokenId, quoteEventSlug := d.confirmedSlug
                      quoteMarketBucketEpoch := d.bucketEpochSeconds }
  down : t.feed .down = { tokenId := d.downTokenId, quoteEventSlug := d.confirmedSlug
                          quoteMarketBucketEpoch := d.bucketEpochSeconds }
  active : m'.activeEpoch = d.bucketEpochSeconds
  advances : m.nextEpoch ≤ m'.activeEpoch
  pushed : ∃ ev, t.pushed = s.pushed ++ [ev] ∧ ev.epoch = d.bucketEpochSeconds ∧
    ev.slug = d.confirmedSlug

def TokensKept (s t : Running) : Prop := ∀ o, (t.feed o).tokenId = (s.feed o).tokenId

def AllOrNothing (s : Running) (m : Monitor)
    (found : Option (Lookup × BtcFiveMinuteBucketDiscovery)) (t : Running) (m' : Monitor) : Prop :=
  (∃ how d, found = some (how, d) ∧ RolledOver s m d t m') ∨ TokensKept s t

/-- The Up feed was moved and the Down feed refused. -/
def HalfDone (s : Running) (m : Monitor) (d : BtcFiveMinuteBucketDiscovery) (t : Running)
    (m' : Monitor) : Prop :=
  d.upTokenId ≠ "" ∧ d.downTokenId = "" ∧ m' = m ∧
    t = s.setFeed .up { s.feed .up with tokenId := d.upTokenId }

theorem under_switchToken {s : Running} {o : Outcome} {tok : String} {Q : Running → Bool → Prop}
    (hempty : tok = "" → Q s false)
    (hswitched : tok ≠ "" → Q (s.setFeed o { s.feed o with tokenId := tok }) true) :
    Under feedEnv s (Prog.perform (Call.switchToken o tok)) Q := by
  refine under_perform.mpr fun r t henv => ?_
  by_cases htok : tok = ""
  · simp only [feedEnv, feedStep, Feed.switchToken, htok, ite_true] at henv
    cases r with
    | false =>
      cases henv
      exact hempty htok
    | true => cases henv
  · simp only [feedEnv, feedStep, Feed.switchToken, htok, ite_false] at henv
    cases r with
    | false => cases henv
    | true =>
      cases henv
      exact hswitched htok

theorem rollTo_outcome {webPtb : Bool} {s : Running} {m : Monitor}
    {d : BtcFiveMinuteBucketDiscovery} (hepoch : 0 ≤ d.bucketEpochSeconds)
    (hnext : m.nextEpoch ≤ d.bucketEpochSeconds) :
    Under feedEnv s (rollTo webPtb m d) fun t m' =>
      (d.upTokenId = "" ∧ t = s ∧ m' = m) ∨ HalfDone s m d t m' ∨
        (d.downTokenId ≠ "" ∧ RolledOver s m d t m') := by
  unfold rollTo
  refine under_bind.mpr
    (((aside_maybeFillStrikeWebThenRtds _ _).under maybeFillStrikeWebThenRtds_sameMarket).mono ?_)
  rintro _ d2 ⟨rfl, hslug, hbucket, hup, hdown⟩
  rename_i s
  refine under_bind.mpr (under_perform.mpr ?_)
  rintro quotes _ ⟨⟩
  refine under_bind.mpr (under_switchToken ?_ ?_)
  · intro hempty
    exact under_pure.mpr (.inl ⟨hup ▸ hempty, rfl, rfl⟩)
  intro hupTok
  refine under_bind.mpr (under_switchToken ?_ ?_)
  · intro hempty
    refine under_pure.mpr (.inr (.inl ⟨hup ▸ hupTok, hdown ▸ hempty, rfl, ?_⟩))
    rw [hup]
  intro hdownTok
  have hactive : epochOf d2.bucketEpochSeconds d2 = d.bucketEpochSeconds := by
    unfold epochOf
    rw [hbucket, if_neg (by omega)]
  simp only [Bool.not_true, Bool.false_eq_true, ite_false, hactive]
  refine under_bind.mpr (under_perform.mpr ?_)
  rintro _ _ ⟨⟩
  refine under_bind.mpr (under_perform.mpr ?_)
  rintro _ _ ⟨⟩
  refine under_bind.mpr (under_perform.mpr ?_)
  rintro _ _ ⟨⟩
  refine under_pure.mpr (.inr (.inr ⟨hdown ▸ hdownTok, ?_⟩))
  refine ⟨?_, ?_, rfl, hnext, ⟨_, rfl, hbucket, hslug⟩⟩
  · simp [Running.setFeed, Feed.setMarketContext, hup, hslug, hactive]
  · simp [Running.setFeed, Feed.setMarketContext, hdown, hslug, hactive]

theorem setFeed_up_kept {s : Running} {tok : String} (htok : tok = (s.feed .up).tokenId) :
    TokensKept s (s.setFeed .up { s.feed .up with tokenId := tok }) := by
  intro o
  cases o with
  | up => simp [Running.setFeed, htok]
  | down => simp [Running.setFeed]

theorem halfDone_not_allOrNothing {s t : Running} {m m' : Monitor} {how : Lookup}
    {d : BtcFiveMinuteBucketDiscovery} (h : HalfDone s m d t m')
    (hup : d.upTokenId ≠ (s.feed .up).tokenId) : ¬ AllOrNothing s m (some (how, d)) t m' := by
  obtain ⟨-, -, rfl, rfl⟩ := h
  rintro (⟨how, d', hd, hrolled⟩ | hkept)
  · have hle := hrolled.advances
    have hnext := m'.next_eq
    omega
  · have htok := hkept .up
    simp only [Running.setFeed, Function.update_self] at htok
    exact hup htok

theorem iteration_outcome {parse : String → Option Json} {webPtb : Bool} {s : Running}
    {m : Monitor} :
    Under feedEnv s (iteration parse webPtb m) fun t r =>
      (r.1 = none ∧ t = s) ∨ ∃ how d, r.1 = some (how, d) ∧
        ((d.upTokenId = "" ∧ t = s ∧ r.2 = m) ∨ HalfDone s m d t r.2 ∨
          (d.downTokenId ≠ "" ∧ RolledOver s m d t r.2)) := by
  unfold iteration
  refine under_bind.mpr (under_perform.mpr ?_)
  rintro nowMs _ ⟨⟩
  split
  · rename_i hnow
    have hnext : 0 ≤ m.nextEpoch := by
      rw [m.next_eq]
      omega
    have hfinds : Returns (findNext parse m.nextEpoch) fun r =>
        ∀ how d, r = some (how, d) → m.nextEpoch ≤ d.bucketEpochSeconds := by
      intro tr r hr how d hd
      exact (findNext_finds hnext tr r hr how d hd).next_le
    refine under_bind.mpr ((aside_findNext.under hfinds).mono ?_)
    rintro _ found ⟨rfl, hfound⟩
    rename_i s
    cases found with
    | none => exact under_pure.mpr (.inl ⟨rfl, rfl⟩)
    | some hit =>
      obtain ⟨how, d⟩ := hit
      have hle := hfound how d rfl
      refine under_bind.mpr ((rollTo_outcome (by omega) hle).mono ?_)
      intro t m' hout
      exact under_pure.mpr (.inr ⟨how, d, rfl, hout⟩)
  · exact under_pure.mpr (.inl ⟨rfl, rfl⟩)

/-- An iteration is all or nothing unless it finds an Up token, other than the Up
feed's, without a Down token. -/
theorem iteration_all_or_nothing_iff {parse : String → Option Json} {webPtb : Bool}
    {s t : Running} {m m' : Monitor} {found : Option (Lookup × BtcFiveMinuteBucketDiscovery)}
    {tr : Trace} (hx : Exec (iteration parse webPtb m) tr (found, m'))
    (he : Accepts feedEnv s tr t) :
    AllOrNothing s m found t m' ↔ ∀ how d, found = some (how, d) →
      d.upTokenId = "" ∨ d.downTokenId ≠ "" ∨ d.upTokenId = (s.feed .up).tokenId := by
  rcases iteration_outcome tr (found, m') t hx he with ⟨hnone, rfl⟩ | ⟨how, d, hfound, hout⟩
  · have hnone : found = none := hnone
    subst hnone
    exact ⟨fun _ _ _ => nofun, fun _ => .inr fun _ => rfl⟩
  have hfound : found = some (how, d) := hfound
  subst hfound
  rcases hout with ⟨hup, rfl, -⟩ | hhalf | ⟨hdown, hrolled⟩
  · constructor
    · rintro - _ _ ⟨⟩
      exact .inl hup
    · exact fun _ => .inr fun _ => rfl
  · constructor
    · rintro hall _ _ ⟨⟩
      by_cases hup : d.upTokenId = (s.feed .up).tokenId
      · exact .inr (.inr hup)
      · exact absurd hall (halfDone_not_allOrNothing hhalf hup)
    · intro h
      obtain ⟨hup, hdown, -, rfl⟩ := hhalf
      rcases h how d rfl with hup' | hdown' | hsame
      · exact absurd hup' hup
      · exact absurd hdown hdown'
      · exact .inr (setFeed_up_kept hsame)
  · constructor
    · rintro - _ _ ⟨⟩
      exact .inr (.inl hdown)
    · exact fun _ => .inl ⟨how, d, rfl, hrolled⟩

/-! ### Gamma's reply for bucket 600 -/

def event600 (up down : String) : Json :=
  .obj [("slug", .str "btc-updown-5m-600"), ("active", .bool true), ("closed", .bool false),
    ("markets", .arr [.obj [("slug", .str "btc-updown-5m-600"), ("active", .bool true),
      ("closed", .bool false), ("outcomes", .arr [.str "Up", .str "Down"]),
      ("clobTokenIds", .arr [.str up, .str down])]])]

/-- Nothing but the event is there: no strike, no quotes. -/
def script600 (nowMs : ℤ) (up down : String) (_ : ℕ) : (e : Call) → Option (Reply e)
  | .systemMs => some nowMs
  | .systemSeconds => some (nowMs.tdiv 1000)
  | .eventsBySlug slug =>
    some (if slug = "btc-updown-5m-600" then some [event600 up down] else none)
  | .eventsById _ => some none
  | .webPriceToBeat _ => some none
  | .waitStrike _ => some none
  | .hotQuotes => some (none, none)
  | .switchToken _ tok => some (decide (tok ≠ ""))
  | .setMarketContext .. => some ()
  | .pushRollover _ => some ()
  | .uncaught => none

def bucket300 : Monitor :=
  { currentSlug := "btc-updown-5m-300", activeEpoch := 300, nextEpoch := 600, next_eq := rfl }

def feeds300 : Running :=
  { feed := fun o => { tokenId := match o with | .up => "up-300" | .down => "down-300"
                       quoteEventSlug := "btc-updown-5m-300", quoteMarketBucketEpoch := 300 }
    pushed := [] }

theorem exists_iteration (nowMs : ℤ) (up down : String)
    (P : Option (Lookup × BtcFiveMinuteBucketDiscovery) × Monitor → Running → Bool)
    (h : ((iteration (fun _ => none) false bucket300).replay (script600 nowMs up down) 0).any
      (fun r => (runEnv feedStep feeds300 r.1).any fun t => P r.2 t) = true) :
    ∃ tr r t, Exec (iteration (fun _ => none) false bucket300) tr r ∧
      Accepts feedEnv feeds300 tr t ∧ P r t = true := by
  obtain ⟨⟨tr, r⟩, hr, ht⟩ := (Option.any_eq_true _ _).mp h
  obtain ⟨t, ht, hP⟩ := (Option.any_eq_true _ _).mp ht
  exact ⟨tr, r, t, exec_replay hr, accepts_of_runEnv (fun _ _ _ h => h) ht, hP⟩

theorem rollover_switches_both :
    ∃ tr found m' t how d, Exec (iteration (fun _ => none) false bucket300) tr (found, m') ∧
      Accepts feedEnv feeds300 tr t ∧ found = some (how, d) ∧ d.downTokenId = "down-600" ∧
      AllOrNothing feeds300 bucket300 found t m' := by
  obtain ⟨tr, ⟨found, m'⟩, t, hx, he, hP⟩ := exists_iteration 601000 "up-600" "down-600"
    (fun r _ => r.1.any fun (_, d) => d.downTokenId = "down-600") (by decide +kernel)
  obtain ⟨⟨how, d⟩, rfl, hdown⟩ := (Option.any_eq_true _ _).mp hP
  have hdown : d.downTokenId = "down-600" := of_decide_eq_true hdown
  refine ⟨tr, some (how, d), m', t, how, d, hx, he, rfl, hdown, ?_⟩
  refine (iteration_all_or_nothing_iff hx he).mpr ?_
  rintro _ _ ⟨⟩
  exact .inr (.inl (by rw [hdown]; decide))

/-- Gamma lists the Up token of the next bucket and an empty Down token. -/
theorem rollover_half_done :
    ∃ tr found m' t, Exec (iteration (fun _ => none) false bucket300) tr (found, m') ∧
      Accepts feedEnv feeds300 tr t ∧ (t.feed .up).tokenId = "up-600" ∧
      (t.feed .down).tokenId = "down-300" ∧ t.pushed = [] ∧
      ¬ AllOrNothing feeds300 bucket300 found t m' := by
  obtain ⟨tr, ⟨found, m'⟩, t, hx, he, hP⟩ := exists_iteration 601000 "up-600" ""
    (fun _ t => decide ((t.feed .up).tokenId = "up-600" ∧ (t.feed .down).tokenId = "down-300" ∧
      t.pushed = [])) (by decide +kernel)
  obtain ⟨hup, hdown, hpushed⟩ := of_decide_eq_true hP
  refine ⟨tr, found, m', t, hx, he, hup, hdown, hpushed, ?_⟩
  rintro (⟨how, d, -, hrolled⟩ | hkept)
  · obtain ⟨ev, hev, -⟩ := hrolled.pushed
    simp [hpushed, feeds300] at hev
  · have htok : (t.feed .up).tokenId = "up-300" := hkept .up
    rw [hup] at htok
    exact absurd htok (by decide)

end LeadLag.Gamma
