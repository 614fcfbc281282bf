import LeadLag.Interaction.Runs
import LeadLag.Paper.Trading

/-!
# Runs of the paper consumer (btc_poly_runner.cpp:2162-2263, 2325-2850)

One event is taken from the queue at a time, and a tick or a quote is stored before
`on_hot_update(true)` runs. What a tick does to the history and to sigma is left open
(`ingestSpot` is one possibility), and `theo` is any function of the hot state: neither
matters for the account, and so every value of the options that decide them is covered.
-/

namespace LeadLag.Paper
open LeadLag.Core LeadLag.Execution LeadLag.Interaction
open LeadLag.Runner (HotState SpotTick SpotFrame Libm Config)

/-- `update` carries the two readings of the clock and the token id of the feed. The idle
timer changes nothing and is left out. -/
inductive Event where
  | spot (hot : HotState)
  | quote (q : Quote)
  | rollover (ev : Rollover)
  | startup (slug : String) (epoch : ℤ) (priceToBeat : Option ℚ) (enable : Bool)
  | update (now due : ℤ) (tok : String)

namespace Consumer

def storeSide (q : Quote) (c : Consumer) : Consumer :=
  match q.outcome with
  | some .up => { c with up := some q }
  | some .down => { c with down := some q }
  | none => c

def adoptBucket (q : Quote) (c : Consumer) : Consumer :=
  if 0 ≤ q.marketBucketEpoch ∧ c.hot.activeEpoch < 0 then
    { c with hot := { c.hot.withEdges (-1) (-1) with
        activeEpoch := q.marketBucketEpoch, slug := q.eventSlug } }
  else c

def storeQuote (q : Quote) (c : Consumer) : Consumer :=
  { (c.storeSide q).adoptBucket q with updateDue := true }

def started (slug : String) (epoch : ℤ) (priceToBeat : Option ℚ) (enable : Bool)
    (c : Consumer) : Consumer :=
  { c with
    hot := { c.hot with slug := slug, activeEpoch := epoch, K := priceToBeat.filter (0 < ·) }
    tradingEnabled := enable }

def updateDone (c : Consumer) : Consumer := { c with updateDue := false }

end Consumer

theorem spotFrame_iff {h h' : HotState} : SpotFrame h h' ↔
    h'.activeEpoch = h.activeEpoch ∧ h'.slug = h.slug ∧ h'.K = h.K ∧ h'.up = h.up ∧
      h'.down = h.down ∧ h'.edgeUpOkSinceMonoNs = h.edgeUpOkSinceMonoNs ∧
      h'.edgeDnOkSinceMonoNs = h.edgeDnOkSinceMonoNs := by
  constructor
  · intro f
    exact ⟨f.activeEpoch, f.slug, f.K, f.up, f.down, f.edgeUp, f.edgeDn⟩
  · intro f
    obtain ⟨hepoch, hslug, hK, hup, hdown, hedgeUp, hedgeDn⟩ := f
    exact ⟨hepoch, hslug, hK, hup, hdown, hedgeUp, hedgeDn⟩

instance (h h' : HotState) : Decidable (SpotFrame h h') := decidable_of_iff _ spotFrame_iff.symm

section Runs

variable (opts : Options) (theo : HotState → Outcome → Double)

def onHotUpdate (now due : ℤ) (tok : String) (c : Consumer) : Consumer :=
  match c.view? with
  | none => c
  | some v =>
    if c.tradingEnabled then
      let scheduled := scheduleAt opts v (theo c.hot) now c
      executeDueAt opts v (theo scheduled.hot) due tok scheduled
    else c

/-- `none` where the event cannot come next. -/
def next (c : Consumer) : Event → Option Consumer
  | .spot h => if !c.updateDue ∧ SpotFrame c.hot h then
      some { c with hot := h, updateDue := true } else none
  | .quote q => if c.updateDue then none else some (c.storeQuote q)
  | .rollover ev => if c.updateDue then none else some (c.onRollover opts ev)
  | .startup slug epoch priceToBeat enable =>
    if c.updateDue || c.tradingEnabled then none
    else some (c.started slug epoch priceToBeat enable)
  | .update now due tok =>
    if c.updateDue then some (onHotUpdate opts theo now due tok c.updateDone) else none

def paper : Lts Consumer Event where
  init c := ∃ hist, c = .start opts hist
  step c e c' := next opts theo c e = some c'

/-! ### What a step can do -/

variable {opts theo}

inductive Next (opts : Options) (theo : HotState → Outcome → Double) (c : Consumer) :
    Event → Consumer → Prop
  | spot (h : HotState) : SpotFrame c.hot h →
      Next opts theo c (.spot h) { c with hot := h, updateDue := true }
  | quote (q : Quote) : Next opts theo c (.quote q) (c.storeQuote q)
  | rollover (ev : Rollover) : Next opts theo c (.rollover ev) (c.onRollover opts ev)
  | startup (slug : String) (epoch : ℤ) (priceToBeat : Option ℚ) (enable : Bool) :
      c.tradingEnabled = false → Next opts theo c (.startup slug epoch priceToBeat enable)
        (c.started slug epoch priceToBeat enable)
  | skipped (now due : ℤ) (tok : String) : Next opts theo c (.update now due tok) c.updateDone
  | traded (now due : ℤ) (tok : String) (v : View) (c₁ c₂ : Consumer) :
      c.view? = some v → c.tradingEnabled = true → Scheduled c.updateDone c₁ →
      Executed opts v (theo c₁.hot) c₁ c₂ → Next opts theo c (.update now due tok) c₂

theorem next_cases {c c' : Consumer} {e : Event} (h : next opts theo c e = some c') :
    Next opts theo c e c' := by
  cases e with
  | spot hot =>
    obtain ⟨hok, heq⟩ := Option.ite_none_right_eq_some.mp h
    cases heq
    exact .spot hot hok.2
  | quote q =>
    obtain ⟨-, heq⟩ := Option.ite_none_left_eq_some.mp h
    cases heq
    exact .quote q
  | rollover ev =>
    obtain ⟨-, heq⟩ := Option.ite_none_left_eq_some.mp h
    cases heq
    exact .rollover ev
  | startup slug epoch priceToBeat enable =>
    obtain ⟨hok, heq⟩ := Option.ite_none_left_eq_some.mp h
    cases heq
    simp only [Bool.or_eq_true, not_or, Bool.not_eq_true] at hok
    exact .startup slug epoch priceToBeat enable hok.2
  | update now due tok =>
    obtain ⟨-, heq⟩ := Option.ite_none_right_eq_some.mp h
    cases heq
    unfold onHotUpdate
    split
    · exact .skipped now due tok
    · rename_i v hv
      split
      · rename_i hen
        exact .traded now due tok v _ _ hv hen (scheduleAt_cases opts v _ now c.updateDone)
          (executeDueAt_cases opts v _ due tok _)
      · exact .skipped now due tok

theorem storeQuote_frame (q : Quote) (c : Consumer) :
    (c.storeQuote q).paper = c.paper ∧ (c.storeQuote q).trades = c.trades ∧
      (c.storeQuote q).tradingEnabled = c.tradingEnabled ∧
      (0 ≤ c.hot.activeEpoch → (c.storeQuote q).hot = c.hot) := by
  have hside : (c.storeSide q).paper = c.paper ∧ (c.storeSide q).trades = c.trades ∧
      (c.storeSide q).tradingEnabled = c.tradingEnabled ∧ (c.storeSide q).hot = c.hot := by
    unfold Consumer.storeSide
    split
    · exact ⟨rfl, rfl, rfl, rfl⟩
    · exact ⟨rfl, rfl, rfl, rfl⟩
    · exact ⟨rfl, rfl, rfl, rfl⟩
  obtain ⟨hpaper, htrades, henabled, hhot⟩ := hside
  simp only [Consumer.storeQuote, Consumer.adoptBucket]
  split
  · rename_i hadopt
    rw [hhot] at hadopt
    exact ⟨hpaper, htrades, henabled, fun he => by omega⟩
  · exact ⟨hpaper, htrades, henabled, fun _ => hhot⟩

/-- What `ingestSpot` makes of a tick is a step. -/
theorem next_ingestSpot {M : Libm} {cfg : Config} {tick : SpotTick} {c : Consumer}
    (hdue : c.updateDue = false) :
    Returns (Runner.ingestSpot M cfg tick c.hot) fun h =>
      next opts theo c (.spot h) = some { c with hot := h, updateDue := true } :=
  (Runner.ingestSpot_frame M cfg tick c.hot).mono fun h hframe =>
    if_pos ⟨by rw [hdue]; rfl, hframe⟩

/-! ### Computed runs -/

variable (opts theo)

/-- The state after `es`, where `check` holds at every step. -/
def replay (check : Consumer → Event → Bool) (c : Consumer) (es : List Event) :
    Option Consumer :=
  es.foldlM (fun c e => if check c e then next opts theo c e else none) c

variable {P : Consumer → Event → Prop} (check : Consumer → Event → Bool)

theorem replay_run (hP : ∀ c e, check c e = true → P c e) {c c' : Consumer} {es : List Event}
    (h : replay opts theo check c es = some c') : ((paper opts theo).restrict P).Run c es c' := by
  induction es generalizing c with
  | nil =>
    cases h
    exact .nil
  | cons e es ih =>
    obtain ⟨c₁, hstep, hrest⟩ := Option.bind_eq_some_iff.mp h
    obtain ⟨hcheck, hnext⟩ := Option.ite_none_right_eq_some.mp hstep
    exact Lts.run_cons.mpr ⟨c₁, ⟨hnext, hP c e hcheck⟩, ih hrest⟩

theorem exists_reachable_of_replay (hP : ∀ c e, check c e = true → P c e) (es : List Event)
    (Q : Consumer → Bool) (h : (replay opts theo check (.start opts []) es).any Q = true) :
    ∃ c, ((paper opts theo).restrict P).Reachable c ∧ Q c = true := by
  obtain ⟨c, hrun, hQ⟩ := (Option.any_eq_true _ _).mp h
  exact ⟨c, (replay_run opts theo check hP hrun).reachable (.init ⟨[], rfl⟩), hQ⟩

end Runs

/-- The theo prices of the digital option formula, NaN where its value is. -/
def digitalTheo (M : Libm) (cfg : Config) (h : HotState) (o : Outcome) : Double :=
  match h.bin, h.K with
  | some bin, some K =>
    match (Runner.theoPrices M cfg h.activeEpoch bin.wallMs bin.mid K h.sigmaBucket).of o with
    | some x => .round x
    | none => .nan
  | _, _ => .nan

/-- Bucket 300 opens at strike 100, the spot is 110, and Up is bid at `bid` and offered
at 0.8. The update that follows is due to buy it. -/
def signalUp (bid : ℚ) : List Event :=
  [.startup "btc-0" 0 (some 100) false,
   .rollover { epoch := 300, slug := "btc-300", priceToBeat := some 100, up := none, down := none },
   .spot { activeEpoch := 300, slug := "btc-300", K := some 100, binHist := [(300500, 110)]
           bin := some { mid := 110, wallMs := 300500, entryClockWallMs := 300500 } },
   .update 0 0 "",
   .quote { eventSlug := "btc-300", marketBucketEpoch := 300, outcome := some .down
            bestBid := ((18 / 100 : ℚ) : TokenFeed.Price)
            bestAsk := ((2 / 10 : ℚ) : TokenFeed.Price) },
   .update 0 0 "",
   .quote { eventSlug := "btc-300", marketBucketEpoch := 300, outcome := some .up
            bestBid := (bid : TokenFeed.Price), bestAsk := ((8 / 10 : ℚ) : TokenFeed.Price) }]

def quickEntry : Options := { useEntryElapsedWindow := false, edgePersistMs := 0 }

end LeadLag.Paper
