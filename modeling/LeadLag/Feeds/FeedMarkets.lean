import LeadLag.Feeds.Threads

/-!
# The market a feed is on

The monitor switches the feeds before its Rollover reaches the consumer, so in
between a feed is already on the next market. Elsewhere it is on the market of
`hot.slug`.
-/

namespace LeadLag.Feeds
open LeadLag.Execution LeadLag.Interaction LeadLag.Runner

/-! ### The market a feed is on -/

def nextSlug (slug : String) : Event → String
  | .rollover ev => ev.slug
  | _ => slug

def Thread.slug : Thread → String
  | .idle c => c.hot.slug
  | .busy c (some e) _ => nextSlug c.hot.slug e
  | .busy c none _ => c.hot.slug

def Monitor.switched : Monitor → Outcome → Option Discovery
  | .polling, _ => none
  | .rolling .discovered _ _, _ => none
  | .rolling .upSwitched d _, .up => some d
  | .rolling .upSwitched _ _, .down => none
  | .rolling _ d _, _ => some d

def System.pushedSlug (s : System) : String := s.queue.foldl nextSlug s.thread.slug

def System.feedSlug (s : System) (o : Outcome) : String :=
  ((s.monitor.switched o).map Discovery.confirmedSlug).getD s.pushedSlug

def isRollover : Event → Bool
  | .rollover _ => true
  | _ => false

def Thread.rollsOver : Thread → Bool
  | .busy _ (some e) _ => isRollover e
  | _ => false

def System.settled (s : System) (o : Outcome) : Bool :=
  (s.monitor.switched o).isNone && s.queue.all (fun e => !isRollover e) && !s.thread.rollsOver

theorem nextSlug_of_not {e : Event} (h : isRollover e = false) (slug : String) :
    nextSlug slug e = slug := by
  cases e with
  | rollover => cases h
  | _ => rfl

theorem foldl_nextSlug {queue : List Event} (h : ∀ e ∈ queue, isRollover e = false)
    (slug : String) : queue.foldl nextSlug slug = slug := by
  induction queue with
  | nil => rfl
  | cons e rest ih =>
    rw [List.foldl_cons, nextSlug_of_not (h e List.mem_cons_self)]
    exact ih fun e' he' => h e' (List.mem_cons_of_mem e he')

theorem feedSlug_settled {s : System} {o : Outcome} (h : s.settled o = true) {c : Consumer}
    {work : Option Event} {p : Prog Consumer} (hs : s.thread = .busy c work p) :
    s.feedSlug o = c.hot.slug := by
  simp only [System.settled, Bool.and_eq_true, Bool.not_eq_true', Option.isNone_iff_eq_none,
    List.all_eq_true] at h
  obtain ⟨⟨hm, hq⟩, hr⟩ := h
  have hthread : s.thread.slug = c.hot.slug := by
    rw [hs] at hr ⊢
    cases work with
    | none => rfl
    | some e =>
      exact nextSlug_of_not hr _
  rw [System.feedSlug, hm, System.pushedSlug, foldl_nextSlug hq]
  exact hthread

/-! ### The steps allowed -/

/-- A token is read on a settled side only, and Gamma does not list Up without
Down: then the monitor would leave Up switched and push nothing. -/
def allowed (s : System) : Move → Bool
  | .call _ =>
    match s.thread with
    | .busy _ _ (.call (.tokenId o) _) => s.settled o
    | _ => true
  | .discover d _ _ => decide (d.upTokenId ≠ "" → d.downTokenId ≠ "")
  | _ => true

/-! ### The function under way -/

section Running

variable (market : String → Outcome → String) (c : Consumer)

def BuyOfMarket (oi : OrderIntent) : Prop :=
  oi.side = .buy → ∃ o q, c.hot.book o = some q ∧ oi.marketWorstPrice = q.bestAsk ∧
    oi.marketTokenId = market c.hot.slug o

def OpenedInMarket (c' : Consumer) : Prop :=
  c.paper.havePos = false → c'.paper.havePos = true →
    ∃ o r, c'.trades = .buy r :: c.trades ∧ r.slug = c.hot.slug ∧ r.side = some o ∧
      r.tokenId = market c.hot.slug o ∧ c'.paper.tokenId = r.tokenId

/-- What the rest of the function still guarantees, as long as the feeds answer
with the tokens of that market. -/
structure Running (slug : String) (p : Prog Consumer) : Prop where
  orders : SafeOrders (fun o tok => tok = market c.hot.slug o) (BuyOfMarket market c)
    (OpenedInMarket market c) p
  result : Returns p fun c' => 0 ≤ c'.hot.activeEpoch ∧ SideInv c' ∧ c'.hot.slug = slug

end Running

theorem executed_opened {M : Libm} {cfg : Config} {c c' : Consumer}
    (h : Executed M cfg c c') (hn : c.paper.havePos = false) (hn' : c'.paper.havePos = true) :
    c.paper.pending = true ∧ c.paper.pendingAction = some .buy ∧
      ∃ r, c'.trades = .buy r :: c.trades ∧ r.slug = c.hot.slug ∧ r.side = c.paper.pendingSide ∧
        c'.paper.tokenId = r.tokenId := by
  have closed {P : Prop} (h : c.paper.havePos = true) : P := absurd (hn.symm.trans h) nofun
  cases h with
  | kept | cleared | unknown | riskBlocked | failed | failedRow => exact closed hn'
  | flattened _ _ _ hpos | stopIncomplete _ _ _ _ _ _ hpos | soldByStop _ _ _ _ _ _ hpos =>
    exact closed hpos
  | soldAtBid _ _ _ _ _ hpos => exact closed hpos
  | bought v plan fill tok hp ha _ hv =>
    exact ⟨hp, ha, _, rfl, (HotState.view?_spec hv).slug, rfl, rfl⟩

section Start

variable {market : String → Outcome → String} {M : Libm} {cfg : Config} {c : Consumer}

theorem running_update (he : 0 ≤ c.hot.activeEpoch) (hside : SideInv c) :
    Running market c c.hot.slug (c.updateDone.onHotUpdate M cfg) where
  orders := by
    refine (onHotUpdate_safe.weaken (fun _ h => h) fun e h => onSubmit_mono ?_ h).mono ?_
    · rintro oi ⟨c₁, hsame, hfor⟩ hbuy
      obtain ⟨q, hq, hprice⟩ := hfor.price
      have htok := hfor.token
      simp only [TokenOf, hbuy] at htok
      simp only [WorstPriceFrom, hbuy] at hprice
      exact ⟨c₁.paper.orderOutcome, q, (hsame.book _).symm.trans hq, hprice, htok.2⟩
    · rintro c' ⟨c₁, hsame, hopen, hexec⟩ hn hn'
      have hn₁ : c₁.paper.havePos = false := hsame.havePos.trans hn
      obtain ⟨hp, ha, r, hrow, hslug, hrside, htok⟩ := executed_opened hexec hn₁ hn'
      obtain ⟨o, ho⟩ := (hsame.sides hside.updateDone).buy hp ha
      have hmarket : c'.paper.tokenId = market c.hot.slug c₁.paper.pendingOutcome := hopen hn₁ hn'
      rw [PaperState.pendingOutcome_of_side ho] at hmarket
      have htrades : c₁.trades = c.trades := hsame.trades
      exact ⟨o, r, htrades ▸ hrow, hslug.trans hsame.slug, hrside.trans ho,
        htok.symm.trans hmarket, htok⟩
  result := by
    have hupdated := onHotUpdate_updated M cfg c.updateDone
    refine hupdated.mono fun c' h => ⟨?_, (sideInv_runner M cfg).updated hside.updateDone h, ?_⟩
    · obtain ⟨a, b, hhot⟩ := h.hot
      rw [hhot]
      exact he
    · obtain ⟨a, b, hhot⟩ := h.hot
      rw [hhot]
      rfl

def Queued : Event → Prop
  | .rollover ev => 0 ≤ ev.epoch
  | .startup .. => False
  | _ => True

theorem spot_queued {e : Event} (h : e.isSpot = true) : Queued e ∧ isRollover e = false := by
  cases e with
  | rollover | startup => cases h
  | _ => exact ⟨trivial, rfl⟩

theorem taken_opens_nothing {c' : Consumer} {e : Event} (h : Taken cfg c e c')
    (hn : c.paper.havePos = false) : c'.paper.havePos = false := by
  have closed {P : Prop} (h : c.paper.havePos = true) : P := absurd (hn.symm.trans h) nofun
  cases h with
  | spot | quote | idle | startup => exact hn
  | rollover ev c₁ hf =>
    cases hf with
    | noPosition => exact hn
    | carried hpos | kept _ hpos | nothingLeft _ hpos | paperZero hpos | sold _ _ hpos =>
      exact closed hpos

theorem taken_bucket {c' : Consumer} {e : Event} (h : Taken cfg c e c')
    (he : 0 ≤ c.hot.activeEpoch) (hq : Queued e) :
    0 ≤ c'.hot.activeEpoch ∧ c'.hot.slug = nextSlug c.hot.slug e := by
  cases h with
  | spot h f hspot =>
    have hepoch : h.activeEpoch = c.hot.activeEpoch := f.activeEpoch
    have hslug : h.slug = c.hot.slug := f.slug
    rw [nextSlug_of_not (spot_queued hspot).2]
    exact ⟨hepoch ▸ he, hslug⟩
  | quote q =>
    obtain ⟨hepoch, hslug⟩ := HotState.storeQuote_bucket q he
    exact ⟨hepoch ▸ he, hslug⟩
  | rollover ev c₁ hf => exact ⟨hq, rfl⟩
  | idle => exact ⟨he, rfl⟩
  | startup => exact absurd hq id

theorem running_take {e : Event} (he : 0 ≤ c.hot.activeEpoch) (hside : SideInv c)
    (hq : Queued e) : Running market c (nextSlug c.hot.slug e) (c.take M cfg e) where
  orders := by
    have hsafe : SafeOrders (fun o tok => tok = market c.hot.slug o) (BuyOfMarket market c)
        (fun _ => True) (c.take M cfg e) := take_orders fun _ _ _ h => nomatch h
    refine (hsafe.and_returns (take_taken M cfg c e)).mono fun c' h hn hn' => ?_
    have hflat : c'.paper.havePos = false := taken_opens_nothing h.2 hn
    rw [hflat] at hn'
    cases hn'
  result := by
    have hstart : e.isStartup = true → c.tradingEnabled = false := by
      cases e with
      | startup => exact absurd hq id
      | _ => exact nofun
    refine (take_taken M cfg c e).mono fun c' h => ?_
    obtain ⟨hepoch, hslug⟩ := taken_bucket h he hq
    exact ⟨hepoch, (sideInv_runner M cfg).taken hside hstart h, hslug⟩

end Start

/-! ### The invariant -/

def ThreadOk (market : String → Outcome → String) : Thread → Prop
  | .idle c => 0 ≤ c.hot.activeEpoch ∧ SideInv c
  | .busy c work p => Running market c (Thread.busy c work p).slug p

structure RollingOk (market : String → Outcome → String) (stage : Stage) (d : Discovery)
    (ev : Rollover) : Prop where
  epoch : 0 ≤ d.bucketEpochSeconds
  evSlug : ev.slug = d.confirmedSlug
  evEpoch : ev.epoch = d.bucketEpochSeconds
  ofMarket : d.ofMarket market = true
  both : d.upTokenId ≠ "" → d.downTokenId ≠ ""
  up : stage ≠ .discovered → d.upTokenId ≠ ""

def MonitorOk (market : String → Outcome → String) : Monitor → Prop
  | .polling => True
  | .rolling stage d ev => RollingOk market stage d ev

structure ThreadsInv (market : String → Outcome → String) (s : System) : Prop where
  thread : ThreadOk market s.thread
  queue : ∀ e ∈ s.queue, Queued e
  monitor : MonitorOk market s.monitor
  nextEpoch : 0 ≤ s.nextEpoch
  feeds : ∀ o, (s.feed o).tokenId = market (s.feedSlug o) o

section Steps

variable {market : String → Outcome → String} {M : Libm} {cfg : Config} {s t : System}

theorem ThreadsInv.kept (inv : ThreadsInv market s) (hthread : ThreadOk market t.thread)
    (hqueue : ∀ e ∈ t.queue, Queued e) (hfeed : t.feed = s.feed) (hm : t.monitor = s.monitor)
    (hn : t.nextEpoch = s.nextEpoch) (hp : t.pushedSlug = s.pushedSlug) :
    ThreadsInv market t where
  thread := hthread
  queue := hqueue
  monitor := hm ▸ inv.monitor
  nextEpoch := hn ▸ inv.nextEpoch
  feeds o := by
    have hslug : t.feedSlug o = s.feedSlug o := by
      rw [System.feedSlug, System.feedSlug, hm, hp]
    rw [hfeed, hslug]
    exact inv.feeds o

theorem startWork_inv (inv : ThreadsInv market s) {e : Event} {queue : List Event}
    (hq : Queued e) (hsub : ∀ e ∈ queue, e ∈ s.queue)
    (hslug : ∀ slug, queue.foldl nextSlug (nextSlug slug e) = s.queue.foldl nextSlug slug)
    (h : s.startWork M cfg e queue = some t) : ThreadsInv market t := by
  unfold System.startWork at h
  split at h
  · rename_i c hc
    split at h
    · cases h
    · cases h
      have hidle := inv.thread
      rw [hc] at hidle
      refine inv.kept (running_take hidle.1 hidle.2 hq) (fun e he => inv.queue e (hsub e he))
        rfl rfl rfl ?_
      simp only [System.pushedSlug, hc]
      exact hslug c.hot.slug
  · cases h

theorem running_call {c : Consumer} {slug : String} {e : Call} {k : Reply e → Prog Consumer}
    (h : Running market c slug (.call e k)) (r : Reply e)
    (hr : onToken (fun o tok => tok = market c.hot.slug o) ⟨e, r⟩) :
    Running market c slug (k r) :=
  ⟨h.orders.2 r hr, fun _ a hx => h.result _ a (.call r hx)⟩

theorem update_inv (inv : ThreadsInv market s) (h : s.consume M cfg .update = some t) :
    ThreadsInv market t := by
  simp only [System.consume] at h
  split at h
  · rename_i c hc
    split at h
    · cases h
      have hidle := inv.thread
      rw [hc] at hidle
      have hslug : (Thread.busy c none (c.updateDone.onHotUpdate M cfg)).slug = s.thread.slug := by
        rw [hc]
        rfl
      refine inv.kept (running_update hidle.1 hidle.2) inv.queue rfl rfl rfl ?_
      simp only [System.pushedSlug, hslug]
    · cases h
  · cases h

/-- The feed's own answer is the token of its side in the market of `hot.slug`. -/
theorem answer_onToken (inv : ThreadsInv market s) {c : Consumer} {work : Option Event} {e : Call}
    {k : Reply e → Prog Consumer} {script : (e : Call) → Option (Reply e)} {r : Reply e}
    (hc : s.thread = .busy c work (.call e k)) (hm : allowed s (.call script) = true)
    (hr : s.answer script e = some r) :
    onToken (fun o tok => tok = market c.hot.slug o) ⟨e, r⟩ := by
  cases e with
  | tokenId o =>
    simp only [allowed, hc] at hm
    have hfeed := inv.feeds o
    rw [feedSlug_settled hm hc] at hfeed
    cases hr
    exact hfeed
  | _ => trivial

theorem call_inv (inv : ThreadsInv market s) {script : (e : Call) → Option (Reply e)}
    (hm : allowed s (.call script) = true) (h : s.consume M cfg (.call script) = some t) :
    ThreadsInv market t := by
  simp only [System.consume] at h
  split at h
  · rename_i c work e k hc
    obtain ⟨r, hr, rfl⟩ := Option.map_eq_some_iff.mp h
    have hbusy := inv.thread
    rw [hc] at hbusy
    have hslug : (Thread.busy c work (k r)).slug = s.thread.slug := by
      rw [hc]
      cases work <;> rfl
    have hrun := running_call hbusy r (answer_onToken inv hc hm hr)
    rw [← hc, ← hslug] at hrun
    refine inv.kept hrun inv.queue rfl rfl rfl ?_
    simp only [System.pushedSlug, hslug]
  · cases h

theorem finish_inv (inv : ThreadsInv market s) (h : s.consume M cfg .finish = some t) :
    ThreadsInv market t := by
  simp only [System.consume] at h
  split at h
  · rename_i c work c' hc
    cases h
    have hbusy := inv.thread
    rw [hc] at hbusy
    obtain ⟨hepoch, hside, hslug⟩ := hbusy.result [] c' (.done c')
    refine inv.kept ⟨hepoch, hside⟩ inv.queue rfl rfl rfl ?_
    simp only [System.pushedSlug, hc, ← hslug]
    rfl
  · cases h

theorem consume_inv (inv : ThreadsInv market s) {m : Move} (hm : allowed s m = true)
    (h : s.consume M cfg m = some t) : ThreadsInv market t := by
  cases m with
  | take =>
    simp only [System.consume] at h
    split at h
    · cases h
    · rename_i e rest hq
      have hqueued : Queued e := inv.queue e (by simp [hq])
      refine startWork_inv inv hqueued ?_ ?_ h
      · intro e' he'
        rw [hq]
        exact List.mem_cons_of_mem e he'
      · intro slug
        rw [hq, List.foldl_cons]
  | timeout =>
    have hidle : Queued .idle := trivial
    exact startWork_inv inv hidle (fun _ he => he) (fun _ => rfl) h
  | update => exact update_inv inv h
  | call script => exact call_inv inv hm h
  | finish => exact finish_inv inv h
  | _ => cases h

theorem pushed_inv (inv : ThreadsInv market s) {e : Event} (he : Queued e)
    (hnot : isRollover e = false) {sending : List Quote} :
    ThreadsInv market { s with queue := s.queue ++ [e], sending := sending } := by
  refine inv.kept inv.thread ?_ rfl rfl rfl ?_
  · intro e' he'
    rcases List.mem_append.mp he' with he' | he'
    · exact inv.queue e' he'
    · obtain rfl := List.mem_singleton.mp he'
      exact he
  · simp only [System.pushedSlug, List.foldl_append, List.foldl_cons, List.foldl_nil,
      nextSlug_of_not hnot]

theorem supply_inv (inv : ThreadsInv market s) {m : Move} (h : s.supply m = some t) :
    ThreadsInv market t := by
  cases m with
  | spot e =>
    simp only [System.supply] at h
    split at h
    · rename_i hspot
      cases h
      obtain ⟨hqueued, hnot⟩ := spot_queued hspot
      exact pushed_inv inv hqueued hnot
    · cases h
  | parse o bid ask =>
    cases h
    exact ⟨inv.thread, inv.queue, inv.monitor, inv.nextEpoch, inv.feeds⟩
  | deliver n =>
    obtain ⟨q, -, rfl⟩ := Option.map_eq_some_iff.mp h
    have hquote : Queued (.polyQuote q) := trivial
    exact pushed_inv inv hquote rfl
  | _ => cases h

theorem switchToken_spec {f f' : Feed} {tok : String} (h : f.switchToken tok = some f') :
    tok ≠ "" ∧ f'.tokenId = tok := by
  unfold Feed.switchToken at h
  split at h
  · cases h
  · rename_i htok
    cases h
    exact ⟨htok, rfl⟩

theorem switchToken_none {f : Feed} {tok : String} (h : f.switchToken tok = none) :
    tok = "" := by
  unfold Feed.switchToken at h
  split at h
  · assumption
  · cases h

theorem ofMarket_up {d : Discovery} (h : d.ofMarket market = true) (htok : d.upTokenId ≠ "") :
    d.upTokenId = market d.confirmedSlug .up := by
  simp only [Discovery.ofMarket, Bool.and_eq_true, decide_eq_true_eq] at h
  exact h.1.resolve_left htok

theorem ofMarket_down {d : Discovery} (h : d.ofMarket market = true)
    (htok : d.downTokenId ≠ "") : d.downTokenId = market d.confirmedSlug .down := by
  simp only [Discovery.ofMarket, Bool.and_eq_true, decide_eq_true_eq] at h
  exact h.2.resolve_left htok

theorem RollingOk.moved {stage : Stage} {d : Discovery} {ev : Rollover}
    (h : RollingOk market stage d ev) (stage' : Stage)
    (hup : stage' ≠ .discovered → d.upTokenId ≠ "") : RollingOk market stage' d ev :=
  ⟨h.epoch, h.evSlug, h.evEpoch, h.ofMarket, h.both, hup⟩

/-- A step of the monitor that gives one feed a new value. -/
theorem ThreadsInv.setFeed (inv : ThreadsInv market s) {o : Outcome} {f : Feed}
    {monitor : Monitor} {nextEpoch : ℤ} (hm : MonitorOk market monitor) (hn : 0 ≤ nextEpoch)
    (hf : f.tokenId =
      market (((monitor.switched o).map Discovery.confirmedSlug).getD s.pushedSlug) o)
    (hother : ∀ o', o' ≠ o → monitor.switched o' = s.monitor.switched o') :
    ThreadsInv market { s.setFeed o f with monitor := monitor, nextEpoch := nextEpoch } where
  thread := inv.thread
  queue := inv.queue
  monitor := hm
  nextEpoch := hn
  feeds o' := by
    by_cases ho : o' = o
    · subst ho
      simp only [System.setFeed, Function.update_self]
      exact hf
    · simp only [System.setFeed, Function.update_of_ne ho]
      have hslug : System.feedSlug { s.setFeed o f with monitor := monitor, nextEpoch := nextEpoch }
          o' = s.feedSlug o' := by
        rw [System.feedSlug, System.feedSlug, ← hother o' ho]
        rfl
      exact (inv.feeds o').trans (congrArg (market · o') hslug.symm)

theorem switched_both {stage : Stage} {d : Discovery} {ev : Rollover} (h : stage ≠ .discovered)
    (h' : stage ≠ .upSwitched) (o : Outcome) :
    (Monitor.rolling stage d ev).switched o = some d := by
  cases stage with
  | discovered => exact absurd rfl h
  | upSwitched => exact absurd rfl h'
  | _ => rfl

/-- Once both feeds are switched the monitor only renames their quotes. -/
theorem ThreadsInv.named (inv : ThreadsInv market s) {stage stage' : Stage} {d : Discovery}
    {ev : Rollover} (o : Outcome) (hd : s.monitor = .rolling stage d ev)
    (hs : ∀ o, (Monitor.rolling stage d ev).switched o = some d)
    (hs' : ∀ o, (Monitor.rolling stage' d ev).switched o = some d)
    (hup : stage ≠ .discovered) :
    ThreadsInv market { s.setFeed o ((s.feed o).setMarketContext d.confirmedSlug
      d.bucketEpochSeconds) with monitor := .rolling stage' d ev } := by
  have hmon := inv.monitor
  rw [hd] at hmon
  have htok := inv.feeds o
  rw [System.feedSlug, hd, hs o, ← hs' o] at htok
  refine inv.setFeed (hmon.moved stage' fun _ => hmon.up hup) inv.nextEpoch htok fun o' _ => ?_
  rw [hd]
  exact (hs' o').trans (hs o').symm

theorem discover_inv (inv : ThreadsInv market s) {d : Discovery} {up down : Option Quote}
    (hm : allowed s (.discover d up down) = true)
    (h : s.rollOver market (.discover d up down) = some t) : ThreadsInv market t := by
  simp only [System.rollOver] at h
  split at h
  · rename_i hd
    obtain ⟨hpoll, hepoch, hof⟩ := hd
    cases h
    simp only [allowed, decide_eq_true_eq] at hm
    refine ⟨inv.thread, inv.queue, ?_, inv.nextEpoch, ?_⟩
    · exact ⟨inv.nextEpoch.trans hepoch, rfl, rfl, hof, hm, fun h => absurd rfl h⟩
    · intro o
      have htok := inv.feeds o
      rw [System.feedSlug, hpoll] at htok
      exact htok
  · cases h

theorem switchUp_inv (inv : ThreadsInv market s) (h : s.rollOver market .switchUp = some t) :
    ThreadsInv market t := by
  have hmon := inv.monitor
  simp only [System.rollOver] at h
  split at h
  · rename_i d ev hd
    rw [hd] at hmon
    split at h
    · rename_i f hf
      cases h
      obtain ⟨hne, htok⟩ := switchToken_spec hf
      have hmarket : f.tokenId = market d.confirmedSlug .up :=
        htok.trans (ofMarket_up hmon.ofMarket hne)
      refine inv.setFeed (hmon.moved .upSwitched fun _ => hne) inv.nextEpoch hmarket
        fun o' ho => ?_
      rw [hd]
      cases o' with
      | up => exact absurd rfl ho
      | down => rfl
    · cases h
      refine ⟨inv.thread, inv.queue, trivial, inv.nextEpoch, ?_⟩
      intro o
      have htok := inv.feeds o
      rw [System.feedSlug, hd] at htok
      exact htok
  · cases h

theorem switchDown_inv (inv : ThreadsInv market s) (h : s.rollOver market .switchDown = some t) :
    ThreadsInv market t := by
  have hmon := inv.monitor
  simp only [System.rollOver] at h
  split at h
  · rename_i d ev hd
    rw [hd] at hmon
    have hup : d.upTokenId ≠ "" := hmon.up nofun
    have hdown : d.downTokenId ≠ "" := hmon.both hup
    split at h
    · rename_i f hf
      cases h
      have hmarket : f.tokenId = market d.confirmedSlug .down :=
        (switchToken_spec hf).2.trans (ofMarket_down hmon.ofMarket hdown)
      have hnext : 0 ≤ d.bucketEpochSeconds + 300 := by
        have hepoch := hmon.epoch
        omega
      refine inv.setFeed (hmon.moved .downSwitched fun _ => hup) hnext hmarket fun o' ho => ?_
      rw [hd]
      cases o' with
      | up => rfl
      | down => exact absurd rfl ho
    · rename_i hf
      exact absurd (switchToken_none hf) hdown
  · cases h

theorem push_inv (inv : ThreadsInv market s) (h : s.rollOver market .push = some t) :
    ThreadsInv market t := by
  have hmon := inv.monitor
  simp only [System.rollOver] at h
  split at h
  · rename_i d ev hd
    cases h
    rw [hd] at hmon
    have hqueued : Queued (.rollover ev) := by
      have hepoch : 0 ≤ ev.epoch := hmon.evEpoch ▸ hmon.epoch
      exact hepoch
    refine ⟨inv.thread, ?_, trivial, inv.nextEpoch, ?_⟩
    · intro e he
      rcases List.mem_append.mp he with he | he
      · exact inv.queue e he
      · obtain rfl := List.mem_singleton.mp he
        exact hqueued
    · intro o
      have hbefore : s.feedSlug o = d.confirmedSlug := by
        rw [System.feedSlug, hd]
        cases o <;> rfl
      have hafter : System.feedSlug
          { s with monitor := .polling, queue := s.queue ++ [.rollover ev] } o = ev.slug := by
        simp only [System.feedSlug, System.pushedSlug, Monitor.switched, List.foldl_append]
        rfl
      have htok := inv.feeds o
      rw [hbefore, ← hmon.evSlug, ← hafter] at htok
      exact htok
  · cases h

theorem rollOver_inv (inv : ThreadsInv market s) {m : Move} (hm : allowed s m = true)
    (h : s.rollOver market m = some t) : ThreadsInv market t := by
  cases m with
  | discover d up down => exact discover_inv inv hm h
  | switchUp => exact switchUp_inv inv h
  | switchDown => exact switchDown_inv inv h
  | nameUp =>
    simp only [System.rollOver] at h
    split at h
    · rename_i d ev hd
      cases h
      exact inv.named .up hd (switched_both nofun nofun) (switched_both nofun nofun) nofun
    · cases h
  | nameDown =>
    simp only [System.rollOver] at h
    split at h
    · rename_i d ev hd
      cases h
      exact inv.named .down hd (switched_both nofun nofun) (switched_both nofun nofun) nofun
    · cases h
  | push => exact push_inv inv h
  | _ => cases h

theorem apply_inv (inv : ThreadsInv market s) {m : Move} (hm : allowed s m = true)
    (h : s.apply M cfg market m = some t) : ThreadsInv market t := by
  cases m with
  | take | timeout | update | call | finish =>
    simp only [System.apply] at h
    exact consume_inv inv hm h
  | spot | parse | deliver =>
    simp only [System.apply] at h
    exact supply_inv inv h
  | _ =>
    simp only [System.apply] at h
    exact rollOver_inv inv hm h

theorem started_inv (h : Started market s) : ThreadsInv market s := by
  obtain ⟨c, slug, epoch, priceToBeat, enable, hepoch, hnext, htrading, hpos, hpend, hthread,
    hfeed⟩ := h.thread
  have hqueued : ∀ e ∈ s.queue, Queued e ∧ isRollover e = false := by
    intro e he
    rcases h.queue e he with hspot | ⟨q, rfl⟩
    · exact spot_queued hspot
    · exact ⟨trivial, rfl⟩
  have hpushed : s.pushedSlug = slug := by
    rw [System.pushedSlug, hthread]
    exact foldl_nextSlug (fun e he => (hqueued e he).2) slug
  have hside : SideInv (c.started slug epoch priceToBeat enable) := by
    constructor
    · intro hp
      exact absurd (hpend.symm.trans hp) nofun
    · intro hp
      exact absurd (hpos.symm.trans hp) nofun
  refine ⟨?_, fun e he => (hqueued e he).1, ?_, ?_, ?_⟩
  · rw [hthread]
    exact ⟨hepoch, hside⟩
  · rw [h.monitor]
    trivial
  · omega
  · intro o
    rw [hfeed, System.feedSlug, h.monitor, hpushed]
    rfl

end Steps

end LeadLag.Feeds
