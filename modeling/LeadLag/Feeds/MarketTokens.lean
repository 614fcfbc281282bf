import LeadLag.Feeds.FeedMarkets
import LeadLag.Runner.Replay

/-!
# The token of a BUY

The token is read from the feed while the BUY is made, slug and strike come from
`hot`. The two agree where the feed is settled, and part where the monitor has
switched the feed for a Rollover that the consumer has not processed.
-/

namespace LeadLag.Feeds
open LeadLag.Execution LeadLag.Interaction LeadLag.Runner

abbrev settledThreads (M : Libm) (cfg : Config) (market : String → Outcome → String) :
    Lts System Move :=
  (threads M cfg market).restrict fun s m => allowed s m = true

section Reachable

variable {market : String → Outcome → String} {M : Libm} {cfg : Config} {s : System}

theorem threadsInv_reachable (h : (settledThreads M cfg market).Reachable s) :
    ThreadsInv market s :=
  h.invariant (fun _ => started_inv) fun _ _ _ _ inv hst => apply_inv inv hst.2 hst.1

/-- Wherever a BUY stands between the steps of the other threads, it is for the
token of the market of `hot.slug`. -/
theorem buy_token_of_market (h : (settledThreads M cfg market).Reachable s) {c : Consumer}
    {work : Option Event} {p : Prog Consumer} (hs : s.thread = .busy c work p) :
    (∀ oi k, p = .call (.submit oi) k → BuyOfMarket market c oi) ∧
      ∀ c', p = .done c' → OpenedInMarket market c c' := by
  have hbusy := (threadsInv_reachable h).thread
  rw [hs] at hbusy
  refine ⟨fun oi k hp => ?_, fun c' hp => ?_⟩
  · have horders := hbusy.orders
    rw [hp] at horders
    exact horders.1
  · have horders := hbusy.orders
    rw [hp] at horders
    exact horders

end Reachable

/-! ### Computed runs -/

section Replay

def moveAll (M : Libm) (cfg : Config) (market : String → Outcome → String)
    (check : System → Move → Bool) : System → List Move → Option System
  | s, [] => some s
  | s, m :: rest =>
    if check s m then (s.apply M cfg market m).bind (moveAll M cfg market check · rest) else none

theorem reachable_moveAll {M : Libm} {cfg : Config} {market : String → Outcome → String}
    {check : System → Move → Bool} {ms : List Move} {s t : System}
    (hs : ((threads M cfg market).restrict fun s m => check s m = true).Reachable s)
    (h : moveAll M cfg market check s ms = some t) :
    ((threads M cfg market).restrict fun s m => check s m = true).Reachable t := by
  induction ms generalizing s with
  | nil =>
    cases h
    exact hs
  | cons m rest ih =>
    rw [moveAll] at h
    split at h
    · rename_i hcheck
      obtain ⟨u, hu, hrest⟩ := Option.bind_eq_some_iff.mp h
      exact ih (.step hs ⟨hu, hcheck⟩) hrest
    · cases h

def listing (slug : String) : Outcome → String
  | .up => if slug = "btc-300" then "up-300" else if slug = "btc-600" then "up-600" else "up-0"
  | .down =>
    if slug = "btc-300" then "down-300" else if slug = "btc-600" then "down-600" else "down-0"

def listed (epoch : ℤ) (slug : String) : Discovery :=
  { confirmedSlug := slug, bucketEpochSeconds := epoch, upTokenId := listing slug .up
    downTokenId := listing slug .down, priceToBeat := some 100 }

def firstBucket : System :=
  { thread := .idle ((Consumer.start quickLive []).started "btc-0" 0 (some 100) false)
    queue := [], sending := []
    feed := fun o => ⟨listing "btc-0" o, "btc-0", 0⟩
    monitor := .polling, nextEpoch := 300 }

theorem firstBucket_started : Started listing firstBucket where
  thread := ⟨Consumer.start quickLive [], "btc-0", 0, some 100, false, le_rfl, rfl, rfl, rfl, rfl,
    rfl, fun _ => rfl⟩
  queue _ he := absurd he List.not_mem_nil
  monitor := rfl

/-- Bucket 300 is rolled over to and processed, the spot goes to 110 and Up is
offered at 0.8: the update that buys it has begun. -/
def toBuy : List Move :=
  [.discover (listed 300 "btc-300") none none, .switchUp, .switchDown, .nameUp, .nameDown, .push,
   .take, .finish, .spot (.binTrade 110 300500), .take, .finish, .update, .finish,
   .parse .down (18 / 100) (2 / 10), .deliver 0, .take, .finish, .update, .finish,
   .parse .up (78 / 100) (8 / 10), .deliver 0, .take, .finish, .update]

def buyCalls : List Move := (List.range 7).map fun n => .call (fillUp.script n)

def openedWith (tok : String) (s : System) : Bool :=
  match s.thread with
  | .busy c _ (.done c') => !c.paper.havePos && c'.paper.havePos &&
      decide (c'.paper.tokenId = tok) && decide (c.hot.slug = "btc-300")
  | _ => false

theorem openedWith_spec {tok : String} {s : System} (h : openedWith tok s = true) :
    ∃ c work c', s.thread = .busy c work (.done c') ∧ c.paper.havePos = false ∧
      c'.paper.havePos = true ∧ c'.paper.tokenId = tok ∧ c.hot.slug = "btc-300" := by
  unfold openedWith at h
  split at h
  · rename_i c work c' hs
    simp only [Bool.and_eq_true, Bool.not_eq_true', decide_eq_true_eq] at h
    exact ⟨c, work, c', hs, h.1.1.1, h.1.1.2, h.1.2, h.2⟩
  · cases h

theorem exists_moved (check : System → Move → Bool) (ms : List Move) (tok : String)
    (h : (moveAll coarse quickLive listing check firstBucket ms).any (openedWith tok) = true) :
    ∃ s c work c', ((threads coarse quickLive listing).restrict fun s m =>
        check s m = true).Reachable s ∧
      s.thread = .busy c work (.done c') ∧ c.paper.havePos = false ∧
      c'.paper.havePos = true ∧ c'.paper.tokenId = tok ∧ c.hot.slug = "btc-300" := by
  obtain ⟨s, hs, hopen⟩ := (Option.any_eq_true _ _).mp h
  obtain ⟨c, work, c', hspec⟩ := openedWith_spec hopen
  exact ⟨s, c, work, c', reachable_moveAll (.init firstBucket_started) hs, hspec⟩

end Replay

theorem buy_between_rollovers :
    ∃ s c work c', (settledThreads coarse quickLive listing).Reachable s ∧
      s.thread = .busy c work (.done c') ∧ c.paper.havePos = false ∧ c'.paper.havePos = true ∧
      OpenedInMarket listing c c' := by
  obtain ⟨s, c, work, c', hr, hs, hn, hn', -⟩ := exists_moved allowed
    (toBuy ++ .discover (listed 600 "btc-600") none none :: buyCalls) "up-300" (by decide +kernel)
  exact ⟨s, c, work, c', hr, hs, hn, hn', (buy_token_of_market hr hs).2 c' rfl⟩

/-- The monitor switches the Up feed to bucket 600 before the BUY under way reads
its token. -/
theorem buy_during_rollover :
    ∃ s c work c', (threads coarse quickLive listing).Reachable s ∧
      s.thread = .busy c work (.done c') ∧ ¬ OpenedInMarket listing c c' := by
  obtain ⟨s, c, work, c', hr, hs, hn, hn', htok, hslug⟩ := exists_moved (fun _ _ => true)
    (toBuy ++ .discover (listed 600 "btc-600") none none :: .switchUp :: buyCalls) "up-600"
    (by decide +kernel)
  refine ⟨s, c, work, c', hr.of_restrict, hs, fun hopened => ?_⟩
  obtain ⟨o, r, -, -, -, hmarket, hrow⟩ := hopened hn hn'
  rw [← hrow, htok, hslug] at hmarket
  cases o <;> exact absurd hmarket (by decide)

end LeadLag.Feeds
