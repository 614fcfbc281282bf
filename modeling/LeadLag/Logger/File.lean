import LeadLag.Logger.Rollovers
import LeadLag.Pipeline.Consistency

/-!
# The file of the logger

The main thread and the threads of the two feeds write to one file. Whatever the
interleaving, its rollover rows are the consecutive pairs of the markets the logger
was attached to, and its quotes bear the labels of these.
-/

namespace LeadLag.Logger
open LeadLag.Core LeadLag.Execution LeadLag.Interaction
open LeadLag.Gamma (BtcFiveMinuteBucketDiscovery slugForBucket)
open LeadLag.Pipeline (possible isCallerMove delivered_moved)
open LeadLag.TokenFeed (Market WsQuote)

/-! ### What a move does -/

inductive Moved (parse : String → Option Json) (s : State) : Move → State → Prop where
  | signal : Moved parse s .signal { s with gStop := true }
  | feed (o : Outcome) (mv : TokenFeed.Move) (f : TokenFeed.System) : isCallerMove mv = false →
      s.running o = true → s.writing o = none ∨ isPeerMove mv = true →
      (s.feed o).apply 0 mv = some f → Moved parse s (.feed o mv) (s.afterFeed o f)
  | append (o : Outcome) (r : QuoteRow) : s.writing o = some r → Moved parse s (.append o)
      { s.setWriting o none with file := s.file ++ [.quote r] }
  | steadyNs (replies : (c : Call) → Option (Reply c)) (k : ℤ → Prog (Option Loop)) (r : ℤ) :
      s.main = .call .steadyNs k → Moved parse s (.answer replies) { s with main := k r }
  | outside (replies : (c : Call) → Option (Reply c)) (c : Gamma.Call)
      (k : Gamma.Reply c → Prog (Option Loop)) (r : Gamma.Reply c) :
      s.main = .call (.outside c) k → replies (.outside c) = some r → possible ⟨c, r⟩ = true →
      Moved parse s (.answer replies)
        { s with main := k r, wallS := wallAfter s.wallS ⟨.outside c, r⟩ }
  | next (loop : Loop) : s.main = .done (some loop) →
      Moved parse s .main { s with main := iteration parse loop }
  | stopRequested (k : Bool → Prog (Option Loop)) : s.main = .call .stopRequested k →
      Moved parse s .main { s with main := k s.gStop }
  | tokenId (o : Outcome) (k : String → Prog (Option Loop)) : s.main = .call (.tokenId o) k →
      Moved parse s .main { s with main := k (s.feed o).fields.tokenId }
  | begins (o : Outcome) (m : Market) (k : Bool → Prog (Option Loop)) (f : TokenFeed.System) :
      s.main = .call (.switchToken o m) k → s.switching = false →
      (s.feed o).apply 0 (.beginSwitch m) = some f →
      Moved parse s .main { s.setFeed o f with switching := true }
  | switches (o : Outcome) (m : Market) (k : Bool → Prog (Option Loop)) (f : TokenFeed.System) :
      s.main = .call (.switchToken o m) k → s.switching = true →
      (s.feed o).apply 0 .switch = some f → Moved parse s .main (s.setFeed o f)
  | switched (o : Outcome) (m : Market) (k : Bool → Prog (Option Loop)) :
      s.main = .call (.switchToken o m) k → s.switching = true →
      (s.feed o).caller.inSwitch = false →
      Moved parse s .main { s with main := k true, switching := false }
  | refused (o : Outcome) (m : Market) (k : Bool → Prog (Option Loop)) :
      s.main = .call (.switchToken o m) k → s.running o = false ∨ m.tokenId = "" →
      Moved parse s .main { s with main := k false }
  | setMarketContext (o : Outcome) (m : Market) (k : Unit → Prog (Option Loop)) :
      s.main = .call (.setMarketContext o m) k →
      Moved parse s .main { s.setMarketContext o m with main := k () }
  | rollover (r : MarketRollover) (k : Unit → Prog (Option Loop)) : s.main = .call (.append r) k →
      Moved parse s .main { s with main := k (), file := s.file ++ [.marketRollover r] }
  | stop (o : Outcome) (k : Unit → Prog (Option Loop)) : s.main = .call (.stop o) k →
      s.writing o = none → Moved parse s .main { s.stop o with main := k () }

section Moved

variable {parse : String → Option Json} {s t : State} {mv : Move}

theorem feedMove_moved {o : Outcome} {fmv : TokenFeed.Move} (h : s.feedMove o fmv = some t) :
    Moved parse s (.feed o fmv) t := by
  obtain ⟨hallowed, h⟩ := Option.ite_none_left_eq_some.mp h
  obtain ⟨f, hf, rfl⟩ := Option.map_eq_some_iff.mp h
  simp only [not_or, not_and, Bool.not_eq_true, Bool.not_eq_false] at hallowed
  obtain ⟨hcaller, hrunning, hwriting⟩ := hallowed
  refine .feed o fmv f hcaller hrunning ?_ hf
  cases hw : s.writing o with
  | none => exact .inl rfl
  | some r => exact .inr (hwriting (by rw [hw]; rfl))

theorem switchToken_moved {o : Outcome} {m : Market} {k : Bool → Prog (Option Loop)}
    (hmain : s.main = .call (.switchToken o m) k) (h : s.switchToken o m k = some t) :
    Moved parse s .main t := by
  unfold State.switchToken at h
  split at h
  · rename_i hswitching
    split at h
    · obtain ⟨f, hf, rfl⟩ := Option.map_eq_some_iff.mp h
      exact .switches o m k f hmain hswitching hf
    · rename_i hin
      cases h
      exact .switched o m k hmain hswitching (by simpa using hin)
  · rename_i hswitching
    split at h
    · rename_i hno
      cases h
      exact .refused o m k hmain hno
    · obtain ⟨f, hf, rfl⟩ := Option.map_eq_some_iff.mp h
      exact .begins o m k f hmain (by simpa using hswitching) hf

theorem mainMove_moved (h : s.mainMove parse = some t) : Moved parse s .main t := by
  unfold State.mainMove at h
  split at h
  · cases h
  · cases h
    exact .next _ ‹_›
  · cases h
    exact .stopRequested _ ‹_›
  · cases h
  · cases h
  · cases h
    exact .tokenId _ _ ‹_›
  · exact switchToken_moved ‹_› h
  · cases h
    exact .setMarketContext _ _ _ ‹_›
  · cases h
    exact .rollover _ _ ‹_›
  · obtain ⟨hwriting, h⟩ := Option.ite_none_left_eq_some.mp h
    cases h
    exact .stop _ _ ‹_› (by simpa using hwriting)

theorem answerMove_moved {replies : (c : Call) → Option (Reply c)}
    (h : s.answerMove replies = some t) : Moved parse s (.answer replies) t := by
  unfold State.answerMove at h
  split at h
  · obtain ⟨r, -, rfl⟩ := Option.map_eq_some_iff.mp h
    exact .steadyNs replies _ r ‹_›
  · split at h
    · cases h
    · obtain ⟨hpossible, h⟩ := Option.ite_none_right_eq_some.mp h
      cases h
      exact .outside replies _ _ _ ‹_› ‹_› hpossible
  · cases h

theorem apply_moved (h : s.apply parse mv = some t) : Moved parse s mv t := by
  obtain ⟨-, h⟩ := Option.ite_none_left_eq_some.mp h
  cases mv with
  | signal =>
    cases h
    exact .signal
  | feed o fmv => exact feedMove_moved h
  | append o =>
    obtain ⟨r, hr, rfl⟩ := Option.map_eq_some_iff.mp h
    exact .append o r hr
  | answer replies => exact answerMove_moved h
  | main => exact mainMove_moved h

end Moved

/-! ### A feed -/

/-- What a feed shows now, and what the quotes it has copied and not delivered bear. -/
structure Carries (P : Market → Prop) (f : TokenFeed.System) : Prop where
  fields : P f.fields.market
  undelivered : ∀ t ∈ f.active, ∀ q, t.undelivered? = some q → P q.market

/-- The market that the main thread is switching the feed to. -/
def State.inside (s : State) (o : Outcome) : Option Market :=
  match s.switching, s.main with
  | true, .call (.switchToken o' m) _ => if o = o' then some m else none
  | _, _ => none

/-- Inside `switch_token` the token is the old one up to its assignment. -/
def HasToken (inside : Option Market) (token : String) (f : TokenFeed.System) : Prop :=
  match inside with
  | none => f.fields.tokenId = token ∧ f.caller.inSwitch = false
  | some m =>
    match f.caller with
    | .unsubscribing _ m' | .assigning m' => m' = m ∧ f.fields.tokenId = token
    | .snapshotting m' | .subscribing m' | .returned m' | .unchanged m' =>
      m' = m ∧ f.fields.tokenId = m.tokenId
    | .idle => False

section Feed

variable {P P' : Market → Prop} {f f' : TokenFeed.System} {mv : TokenFeed.Move}
  {inside : Option Market} {token : String} {m : Market}

theorem Carries.mono (h : Carries P f) (hP : ∀ m, P m → P' m) : Carries P' f :=
  ⟨hP _ h.fields, fun t ht q hq => hP _ (h.undelivered t ht q hq)⟩

theorem carries_start (h : P m) : Carries P (.start m) :=
  ⟨h, fun _ ht => absurd ht List.not_mem_nil⟩

theorem Carries.moved (h : Carries P f) (hm : TokenFeed.Moved 0 f mv f') (hmv : mv ≠ .setContext)
    (htoken : ∀ m tok, P m → P { m with tokenId := tok }) : Carries P f' := by
  obtain ⟨hfields, hundelivered⟩ := h
  cases hm with
  | work i task =>
    obtain ⟨hmarket, -⟩ := TokenFeed.afterWork_frame (s := f) i task
    refine ⟨hmarket ▸ hfields, ?_⟩
    intro t ht q hq
    rcases TokenFeed.undelivered_afterWork ht hq with hold | ⟨-, hlabels⟩
    · exact hundelivered t hold q hq
    · rw [hlabels]
      exact hfields
  | setContext => exact absurd rfl hmv
  | assign m => exact ⟨htoken _ _ hfields, hundelivered⟩
  | receiveInline msg =>
    refine ⟨hfields, fun t ht q hq => ?_⟩
    rw [List.mem_singleton.mp ht] at hq
    cases hq
  | take msg rest =>
    refine ⟨hfields, fun t ht q hq => ?_⟩
    rcases List.mem_append.mp ht with hmem | hnew
    · exact hundelivered t hmem q hq
    · rw [List.mem_singleton.mp hnew] at hq
      cases hq
  | opened | closed | snapshot | send | callback | receiveQueued => exact ⟨hfields, hundelivered⟩
  | sameToken | noToken | begun => exact ⟨hfields, hundelivered⟩
  | unsubscribe | setSnapshot | subscribe => exact ⟨hfields, hundelivered⟩

/-- The threads of a feed leave its market and the calling thread alone. -/
theorem own_moved (hm : TokenFeed.Moved 0 f mv f') (hmv : isCallerMove mv = false) :
    f'.fields.market = f.fields.market ∧ f'.caller = f.caller := by
  cases hm with
  | work i task =>
    obtain ⟨hmarket, -, -, hcaller, -⟩ := TokenFeed.afterWork_frame (s := f) i task
    exact ⟨hmarket, hcaller⟩
  | opened | closed | snapshot | send | callback => exact ⟨rfl, rfl⟩
  | receiveInline | receiveQueued | take => exact ⟨rfl, rfl⟩
  | sameToken | noToken | begun => cases hmv
  | unsubscribe | assign | setSnapshot | subscribe | setContext => cases hmv

theorem HasToken.frame (h : HasToken inside token f) (hmarket : f'.fields.market = f.fields.market)
    (hcaller : f'.caller = f.caller) : HasToken inside token f' := by
  have htok : f'.fields.tokenId = f.fields.tokenId := congrArg Market.tokenId hmarket
  unfold HasToken at h ⊢
  rw [hcaller, htok]
  exact h

theorem HasToken.begins (h : HasToken none token f)
    (hm : TokenFeed.Moved 0 f (.beginSwitch m) f') : HasToken (some m) token f' := by
  obtain ⟨htok, -⟩ := h
  cases hm with
  | sameToken _ _ hsame => exact ⟨rfl, hsame.symm⟩
  | noToken => exact ⟨rfl, htok⟩
  | begun => exact ⟨rfl, htok⟩

theorem HasToken.switches (h : HasToken (some m) token f)
    (hm : TokenFeed.Moved 0 f .switch f') : HasToken (some m) token f' := by
  cases hm with
  | unsubscribe old m' hc | setSnapshot m' hc | subscribe m' hc =>
    unfold HasToken at h
    rw [hc] at h
    exact h
  | assign m' hc =>
    unfold HasToken at h
    rw [hc] at h
    obtain ⟨rfl, -⟩ := h
    exact ⟨rfl, rfl⟩

theorem HasToken.switched (h : HasToken (some m) token f) (hin : f.caller.inSwitch = false) :
    HasToken none m.tokenId f := by
  refine ⟨?_, hin⟩
  unfold HasToken at h
  cases hc : f.caller with
  | idle =>
    rw [hc] at h
    exact h.elim
  | returned | unchanged =>
    rw [hc] at h
    exact h.2
  | unsubscribing | assigning | snapshotting | subscribing =>
    rw [hc] at hin
    cases hin

end Feed

/-! ### The invariant -/

/-- The label is that of a market in the rows, or the one the feed shows. -/
def Desk.Seen (g : Desk) (o : Outcome) (slug : String) (epoch : ℤ) : Prop :=
  g.Listed slug epoch ∨ (slug, epoch) = g.label o

def Labelled (g : Desk) (o : Outcome) (m : Market) : Prop :=
  g.Seen o m.eventSlug m.bucketEpoch ∧ m.outcome = outcomeName o

def RowOk (g : Desk) (o : Outcome) (r : QuoteRow) : Prop :=
  r.outcome = outcomeName o ∧ ∃ e, r.marketBucketEpoch = some e ∧ g.Seen o r.eventSlug e

structure Inv (fwd : Prop) (s : State) (g : Desk) : Prop where
  main : SafeFrom (deskEnv fwd) (Guard fwd) (PassOk fwd) s.main g
  switching : s.switching = true → ∃ o m k, s.main = .call (.switchToken o m) k
  wall : s.wallS = g.wallS
  running : s.running = g.running
  rows : s.rollovers = g.rows
  label : ∀ o, (g.label o).1 = slugForBucket (g.label o).2 ∧ 0 ≤ (g.label o).2
  shown : ∀ o, ((s.feed o).fields.quoteEventSlug, (s.feed o).fields.quoteMarketBucketEpoch) =
    g.label o
  token : ∀ o, HasToken (s.inside o) (g.token o) (s.feed o)
  carries : ∀ o, Carries (Labelled g o) (s.feed o)
  pending : ∀ o r, s.writing o = some r → RowOk g o r
  quotes : ∀ r ∈ s.quotes, ∃ o, RowOk g o r

section Step

variable {parse : String → Option Json} {fwd : Prop} {s t : State} {mv : Move} {g g' : Desk}
  {o : Outcome}

theorem safe_desk {p : Prog (Option Loop)}
    (h : SafeFrom (deskEnv fwd) (Guard fwd) (PassOk fwd) p g) : DeskOk fwd g := by
  cases p with
  | call c k => exact h.1.1
  | done r =>
    cases r with
    | none => exact h.1
    | some loop => exact LoopOk.desk h

theorem RowOk.mono {r : QuoteRow} (h : RowOk g o r)
    (hseen : ∀ slug e, g.Seen o slug e → g'.Seen o slug e) : RowOk g' o r := by
  obtain ⟨hname, e, he, hs⟩ := h
  exact ⟨hname, e, he, hseen _ _ hs⟩

theorem inside_none (h : s.switching = false) (o : Outcome) : s.inside o = none := by
  unfold State.inside
  rw [h]

theorem inside_switching {m : Market} {k : Bool → Prog (Option Loop)}
    (hmain : s.main = .call (.switchToken o m) k) (h : s.switching = true) (o' : Outcome) :
    s.inside o' = if o' = o then some m else none := by
  unfold State.inside
  rw [hmain, h]

theorem Inv.notSwitching (inv : Inv fwd s g)
    (hmain : ∀ o m k, s.main ≠ .call (.switchToken o m) k) : s.switching = false := by
  cases h : s.switching with
  | false => rfl
  | true =>
    obtain ⟨o, m, k, hcall⟩ := inv.switching h
    exact absurd hcall (hmain o m k)

/-- A step of the main thread outside `switch_token` that only reads. -/
theorem Inv.reads (inv : Inv fwd s g) (hswitching : s.switching = false) {p : Prog (Option Loop)}
    {wallS : ℤ} (hp : SafeFrom (deskEnv fwd) (Guard fwd) (PassOk fwd) p
      { g with wallS := wallS }) :
    Inv fwd { s with main := p, wallS := wallS } { g with wallS := wallS } where
  main := hp
  switching h := by
    rw [hswitching] at h
    cases h
  wall := rfl
  running := inv.running
  rows := inv.rows
  label := inv.label
  shown := inv.shown
  token o := by
    have htok := inv.token o
    rw [inside_none hswitching o] at htok
    have hnone : State.inside { s with main := p, wallS := wallS } o = none := by
      refine inside_none ?_ o
      exact hswitching
    rw [hnone]
    exact htok
  carries := inv.carries
  pending := inv.pending
  quotes := inv.quotes

theorem Inv.goesOn (inv : Inv fwd s g) (hswitching : s.switching = false)
    {p : Prog (Option Loop)} (hp : SafeFrom (deskEnv fwd) (Guard fwd) (PassOk fwd) p g) :
    Inv fwd { s with main := p } g := by
  have hsame : { g with wallS := s.wallS } = g := by rw [inv.wall]
  rw [← hsame] at hp ⊢
  exact inv.reads hswitching hp

/-- A step of the feed of `o` that keeps its labels. -/
theorem Inv.setFeed (inv : Inv fwd s g) {f : TokenFeed.System} {b : Bool}
    (hswitching : b = true → ∃ o m k, s.main = .call (.switchToken o m) k)
    (hlabels : f.fields.quoteEventSlug = (s.feed o).fields.quoteEventSlug ∧
      f.fields.quoteMarketBucketEpoch = (s.feed o).fields.quoteMarketBucketEpoch)
    (hcarries : Carries (Labelled g o) f)
    (htoken : HasToken (State.inside { s with switching := b } o) (g.token o) f)
    (hother : ∀ o', o' ≠ o → State.inside { s with switching := b } o' = s.inside o') :
    Inv fwd { s.setFeed o f with switching := b } g where
  main := inv.main
  switching := hswitching
  wall := inv.wall
  running := inv.running
  rows := inv.rows
  label := inv.label
  shown o' := by
    by_cases h : o' = o
    · subst h
      simp only [State.setFeed, Function.update_self, hlabels.1, hlabels.2]
      exact inv.shown o'
    · simp only [State.setFeed, Function.update_of_ne h]
      exact inv.shown o'
  token o' := by
    have hinside : State.inside { s.setFeed o f with switching := b } o' =
        State.inside { s with switching := b } o' := rfl
    rw [hinside]
    by_cases h : o' = o
    · subst h
      simp only [State.setFeed, Function.update_self]
      exact htoken
    · simp only [State.setFeed, Function.update_of_ne h, hother o' h]
      exact inv.token o'
  carries o' := by
    by_cases h : o' = o
    · subst h
      simp only [State.setFeed, Function.update_self]
      exact hcarries
    · simp only [State.setFeed, Function.update_of_ne h]
      exact inv.carries o'
  pending := inv.pending
  quotes := inv.quotes

theorem labelled_token (m : Market) (tok : String) (h : Labelled g o m) :
    Labelled g o { m with tokenId := tok } := h

theorem labels_of_market {f f' : TokenFeed.System} (h : f'.fields.market = f.fields.market) :
    f'.fields.quoteEventSlug = f.fields.quoteEventSlug ∧
      f'.fields.quoteMarketBucketEpoch = f.fields.quoteMarketBucketEpoch :=
  ⟨congrArg Market.eventSlug h, congrArg Market.bucketEpoch h⟩

theorem Inv.begins (inv : Inv fwd s g) {m : Market} {k : Bool → Prog (Option Loop)}
    {f : TokenFeed.System} (hmain : s.main = .call (.switchToken o m) k)
    (hswitching : s.switching = false) (hf : (s.feed o).apply 0 (.beginSwitch m) = some f) :
    Inv fwd { s.setFeed o f with switching := true } g := by
  have hmoved := TokenFeed.apply_moved hf
  have hfields : f.fields.market = (s.feed o).fields.market := by
    cases hmoved with
    | sameToken | noToken | begun => rfl
  have hinside (o' : Outcome) : State.inside { s with switching := true } o' =
      if o' = o then some m else none := by
    refine inside_switching (k := k) ?_ rfl o'
    exact hmain
  have htok := inv.token o
  rw [inside_none hswitching o] at htok
  refine inv.setFeed (fun _ => ⟨o, m, k, hmain⟩) (labels_of_market hfields)
    ((inv.carries o).moved hmoved nofun labelled_token) ?_ ?_
  · rw [hinside, if_pos rfl]
    exact htok.begins hmoved
  · intro o' h
    rw [hinside, if_neg h, inside_none hswitching o']

theorem Inv.switches (inv : Inv fwd s g) {m : Market} {k : Bool → Prog (Option Loop)}
    {f : TokenFeed.System} (hmain : s.main = .call (.switchToken o m) k)
    (hswitching : s.switching = true) (hf : (s.feed o).apply 0 .switch = some f) :
    Inv fwd (s.setFeed o f) g := by
  have hmoved := TokenFeed.apply_moved hf
  have hlabels : f.fields.quoteEventSlug = (s.feed o).fields.quoteEventSlug ∧
      f.fields.quoteMarketBucketEpoch = (s.feed o).fields.quoteMarketBucketEpoch := by
    cases hmoved with
    | unsubscribe | assign | setSnapshot | subscribe => exact ⟨rfl, rfl⟩
  have hinside := inside_switching hmain hswitching
  have htok := inv.token o
  rw [hinside, if_pos rfl] at htok
  have hnext := inv.setFeed (b := true) (o := o) (f := f) (fun _ => ⟨o, m, k, hmain⟩) hlabels
    ((inv.carries o).moved hmoved nofun labelled_token)
  have hsame : { s with switching := true } = s := by rw [← hswitching]
  rw [hsame, hinside, if_pos rfl] at hnext
  have hafter := hnext (htok.switches hmoved) fun _ _ => rfl
  have heq : { s.setFeed o f with switching := true } = s.setFeed o f := by
    rw [← hswitching]
    rfl
  rw [heq] at hafter
  exact hafter

theorem Inv.switched (inv : Inv fwd s g) {m : Market} {k : Bool → Prog (Option Loop)}
    (hmain : s.main = .call (.switchToken o m) k) (hswitching : s.switching = true)
    (hin : (s.feed o).caller.inSwitch = false) :
    Inv fwd { s with main := k true, switching := false }
      { g with token := Function.update g.token o m.tokenId } := by
  have hsafe := inv.main
  rw [hmain] at hsafe
  have hinside := inside_switching hmain hswitching
  refine ⟨hsafe.2 true _ ⟨fun _ _ => rfl, rfl⟩, nofun, inv.wall, inv.running, inv.rows, inv.label,
    inv.shown, ?_, inv.carries, inv.pending, inv.quotes⟩
  intro o'
  have hnone : State.inside { s with main := k true, switching := false } o' = none :=
    inside_none rfl o'
  have htok := inv.token o'
  rw [hinside] at htok
  rw [hnone]
  by_cases h : o' = o
  · subst h
    rw [if_pos rfl] at htok
    simp only [Function.update_self]
    exact htok.switched hin
  · rw [if_neg h] at htok
    simp only [Function.update_of_ne h]
    exact htok

/-- The old label is that of a market in the rows by then. -/
theorem Inv.setMarketContext (inv : Inv fwd s g) {m : Market} {k : Unit → Prog (Option Loop)}
    (hmain : s.main = .call (.setMarketContext o m) k) :
    Inv fwd { s.setMarketContext o m with main := k () }
      { g with label := Function.update g.label o (m.eventSlug, m.bucketEpoch) } := by
  have hsafe := inv.main
  rw [hmain] at hsafe
  obtain ⟨⟨-, hlisted, hslug, hnonneg, hname⟩, hrest⟩ := hsafe
  have hswitching : s.switching = false := inv.notSwitching (by rw [hmain]; nofun)
  let g' : Desk := { g with label := Function.update g.label o (m.eventSlug, m.bucketEpoch) }
  have hseen (o' : Outcome) (slug : String) (e : ℤ) (h : g.Seen o' slug e) :
      g'.Seen o' slug e := by
    rcases h with h | h
    · exact .inl h
    · by_cases ho : o' = o
      · subst ho
        rw [← h] at hlisted
        exact .inl hlisted
      · refine .inr ?_
        show (slug, e) = Function.update g.label o (m.eventSlug, m.bucketEpoch) o'
        rw [Function.update_of_ne ho]
        exact h
  have hmono (o' : Outcome) (m' : Market) (h : Labelled g o' m') : Labelled g' o' m' :=
    ⟨hseen o' _ _ h.1, h.2⟩
  refine ⟨hrest () _ ⟨trivial, rfl⟩, ?_, inv.wall, inv.running, inv.rows, ?_, ?_, ?_, ?_, ?_, ?_⟩
  · intro h
    have h : s.switching = true := h
    rw [hswitching] at h
    cases h
  · intro o'
    by_cases ho : o' = o
    · subst ho
      simp only [Function.update_self]
      exact ⟨hslug, hnonneg⟩
    · simp only [Function.update_of_ne ho]
      exact inv.label o'
  · intro o'
    by_cases ho : o' = o
    · subst ho
      simp only [State.setMarketContext, State.setFeed, Function.update_self]
      rfl
    · simp only [State.setMarketContext, State.setFeed, Function.update_of_ne ho]
      exact inv.shown o'
  · intro o'
    have htok := inv.token o'
    rw [inside_none hswitching o'] at htok
    have hnone : State.inside { s.setMarketContext o m with main := k () } o' = none := by
      refine inside_none ?_ o'
      exact hswitching
    rw [hnone]
    by_cases ho : o' = o
    · subst ho
      simp only [State.setMarketContext, State.setFeed, Function.update_self]
      exact ⟨htok.1, rfl⟩
    · simp only [State.setMarketContext, State.setFeed, Function.update_of_ne ho]
      exact htok
  · intro o'
    by_cases ho : o' = o
    · subst ho
      simp only [State.setMarketContext, State.setFeed, Function.update_self]
      refine ⟨⟨.inr ?_, hname⟩, ((inv.carries o').mono (hmono o')).undelivered⟩
      simp only [Function.update_self]
      rfl
    · simp only [State.setMarketContext, State.setFeed, Function.update_of_ne ho]
      exact (inv.carries o').mono (hmono o')
  · exact fun o' r hr => (inv.pending o' r hr).mono (hseen o')
  · intro r hr
    obtain ⟨o', hok⟩ := inv.quotes r hr
    exact ⟨o', hok.mono (hseen o')⟩

theorem Inv.rollover (inv : Inv fwd s g) {r : MarketRollover} {k : Unit → Prog (Option Loop)}
    (hmain : s.main = .call (.append r) k) :
    Inv fwd { s with main := k (), file := s.file ++ [.marketRollover r] }
      { g with rows := g.rows ++ [r], markets := g.markets ++ [g.shown] } := by
  have hsafe := inv.main
  rw [hmain] at hsafe
  have hswitching : s.switching = false := inv.notSwitching (by rw [hmain]; nofun)
  let g' : Desk := { g with rows := g.rows ++ [r], markets := g.markets ++ [g.shown] }
  have hseen (o' : Outcome) (slug : String) (e : ℤ) (h : g.Seen o' slug e) :
      g'.Seen o' slug e := by
    rcases h with ⟨a, ha, heq⟩ | h
    · exact .inl ⟨a, List.mem_append_left _ ha, heq⟩
    · exact .inr h
  have hmono (o' : Outcome) (m' : Market) (h : Labelled g o' m') : Labelled g' o' m' :=
    ⟨hseen o' _ _ h.1, h.2⟩
  refine ⟨hsafe.2 () _ ⟨trivial, rfl⟩, ?_, inv.wall, inv.running, ?_, inv.label, inv.shown, ?_,
    fun o' => (inv.carries o').mono (hmono o'),
    fun o' r hr => (inv.pending o' r hr).mono (hseen o'), ?_⟩
  · intro h
    have h : s.switching = true := h
    rw [hswitching] at h
    cases h
  · have hrows := inv.rows
    simp only [State.rollovers, List.filterMap_append] at hrows ⊢
    rw [hrows]
    rfl
  · intro o'
    have htok := inv.token o'
    rw [inside_none hswitching o'] at htok
    have hnone : State.inside
        { s with main := k (), file := s.file ++ [.marketRollover r] } o' = none := by
      refine inside_none ?_ o'
      exact hswitching
    rw [hnone]
    exact htok
  · intro q hq
    have hq : q ∈ s.quotes := by
      simpa [State.quotes, List.filterMap_append, Row.quote?] using hq
    obtain ⟨o', hok⟩ := inv.quotes q hq
    exact ⟨o', hok.mono (hseen o')⟩

theorem Inv.stop (inv : Inv fwd s g) {k : Unit → Prog (Option Loop)}
    (hmain : s.main = .call (.stop o) k) :
    Inv fwd { s.stop o with main := k () }
      { g with running := Function.update g.running o false
               token := Function.update g.token o "" } := by
  have hsafe := inv.main
  rw [hmain] at hsafe
  have hswitching : s.switching = false := inv.notSwitching (by rw [hmain]; nofun)
  refine ⟨hsafe.2 () _ ⟨trivial, rfl⟩, ?_, inv.wall, ?_, inv.rows, inv.label, ?_, ?_, ?_,
    inv.pending, inv.quotes⟩
  · intro h
    have h : s.switching = true := h
    rw [hswitching] at h
    cases h
  · show Function.update s.running o false = Function.update g.running o false
    rw [inv.running]
  · intro o'
    by_cases ho : o' = o
    · subst ho
      simp only [State.stop, State.setFeed, Function.update_self]
      exact inv.shown o'
    · simp only [State.stop, State.setFeed, Function.update_of_ne ho]
      exact inv.shown o'
  · intro o'
    have htok := inv.token o'
    rw [inside_none hswitching o'] at htok
    have hnone : State.inside { s.stop o with main := k () } o' = none := by
      refine inside_none ?_ o'
      exact hswitching
    rw [hnone]
    by_cases ho : o' = o
    · subst ho
      simp only [State.stop, State.setFeed, Function.update_self]
      exact ⟨rfl, htok.2⟩
    · simp only [State.stop, State.setFeed, Function.update_of_ne ho]
      exact htok
  · intro o'
    by_cases ho : o' = o
    · subst ho
      simp only [State.stop, State.setFeed, Function.update_self]
      exact ⟨(inv.carries o').fields, (inv.carries o').undelivered⟩
    · simp only [State.stop, State.setFeed, Function.update_of_ne ho]
      exact inv.carries o'

/-! ### Quotes -/

theorem afterFeed_quiet {f : TokenFeed.System} (h : f.delivered = (s.feed o).delivered) :
    s.afterFeed o f = s.setFeed o f := by
  simp only [State.afterFeed, h, List.drop_length]

theorem afterFeed_delivers {f : TokenFeed.System} {q : WsQuote}
    (h : f.delivered = (s.feed o).delivered ++ [q]) :
    s.afterFeed o f =
      { (s.setFeed o f).setWriting o (some (quoteRow (s.seq + 1) q)) with seq := s.seq + 1 } := by
  simp only [State.afterFeed, h, List.drop_left]

theorem Desk.Seen.nonneg {slug : String} {e : ℤ} (h : g.Seen o slug e) (hg : DeskOk fwd g)
    (hlabel : 0 ≤ (g.label o).2) : 0 ≤ e := by
  rcases h with ⟨a, ha, -, rfl⟩ | h
  · exact (hg.ok a ha).nonneg
  · rw [← h] at hlabel
    exact hlabel

theorem Inv.ownStep (inv : Inv fwd s g) {fmv : TokenFeed.Move} {f : TokenFeed.System}
    (hmv : isCallerMove fmv = false) (hf : (s.feed o).apply 0 fmv = some f) :
    Inv fwd (s.setFeed o f) g := by
  have hmoved := TokenFeed.apply_moved hf
  obtain ⟨hmarket, hcaller⟩ := own_moved hmoved hmv
  have hcontext : fmv ≠ .setContext := by
    rintro rfl
    cases hmv
  exact inv.setFeed inv.switching (labels_of_market hmarket)
    ((inv.carries o).moved hmoved hcontext labelled_token) ((inv.token o).frame hmarket hcaller)
    fun _ _ => rfl

/-- The row of a quote that a feed delivers bears a label seen. -/
theorem Inv.rowOk (inv : Inv fwd s g) {q : WsQuote} {rest : List TokenFeed.Item} {i : ℕ} (n : ℕ)
    (hq : (s.feed o).active[i]? = some (.calling q rest)) : RowOk g o (quoteRow n q) := by
  obtain ⟨hseen, hname⟩ := (inv.carries o).undelivered _ (List.mem_of_getElem? hq) q rfl
  have hnonneg : 0 ≤ q.marketBucketEpoch :=
    hseen.nonneg (safe_desk inv.main) (inv.label o).2
  exact ⟨hname, q.marketBucketEpoch, if_pos hnonneg, hseen⟩

theorem Inv.setWriting (inv : Inv fwd s g) {r : Option QuoteRow} {n : ℕ}
    (hr : ∀ q, r = some q → RowOk g o q) :
    Inv fwd { s.setWriting o r with seq := n } g := by
  refine ⟨inv.main, inv.switching, inv.wall, inv.running, inv.rows, inv.label, inv.shown,
    inv.token, inv.carries, ?_, inv.quotes⟩
  intro o' q hq
  by_cases ho : o' = o
  · subst ho
    simp only [State.setWriting, Function.update_self] at hq
    exact hr q hq
  · simp only [State.setWriting, Function.update_of_ne ho] at hq
    exact inv.pending o' q hq

theorem Inv.afterFeed (inv : Inv fwd s g) {fmv : TokenFeed.Move} {f : TokenFeed.System}
    (hmv : isCallerMove fmv = false) (hf : (s.feed o).apply 0 fmv = some f) :
    Inv fwd (s.afterFeed o f) g := by
  have hnext := inv.ownStep hmv hf
  rcases delivered_moved (TokenFeed.apply_moved hf) with hsame | ⟨i, q, rest, -, hq, hdelivered⟩
  · rw [afterFeed_quiet hsame]
    exact hnext
  · rw [afterFeed_delivers hdelivered]
    refine hnext.setWriting ?_
    intro r hr
    cases hr
    exact inv.rowOk (s.seq + 1) hq

theorem Inv.append (inv : Inv fwd s g) {r : QuoteRow} (hr : s.writing o = some r) :
    Inv fwd { s.setWriting o none with file := s.file ++ [.quote r] } g := by
  obtain ⟨hmain, hswitching, hwall, hrunning, hrows, hlabel, hshown, htoken, hcarries, hpending,
    hquotes⟩ := inv.setWriting (o := o) (r := none) (n := s.seq) nofun
  refine ⟨hmain, hswitching, hwall, hrunning, ?_, hlabel, hshown, htoken, hcarries, hpending, ?_⟩
  · rw [← hrows]
    simp [State.rollovers, State.setWriting, Row.marketRollover?]
  · intro q hq
    have hq : q ∈ s.quotes ∨ q = r := by
      simpa [State.quotes, State.setWriting, Row.quote?] using hq
    rcases hq with hq | rfl
    · exact hquotes q hq
    · exact ⟨o, inv.pending o q hr⟩

theorem Inv.step (inv : Inv fwd s g) (h : Moved parse s mv t)
    (hclock : fwd → clockForward s mv = true) : ∃ g', Inv fwd t g' := by
  have hsafe := inv.main
  cases h with
  | signal => exact ⟨g, inv.main, inv.switching, inv.wall, inv.running, inv.rows, inv.label,
      inv.shown, inv.token, inv.carries, inv.pending, inv.quotes⟩
  | feed o fmv f hmv hrunning hwriting hf => exact ⟨g, inv.afterFeed hmv hf⟩
  | append o r hr => exact ⟨g, inv.append hr⟩
  | steadyNs replies k r hmain =>
    rw [hmain] at hsafe
    exact ⟨g, inv.goesOn (inv.notSwitching (by rw [hmain]; nofun)) (hsafe.2 r _ ⟨trivial, rfl⟩)⟩
  | outside replies c k r hmain hr hpossible =>
    rw [hmain] at hsafe
    refine ⟨_, inv.reads (inv.notSwitching (by rw [hmain]; nofun)) ?_⟩
    rw [inv.wall]
    refine hsafe.2 r _ ⟨⟨hpossible, ?_⟩, rfl⟩
    intro hf
    have hforward := hclock hf
    cases c with
    | systemSeconds =>
      simp only [clockForward, hmain, hr, Option.all_some, decide_eq_true_eq] at hforward
      rw [← inv.wall]
      exact hforward
    | _ => exact le_rfl
  | next loop hmain =>
    rw [hmain] at hsafe
    exact ⟨g, inv.goesOn (inv.notSwitching (by rw [hmain]; nofun)) (iteration_ok hsafe)⟩
  | stopRequested k hmain =>
    rw [hmain] at hsafe
    exact ⟨g, inv.goesOn (inv.notSwitching (by rw [hmain]; nofun))
      (hsafe.2 s.gStop _ ⟨trivial, rfl⟩)⟩
  | tokenId o k hmain =>
    rw [hmain] at hsafe
    have hswitching := inv.notSwitching (by rw [hmain]; nofun)
    have htok := inv.token o
    rw [inside_none hswitching o] at htok
    exact ⟨g, inv.goesOn hswitching (hsafe.2 _ _ ⟨htok.1, rfl⟩)⟩
  | begins o m k f hmain hswitching hf => exact ⟨g, inv.begins hmain hswitching hf⟩
  | switches o m k f hmain hswitching hf => exact ⟨g, inv.switches hmain hswitching hf⟩
  | switched o m k hmain hswitching hin => exact ⟨_, inv.switched hmain hswitching hin⟩
  | refused o m k hmain hno =>
    rw [hmain] at hsafe
    obtain ⟨⟨-, hrunning, htok⟩, -⟩ := hsafe
    rw [inv.running] at hno
    rcases hno with hno | hno
    · rw [hrunning] at hno
      cases hno
    · exact absurd hno htok
  | setMarketContext o m k hmain => exact ⟨_, inv.setMarketContext hmain⟩
  | rollover r k hmain => exact ⟨_, inv.rollover hmain⟩
  | stop o k hmain hwriting => exact ⟨_, inv.stop hmain⟩

def tokensFound (d : Gamma.BtcFiveMinuteBucketDiscovery) : Outcome → String
  | .up => d.upTokenId
  | .down => d.downTokenId

theorem inv_start (h : (logger parse).init s) : ∃ g, Inv fwd s g := by
  obtain ⟨tr, d, activeEpoch, lastPrefetchNs, wallS, hx, hp, -, rfl⟩ := h
  obtain ⟨hslug, hnonneg, hbucket, hup, hdown⟩ := startup_ok hx hp
  let first : Attached := ⟨d.confirmedSlug, activeEpoch, tokensFound d⟩
  let g : Desk := { wallS := wallS, running := fun _ => true, token := first.token
                    label := fun _ => (first.slug, first.epoch), markets := [first], rows := [] }
  have hfirst : first.Ok := by
    refine ⟨hslug, hnonneg, hbucket, fun o => ?_⟩
    cases o with
    | up => exact hup
    | down => exact hdown
  have hdesk : DeskOk fwd g := by
    refine ⟨rfl, ?_, fun _ => List.pairwise_singleton _ _⟩
    intro a ha
    rw [List.mem_singleton.mp ha]
    exact hfirst
  have hseen (o : Outcome) : g.Seen o first.slug first.epoch := .inr rfl
  refine ⟨g, ⟨hdesk, fun _ => rfl, rfl, fun _ => rfl, ?_⟩, fun hno => absurd hno Bool.false_ne_true,
    rfl, rfl, rfl, fun _ => ⟨hslug, hnonneg⟩, ?_, ?_, ?_, ?_, ?_⟩
  · intro n hnone
    cases hnone
  · intro o
    cases o with
    | up => rfl
    | down => rfl
  · intro o
    cases o with
    | up => exact ⟨rfl, rfl⟩
    | down => exact ⟨rfl, rfl⟩
  · intro o
    cases o with
    | up => exact carries_start ⟨hseen .up, rfl⟩
    | down => exact carries_start ⟨hseen .down, rfl⟩
  · intro o r hnone
    cases hnone
  · intro r hr
    cases hr

theorem inv_reachable (h : (logger parse).Reachable s) : ∃ g, Inv False s g := by
  apply h.invariant
  · exact fun _ hs => inv_start hs
  · intro s mv t _ hinv hst
    obtain ⟨g, inv⟩ := hinv
    exact inv.step (apply_moved hst) False.elim

theorem inv_forward
    (h : ((logger parse).restrict fun s mv => clockForward s mv = true).Reachable s) :
    ∃ g, Inv True s g := by
  apply h.invariant
  · exact fun _ hs => inv_start hs
  · intro s mv t _ hinv hst
    obtain ⟨g, inv⟩ := hinv
    exact inv.step (apply_moved hst.1) fun _ => hst.2

end Step

/-! ### A computed run -/

def replies (nowNs wallS : ℤ) : (c : Call) → Option (Reply c)
  | .steadyNs => some nowNs
  | .outside c => Pipeline.gammaReplies wallS (fun _ => some 100) c
  | _ => none

def atStart (_ : ℕ) (c : Gamma.Call) : Option (Gamma.Reply c) :=
  Pipeline.gammaReplies 480 (fun _ => some 100) c

def start300 : State := .start Pipeline.discovery300 300 (-10000000000) 480

/-- The clock was read, and read 480. -/
def reads480 : Obs Gamma.Reply → Bool
  | ⟨.systemSeconds, s⟩ => decide (s = 480)
  | _ => false

theorem init_start300 : (logger fun _ => none).init start300 := by
  have hx : ((startup fun _ => none).replay atStart 0).any (fun r =>
      decide (r.2 = some (Pipeline.discovery300, 300)) && r.1.all possible &&
        r.1.any reads480) = true := by
    decide +kernel
  obtain ⟨⟨tr, r⟩, hr, hcheck⟩ := (Option.any_eq_true _ _).mp hx
  obtain ⟨hcheck, hclock⟩ := (Bool.and_eq_true _ _).mp hcheck
  obtain ⟨hd, hpossible⟩ := (Bool.and_eq_true _ _).mp hcheck
  have hd : r = some (Pipeline.discovery300, 300) := of_decide_eq_true hd
  subst hd
  obtain ⟨⟨c, s⟩, hmem, hs⟩ := List.any_eq_true.mp hclock
  cases c with
  | systemSeconds =>
    have hs : s = 480 := of_decide_eq_true hs
    subst hs
    exact ⟨tr, _, 300, -10000000000, 480, exec_replay hr, List.all_eq_true.mp hpossible, hmem, rfl⟩
  | _ => cases hs

def checkedApply (s : State) (mv : Move) : Option State :=
  if clockForward s mv then s.apply (fun _ => none) mv else none

theorem exists_logger_run (mvs : List Move) (P : State → Bool)
    (h : (Lts.stepAll checkedApply start300 mvs).any P = true) :
    ∃ s, ((logger fun _ => none).restrict fun s mv => clockForward s mv = true).Reachable s ∧
      P s = true := by
  have hstep : ∀ s mv t, checkedApply s mv = some t →
      ((logger fun _ => none).restrict fun s mv => clockForward s mv = true).step s mv t := by
    intro s mv t hst
    obtain ⟨hclock, hst⟩ := Option.ite_none_right_eq_some.mp hst
    exact ⟨hst, hclock⟩
  obtain ⟨s, hrun, hP⟩ := Lts.exists_run_stepAll hstep h
  exact ⟨s, hrun.reachable (.init init_start300), hP⟩

/-- A quote for the token, received, handled and logged. -/
def loggedQuote (tok : String) : List Move :=
  .feed .up (TokenFeed.bestBidAskMsg tok "0.5" "0.52") ::
    List.replicate 3 (.feed .up (.work 0)) ++ [.append .up] ++
      List.replicate 2 (.feed .up (.work 0))

/-- Bucket 600 is prefetched and attached at its first second. -/
def rolledOver : List Move :=
  TokenFeed.openSocket.map (.feed .up) ++ loggedQuote "up-300" ++ [.main, .main] ++
    List.replicate 3 (.answer (replies 0 600)) ++ List.replicate 17 .main ++ loggedQuote "up-600"

/-! ### The rows -/

/-- The file is that of a logger attached to these markets one after another; at the
top of the loop both feeds show the last. -/
structure Logged (s : State) (markets : List Attached) : Prop where
  ok : ∀ a ∈ markets, a.Ok
  rollovers : s.rollovers = rolloverRows markets
  quotes : ∀ r ∈ s.quotes, ∃ e, r.marketBucketEpoch = some e ∧ r.eventSlug = slugForBucket e ∧
    ((∃ a ∈ markets, a.epoch = e) ∨
      ∃ o, r.outcome = outcomeName o ∧ (s.feed o).fields.quoteMarketBucketEpoch = e)
  atTop : ∀ loop, s.main = .done (some loop) → ∃ a, markets.getLast? = some a ∧
    ∀ o, (s.feed o).fields.market = ⟨a.token o, a.slug, a.epoch, outcomeName o⟩

section Rows

variable {parse : String → Option Json} {fwd : Prop} {s : State} {g : Desk}

theorem Inv.logged (inv : Inv fwd s g) : Logged s g.markets := by
  have hdesk := safe_desk inv.main
  refine ⟨hdesk.ok, inv.rows.trans hdesk.rows, ?_, ?_⟩
  · intro r hr
    obtain ⟨o, hname, e, he, hseen⟩ := inv.quotes r hr
    refine ⟨e, he, ?_⟩
    rcases hseen with ⟨a, ha, hslug, rfl⟩ | h
    · exact ⟨hslug ▸ (hdesk.ok a ha).slug, .inl ⟨a, ha, rfl⟩⟩
    · have hlabel := (inv.label o).1
      have hshown := inv.shown o
      rw [← h] at hlabel hshown
      exact ⟨hlabel, .inr ⟨o, hname, congrArg Prod.snd hshown⟩⟩
  · intro loop hmain
    have hsafe := inv.main
    rw [hmain] at hsafe
    have hloop : LoopOk fwd g loop := hsafe
    refine ⟨_, hloop.last, fun o => ?_⟩
    have htok := inv.token o
    have hshown := inv.shown o
    rw [inside_none (inv.notSwitching (by rw [hmain]; nofun)) o] at htok
    rw [hloop.label o] at hshown
    obtain ⟨hslug, hepoch⟩ := Prod.mk.inj hshown
    have hname : (s.feed o).fields.quoteOutcome = outcomeName o := (inv.carries o).fields.2
    rw [TokenFeed.Fields.market, htok.1, hslug, hepoch, hname]

/-- Every file is that of a logger attached to some buckets one after another, and
while the wall clock does not go back each is a later one. -/
theorem rollovers_chain {parse : String → Option Json} :
    (∀ s, (logger parse).Reachable s → ∃ markets, Logged s markets) ∧
    ∀ s, ((logger parse).restrict fun s mv => clockForward s mv = true).Reachable s →
      ∃ markets, Logged s markets ∧ markets.Pairwise fun a b => a.epoch + 300 ≤ b.epoch := by
  constructor
  · intro s hs
    obtain ⟨g, inv⟩ := inv_reachable hs
    exact ⟨g.markets, inv.logged⟩
  · intro s hs
    obtain ⟨g, inv⟩ := inv_forward hs
    exact ⟨g.markets, inv.logged, (safe_desk inv.main).chain trivial⟩

theorem rollovers_chain_sample :
    ∃ s markets, s.rollovers.length = 1 ∧ s.quotes.length = 2 ∧ Logged s markets ∧
      markets.Pairwise fun a b => a.epoch + 300 ≤ b.epoch := by
  obtain ⟨s, hs, hP⟩ := exists_logger_run rolledOver
    (fun s => decide (s.rollovers.length = 1) && decide (s.quotes.length = 2)) (by decide +kernel)
  obtain ⟨hrollovers, hquotes⟩ := (Bool.and_eq_true _ _).mp hP
  obtain ⟨markets, hlogged, hchain⟩ := rollovers_chain.2 s hs
  exact ⟨s, markets, of_decide_eq_true hrollovers, of_decide_eq_true hquotes, hlogged, hchain⟩

end Rows

end LeadLag.Logger
