import LeadLag.Feeds.Threads
import LeadLag.TokenFeed.System

/-!
# A rollover of the feed as two calls

The model of the runner's threads changes a feed in two steps, `switchToken` and
`setMarketContext`. Here these calls are taken apart into their critical sections
and interleaved with the socket thread and the workers. What the feed shows
between the calls and after them is the same.
-/

namespace LeadLag.TokenFeed
open LeadLag.Feeds (Feed)
open LeadLag.Interaction

/-- Token and labels, as the model of the runner's threads has them. -/
def Fields.shown (f : Fields) : Feed :=
  { tokenId := f.tokenId, quoteEventSlug := f.quoteEventSlug
    quoteMarketBucketEpoch := f.quoteMarketBucketEpoch }

theorem shown_noteEmitted (f : Fields) (q : WsQuote) : (f.noteEmitted q).shown = f.shown := by
  unfold Fields.noteEmitted
  split <;> rfl

theorem shown_afterWork (s : System) (i : ℕ) (t : Task) :
    (s.afterWork i (t.step s.fields)).fields.shown = s.fields.shown := by
  have hstep := t.step_stepped s.fields
  generalize t.step s.fields = eff at hstep
  cases hstep with
  | stored q rest => exact shown_noteEmitted s.fields q
  | finished | threw | skipped | checked | dropped | suppressed | copied | delivered => rfl

/-! ### One rollover -/

/-- No other `switch_token` begins. -/
def continuesSwitch : Move → Bool
  | .beginSwitch _ => false
  | _ => true

/-- What the feed shows on the way from `a` to market `m`; `b` is `a` after
`switchToken`. -/
def OnTheWay (m : Market) (a b : Feed) (s : System) : Prop :=
  match s.caller with
  | .unsubscribing _ m' | .assigning m' => m' = m ∧ s.fields.shown = a
  | .snapshotting m' | .subscribing m' | .returned m' | .unchanged m' =>
    m' = m ∧ s.fields.shown = b
  | .idle => s.fields.shown = b.setMarketContext m.eventSlug m.bucketEpoch

section Step

variable {n : ℕ} {m : Market} {a b : Feed} {s t : System} {mv : Move}

/-- The call begins: the token is not empty, and nothing has changed yet. -/
theorem onTheWay_begin (h : s.call (.beginSwitch m) = some t) :
    ∃ b, s.fields.shown.switchToken m.tokenId = some b ∧ OnTheWay m s.fields.shown b t := by
  obtain ⟨-, h⟩ := Option.ite_none_left_eq_some.mp h
  obtain ⟨hne, h⟩ := Option.ite_none_left_eq_some.mp h
  refine ⟨{ s.fields.shown with tokenId := m.tokenId }, if_neg hne, ?_⟩
  split at h
  · rename_i hsame
    cases h
    refine ⟨rfl, ?_⟩
    rw [hsame]
    rfl
  · split at h
    · cases h
      exact ⟨rfl, rfl⟩
    · cases h
      exact ⟨rfl, rfl⟩

theorem OnTheWay.frame (h : OnTheWay m a b s) (hcaller : t.caller = s.caller)
    (hshown : t.fields.shown = s.fields.shown) : OnTheWay m a b t := by
  unfold OnTheWay at h ⊢
  rw [hcaller, hshown]
  exact h

theorem OnTheWay.step (h : OnTheWay m a b s) (hb : a.switchToken m.tokenId = some b)
    (hst : Moved n s mv t) (hmv : continuesSwitch mv = true) : OnTheWay m a b t := by
  cases hst with
  | opened | closed | snapshot | send | callback => exact h.frame rfl rfl
  | receiveInline | receiveQueued | take => exact h.frame rfl rfl
  | work i task =>
    obtain ⟨-, -, -, hcaller, -⟩ := afterWork_frame (s := s) i task
    exact h.frame hcaller (shown_afterWork s i task)
  | sameToken | noToken | begun => cases hmv
  | unsubscribe old m' hc | setSnapshot m' hc | subscribe m' hc =>
    unfold OnTheWay at h
    rw [hc] at h
    exact h
  | assign m' hc =>
    unfold OnTheWay at h
    rw [hc] at h
    obtain ⟨rfl, rfl⟩ := h
    obtain ⟨-, hb⟩ := Option.ite_none_left_eq_some.mp hb
    exact ⟨rfl, Option.some.inj hb⟩
  | setContext m' hc =>
    have hway : m' = m ∧ s.fields.shown = b := by
      unfold OnTheWay at h
      rcases hc with hc | hc
      · rw [hc] at h
        exact h
      · rw [hc] at h
        exact h
    obtain ⟨rfl, rfl⟩ := hway
    rfl

end Step

/-- From the call of `switch_token` on, whatever the other threads do, the feed
shows what it did until the token is assigned, what `switchToken` makes of it
until the labels are, and then what `setMarketContext` makes of that. -/
theorem rollover_shown {n : ℕ} {listed : Market → Prop} {m : Market} {s t u : System}
    {mvs : List Move} (hbegin : (feed n listed).step s (.beginSwitch m) t)
    (hrun : ((feed n listed).restrict fun _ mv => continuesSwitch mv = true).Run t mvs u) :
    ∃ b, s.fields.shown.switchToken m.tokenId = some b ∧ OnTheWay m s.fields.shown b u := by
  obtain ⟨-, hcall⟩ := Option.ite_none_left_eq_some.mp hbegin.1
  obtain ⟨b, hb, hway⟩ := onTheWay_begin hcall
  refine ⟨b, hb, ?_⟩
  apply hrun.invariant hway
  intro s mv t h hst
  exact h.step hb (apply_moved hst.1.1) hst.2

end LeadLag.TokenFeed
