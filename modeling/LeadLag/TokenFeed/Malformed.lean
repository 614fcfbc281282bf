import LeadLag.TokenFeed.System

/-!
# Malformed messages (ws_fixed_token_feed.cpp:209-331)

`on_ws_message_inner` catches what `parse` throws and nothing else. `Readable`
says of a message that no access to it throws. The handler runs with what
`sub_mu_` guards at each of its steps, whatever other threads do in between.
-/

namespace LeadLag.TokenFeed
open LeadLag.Core

/-! ### Accesses that throw -/

/-- `value(key, "")` does not throw. -/
def AbsentOrString (key : String) (j : Json) : Prop :=
  ∀ v, j.field? key = some v → ∃ s, v = .str s

/-- Neither does `at("best_bid")` or `at("best_ask")`. -/
def HasPrices (j : Json) : Prop :=
  (∃ bid, j.field? "best_bid" = some bid) ∧ ∃ ask, j.field? "best_ask" = some ask

structure Readable (tok : String) (j : Json) : Prop where
  eventType : AbsentOrString "event_type" j
  bestBidAsk : stringValue "event_type" j = some "best_bid_ask" → AbsentOrString "asset_id" j
  prices : stringValue "event_type" j = some "best_bid_ask" →
    stringValue "asset_id" j = some tok → HasPrices j
  book : stringValue "event_type" j = some "book" → AbsentOrString "asset_id" j
  changes : stringValue "event_type" j = some "price_change" →
    ∀ ch ∈ levels "price_changes" j, ch.isObject = true → AbsentOrString "asset_id" ch

theorem string?_eq_none_iff {v : Json} : v.string? = none ↔ ¬ ∃ s, v = .str s := by
  cases v <;> simp [Json.string?]

theorem stringValue_eq_none_iff {key : String} {j : Json} :
    stringValue key j = none ↔ ¬ AbsentOrString key j := by
  unfold stringValue AbsentOrString
  cases j.field? key with
  | none => simp
  | some v => simp [string?_eq_none_iff]

theorem absentOrString_of_value {key s : String} {j : Json} (h : stringValue key j = some s) :
    AbsentOrString key j := by
  by_contra hn
  rw [stringValue_eq_none_iff.mpr hn] at h
  cases h

def Item.raises (tok : String) : Item → Bool
  | .throws => true
  | .entry aid .throws => decide (aid = tok)
  | .entry _ _ => false

theorem bestBidAsk_throws_iff {j : Json} : bestBidAsk .throws j = .throws ↔ ¬ HasPrices j := by
  unfold bestBidAsk HasPrices
  cases j.field? "best_bid" with
  | none => simp
  | some bid =>
    cases j.field? "best_ask" with
    | none => simp
    | some ask => simp

theorem bestBidAsk_nothing_ne {j : Json} : bestBidAsk .nothing j ≠ .throws := by
  unfold bestBidAsk
  split <;> simp

theorem bookTop_ne_throws {j : Json} : bookTop j ≠ .throws := by
  unfold bookTop
  split <;> simp

theorem raises_withAssetId {tok : String} {j : Json} {top : Top} :
    (withAssetId j top).raises tok = false ↔
      AbsentOrString "asset_id" j ∧ (stringValue "asset_id" j = some tok → top ≠ .throws) := by
  unfold withAssetId
  split
  · rename_i hthrows
    have hbad := stringValue_eq_none_iff.mp hthrows
    simp [Item.raises, hbad]
  · rename_i aid haid
    have hgood := absentOrString_of_value haid
    cases top with
    | throws => simp [Item.raises, haid, hgood]
    | prices | nothing => simp [Item.raises, hgood]

theorem readable_iff {tok : String} {j : Json} (hj : j.isObject = true) :
    Readable tok j ↔ ∀ item ∈ items (some j), item.raises tok = false := by
  simp only [items, if_pos hj]
  split
  · rename_i hevent
    have hbad := stringValue_eq_none_iff.mp hevent
    constructor
    · intro h
      exact absurd h.eventType hbad
    · intro h
      have hraise := h .throws (List.mem_singleton_self _)
      cases hraise
  · rename_i hevent
    have hstring := absentOrString_of_value hevent
    rw [List.forall_mem_singleton, raises_withAssetId, ne_eq, bestBidAsk_throws_iff, not_not]
    constructor
    · intro h
      exact ⟨h.bestBidAsk hevent, h.prices hevent⟩
    · rintro ⟨hasset, hprices⟩
      exact ⟨hstring, fun _ => hasset, fun _ => hprices, by simp [hevent], by simp [hevent]⟩
  · rename_i hevent
    have hstring := absentOrString_of_value hevent
    rw [List.forall_mem_singleton, raises_withAssetId]
    constructor
    · intro h
      exact ⟨h.book hevent, fun _ => bookTop_ne_throws⟩
    · rintro ⟨hasset, -⟩
      exact ⟨hstring, by simp [hevent], by simp [hevent], fun _ => hasset, by simp [hevent]⟩
  · rename_i hevent
    have hstring := absentOrString_of_value hevent
    simp only [changeItems, List.forall_mem_map, List.mem_filter, raises_withAssetId, and_imp]
    constructor
    · intro h ch hmem hobj
      exact ⟨h.changes hevent ch hmem hobj, fun _ => bestBidAsk_nothing_ne⟩
    · intro h
      have hchanges : ∀ ch ∈ levels "price_changes" j, ch.isObject = true →
          AbsentOrString "asset_id" ch := fun ch hmem hobj => (h ch hmem hobj).1
      exact ⟨hstring, by simp [hevent], by simp [hevent], by simp [hevent], fun _ => hchanges⟩
  · rename_i et hbba hbook hchange hevent
    have hstring := absentOrString_of_value hevent
    constructor
    · intro _ item hmem
      exact absurd hmem List.not_mem_nil
    · intro _
      refine ⟨hstring, ?_, ?_, ?_, ?_⟩
      · intro heq
        exact absurd (Option.some.inj (hevent.symm.trans heq)) (by simpa using hbba)
      · intro heq
        exact absurd (Option.some.inj (hevent.symm.trans heq)) (by simpa using hbba)
      · intro heq
        exact absurd (Option.some.inj (hevent.symm.trans heq)) (by simpa using hbook)
      · intro heq
        exact absurd (Option.some.inj (hevent.symm.trans heq)) (by simpa using hchange)

/-! ### Entries that offer a quote -/

/-- Without the field the asset id reads as an empty string. -/
def Carries (tok : String) (entry : Json) : Prop :=
  entry.field? "asset_id" = some (.str tok) ∨ (tok = "" ∧ entry.field? "asset_id" = none)

def NumericPrices (entry : Json) (bid ask : Price) : Prop :=
  ∃ b a, entry.field? "best_bid" = some b ∧ entry.field? "best_ask" = some a ∧
    jsonToDouble b = some bid ∧ jsonToDouble a = some ask

/-- An entry of the message carries the token and these prices. -/
inductive Quoted (tok : String) (j : Json) (bid ask : Price) : Prop where
  | bestBidAsk : stringValue "event_type" j = some "best_bid_ask" → Carries tok j →
      NumericPrices j bid ask → Quoted tok j bid ask
  | book : stringValue "event_type" j = some "book" → Carries tok j →
      parseTopOfBookFromBook j = some (bid, ask) → Quoted tok j bid ask
  | change (ch : Json) : stringValue "event_type" j = some "price_change" →
      ch ∈ levels "price_changes" j → Carries tok ch → NumericPrices ch bid ask →
      Quoted tok j bid ask

theorem carries_of_value {tok : String} {entry : Json}
    (h : stringValue "asset_id" entry = some tok) : Carries tok entry := by
  unfold stringValue at h
  split at h
  · rename_i habsent
    cases h
    exact .inr ⟨rfl, habsent⟩
  · rename_i v hv
    cases v with
    | str s =>
      cases h
      exact .inl hv
    | null | bool | int | float | arr | obj => cases h

theorem offer_withAssetId {tok : String} {j : Json} {top : Top} {bid ask : Price}
    (h : (withAssetId j top).offer? tok = some (bid, ask)) :
    Carries tok j ∧ top = .prices (some bid) (some ask) := by
  unfold withAssetId at h
  split at h
  · cases h
  · rename_i aid haid
    unfold Item.offer? at h
    split at h
    · rename_i heq
      split at h
      · rename_i hsame
        cases heq
        cases h
        subst hsame
        exact ⟨carries_of_value haid, rfl⟩
      · cases h
    · cases h

theorem bestBidAsk_prices {missing : Top} {j : Json} {bid ask : Price}
    (hmissing : ∀ b a, missing ≠ .prices b a)
    (h : bestBidAsk missing j = .prices (some bid) (some ask)) : NumericPrices j bid ask := by
  unfold bestBidAsk at h
  split at h
  · rename_i b a hb ha
    injection h with hbid hask
    exact ⟨b, a, hb, ha, hbid, hask⟩
  · exact absurd h (hmissing _ _)

theorem quoted_of_item {tok : String} {j : Json} {item : Item} {bid ask : Price}
    (hmem : item ∈ items (some j)) (h : item.offer? tok = some (bid, ask)) :
    Quoted tok j bid ask := by
  simp only [items] at hmem
  split at hmem
  · split at hmem
    · rw [List.mem_singleton] at hmem
      subst hmem
      cases h
    · rename_i hevent
      rw [List.mem_singleton] at hmem
      subst hmem
      obtain ⟨hasset, hprices⟩ := offer_withAssetId h
      exact .bestBidAsk hevent hasset (bestBidAsk_prices (by simp) hprices)
    · rename_i hevent
      rw [List.mem_singleton] at hmem
      subst hmem
      obtain ⟨hasset, htop⟩ := offer_withAssetId h
      unfold bookTop at htop
      split at htop
      · rename_i hbook
        cases htop
        exact .book hevent hasset hbook
      · cases htop
    · rename_i hevent
      simp only [changeItems, List.mem_map, List.mem_filter] at hmem
      obtain ⟨ch, ⟨hch, -⟩, rfl⟩ := hmem
      obtain ⟨hasset, hprices⟩ := offer_withAssetId h
      exact .change ch hevent hch hasset (bestBidAsk_prices (by simp) hprices)
    · exact absurd hmem List.not_mem_nil
  · exact absurd hmem List.not_mem_nil

/-! ### One message -/

inductive Ended where
  | returned
  | threw
  | inside (t : Task)
  deriving DecidableEq

/-- `n` steps with the quotes delivered; `fs i` is what `sub_mu_` guards at step `i`. -/
def Task.run : ℕ → (ℕ → Fields) → Task → List WsQuote × Ended
  | 0, _, t => ([], .inside t)
  | n + 1, fs, t =>
    match t.step (fs 0) with
    | .finishes => ([], .returned)
    | .throws => ([], .threw)
    | .goes t' => t'.run n fun i => fs (i + 1)
    | .delivers q t' =>
      let (quotes, ended) := t'.run n fun i => fs (i + 1)
      (q :: quotes, ended)
    | .stores _ t' => t'.run n fun i => fs (i + 1)

/-- `on_ws_message_inner` with `n` steps. -/
def onWsMessageInner (msg : Option Json) (fs : ℕ → Fields) (n : ℕ) : List WsQuote × Ended :=
  (Task.scanning (items msg)).run n fs

namespace Task

def rest : Task → List Item
  | .scanning rest | .emitting _ _ _ rest | .calling _ rest | .storing _ rest => rest

/-- Bounds the steps to go. -/
def togo : Task → ℕ
  | .scanning rest => 4 * rest.length
  | .emitting _ _ _ rest => 4 * rest.length + 3
  | .calling _ rest => 4 * rest.length + 2
  | .storing _ rest => 4 * rest.length + 1

end Task

def Effect.next? : Effect → Option Task
  | .goes t | .delivers _ t | .stores _ t => some t
  | .finishes | .throws => none

theorem run_next {n : ℕ} {fs : ℕ → Fields} {t t' : Task} (h : (t.step (fs 0)).next? = some t') :
    (t.run (n + 1) fs).2 = (t'.run n fun i => fs (i + 1)).2 := by
  simp only [Task.run]
  split <;> rename_i hstep <;> rw [hstep] at h <;> cases h <;> rfl

/-- A step ends the handler, throws at the entry it looks at, or leaves less to do. -/
inductive Advanced (f : Fields) : Task → Prop where
  | finished : Advanced f (.scanning [])
  | threw (item : Item) (rest : List Item) : item.raises f.tokenId = true →
      (Task.scanning (item :: rest)).step f = .throws → Advanced f (.scanning (item :: rest))
  | kept (t t' : Task) : (∀ rest, t ≠ .scanning rest) → (t.step f).next? = some t' →
      t'.togo < t.togo → t'.rest = t.rest → Advanced f t
  | passed (item : Item) (rest : List Item) (t' : Task) : item.raises f.tokenId = false →
      ((Task.scanning (item :: rest)).step f).next? = some t' →
      t'.togo < (Task.scanning (item :: rest)).togo → t'.rest = rest →
      Advanced f (.scanning (item :: rest))

theorem emitQuote_advances (f : Fields) (aid : String) (bid ask : Option Price)
    (rest : List Item) :
    (emitQuote f aid bid ask rest).togo < 4 * rest.length + 3 ∧
      (emitQuote f aid bid ask rest).rest = rest := by
  have hscan : (Task.scanning rest).togo < 4 * rest.length + 3 := by
    simp only [Task.togo]
    omega
  unfold emitQuote
  split
  · split
    · split
      · exact ⟨hscan, rfl⟩
      · exact ⟨by simp only [Task.togo]; omega, rfl⟩
    · exact ⟨hscan, rfl⟩
  · exact ⟨hscan, rfl⟩

theorem step_advanced (f : Fields) (t : Task) : Advanced f t := by
  cases t with
  | emitting aid bid ask rest =>
    obtain ⟨hless, hrest⟩ := emitQuote_advances f aid bid ask rest
    exact .kept _ _ nofun rfl hless hrest
  | calling q rest => exact .kept _ _ nofun rfl (by simp only [Task.togo]; omega) rfl
  | storing q rest => exact .kept _ _ nofun rfl (by simp only [Task.togo]; omega) rfl
  | scanning rest =>
    cases rest with
    | nil => exact .finished
    | cons item rest =>
      have hscan : (Task.scanning rest).togo < (Task.scanning (item :: rest)).togo := by
        simp only [Task.togo, List.length_cons]
        omega
      cases item with
      | throws => exact .threw _ _ rfl rfl
      | entry aid top =>
        by_cases haid : aid = f.tokenId
        · cases top with
          | throws => exact .threw _ _ (decide_eq_true haid) (by simp [Task.step, haid])
          | nothing => exact .passed _ _ _ rfl (by simp [Task.step, haid, Effect.next?]) hscan rfl
          | prices bid ask =>
            have hemit : (Task.emitting aid bid ask rest).togo <
                (Task.scanning (.entry aid (.prices bid ask) :: rest)).togo := by
              simp only [Task.togo, List.length_cons]
              omega
            exact .passed _ _ _ rfl (by simp [Task.step, haid, Effect.next?]) hemit rfl
        · refine .passed _ _ (.scanning rest) ?_ (by simp [Task.step, haid, Effect.next?]) hscan rfl
          cases top with
          | throws => exact decide_eq_false haid
          | nothing | prices => rfl

theorem run_ends {n : ℕ} (fs : ℕ → Fields) {t : Task} (h : t.togo < n) :
    (t.run n fs).2 = .returned ∨ (t.run n fs).2 = .threw := by
  induction n generalizing fs t with
  | zero => omega
  | succ n ih =>
    cases step_advanced (fs 0) t with
    | finished => exact .inl rfl
    | threw item rest _ hstep =>
      right
      simp only [Task.run, hstep]
    | kept _ t' _ hnext hless | passed _ _ t' _ hnext hless =>
      rw [run_next hnext]
      exact ih _ (by omega)

theorem run_never_throws {n : ℕ} {fs : ℕ → Fields} {t : Task}
    (h : ∀ item ∈ t.rest, ∀ tok, item.raises tok = false) : (t.run n fs).2 ≠ .threw := by
  induction n generalizing fs t with
  | zero => simp [Task.run]
  | succ n ih =>
    cases step_advanced (fs 0) t with
    | finished => simp [Task.run, Task.step]
    | threw item rest hraise =>
      rw [h item List.mem_cons_self] at hraise
      cases hraise
    | kept _ t' _ hnext _ hrest =>
      rw [run_next hnext]
      refine ih fun item hmem => h item ?_
      rwa [hrest] at hmem
    | passed item rest t' _ hnext _ hrest =>
      rw [run_next hnext]
      refine ih fun item hmem => h item (List.mem_cons_of_mem _ ?_)
      rwa [hrest] at hmem

theorem run_never_returns {n : ℕ} {fs : ℕ → Fields} {t : Task} (h : Item.throws ∈ t.rest) :
    (t.run n fs).2 ≠ .returned := by
  induction n generalizing fs t with
  | zero => simp [Task.run]
  | succ n ih =>
    cases step_advanced (fs 0) t with
    | finished => exact absurd h List.not_mem_nil
    | threw item rest _ hstep => simp [Task.run, hstep]
    | kept _ t' _ hnext _ hrest =>
      rw [run_next hnext]
      exact ih (by rwa [hrest])
    | passed item rest t' hkeeps hnext _ hrest =>
      rw [run_next hnext]
      refine ih ?_
      rw [hrest]
      rcases List.mem_cons.mp h with heq | hmem
      · rw [← heq] at hkeeps
        cases hkeeps
      · exact hmem

/-- Only in a message of a single entry does a throw depend on the token. -/
theorem items_single_or_static (msg : Option Json) :
    (∃ item, items msg = [item]) ∨
      ∀ item ∈ items msg, ∀ tok, item.raises tok = true → item = .throws := by
  cases msg with
  | none => exact .inr fun _ hmem => absurd hmem List.not_mem_nil
  | some j =>
    simp only [items]
    split
    · split
      · exact .inl ⟨_, rfl⟩
      · exact .inl ⟨_, rfl⟩
      · exact .inl ⟨_, rfl⟩
      · right
        intro item hmem tok hraise
        simp only [changeItems, List.mem_map, List.mem_filter] at hmem
        obtain ⟨ch, -, rfl⟩ := hmem
        unfold withAssetId at hraise ⊢
        split
        · rfl
        · rename_i aid haid
          simp only [haid] at hraise
          have hno : bestBidAsk .nothing ch ≠ .throws := bestBidAsk_nothing_ne
          cases htop : bestBidAsk .nothing ch with
          | throws => exact absurd htop hno
          | prices | nothing =>
            rw [htop] at hraise
            cases hraise
      · exact .inr fun _ hmem => absurd hmem List.not_mem_nil
    · exact .inr fun _ hmem => absurd hmem List.not_mem_nil

theorem run_returns_iff (msg : Option Json) (fs : ℕ → Fields) :
    (∃ n, (onWsMessageInner msg fs n).2 = .returned) ↔
      ∀ item ∈ items msg, item.raises (fs 0).tokenId = false := by
  have hends := run_ends fs (Nat.lt_succ_self (Task.scanning (items msg)).togo)
  rcases items_single_or_static msg with ⟨item, hitem⟩ | hstatic
  · simp only [onWsMessageInner, hitem, List.forall_mem_singleton] at hends ⊢
    cases step_advanced (fs 0) (.scanning [item]) with
    | threw _ _ hraise hstep =>
      rw [hraise]
      constructor
      · rintro ⟨n, hn⟩
        cases n with
        | zero => cases hn
        | succ n =>
          simp only [Task.run, hstep] at hn
          cases hn
      · nofun
    | kept _ t' hno => exact absurd rfl (hno [item])
    | passed _ _ t' hkeeps hnext _ hrest =>
      rw [hkeeps]
      simp only [iff_true]
      refine ⟨_, hends.resolve_right ?_⟩
      rw [run_next hnext]
      exact run_never_throws (by simp [hrest])
  · constructor
    · rintro ⟨n, hn⟩ item hmem
      by_contra hraise
      have hthrows := hstatic item hmem _ (by simpa using hraise)
      rw [hthrows] at hmem
      exact run_never_returns (t := .scanning (items msg)) hmem hn
    · intro h
      refine ⟨_, hends.resolve_right (run_never_throws ?_)⟩
      intro item hmem tok
      by_contra hraise
      have hthrows := hstatic item hmem tok (by simpa using hraise)
      have hclean := h item hmem
      rw [hthrows] at hclean
      cases hclean

def Task.offering : Task → List Item
  | .emitting aid bid ask rest => .entry aid (.prices bid ask) :: rest
  | .scanning rest | .calling _ rest | .storing _ rest => rest

/-- A quote delivered was copied at a step whose token an entry offers it for. -/
theorem run_quotes {n : ℕ} {fs : ℕ → Fields} {t : Task} {q : WsQuote} (h : q ∈ (t.run n fs).1) :
    (∃ rest, t = .calling q rest) ∨
      ∃ k bid ask, ∃ item ∈ t.offering, item.offer? (fs k).tokenId = some (bid, ask) ∧
        q = (fs k).quote bid ask := by
  induction n generalizing fs t with
  | zero => exact absurd h List.not_mem_nil
  | succ n ih =>
    have later {t' : Task} (hmem : q ∈ (t'.run n fun i => fs (i + 1)).1)
        (hcall : ∀ rest, t' ≠ .calling q rest) (hsub : t'.offering ⊆ t.offering) :
        ∃ k bid ask, ∃ item ∈ t.offering, item.offer? (fs k).tokenId = some (bid, ask) ∧
          q = (fs k).quote bid ask := by
      rcases ih hmem with ⟨rest, hrest⟩ | ⟨k, bid, ask, item, hitem, hoffer⟩
      · exact absurd hrest (hcall rest)
      · exact ⟨k + 1, bid, ask, item, hsub hitem, hoffer⟩
    cases t with
    | calling q' rest =>
      simp only [Task.run, Task.step, List.mem_cons] at h
      rcases h with rfl | hmem
      · exact .inl ⟨rest, rfl⟩
      · exact .inr (later hmem (by simp) (List.Subset.refl _))
    | storing q' rest => exact .inr (later h (by simp) (List.Subset.refl _))
    | scanning rest =>
      right
      cases rest with
      | nil => exact absurd h List.not_mem_nil
      | cons item rest =>
        cases item with
        | throws => exact absurd h List.not_mem_nil
        | entry aid top =>
          simp only [Task.run, Task.step] at h
          by_cases haid : aid = (fs 0).tokenId
          · simp only [haid, ite_true] at h
            cases top with
            | throws => exact absurd h List.not_mem_nil
            | nothing => exact later h (by simp) (List.subset_cons_self _ _)
            | prices bid ask =>
              refine later h (by simp) ?_
              rw [← haid]
              exact List.Subset.refl _
          · simp only [haid, ite_false] at h
            exact later h (by simp) (List.subset_cons_self _ _)
    | emitting aid bid ask rest =>
      right
      simp only [Task.run, Task.step] at h
      unfold emitQuote at h
      split at h
      · rename_i haid
        split at h
        · rename_i b a
          split at h
          · exact later h (by simp) (List.subset_cons_self _ _)
          · rcases ih h with ⟨rest', hcall⟩ | ⟨k, bid, ask, item, hitem, hoffer⟩
            · injection hcall with hq
              refine ⟨0, b, a, _, List.mem_cons_self, ?_, hq.symm⟩
              exact if_pos haid
            · exact ⟨k + 1, bid, ask, item, List.mem_cons_of_mem _ hitem, hoffer⟩
        · exact later h (by simp) (List.subset_cons_self _ _)
      · exact later h (by simp) (List.subset_cons_self _ _)

theorem handler_quotes {msg : Option Json} {fs : ℕ → Fields} {n : ℕ} {q : WsQuote}
    (h : q ∈ (onWsMessageInner msg fs n).1) :
    ∃ j k bid ask, msg = some j ∧ Quoted (fs k).tokenId j bid ask ∧ q = (fs k).quote bid ask := by
  rcases run_quotes h with ⟨rest, hcall⟩ | ⟨k, bid, ask, item, hitem, hoffer, hq⟩
  · cases hcall
  · cases msg with
    | none => exact absurd hitem List.not_mem_nil
    | some j => exact ⟨j, k, bid, ask, rfl, quoted_of_item hitem hoffer, hq⟩

/-- The handler returns if and only if the message is no object or readable for
the token of its first step. -/
theorem handler_returns_iff (msg : Option Json) (fs : ℕ → Fields) :
    (∃ n, (onWsMessageInner msg fs n).2 = .returned) ↔
      ∀ j, msg = some j → j.isObject = true → Readable (fs 0).tokenId j := by
  rw [run_returns_iff]
  constructor
  · rintro h j rfl hobj
    exact (readable_iff hobj).mpr h
  · intro h
    cases msg with
    | none => exact fun _ hmem => absurd hmem List.not_mem_nil
    | some j =>
      by_cases hobj : j.isObject = true
      · exact (readable_iff hobj).mp (h j rfl hobj)
      · simp [items, hobj]

end LeadLag.TokenFeed
