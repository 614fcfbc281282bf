import LeadLag.Gamma.Discovery
import LeadLag.PolyWs.Malformed

/-!
# What an event may hold (bucket_market_discovery.cpp:202-219, 404-588)

The reading of an event mixes accesses that check the type of a field with
accesses that throw on another type, and no block around them catches. An
answer is readable when none of the accesses that its own values lead to
throws; a lookup throws exactly when it gets an answer that is not.
-/

namespace LeadLag.Gamma
open LeadLag.Core LeadLag.Interaction
open LeadLag.TokenFeed (stringValue AbsentOrString)
open LeadLag.PolyWs (AbsentOrBool stringValue_isSome_iff)

/-! ### Readable events -/

def OpenReadable (j : Json) : Prop :=
  AbsentOrBool "active" j ∧ (boolValue "active" false j = some true → AbsentOrBool "closed" j)

/-- The loop stops at the first market of the slug. -/
def MarketsReadable (wantSlug : String) (ms : List Json) : Prop :=
  ∀ pre m post, ms = pre ++ m :: post → m.isObject = true →
    (∀ c ∈ pre, ¬ (c.isObject = true ∧ stringValue "slug" c = some wantSlug)) →
    AbsentOrString "slug" m

def StartReadable (event m : Json) : Prop :=
  AbsentOrString "eventStartTime" m ∧
    (stringValue "eventStartTime" m = some "" → AbsentOrString "startTime" event)

def MarketReadable (parse : String → Option Json) (event m : Json) : Prop :=
  OpenReadable m ∧
    (isOpen m = some true →
      ∀ sides, tokensOf (outcomesFromMarket parse m) (tokensFromMarket parse m) = some sides →
        AbsentOrString "conditionId" m ∧ StartReadable event m)

/-- Each part matters only once the parts before it have let the event pass. -/
def EventReadable (parse : String → Option Json) (event : Json) (wantSlug : String) : Prop :=
  AbsentOrString "slug" event ∧
    (stringValue "slug" event = some wantSlug → OpenReadable event ∧
      (isOpen event = some true →
        (∀ ms, event.field? "markets" = some (.arr ms) → MarketsReadable wantSlug ms) ∧
        ∀ m, findMarketForSlug event wantSlug = some (some m) → MarketReadable parse event m))

/-- Answers to other calls, failed requests and empty lists are always readable. -/
def AnswerReadable (parse : String → Option Json) (o : Obs Reply) : Prop :=
  match o with
  | ⟨.eventsBySlug slug, r⟩ =>
    ∀ ev rest, r = some (ev :: rest) → ev.isObject = true → EventReadable parse ev slug
  | ⟨.eventsById _, r⟩ =>
    ∀ ev rest, r = some (ev :: rest) → ev.isObject = true → AbsentOrString "slug" ev
  | _ => True

/-! ### Readable is what does not throw -/

section Option
variable {A B : Type}

theorem exists_bind_iff {o : Option A} {f : A → Option B} :
    (∃ b, o.bind f = some b) ↔ (∃ a, o = some a) ∧ ∀ a, o = some a → ∃ b, f a = some b := by
  cases o with
  | none => simp
  | some a => simp

variable {x : Option (Option B)}

/-- The three early returns of the reading. -/
theorem forall_same_iff [DecidableEq A] {o : Option A} {want : A} :
    (∀ a, o = some a → ∃ r, (if a ≠ want then pure none else x) = some r) ↔
      (o = some want → ∃ r, x = some r) := by
  constructor
  · intro h hsame
    have hrest := h want hsame
    rwa [if_neg (not_not.mpr rfl)] at hrest
  · intro h a ha
    split
    · exact ⟨_, rfl⟩
    · rename_i hsame
      rw [not_not.mp hsame] at ha
      exact h ha

theorem forall_open_iff {o : Option Bool} :
    (∀ b, o = some b → ∃ r, (if (!b) = true then pure none else x) = some r) ↔
      (o = some true → ∃ r, x = some r) := by
  constructor
  · exact fun h htrue => h true htrue
  · intro h b hb
    cases b with
    | false => exact ⟨_, rfl⟩
    | true => exact h hb

theorem forall_found_iff {o : Option (Option A)} {f : Option A → Option (Option B)}
    (hnone : f none = some none) :
    (∀ a, o = some a → ∃ r, f a = some r) ↔
      ∀ a, o = some (some a) → ∃ r, f (some a) = some r := by
  constructor
  · exact fun h a ha => h (some a) ha
  · intro h a ha
    cases a with
    | none => exact ⟨_, hnone⟩
    | some a => exact h a ha

end Option

theorem boolValue_isSome_iff {key : String} (default : Bool) {j : Json} :
    (∃ b, boolValue key default j = some b) ↔ AbsentOrBool key j := by
  show (∃ b, PolyWs.boolValue key default j = some b) ↔ AbsentOrBool key j
  exact PolyWs.boolValue_isSome_iff default

theorem isOpen_isSome_iff {j : Json} : (∃ b, isOpen j = some b) ↔ OpenReadable j := by
  unfold isOpen OpenReadable
  simp only [Option.bind_eq_bind]
  rw [exists_bind_iff, boolValue_isSome_iff]
  refine and_congr_right fun _ => ?_
  constructor
  · intro h hactive
    obtain ⟨b, hb⟩ := h true hactive
    rw [← boolValue_isSome_iff true]
    exact (exists_bind_iff.mp ⟨b, hb⟩).1
  · intro h active hactive
    cases active with
    | false => exact ⟨_, rfl⟩
    | true =>
      refine exists_bind_iff.mpr ⟨(boolValue_isSome_iff true).mpr (h hactive), ?_⟩
      exact fun closed _ => ⟨_, rfl⟩

/-- The first market is read, and the rest only when it is no match. -/
theorem marketsReadable_cons {wantSlug : String} {c : Json} {rest : List Json} :
    MarketsReadable wantSlug (c :: rest) ↔
      (c.isObject = true → AbsentOrString "slug" c) ∧
        (¬ (c.isObject = true ∧ stringValue "slug" c = some wantSlug) →
          MarketsReadable wantSlug rest) := by
  constructor
  · intro h
    constructor
    · exact fun hobj => h [] c rest rfl hobj (List.forall_mem_nil _)
    · intro hno pre m post hsplit hobj hpre
      refine h (c :: pre) m post (by rw [hsplit]; rfl) hobj ?_
      exact List.forall_mem_cons.mpr ⟨hno, hpre⟩
  · rintro ⟨hfirst, hrest⟩ pre m post hsplit hobj hpre
    cases pre with
    | nil =>
      obtain ⟨rfl, -⟩ := List.cons.inj hsplit
      exact hfirst hobj
    | cons c' pre =>
      obtain ⟨rfl, htail⟩ := List.cons.inj hsplit
      obtain ⟨hno, hpre'⟩ := List.forall_mem_cons.mp hpre
      exact hrest hno pre m post htail hobj hpre'

theorem marketWithSlug_isSome_iff {wantSlug : String} {ms : List Json} :
    (∃ r, marketWithSlug wantSlug ms = some r) ↔ MarketsReadable wantSlug ms := by
  induction ms with
  | nil =>
    refine iff_of_true ⟨_, rfl⟩ fun pre m post hsplit => ?_
    simp at hsplit
  | cons c rest ih =>
    unfold marketWithSlug
    rw [marketsReadable_cons, ← ih]
    by_cases hobj : c.isObject = true
    · rw [if_pos hobj]
      cases hslug : stringValue "slug" c with
      | none =>
        have hbad := TokenFeed.stringValue_eq_none_iff.mp hslug
        simp [hobj, hbad]
      | some slug =>
        have hgood := TokenFeed.absentOrString_of_value hslug
        by_cases hsame : slug = wantSlug
        · simp [hsame, hobj, hgood]
        · simp [hsame, hgood]
    · simp [hobj]

theorem findMarketForSlug_isSome_iff {event : Json} {wantSlug : String} :
    (∃ r, findMarketForSlug event wantSlug = some r) ↔
      ∀ ms, event.field? "markets" = some (.arr ms) → MarketsReadable wantSlug ms := by
  unfold findMarketForSlug
  split
  · rename_i ms hms
    simp only [hms, Option.some.injEq, Json.arr.injEq, forall_eq', ← marketWithSlug_isSome_iff]
    cases hfound : marketWithSlug wantSlug ms with
    | none => simp
    | some found =>
      refine iff_of_true ?_ ⟨found, rfl⟩
      cases found with
      | none => exact ⟨_, rfl⟩
      | some m => exact ⟨_, rfl⟩
  · rename_i hother
    exact iff_of_true ⟨_, rfl⟩ fun ms hms => absurd hms (hother ms)

theorem startIso_isSome_iff {event m : Json} :
    (∃ iso, startIso event m = some iso) ↔ StartReadable event m := by
  unfold startIso StartReadable
  simp only [Option.bind_eq_bind]
  rw [exists_bind_iff, stringValue_isSome_iff]
  refine and_congr_right fun _ => ?_
  constructor
  · intro h hempty
    obtain ⟨iso, hiso⟩ := h "" hempty
    rw [if_pos rfl] at hiso
    exact stringValue_isSome_iff.mp ⟨iso, hiso⟩
  · intro h start hstart
    split
    · rename_i hempty
      rw [hempty] at hstart
      exact stringValue_isSome_iff.mpr (h hstart)
    · exact ⟨_, rfl⟩

theorem extractMarket_isSome_iff {parse : String → Option Json} {event : Json} {wantSlug : String}
    {out : BtcFiveMinuteBucketDiscovery} :
    (∃ r, extractMarket parse event wantSlug out = some r) ↔
      EventReadable parse event wantSlug := by
  unfold extractMarket EventReadable
  simp only [Option.bind_eq_bind]
  rw [exists_bind_iff, stringValue_isSome_iff]
  refine and_congr_right fun _ => forall_same_iff.trans (imp_congr_right fun _ => ?_)
  rw [exists_bind_iff, isOpen_isSome_iff]
  refine and_congr_right fun _ => forall_open_iff.trans (imp_congr_right fun _ => ?_)
  rw [exists_bind_iff, findMarketForSlug_isSome_iff]
  refine and_congr_right fun _ => (forall_found_iff (by rfl)).trans ?_
  refine forall_congr' fun m => imp_congr_right fun _ => ?_
  unfold MarketReadable
  rw [exists_bind_iff, isOpen_isSome_iff]
  refine and_congr_right fun _ => forall_open_iff.trans (imp_congr_right fun _ => ?_)
  cases tokensOf (outcomesFromMarket parse m) (tokensFromMarket parse m) with
  | none => simp
  | some sides =>
    simp only [Option.some.injEq, forall_eq']
    rw [exists_bind_iff, stringValue_isSome_iff, ← startIso_isSome_iff]
    refine and_congr_right fun hid => ?_
    constructor
    · intro h
      obtain ⟨conditionId, hconditionId⟩ := stringValue_isSome_iff.mpr hid
      exact (exists_bind_iff.mp (h conditionId hconditionId)).1
    · intro h conditionId _
      exact exists_bind_iff.mpr ⟨h, fun iso _ => ⟨_, rfl⟩⟩

/-! ### Runs of a lookup -/

section Runs
variable {A B : Type} {parse : String → Option Json}

/-- A run has come to its result, or to an exception that nobody catches. -/
def Ends (p : Prog A) (tr : Trace) : Option A → Prop
  | some a => Exec p tr a
  | none => Reaches p tr Call.uncaught

/-- A run throws exactly when it gets an answer that is not readable. -/
def Judged (parse : String → Option Json) (p : Prog A) : Prop :=
  ∀ tr o, Ends p tr o → (o.isSome = true ↔ ∀ ob ∈ tr, AnswerReadable parse ob)

def Throws (p : Prog A) : Prop := ∀ tr a, ¬ Exec p tr a

theorem judged_pure (a : A) : Judged parse (pure a : Prog A) := by
  intro tr o h
  cases o with
  | none => cases h
  | some b =>
    obtain ⟨rfl, -⟩ := exec_done.mp h
    exact iff_of_true rfl (List.forall_mem_nil _)

theorem judged_bind {p : Prog A} {f : A → Prog B} (hp : Judged parse p)
    (hf : ∀ a, Judged parse (f a)) : Judged parse (p >>= f) := by
  -- A run of `f` after one of `p` that returned, whose answers were readable.
  have append {tr₁ tr₂ : Trace} {a : A} {o : Option B} (h₁ : Exec p tr₁ a)
      (h₂ : Ends (f a) tr₂ o) :
      o.isSome = true ↔ ∀ ob ∈ tr₁ ++ tr₂, AnswerReadable parse ob := by
    rw [List.forall_mem_append, hf a tr₂ o h₂]
    exact (and_iff_right ((hp tr₁ (some a) h₁).mp rfl)).symm
  intro tr o h
  cases o with
  | some b =>
    obtain ⟨tr₁, a, tr₂, h₁, h₂, rfl⟩ := exec_bind.mp h
    exact append h₁ (o := some b) h₂
  | none =>
    rcases reaches_bind.mp h with h | ⟨tr₁, a, tr₂, h₁, h₂, rfl⟩
    · exact hp tr none h
    · exact append h₁ (o := none) h₂

theorem judged_ask {c : Call} {k : Reply c → Prog A} (hc : c ≠ .uncaught)
    (hgood : ∀ r, AnswerReadable parse ⟨c, r⟩ → Judged parse (k r))
    (hbad : ∀ r, ¬ AnswerReadable parse ⟨c, r⟩ → Throws (k r)) :
    Judged parse (Prog.perform c >>= k) := by
  have answered {tr : Trace} {r : Reply c} {o : Option A} (h : Ends (k r) tr o) :
      o.isSome = true ↔ ∀ ob ∈ (⟨c, r⟩ :: tr : Trace), AnswerReadable parse ob := by
    rw [List.forall_mem_cons]
    by_cases hr : AnswerReadable parse ⟨c, r⟩
    · rw [hgood r hr tr o h]
      exact (and_iff_right hr).symm
    · refine iff_of_false ?_ fun h => hr h.1
      cases o with
      | none => exact Bool.false_ne_true
      | some a => exact absurd h (hbad r hr tr a)
  intro tr o h
  cases o with
  | some a =>
    obtain ⟨r, tr', rfl, hrest⟩ := exec_perform_bind.mp h
    exact answered (o := some a) hrest
  | none =>
    rcases reaches_bind.mp h with h | ⟨tr₁, r, tr₂, h₁, h₂, rfl⟩
    · cases h with
      | here => exact absurd rfl hc
      | later r h => cases h
    · cases h₁ with
      | call r h₁ =>
        obtain ⟨rfl, rfl⟩ := exec_done.mp h₁
        exact answered (o := none) h₂

theorem throws_orUncaught {o : Option A} (ho : o = none) (f : A → Prog B) :
    Throws (orUncaught o >>= f) := by
  intro tr b h
  rw [ho] at h
  obtain ⟨tr₁, a, tr₂, h₁, -, -⟩ := exec_bind.mp h
  obtain ⟨_, r, _, -, -, -⟩ := exec_bind.mp h₁
  exact r.elim

theorem reaches_orUncaught {o : Option A} (ho : o = none) (f : A → Prog B) :
    Reaches (orUncaught o >>= f) [] .uncaught := by
  rw [ho]
  exact .here

theorem exists_ends (answer : ∀ c, c ≠ Call.uncaught → Reply c) (p : Prog A) :
    ∃ tr o, Ends p tr o ∧ ∀ ob ∈ tr, ∀ hc, ob.reply = answer ob.call hc := by
  induction p with
  | done a => exact ⟨[], some a, .done a, List.forall_mem_nil _⟩
  | call c k ih =>
    by_cases hc : c = .uncaught
    · subst hc
      exact ⟨[], none, .here, List.forall_mem_nil _⟩
    · obtain ⟨tr, o, hends, hanswers⟩ := ih (answer c hc)
      refine ⟨⟨c, answer c hc⟩ :: tr, o, ?_, List.forall_mem_cons.mpr ⟨fun _ => rfl, hanswers⟩⟩
      cases o with
      | some a => exact .call _ hends
      | none => exact .later _ hends

/-! ### The lookups -/

theorem exists_unreadable {P : Json → Prop} {r : Option (List Json)}
    (h : ¬ ∀ ev rest, r = some (ev :: rest) → ev.isObject = true → P ev) :
    ∃ ev rest, r = some (ev :: rest) ∧ ev.isObject = true ∧ ¬ P ev := by
  simpa only [not_forall, exists_prop] using h

theorem judged_strikeSource (event : Json) (wantSlug : String) :
    Judged parse (strikeSource event wantSlug) := by
  unfold strikeSource
  dsimp only
  split
  · exact judged_pure event
  · refine judged_ask (by simp) (fun r hr => ?readable) fun r hr => ?unreadable
    case readable =>
      rcases r with _ | _ | ⟨ev2, rest⟩
      · exact judged_pure event
      · exact judged_pure event
      · dsimp only
        split
        · exact judged_pure event
        · rename_i hobj
          have hslug := hr ev2 rest rfl (by simpa using hobj)
          obtain ⟨slug, hslug⟩ := stringValue_isSome_iff.mpr hslug
          rw [hslug]
          exact judged_pure _
    case unreadable =>
      obtain ⟨ev2, rest, rfl, hobj, hslug⟩ := exists_unreadable hr
      dsimp only
      rw [if_neg (by simp [hobj])]
      exact throws_orUncaught (TokenFeed.stringValue_eq_none_iff.mpr hslug) _

theorem judged_validateAndExtract {event : Json} {wantSlug : String}
    (h : EventReadable parse event wantSlug) (out : BtcFiveMinuteBucketDiscovery) :
    Judged parse (validateAndExtract parse event wantSlug out) := by
  unfold validateAndExtract
  dsimp only
  obtain ⟨market, hmarket⟩ := extractMarket_isSome_iff.mpr h
  rw [hmarket]
  cases market with
  | none => exact judged_pure _
  | some d =>
    show Judged parse (strikeSource event wantSlug >>= fun source =>
      pure (true, withPriceToBeat (extractPriceToBeatFromGammaEvent parse source) d))
    exact judged_bind (judged_strikeSource event wantSlug) fun source => judged_pure _

theorem throws_validateAndExtract {event : Json} {wantSlug : String}
    (h : ¬ EventReadable parse event wantSlug) (out : BtcFiveMinuteBucketDiscovery) :
    Throws (validateAndExtract parse event wantSlug out) := by
  unfold validateAndExtract
  refine throws_orUncaught ?_ _
  by_contra hne
  exact h (extractMarket_isSome_iff.mp (Option.ne_none_iff_exists'.mp hne))

theorem judged_trySlug (slug : String) (out : BtcFiveMinuteBucketDiscovery) :
    Judged parse (trySlug parse slug out) := by
  unfold trySlug
  refine judged_ask (by simp) (fun r hr => ?readable) fun r hr => ?unreadable
  case readable =>
    rcases r with _ | _ | ⟨ev, rest⟩
    · exact judged_pure _
    · exact judged_pure _
    · dsimp only
      split
      · rename_i hobj
        exact judged_validateAndExtract (hr ev rest rfl hobj) out
      · exact judged_pure _
  case unreadable =>
    obtain ⟨ev, rest, rfl, hobj, hbad⟩ := exists_unreadable hr
    dsimp only
    rw [if_pos hobj]
    exact throws_validateAndExtract hbad out

theorem judged_probeOffsets (nowS base : ℤ) (offsets : List ℤ)
    (out : BtcFiveMinuteBucketDiscovery) :
    Judged parse (probeOffsets parse nowS base offsets out) := by
  induction offsets generalizing out with
  | nil => exact judged_pure _
  | cons off rest ih =>
    unfold probeOffsets
    refine judged_bind (judged_trySlug _ out) fun r => ?_
    dsimp only
    split
    · exact ih r.2
    · split
      · exact ih r.2
      · split
        · exact judged_pure _
        · exact ih r.2

theorem judged_discoverActive (out : BtcFiveMinuteBucketDiscovery) :
    Judged parse (discoverActiveBtcUpdown5mViaBucket parse out) := by
  refine judged_ask (by simp) (fun nowS _ => ?_) fun nowS hbad => absurd trivial hbad
  exact judged_probeOffsets nowS _ [0, 300, -300] out

end Runs

/-- Both lookups return, `true` or `false`, exactly when every event they get to
read is readable. -/
theorem discover_returns_iff (parse : String → Option Json) (slug : String)
    (out : BtcFiveMinuteBucketDiscovery) (tr : Trace)
    (o : Option (Bool × BtcFiveMinuteBucketDiscovery)) :
    (Ends (discoverBtcUpdown5mForExactSlug parse slug out) tr o →
      (o.isSome = true ↔ ∀ ob ∈ tr, AnswerReadable parse ob)) ∧
      (Ends (discoverActiveBtcUpdown5mViaBucket parse out) tr o →
        (o.isSome = true ↔ ∀ ob ∈ tr, AnswerReadable parse ob)) :=
  ⟨judged_trySlug slug out tr o, judged_discoverActive out tr o⟩

/-- An event of the slug whose `active` is null. -/
def nullEvent : Json := .obj [("slug", .str "btc-updown-5m-300"), ("active", .null)]

theorem trySlug_nullEvent (out : BtcFiveMinuteBucketDiscovery) :
    Reaches (trySlug (fun _ => none) "btc-updown-5m-300" out)
      [⟨.eventsBySlug "btc-updown-5m-300", some [nullEvent]⟩] .uncaught := by
  have hread : Reaches (validateAndExtract (fun _ => none) nullEvent "btc-updown-5m-300" out) []
      .uncaught := reaches_orUncaught rfl _
  exact reaches_bind.mpr (.inr ⟨_, some [nullEvent], [], .call _ (.done _), hread, rfl⟩)

theorem null_active_throws :
    Ends (discoverBtcUpdown5mForExactSlug (fun _ => none) "btc-updown-5m-300" {})
        [⟨.eventsBySlug "btc-updown-5m-300", some [nullEvent]⟩] none ∧
      Ends (discoverActiveBtcUpdown5mViaBucket (fun _ => none) {})
        [⟨.systemSeconds, (310 : ℤ)⟩,
          ⟨.eventsBySlug "btc-updown-5m-300", some [nullEvent]⟩] none := by
  refine ⟨trySlug_nullEvent _, ?_⟩
  have hslug : slugForBucket ((310 : ℤ).tdiv 300 * 300 + 0) = "btc-updown-5m-300" := by
    decide +kernel
  have hprobe : Reaches (probeOffsets (fun _ => none) 310 ((310 : ℤ).tdiv 300 * 300)
      [0, 300, -300] {}) [⟨.eventsBySlug "btc-updown-5m-300", some [nullEvent]⟩] .uncaught := by
    unfold probeOffsets
    rw [hslug]
    exact reaches_bind.mpr (.inl (trySlug_nullEvent _))
  exact reaches_bind.mpr (.inr ⟨_, (310 : ℤ), _, .call _ (.done _), hprobe, rfl⟩)

end LeadLag.Gamma
