import LeadLag.TokenFeed.System

/-!
# The last quote delivered

A message is handled in three critical sections, with `on_quote` between the last
two. Workers that are inside at once may deliver in another order than the
messages came, and leave in `lastEmitted` a quote that was not the last one
delivered; then a later quote equal to it is suppressed.
-/

namespace LeadLag.TokenFeed
open LeadLag.Interaction

/-! ### Offers -/

def offersOf (tok : String) (msg : List Item) : List (Price × Price) :=
  msg.filterMap (Item.offer? tok)

/-- What a handler has still to emit, up to the end of `emit_quote`. -/
def Task.offers (tok : String) : Task → List (Price × Price)
  | .scanning rest => offersOf tok rest
  | .emitting aid bid ask rest => offersOf tok (.entry aid (.prices bid ask) :: rest)
  | .calling q rest | .storing q rest => q.top :: offersOf tok rest

def Move.items : Move → List Item
  | .receive msg => TokenFeed.items msg
  | _ => []

/-- The tops of book in the messages received, in order. -/
def offered (tok : String) (mvs : List Move) : List (Price × Price) :=
  offersOf tok (mvs.flatMap Move.items)

def System.lastTop (s : System) : Option (Price × Price) := s.delivered.getLast?.map WsQuote.top

def System.pending (tok : String) (s : System) : List (Price × Price) :=
  s.active.flatMap (Task.offers tok) ++ s.queue.flatMap (offersOf tok)

/-! ### The steps allowed -/

/-- The token stays. -/
def keepsToken : Move → Bool
  | .beginSwitch _ | .switch | .setContext => false
  | _ => true

/-- `emit_quote` takes up a quote only when nothing of the messages received before
is left to emit. -/
def inTurn (s : System) : Move → Bool
  | .work i =>
    match s.active[i]? with
    | some (.emitting aid bid ask _) =>
      ((Item.entry aid (.prices bid ask)).offer? s.fields.tokenId).isNone ||
        (s.active.take i).all fun t => (t.offers s.fields.tokenId).isEmpty
    | _ => true
  | _ => true

/-! ### One message at a time -/

def Task.inEmit : Task → Bool
  | .calling .. | .storing .. => true
  | .scanning _ | .emitting .. => false

theorem Task.offers_ne_nil {tok : String} {t : Task} (h : t.inEmit = true) : t.offers tok ≠ [] := by
  cases t with
  | scanning | emitting => cases h
  | calling | storing => exact List.cons_ne_nil _ _

/-- While a handler is past its first critical section the earlier ones have
nothing left to emit. -/
def EmitInTurn (tok : String) (active : List Task) : Prop :=
  active.Pairwise fun t u => u.inEmit = true → t.offers tok = []

section InTurn

variable {tok : String} {pre post : List Task} {t t' : Task}

theorem EmitInTurn.alone (h : EmitInTurn tok (pre ++ t :: post)) (ht : t.offers tok ≠ [])
    (hpre : ∀ u ∈ pre, u.offers tok = []) : ∀ u ∈ pre ++ post, u.inEmit = false := by
  intro u hu
  rw [← Bool.not_eq_true]
  intro hemit
  rcases List.mem_append.mp hu with hu | hu
  · exact Task.offers_ne_nil hemit (hpre u hu)
  · have hafter := (List.pairwise_append.mp h).2.1
    exact ht ((List.pairwise_cons.mp hafter).1 u hu hemit)

theorem EmitInTurn.before (h : EmitInTurn tok (pre ++ t :: post)) (ht : t.inEmit = true) :
    ∀ u ∈ pre, u.offers tok = [] :=
  fun u hu => (List.pairwise_append.mp h).2.2 u hu t List.mem_cons_self ht

theorem EmitInTurn.replace (h : EmitInTurn tok (pre ++ t :: post))
    (hpre : t'.inEmit = true → ∀ u ∈ pre, u.offers tok = [])
    (hoffers : t.offers tok = [] → t'.offers tok = []) :
    EmitInTurn tok (pre ++ t' :: post) := by
  obtain ⟨hbefore, hafter, hcross⟩ := List.pairwise_append.mp h
  obtain ⟨hhead, htail⟩ := List.pairwise_cons.mp hafter
  refine List.pairwise_append.mpr ⟨hbefore, List.pairwise_cons.mpr ⟨?_, htail⟩, ?_⟩
  · exact fun u hu hemit => hoffers (hhead u hu hemit)
  · intro u hu v hv hemit
    rcases List.mem_cons.mp hv with rfl | hv
    · exact hpre hemit u hu
    · exact hcross u hu v (List.mem_cons_of_mem t hv) hemit

end InTurn

theorem exists_split {active : List Task} {i : ℕ} {t : Task} (h : active[i]? = some t) :
    ∃ pre post, active = pre ++ t :: post ∧ active.take i = pre ∧
      (∀ t', active.set i t' = pre ++ t' :: post) ∧ active.eraseIdx i = pre ++ post := by
  obtain ⟨hi, rfl⟩ := List.getElem?_eq_some_iff.mp h
  refine ⟨active.take i, active.drop (i + 1), ?_, rfl, fun t' => ?_, ?_⟩
  · rw [← List.drop_eq_getElem_cons hi, List.take_append_drop]
  · exact List.set_eq_take_cons_drop t' hi
  · exact List.eraseIdx_eq_take_drop_succ active i

/-! ### The invariant -/

def Task.quote? : Task → Option WsQuote
  | .calling q _ | .storing q _ => some q
  | .scanning _ | .emitting .. => none

def Task.stored? : Task → Option WsQuote
  | .storing q _ => some q
  | _ => none

/-- `seen` are the offers received. The last of them is still pending or was
delivered last, and so was what `lastEmitted` holds, unless it is about to be
replaced by what was. -/
structure TopInv (n : ℕ) (tok : String) (seen : List (Price × Price)) (s : System) : Prop where
  token : s.fields.tokenId = tok
  latest : seen.getLast? = (s.pending tok).getLast?.or s.lastTop
  order : EmitInTurn tok s.active
  own : ∀ t ∈ s.active, ∀ q, t.quote? = some q → q.tokenId = tok
  stored : ∀ t ∈ s.active, ∀ q, t.stored? = some q → s.lastTop = some q.top
  cache : (∀ t ∈ s.active, t.stored? = none) → ∀ v, s.fields.lastEmitted = some v →
    s.lastTop = some v
  workers : s.active.length ≤ max 1 n
  inline : n = 0 → s.queue = []

theorem pending_of_split {s : System} {tok : String} {pre post : List Task} {t : Task}
    (h : s.active = pre ++ t :: post) :
    s.pending tok = pre.flatMap (Task.offers tok) ++ (t.offers tok ++
      (post.flatMap (Task.offers tok) ++ s.queue.flatMap (offersOf tok))) := by
  simp [System.pending, h]

theorem flatMap_offers_eq_nil {tok : String} {pre : List Task}
    (h : ∀ u ∈ pre, u.offers tok = []) : pre.flatMap (Task.offers tok) = [] :=
  List.flatMap_eq_nil_iff.mpr h

theorem getLast?_cons_or {A : Type} (v : A) (l : List A) (d : Option A) :
    (v :: l).getLast?.or d = l.getLast?.or (some v) := by
  rw [List.getLast?_cons, Option.some_or]
  cases l.getLast? <;> rfl

section Work

variable {n : ℕ} {tok : String} {seen : List (Price × Price)} {s : System} {pre post : List Task}
  {t t' : Task}

theorem mem_split {u : Task} (h : u ∈ pre ++ t' :: post) :
    u = t' ∨ u ∈ pre ++ post := by
  rcases List.mem_append.mp h with h | h
  · exact .inr (List.mem_append_left post h)
  · rcases List.mem_cons.mp h with h | h
    · exact .inl h
    · exact .inr (List.mem_append_right pre h)

theorem mem_of_split {u : Task} (h : s.active = pre ++ t :: post) (hu : u ∈ pre ++ post) :
    u ∈ s.active := by
  rw [h]
  rcases List.mem_append.mp hu with hu | hu
  · exact List.mem_append_left _ hu
  · exact List.mem_append_right _ (List.mem_cons_of_mem t hu)

/-- What a step of one handler has to show: order, owner and counts follow. -/
theorem TopInv.replace (inv : TopInv n tok seen s) (h : s.active = pre ++ t :: post)
    {f : Fields} {d : List WsQuote} (htok : f.tokenId = tok)
    (hpre : t'.inEmit = true → ∀ u ∈ pre, u.offers tok = [])
    (hnil : t.offers tok = [] → t'.offers tok = [])
    (hlatest : seen.getLast? =
      (System.pending tok { s with active := pre ++ t' :: post }).getLast?.or
        (d.getLast?.map WsQuote.top))
    (hown : ∀ q, t'.quote? = some q → q.tokenId = tok)
    (hstored : ∀ u ∈ pre ++ t' :: post, ∀ q, u.stored? = some q →
      d.getLast?.map WsQuote.top = some q.top)
    (hcache : (∀ u ∈ pre ++ t' :: post, u.stored? = none) → ∀ v, f.lastEmitted = some v →
      d.getLast?.map WsQuote.top = some v) :
    TopInv n tok seen { s with active := pre ++ t' :: post, fields := f, delivered := d } where
  token := htok
  latest := hlatest
  order := by
    have horder := inv.order
    rw [h] at horder
    exact horder.replace hpre hnil
  own u hu q hq := by
    rcases mem_split hu with rfl | hu
    · exact hown q hq
    · exact inv.own u (mem_of_split h hu) q hq
  stored := hstored
  cache := hcache
  workers := by
    have hlen := inv.workers
    rw [h] at hlen
    simpa using hlen
  inline := inv.inline

/-- A step that delivers nothing and leaves the cache alone. -/
theorem TopInv.silent (inv : TopInv n tok seen s) (h : s.active = pre ++ t :: post)
    (hpre : t'.inEmit = true → ∀ u ∈ pre, u.offers tok = [])
    (hnil : t.offers tok = [] → t'.offers tok = [])
    (hlatest : (System.pending tok { s with active := pre ++ t' :: post }).getLast?.or s.lastTop =
      (s.pending tok).getLast?.or s.lastTop)
    (hown : ∀ q, t'.quote? = some q → q.tokenId = tok) (ht : t.stored? = none)
    (ht' : t'.stored? = none) :
    TopInv n tok seen { s with active := pre ++ t' :: post } := by
  have hseen := inv.latest.trans hlatest.symm
  refine inv.replace h inv.token hpre hnil hseen hown ?_ ?_
  · intro u hu q hq
    rcases mem_split hu with rfl | hu
    · rw [ht'] at hq
      cases hq
    · exact inv.stored u (mem_of_split h hu) q hq
  · intro hno
    apply inv.cache
    intro u hu
    rw [h] at hu
    rcases mem_split hu with rfl | hu
    · exact ht
    · have hmem := (List.mem_append.mp hu).imp_right (List.mem_cons_of_mem t')
      exact hno u (List.mem_append.mpr hmem)

theorem TopInv.quiet (inv : TopInv n tok seen s) (h : s.active = pre ++ t :: post)
    (hoffers : t'.offers tok = t.offers tok) (ht : t.stored? = none) (hq : t'.quote? = none)
    (ht' : t'.stored? = none) (he : t'.inEmit = false) :
    TopInv n tok seen { s with active := pre ++ t' :: post } := by
  refine inv.silent h ?_ ?_ ?_ ?_ ht ht'
  · intro hemit
    rw [he] at hemit
    cases hemit
  · intro hnil
    exact hoffers.trans hnil
  · rw [pending_of_split rfl, hoffers, ← pending_of_split h]
  · intro q hq'
    rw [hq] at hq'
    cases hq'

theorem Task.stored?_of_not_inEmit (h : t.inEmit = false) : t.stored? = none := by
  cases t with
  | storing => cases h
  | scanning | emitting | calling => rfl

/-- Nothing else is in `emit_quote` while a handler has something to emit in turn. -/
theorem TopInv.alone (inv : TopInv n tok seen s) (h : s.active = pre ++ t :: post)
    (ht : t.offers tok ≠ []) (hpre : ∀ u ∈ pre, u.offers tok = []) :
    ∀ u ∈ pre ++ post, u.stored? = none := by
  have horder := inv.order
  rw [h] at horder
  exact fun u hu => Task.stored?_of_not_inEmit (horder.alone ht hpre u hu)

theorem pending_cons (t' : Task) {v : Price × Price} {d : Option (Price × Price)}
    (h : s.active = pre ++ t :: post) (ht : t.offers tok = v :: t'.offers tok)
    (hpre : ∀ u ∈ pre, u.offers tok = []) :
    (s.pending tok).getLast?.or d =
      (System.pending tok { s with active := pre ++ t' :: post }).getLast?.or (some v) := by
  rw [pending_of_split h, pending_of_split rfl, flatMap_offers_eq_nil hpre, ht]
  exact getLast?_cons_or v _ d

section Emit

variable {bid ask : Price} {rest : List Item} {q : WsQuote}

theorem offers_emitting (tok : String) (bid ask : Price) (rest : List Item) :
    (Task.emitting tok (some bid) (some ask) rest).offers tok =
      (bid, ask) :: offersOf tok rest := by
  simp [Task.offers, offersOf, Item.offer?]

theorem TopInv.suppressed (inv : TopInv n tok seen s)
    (h : s.active = pre ++ .emitting tok (some bid) (some ask) rest :: post)
    (hpre : ∀ u ∈ pre, u.offers tok = []) (hlast : s.fields.lastEmitted = some (bid, ask)) :
    TopInv n tok seen { s with active := pre ++ .scanning rest :: post } := by
  have hoffers := offers_emitting tok bid ask rest
  have hne : (Task.emitting tok (some bid) (some ask) rest).offers tok ≠ [] := by
    rw [hoffers]
    exact List.cons_ne_nil _ _
  have halone := inv.alone h hne hpre
  -- nothing is past its callback, so the cache holds what was delivered last
  have htop : s.lastTop = some (bid, ask) := by
    apply inv.cache _ _ hlast
    intro u hu
    rw [h] at hu
    rcases mem_split hu with rfl | hu
    · rfl
    · exact halone u hu
  refine inv.silent h nofun ?_ ?_ nofun rfl rfl
  · intro hnil
    exact absurd hnil hne
  · rw [pending_cons (.scanning rest) h hoffers hpre, htop]

theorem TopInv.copied (inv : TopInv n tok seen s)
    (h : s.active = pre ++ .emitting tok (some bid) (some ask) rest :: post)
    (hpre : ∀ u ∈ pre, u.offers tok = []) :
    TopInv n tok seen
      { s with active := pre ++ .calling (s.fields.quote bid ask) rest :: post } := by
  have hoffers : (Task.calling (s.fields.quote bid ask) rest).offers tok =
      (Task.emitting tok (some bid) (some ask) rest).offers tok := (offers_emitting _ _ _ _).symm
  refine inv.silent h ?_ ?_ ?_ ?_ rfl rfl
  · intro _
    exact hpre
  · intro hnil
    exact hoffers.trans hnil
  · rw [pending_of_split rfl, hoffers, ← pending_of_split h]
  · intro q hq
    cases hq
    exact inv.token

theorem TopInv.delivered (inv : TopInv n tok seen s)
    (h : s.active = pre ++ .calling q rest :: post) :
    TopInv n tok seen
      { s with active := pre ++ .storing q rest :: post, delivered := s.delivered ++ [q] } := by
  have hpre : ∀ u ∈ pre, u.offers tok = [] := by
    have horder := inv.order
    rw [h] at horder
    exact horder.before rfl
  have hmem : Task.calling q rest ∈ s.active := by
    rw [h]
    exact List.mem_append_right pre List.mem_cons_self
  have hlast : (s.delivered ++ [q]).getLast?.map WsQuote.top = some q.top := by simp
  have halone := inv.alone h (List.cons_ne_nil _ _) hpre
  refine inv.replace h inv.token ?_ id ?_ ?_ ?_ ?_
  · intro _
    exact hpre
  · rw [inv.latest, pending_of_split h, pending_of_split rfl, flatMap_offers_eq_nil hpre]
    simp only [Task.offers, List.nil_append, List.cons_append, getLast?_cons_or]
  · intro q' hq'
    exact inv.own _ hmem q' hq'
  · intro u hu q' hq'
    rw [hlast]
    rcases mem_split hu with rfl | hu
    · cases hq'
      rfl
    · rw [halone u hu] at hq'
      cases hq'
  · intro hno
    have hstoring := hno _ (List.mem_append_right pre List.mem_cons_self)
    cases hstoring

theorem TopInv.noted (inv : TopInv n tok seen s)
    (h : s.active = pre ++ .storing q rest :: post) :
    TopInv n tok seen
      { s with active := pre ++ .scanning rest :: post, fields := s.fields.noteEmitted q } := by
  have hpre : ∀ u ∈ pre, u.offers tok = [] := by
    have horder := inv.order
    rw [h] at horder
    exact horder.before rfl
  have hmem : Task.storing q rest ∈ s.active := by
    rw [h]
    exact List.mem_append_right pre List.mem_cons_self
  have htop : s.lastTop = some q.top := inv.stored _ hmem q rfl
  have hown : q.tokenId = s.fields.tokenId := (inv.own _ hmem q rfl).trans inv.token.symm
  have hnoted : s.fields.noteEmitted q = { s.fields with lastEmitted := some q.top } := if_pos hown
  rw [hnoted]
  refine inv.replace h inv.token nofun ?_ ?_ nofun ?_ ?_
  · intro hnil
    exact absurd hnil (List.cons_ne_nil _ _)
  · have hpending := pending_cons (.scanning rest) h rfl hpre (d := s.lastTop)
    rw [← htop] at hpending
    exact inv.latest.trans hpending
  · intro u hu q' hq'
    rcases mem_split hu with rfl | hu
    · cases hq'
    · exact inv.stored u (mem_of_split h hu) q' hq'
  · intro _ v hv
    cases hv
    exact htop

theorem TopInv.finished (inv : TopInv n tok seen s) (h : s.active = pre ++ .scanning [] :: post) :
    TopInv n tok seen { s with active := pre ++ post } where
  token := inv.token
  latest := by
    rw [inv.latest, pending_of_split h]
    simp [System.pending, Task.offers, offersOf, System.lastTop]
  order := by
    have horder := inv.order
    rw [h] at horder
    exact horder.sublist (List.Sublist.append_left (List.sublist_cons_self _ _) pre)
  own u hu := inv.own u (mem_of_split h hu)
  stored u hu := inv.stored u (mem_of_split h hu)
  cache hno := by
    refine inv.cache fun u hu => ?_
    rw [h] at hu
    rcases mem_split hu with rfl | hu
    · rfl
    · exact hno u hu
  workers := by
    have hlen := inv.workers
    rw [h] at hlen
    simp only [List.length_append, List.length_cons] at hlen ⊢
    omega
  inline := inv.inline

end Emit

/-- With one worker or none nothing is ahead of the message being handled. -/
theorem TopInv.ahead (inv : TopInv n tok seen s) (h : s.active = pre ++ t :: post) (hn : n < 2) :
    pre = [] := by
  have hlen := inv.workers
  rw [h, List.length_append, List.length_cons] at hlen
  exact List.eq_nil_of_length_eq_zero (by omega)

theorem TopInv.emits_in_turn (inv : TopInv n tok seen s) {i : ℕ} {bid ask : Price}
    {rest : List Item} (ht : s.active[i]? = some (.emitting tok (some bid) (some ask) rest))
    (h : s.active = pre ++ .emitting tok (some bid) (some ask) rest :: post)
    (htake : s.active.take i = pre) (hturn : 2 ≤ n → inTurn s (.work i) = true) :
    ∀ u ∈ pre, u.offers tok = [] := by
  rcases lt_or_ge n 2 with hn | hn
  · rw [inv.ahead h hn]
    exact fun u hu => absurd hu List.not_mem_nil
  · have hall := hturn hn
    simp only [inTurn, ht, htake, inv.token, Item.offer?, if_true, Option.isNone_some,
      Bool.false_or, List.all_eq_true, List.isEmpty_iff] at hall
    exact hall

theorem offersOf_cons_of_none {item : Item} (h : item.offer? tok = none) (rest : List Item) :
    offersOf tok (item :: rest) = offersOf tok rest := List.filterMap_cons_none h

theorem TopInv.work (inv : TopInv n tok seen s) {i : ℕ} (ht : s.active[i]? = some t)
    (hturn : 2 ≤ n → inTurn s (.work i) = true) :
    TopInv n tok seen (s.afterWork i (t.step s.fields)) := by
  obtain ⟨pre, post, hact, htake, hset, herase⟩ := exists_split ht
  have hstep := t.step_stepped s.fields
  generalize t.step s.fields = eff at hstep
  have htok := inv.token
  cases hstep with
  | finished =>
    rw [System.afterWork, herase]
    exact inv.finished hact
  | threw => exact ⟨inv.token, inv.latest, inv.order, inv.own, inv.stored, inv.cache, inv.workers,
      inv.inline⟩
  | skipped item rest hno =>
    rw [htok] at hno
    rw [System.afterWork, hset]
    exact inv.quiet hact (offersOf_cons_of_none hno rest).symm rfl rfl rfl rfl
  | checked bid ask rest =>
    rw [System.afterWork, hset]
    exact inv.quiet hact rfl rfl rfl rfl rfl
  | dropped aid bid ask rest hno =>
    rw [htok] at hno
    rw [System.afterWork, hset]
    exact inv.quiet hact (offersOf_cons_of_none hno rest).symm rfl rfl rfl rfl
  | suppressed bid ask rest hlast =>
    rw [htok] at ht hact
    rw [System.afterWork, hset]
    exact inv.suppressed hact (inv.emits_in_turn ht hact htake hturn) hlast
  | copied bid ask rest =>
    rw [htok] at ht hact
    rw [System.afterWork, hset]
    exact inv.copied hact (inv.emits_in_turn ht hact htake hturn)
  | delivered q rest =>
    rw [System.afterWork, hset]
    exact inv.delivered hact
  | stored q rest =>
    rw [System.afterWork, hset]
    exact inv.noted hact

end Work

section Step

variable {n : ℕ} {tok : String} {seen : List (Price × Price)} {s t : System} {mv : Move}

theorem topInv_start (n : ℕ) (m : Market) : TopInv n m.tokenId [] (.start m) where
  token := rfl
  latest := rfl
  order := List.Pairwise.nil
  own _ ht := absurd ht List.not_mem_nil
  stored _ ht := absurd ht List.not_mem_nil
  cache _ _ := nofun
  workers := Nat.zero_le _
  inline _ := rfl

/-- A step that receives nothing and touches neither messages nor deliveries. -/
theorem TopInv.frame (inv : TopInv n tok seen s) (htok : t.fields.tokenId = s.fields.tokenId)
    (hactive : t.active = s.active) (hqueue : t.queue = s.queue)
    (hdelivered : t.delivered = s.delivered)
    (hlast : ∀ v, t.fields.lastEmitted = some v → s.fields.lastEmitted = some v) :
    TopInv n tok seen t where
  token := htok.trans inv.token
  latest := by
    rw [System.pending, System.lastTop, hactive, hqueue, hdelivered]
    exact inv.latest
  order := by
    rw [hactive]
    exact inv.order
  own := by
    rw [hactive]
    exact inv.own
  stored := by
    rw [hactive, System.lastTop, hdelivered]
    exact inv.stored
  cache hno v hv := by
    rw [hactive] at hno
    rw [System.lastTop, hdelivered]
    exact inv.cache hno v (hlast v hv)
  workers := by
    rw [hactive]
    exact inv.workers
  inline := by
    rw [hqueue]
    exact inv.inline

theorem TopInv.receiveInline (inv : TopInv n tok seen s) (hn : n = 0) (hactive : s.active = [])
    (msg : List Item) :
    TopInv n tok (seen ++ offersOf tok msg) { s with active := [.scanning msg] } where
  token := inv.token
  latest := by
    have hlatest := inv.latest
    simp only [System.pending, hactive, inv.inline hn, List.flatMap_nil, List.append_nil,
      List.getLast?_nil, Option.none_or] at hlatest
    simp [System.pending, inv.inline hn, Task.offers, List.getLast?_append, hlatest, System.lastTop]
  order := List.pairwise_singleton _ _
  own u hu q hq := by
    rw [List.mem_singleton.mp hu] at hq
    cases hq
  stored u hu q hq := by
    rw [List.mem_singleton.mp hu] at hq
    cases hq
  cache _ := inv.cache fun u hu => by
    rw [hactive] at hu
    cases hu
  workers := le_max_left 1 n
  inline := inv.inline

theorem TopInv.receiveQueued (inv : TopInv n tok seen s) (hn : n ≠ 0) (msg : List Item) :
    TopInv n tok (seen ++ offersOf tok msg) { s with queue := s.queue ++ [msg] } where
  token := inv.token
  latest := by
    have hpending : System.pending tok { s with queue := s.queue ++ [msg] } =
        s.pending tok ++ offersOf tok msg := by simp [System.pending]
    rw [hpending, List.getLast?_append, List.getLast?_append, inv.latest, Option.or_assoc]
    rfl
  order := inv.order
  own := inv.own
  stored := inv.stored
  cache := inv.cache
  workers := inv.workers
  inline h := absurd h hn

theorem TopInv.take (inv : TopInv n tok seen s) {msg : List Item} {rest : List (List Item)}
    (hqueue : s.queue = msg :: rest) (hlen : s.active.length < n) :
    TopInv n tok seen { s with queue := rest, active := s.active ++ [.scanning msg] } where
  token := inv.token
  latest := by
    have hpending : System.pending tok
        { s with queue := rest, active := s.active ++ [.scanning msg] } = s.pending tok := by
      simp [System.pending, hqueue, Task.offers]
    rw [hpending]
    exact inv.latest
  order := by
    refine List.pairwise_append.mpr ⟨inv.order, List.pairwise_singleton _ _, fun u _ v hv => ?_⟩
    rw [List.mem_singleton.mp hv]
    exact nofun
  own u hu q hq := by
    rcases List.mem_append.mp hu with hu | hu
    · exact inv.own u hu q hq
    · rw [List.mem_singleton.mp hu] at hq
      cases hq
  stored u hu q hq := by
    rcases List.mem_append.mp hu with hu | hu
    · exact inv.stored u hu q hq
    · rw [List.mem_singleton.mp hu] at hq
      cases hq
  cache hno := inv.cache fun u hu => hno u (List.mem_append_left _ hu)
  workers := by
    rw [List.length_append, List.length_singleton]
    omega
  inline h := by omega

theorem TopInv.step (inv : TopInv n tok seen s) (h : Moved n s mv t)
    (hkeep : keepsToken mv = true) (hturn : 2 ≤ n → inTurn s mv = true) :
    TopInv n tok (seen ++ offersOf tok mv.items) t := by
  have quiet (hinv : TopInv n tok seen t) (hitems : mv.items = []) :
      TopInv n tok (seen ++ offersOf tok mv.items) t := by
    rw [hitems, offersOf, List.filterMap_nil, List.append_nil]
    exact hinv
  cases h with
  | opened | closed | snapshot | send =>
    exact quiet (inv.frame rfl rfl rfl rfl fun _ hv => hv) rfl
  | callback => exact quiet (inv.frame rfl rfl rfl rfl fun _ => nofun) rfl
  | receiveInline msg hn hactive => exact inv.receiveInline hn hactive (items msg)
  | receiveQueued msg hn => exact inv.receiveQueued hn (items msg)
  | take msg rest hqueue hlen => exact quiet (inv.take hqueue hlen) rfl
  | work i task htask => exact quiet (inv.work htask hturn) rfl
  | sameToken | noToken | begun => cases hkeep
  | unsubscribe | assign | setSnapshot | subscribe | setContext => cases hkeep

end Step

/-! ### The theorem -/

/-- The messages of one token; with two workers or more, in turn. -/
def oneToken (n : ℕ) (listed : Market → Prop) : Lts System Move :=
  (feed n listed).restrict fun _ mv => keepsToken mv = true

theorem topInv_run {n : ℕ} {listed : Market → Prop} {m : Market} {mvs : List Move} {s : System}
    (h : ((oneToken n listed).restrict fun s mv => 2 ≤ n → inTurn s mv = true).Run
      (.start m) mvs s) :
    TopInv n m.tokenId (offered m.tokenId mvs) s := by
  induction h with
  | nil => exact topInv_start n m
  | snoc hr hst ih =>
    rename_i mvs s t mv
    have hstep := ih.step (apply_moved hst.1.1.1) hst.1.2 hst.2
    rw [offered, List.flatMap_append, offersOf, List.filterMap_append]
    simpa [offered, offersOf] using hstep

/-- When all messages have been handled the last quote delivered has bid and ask
of the last message received that offers both for the token: always with at most
one worker, and with more if a quote is taken up only when nothing of the
messages before is left to emit. -/
theorem last_quote_of_messages {n : ℕ} {listed : Market → Prop} {m : Market} {mvs : List Move}
    {s : System} (h : ((oneToken n listed).restrict fun s mv => 2 ≤ n → inTurn s mv = true).Run
      (.start m) mvs s) (hqueue : s.queue = []) (hactive : s.active = []) :
    s.lastTop = (offered m.tokenId mvs).getLast? := by
  have hlatest := (topInv_run h).latest
  simp only [System.pending, hqueue, hactive, List.flatMap_nil, List.append_nil, List.getLast?_nil,
    Option.none_or] at hlatest
  exact hlatest.symm

/-! ### Two workers -/

def handledAll (s : System) : Bool := decide (s.queue = [] ∧ s.active = [])

/-- Three messages, the last like the first. -/
def threeMessages : List Move :=
  [bestBidAskMsg "up-0" "0.5" "0.52", bestBidAskMsg "up-0" "0.60" "0.62",
    bestBidAskMsg "up-0" "0.5" "0.52"]

theorem exists_two_workers (check : System → Move → Bool) (mvs : List Move) (P : System → Bool)
    (h : (Lts.stepAll (checkedApply 2 [bucket0] fun s mv => keepsToken mv && check s mv)
      (.start bucket0) mvs).any P = true) :
    ∃ s, ((oneToken 2 (· ∈ [bucket0])).restrict fun s mv => 2 ≤ 2 → check s mv = true).Run
      (.start bucket0) mvs s ∧ P s = true := by
  obtain ⟨s, hrun, hP⟩ := exists_feed_run 2 [bucket0] bucket0 _ mvs P h
  refine ⟨s, hrun.mono fun s mv t hst => ?_, hP⟩
  have hcheck := (Bool.and_eq_true _ _).mp hst.2
  exact ⟨⟨hst.1, hcheck.1⟩, fun _ => hcheck.2⟩

/-- Both workers have a message, but the second waits with its quote. -/
def inTurnMoves : List Move :=
  openSocket ++ threeMessages ++
    [.take, .take, .work 1, .work 0, .work 0, .work 0, .work 0, .work 0, .work 0, .work 0, .work 0,
      .work 0, .take] ++ handled

theorem last_quote_in_turn :
    ∃ s, (oneToken 2 (· ∈ [bucket0])).Run (.start bucket0) inTurnMoves s ∧
      s.lastTop = (offered "up-0" inTurnMoves).getLast? ∧ s.delivered.length = 3 := by
  obtain ⟨s, hrun, hP⟩ := exists_two_workers inTurn inTurnMoves
    (fun s => handledAll s && decide (s.delivered.length = 3)) (by decide +kernel)
  simp only [handledAll, Bool.and_eq_true, decide_eq_true_eq] at hP
  exact ⟨s, hrun.of_restrict, last_quote_of_messages hrun hP.1.1 hP.1.2, hP.2⟩

/-- The second quote is delivered last but the first is noted last, so that the
third, which equals the first, is suppressed. -/
def crossedMoves : List Move :=
  openSocket ++ threeMessages ++
    [.take, .take, .work 0, .work 0, .work 0, .work 1, .work 1, .work 1, .work 1, .work 0, .work 0,
      .work 0, .take, .work 0, .work 0, .work 0]

theorem change_suppressed :
    ∃ s, (oneToken 2 (· ∈ [bucket0])).Run (.start bucket0) crossedMoves s ∧ s.queue = [] ∧
      s.active = [] ∧ s.lastTop ≠ (offered "up-0" crossedMoves).getLast? := by
  obtain ⟨s, hrun, hP⟩ := exists_two_workers (fun _ _ => true) crossedMoves
    (fun s => handledAll s && decide (s.lastTop ≠ (offered "up-0" crossedMoves).getLast?))
    (by decide +kernel)
  simp only [handledAll, Bool.and_eq_true, decide_eq_true_eq] at hP
  exact ⟨s, hrun.of_restrict, hP.1.1, hP.1.2, hP.2⟩

end LeadLag.TokenFeed
