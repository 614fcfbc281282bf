import LeadLag.Execution.PostAmounts

/-!
# The cost basis of a BUY (btc_poly_runner.cpp:680-775)

The cost is the price times the shares known when the price is, which are those
of the first reply that shows any; the balance read at the end can replace the
shares and leaves the cost as it is.
-/

namespace LeadLag.Account
open LeadLag.Core LeadLag.Execution LeadLag.Interaction

def orderReply : Obs Reply → Option Json
  | ⟨.queryOrder _, .ok order⟩ => some order
  | _ => none

def balanceReply : Obs Reply → Option ℚ
  | ⟨.queryConditionalBalance _, .ok b⟩ => some b
  | _ => none

/-! ### What the replies show -/

def matchedShares (order : Json) : Option ℚ :=
  (clobOrderSizeMatchedShares order).filter (kShareEps < ·)

def usablePrice (order : Json) : Option ℚ :=
  (clobJsonAmountField order "price").filter fun px => 0 < px ∧ px < 1

/-- The shares of the first reply that shows any. -/
def firstShares (post : Option (ℚ × ℚ)) (orders : List Json) : Option ℚ :=
  match post with
  | some a => some a.2
  | none => orders.findSome? matchedShares

/-- A price was usable: the two amounts of the response, or the price of an
order that shows shares. Without one the cost is inferred from `signal_ask`. -/
def priceUsable (post : Option (ℚ × ℚ)) (orders : List Json) : Bool :=
  post.isSome || orders.any fun order =>
    (matchedShares order).isSome && (usablePrice order).isSome

/-- The price-bearing fields agree with `p`. -/
structure AgreeWith (p : ℚ) (post : Option (ℚ × ℚ)) (orders : List Json) : Prop where
  post : ∀ cost shares, post = some (cost, shares) → cost = p * shares
  orders : ∀ order ∈ orders, ∀ px, usablePrice order = some px → px = p

/-! ### The cost follows the first shares -/

/-- What the locals hold when the orders `seen` have been polled. -/
structure Observed (p : ℚ) (post : Option (ℚ × ℚ)) (seen : List Json) (fp : FillProgress) :
    Prop where
  qty : fp.fillQty = firstShares post seen
  cost : fp.costUsd = if priceUsable post seen then (firstShares post seen).map (p * ·) else none

section Observed

variable {p : ℚ} {post : Option (ℚ × ℚ)} {seen : List Json} {fp : FillProgress}

theorem orient_pos {r : Rounding} {a b cost shares : ℚ}
    (h : orient r a b = some (cost, shares)) :
    0 < cost ∧ 0 < shares := by
  by_cases hpos : a ≤ 0 ∨ b ≤ 0
  · rw [orient, if_pos hpos] at h
    cases h
  · obtain ⟨ha, hb⟩ := not_or.mp hpos
    rw [not_le] at ha hb
    rw [orient_eq ha hb] at h
    split at h
    · obtain ⟨rfl, rfl⟩ := Prod.mk.inj (Option.some.inj h)
      exact ⟨lt_min ha hb, lt_max_of_lt_left ha⟩
    · cases h

theorem tryMarketBuyFill_pos {resp : Json} {cost shares : ℚ}
    (h : tryMarketBuyFillFromPostResp resp = some (cost, shares)) : 0 < cost ∧ 0 < shares := by
  rw [tryMarketBuyFillFromPostResp, tryMarketBuyFill_eq] at h
  obtain ⟨a, -, ha⟩ := Option.bind_eq_some_iff.mp h
  exact orient_pos ha

theorem matchedShares_pos {order : Json} {q : ℚ} (h : matchedShares order = some q) : 0 < q := by
  have hq : kShareEps < q := by simpa using (Option.filter_eq_some_iff.mp h).2
  have heps : 0 < kShareEps := by
    unfold kShareEps
    norm_num
  exact heps.trans hq

theorem firstShares_pos (hpost : ∀ a, post = some a → 0 < a.2) {q : ℚ}
    (h : firstShares post seen = some q) : 0 < q := by
  cases post with
  | some a =>
    obtain rfl := Option.some.inj h
    exact hpost a rfl
  | none =>
    obtain ⟨order, -, hq⟩ := List.exists_of_findSome?_eq_some h
    exact matchedShares_pos hq

theorem firstShares_concat (order : Json) :
    firstShares post (seen ++ [order]) = (firstShares post seen).or (matchedShares order) := by
  cases post with
  | some a => rfl
  | none => simp [firstShares, List.findSome?_append]

theorem priceUsable_concat (order : Json) :
    priceUsable post (seen ++ [order]) = (priceUsable post seen ||
      (matchedShares order).isSome && (usablePrice order).isSome) := by
  simp [priceUsable, Bool.or_assoc]

/-- A usable price comes with shares. -/
theorem firstShares_of_priceUsable (h : priceUsable post seen = true) :
    ∃ q, firstShares post seen = some q := by
  cases post with
  | some a => exact ⟨a.2, rfl⟩
  | none =>
    simp only [priceUsable, Option.isSome_none, Bool.false_or, List.any_eq_true,
      Bool.and_eq_true] at h
    obtain ⟨order, horder, hshares, -⟩ := h
    exact Option.isSome_iff_exists.mp (List.findSome?_isSome_iff.mpr ⟨order, horder, hshares⟩)

theorem observe_of_none {order : Json} (h : matchedShares order = none) :
    fp.observe order = fp := by
  unfold FillProgress.observe
  cases hm : clobOrderSizeMatchedShares order with
  | none => rfl
  | some matched =>
    have hsmall : ¬ matched > kShareEps := by
      intro hgt
      have hkeep : (some matched).filter (kShareEps < ·) = some matched := by simpa using hgt
      rw [matchedShares, hm, hkeep] at h
      cases h
    simp only [if_neg hsmall]

theorem observe_of_some {order : Json} {q : ℚ} (h : matchedShares order = some q) :
    (fp.observe order).fillQty =
        some (if fp.fillQty.any (0 < ·) then fp.fillQty.getD 0 else q) ∧
      (fp.observe order).costUsd =
        if fp.costUsd.any (0 < ·) then fp.costUsd
        else ((usablePrice order).map
          ((if fp.fillQty.any (0 < ·) then fp.fillQty.getD 0 else q) * ·)).or fp.costUsd := by
  obtain ⟨hm, hgt⟩ := Option.filter_eq_some_iff.mp h
  have hgt : q > kShareEps := of_decide_eq_true hgt
  unfold FillProgress.observe usablePrice
  simp only [hm, if_pos hgt]
  by_cases hcost : fp.costUsd.any (0 < ·) = true
  · simp only [if_pos hcost]
    trivial
  · simp only [if_neg hcost]
    cases hprice : clobJsonAmountField order "price" with
    | none => exact ⟨rfl, rfl⟩
    | some px =>
      by_cases hin : 0 < px ∧ px < 1
      · have hkeep : (some px).filter (fun px => 0 < px ∧ px < 1) = some px := by simpa using hin
        simp only [if_pos hin, hkeep]
        exact ⟨trivial, rfl⟩
      · have hdrop : (some px).filter (fun px => 0 < px ∧ px < 1) = none := by simpa using hin
        simp only [if_neg hin, hdrop]
        exact ⟨trivial, rfl⟩

theorem Observed.observe (hpost : ∀ a, post = some a → 0 < a.2) (hp : 0 < p)
    (h : Observed p post seen fp) {order : Json}
    (horder : ∀ px, usablePrice order = some px → px = p) :
    Observed p post (seen ++ [order]) (fp.observe order) := by
  cases hm : matchedShares order with
  | none =>
    rw [observe_of_none hm]
    constructor
    · rw [firstShares_concat, hm, h.qty, Option.or_none]
    · rw [firstShares_concat, priceUsable_concat, hm, h.cost, Option.or_none]
      simp
  | some q =>
    obtain ⟨hqty, hcost⟩ := @observe_of_some fp order q hm
    -- the shares of the first reply that shows any are kept
    have hkept : some (if fp.fillQty.any (0 < ·) then fp.fillQty.getD 0 else q) =
        firstShares post (seen ++ [order]) := by
      rw [firstShares_concat, hm, h.qty]
      cases hfirst : firstShares post seen with
      | none => rfl
      | some q₀ => simp [firstShares_pos hpost hfirst]
    constructor
    · rw [hqty, hkept]
    · rw [hcost, ← hkept, priceUsable_concat, hm]
      cases husable : priceUsable post seen with
      | true =>
        obtain ⟨q₀, hq₀⟩ := firstShares_of_priceUsable husable
        have hpos : 0 < q₀ := firstShares_pos hpost hq₀
        rw [h.cost, h.qty, husable, hq₀]
        simp [hpos, mul_pos hp hpos]
      | false =>
        rw [h.cost, husable]
        cases hprice : usablePrice order with
        | none => simp
        | some px =>
          obtain rfl := horder px hprice
          simp [mul_comm]

/-- Polling observes the order replies in turn. -/
theorem Observed.pollOrder (hpost : ∀ a, post = some a → 0 < a.2) (hp : 0 < p) {orderId : String}
    {n : ℕ} {tr : Trace} {fp' : FillProgress} (hx : Exec (pollOrder orderId n fp) tr fp')
    (h : Observed p post seen fp)
    (horders : ∀ order ∈ tr.filterMap orderReply, ∀ px, usablePrice order = some px → px = p) :
    Observed p post (seen ++ tr.filterMap orderReply) fp' := by
  induction n generalizing seen fp tr with
  | zero =>
    obtain ⟨rfl, rfl⟩ := exec_done.mp hx
    simpa using h
  | succ n ih =>
    obtain ⟨reply, tr', rfl, hk⟩ := exec_perform_bind.mp hx
    cases reply with
    | error err =>
      have hsame :
          Observed p post seen (if err = "" then fp else { fp with lastError := err }) := by
        split
        · exact h
        · exact ⟨h.qty, h.cost⟩
      have hrest := ih hk hsame horders
      exact hrest
    | ok order =>
      have hone := h.observe hpost hp (horders order List.mem_cons_self)
      dsimp only at hk
      split at hk
      · obtain ⟨rfl, rfl⟩ := exec_done.mp hk
        exact hone
      · have hrest := ih hk hone fun o ho => horders o (List.mem_cons_of_mem order ho)
        rw [List.append_assoc] at hrest
        exact hrest

end Observed

/-- Polling reads no balance. -/
theorem pollOrder_no_balance {orderId : String} {n : ℕ} {fp fp' : FillProgress} {tr : Trace}
    (hx : Exec (pollOrder orderId n fp) tr fp') : tr.filterMap balanceReply = [] := by
  have hquiet := ((pollOrder_quietly orderId n fp).ensures tr fp' hx fun _ _ => trivial).1
  rw [List.filterMap_eq_nil_iff]
  intro o ho
  have hcall := hquiet o ho
  obtain ⟨call, reply⟩ := o
  cases call with
  | queryConditionalBalance tok => exact absurd hcall id
  | _ => rfl

/-! ### A whole resolution -/

/-- With a cost already found, only the shares are read from the balance. -/
theorem verdict_ok {c q spend ask rate : ℚ} {fp : FillProgress} {fill : LiveMarketBuyFill}
    (hc : 0 < c) (hqty : fp.fillQty = some q) (hcost : fp.costUsd = some c)
    (h : fp.verdict spend ask rate = .ok fill) :
    fill.costUsd = c ∧ fill.fillQty = q ∧ fill.fillAvgPrice = c / q := by
  have hinfer : inferBuyCost fp q spend ask = some (c, fp.estimated) := by
    have hkeep : (some c).filter (0 < ·) = some c := by simpa using hc
    rw [inferBuyCost, hcost, hkeep]
  unfold FillProgress.verdict at h
  rw [hqty] at h
  by_cases hq : kShareEps < q
  · have hkeep : (some q).filter (kShareEps < ·) = some q := by simpa using hq
    simp only [hkeep, hinfer, Except.ok.injEq] at h
    subst h
    exact ⟨rfl, rfl, rfl⟩
  · have hdrop : (some q).filter (kShareEps < ·) = none := by simpa using hq
    simp only [hdrop] at h
    cases h

/-- The shares that the balance leaves. -/
def sharesAfter (q before : ℚ) : Except String ℚ → ℚ
  | .ok b => if b - before > kShareEps then b - before else q
  | .error _ => q

theorem readBalance_eq {q : ℚ} {fp : FillProgress} (hqty : fp.fillQty = some q) (before : ℚ)
    (after : Except String ℚ) :
    (fp.readBalance before after).fillQty = some (sharesAfter q before after) ∧
      (fp.readBalance before after).costUsd = fp.costUsd := by
  cases after with
  | error err =>
    simp only [FillProgress.readBalance, sharesAfter]
    split
    · exact ⟨hqty, rfl⟩
    · exact ⟨hqty, rfl⟩
  | ok b =>
    simp only [FillProgress.readBalance, sharesAfter]
    split
    · exact ⟨rfl, rfl⟩
    · exact ⟨hqty, rfl⟩

theorem sharesAfter_eq_iff {q before : ℚ} (after : Except String ℚ) :
    sharesAfter q before after = q ↔
      ∀ b, after = .ok b → b - before ≤ kShareEps ∨ b - before = q := by
  cases after with
  | error err => simp [sharesAfter]
  | ok b =>
    simp only [sharesAfter, Except.ok.injEq, forall_eq']
    by_cases hb : b - before > kShareEps
    · rw [if_pos hb]
      simp [not_le.mpr hb]
    · rw [if_neg hb]
      simp [not_lt.mp hb]

abbrev balanceRead (tok : String) (after : Except String ℚ) : Obs Reply :=
  ⟨.queryConditionalBalance tok, after⟩

/-- A resolution polls the order, if there is an id, and then reads the balance once. -/
theorem exec_resolve {tok orderId : String} {before spend ask rate : ℚ} {resp : Json} {tr : Trace}
    {r : Except String LiveMarketBuyFill}
    (hx : Exec (liveResolveMarketBuyFill tok orderId before spend ask rate resp) tr r) :
    ∃ n polled fp after,
      tr = polled ++ [balanceRead tok after] ∧
      Exec (pollOrder orderId n
        { costUsd := (tryMarketBuyFillFromPostResp resp).map Prod.fst
          fillQty := (tryMarketBuyFillFromPostResp resp).map Prod.snd }) polled fp ∧
      r = settleBuyFill fp before after spend ask rate := by
  have hbalance : ∀ {fp : FillProgress} {rest : Trace},
      Exec (do
        let after ← queryConditionalBalance tok
        pure (settleBuyFill fp before after spend ask rate)) rest r →
      ∃ after, rest = [balanceRead tok after] ∧
        r = settleBuyFill fp before after spend ask rate := by
    intro fp rest h
    obtain ⟨after, done, rfl, hdone⟩ := exec_perform_bind.mp h
    obtain ⟨rfl, hr⟩ := exec_done.mp hdone
    exact ⟨after, rfl, hr⟩
  unfold liveResolveMarketBuyFill at hx
  dsimp only at hx
  split at hx
  · obtain ⟨after, rfl, hr⟩ := hbalance hx
    exact ⟨0, [], _, after, rfl, .done _, hr⟩
  · obtain ⟨polled, fp, rest, hpolled, hrest, rfl⟩ := exec_bind.mp hx
    obtain ⟨after, rfl, hr⟩ := hbalance hrest
    exact ⟨kMaxOrderPolls, polled, fp, after, rfl, hpolled, hr⟩

/-- When the price-bearing fields agree with `p` and one is usable, so that the
cost is not inferred from `signal_ask`, a successful resolution reports `p` and
`p` times the shares exactly when the balance could not be read, shows at most
dust, or shows the very shares of the first reply that showed any. -/
theorem fillPrice_consistent_iff {tok orderId : String} {before spend ask rate p : ℚ} {resp : Json}
    {tr : Trace} {fill : LiveMarketBuyFill} (hp : 0 < p)
    (hx : Exec (liveResolveMarketBuyFill tok orderId before spend ask rate resp) tr (.ok fill))
    (hagree : AgreeWith p (tryMarketBuyFillFromPostResp resp) (tr.filterMap orderReply))
    (husable : priceUsable (tryMarketBuyFillFromPostResp resp) (tr.filterMap orderReply) = true) :
    (fill.fillAvgPrice = p ∧ fill.costUsd = p * fill.fillQty) ↔
      ∀ b ∈ tr.filterMap balanceReply, b - before ≤ kShareEps ∨
        firstShares (tryMarketBuyFillFromPostResp resp) (tr.filterMap orderReply) =
          some (b - before) := by
  obtain ⟨n, polled, fp, after, rfl, hpolled, hfill⟩ := exec_resolve hx
  have hbalances : (polled ++ [balanceRead tok after]).filterMap balanceReply =
      (balanceReply (balanceRead tok after)).toList := by
    rw [List.filterMap_append, pollOrder_no_balance hpolled]
    cases after <;> rfl
  have horders : (polled ++ [balanceRead tok after]).filterMap orderReply =
      polled.filterMap orderReply := by
    rw [List.filterMap_append]
    exact List.append_nil _
  rw [horders] at hagree husable
  rw [horders, hbalances]
  generalize hpost : tryMarketBuyFillFromPostResp resp = post at hagree husable hpolled ⊢
  have hpos : ∀ a, post = some a → 0 < a.2 := by
    rintro ⟨cost, shares⟩ rfl
    exact (tryMarketBuyFill_pos hpost).2
  have hstart : Observed p post []
      { costUsd := post.map Prod.fst, fillQty := post.map Prod.snd } := by
    cases post with
    | none => exact ⟨rfl, rfl⟩
    | some a => exact ⟨rfl, congrArg some (hagree.post a.1 a.2 rfl)⟩
  have hobserved := hstart.pollOrder hpos hp hpolled hagree.orders
  rw [List.nil_append] at hobserved
  obtain ⟨q, hq⟩ := firstShares_of_priceUsable husable
  have hqpos : 0 < q := firstShares_pos hpos hq
  have hqty : fp.fillQty = some q := hobserved.qty.trans hq
  have hcost : fp.costUsd = some (p * q) := by
    rw [hobserved.cost, husable, hq]
    rfl
  obtain ⟨hread, hkept⟩ := readBalance_eq hqty before after
  obtain ⟨hfcost, hfqty, hfavg⟩ := verdict_ok (mul_pos hp hqpos) hread (hkept.trans hcost)
    hfill.symm
  have hshares : sharesAfter q before after = q ↔
      ∀ b ∈ (balanceReply (balanceRead tok after)).toList,
        b - before ≤ kShareEps ∨ firstShares post (polled.filterMap orderReply) =
          some (b - before) := by
    rw [sharesAfter_eq_iff, hq]
    cases after with
    | error err => simp [balanceReply]
    | ok b => simp [balanceReply, eq_comm]
  rw [← hshares, hfavg, hfcost, hfqty]
  constructor
  · rintro ⟨-, hcost_eq⟩
    exact (mul_left_cancel₀ hp.ne' hcost_eq).symm
  · intro heq
    rw [heq, mul_div_assoc, div_self hqpos.ne', mul_one]
    exact ⟨rfl, rfl⟩

/-! ### An order still filling -/

/-- The shares shown, in the order of the replies, never decrease. -/
def NonDecreasing (post : Option (ℚ × ℚ)) (before : ℚ) (tr : Trace) : Prop :=
  ((post.map Prod.snd).toList ++ (tr.filterMap orderReply).filterMap clobOrderSizeMatchedShares ++
    (tr.filterMap balanceReply).map (· - before)).Pairwise (· ≤ ·)

/-- The first poll shows one share at 1/2, the second and the balance show both. -/
def stillFilling : ℕ → (e : Call) → Option (Reply e)
  | 0, .queryOrder _ => some (.ok (.obj
      [("status", .str "LIVE"), ("size_matched", .str "1"), ("price", .str "0.5")]))
  | 1, .queryOrder _ => some (.ok (.obj
      [("status", .str "MATCHED"), ("size_matched", .str "2"), ("price", .str "0.5")]))
  | 2, .queryConditionalBalance _ => some (.ok 2)
  | _, _ => none

def buyOne (before : ℚ) : Prog (Except String LiveMarketBuyFill) :=
  liveResolveMarketBuyFill "up" "o1" before 1 (1 / 2) 0 .null

/-- Every price is 1/2 and one is usable. -/
def halfPriced (tr : Trace) : Bool :=
  (tr.filterMap orderReply).all (fun order => (usablePrice order).all (· = 1 / 2)) &&
    priceUsable none (tr.filterMap orderReply)

theorem halfPriced_iff {tr : Trace} (h : halfPriced tr = true) :
    AgreeWith (1 / 2) none (tr.filterMap orderReply) ∧
      priceUsable none (tr.filterMap orderReply) = true := by
  rw [halfPriced, Bool.and_eq_true] at h
  constructor
  · constructor
    · intro cost shares hnone
      cases hnone
    · intro order horder px hpx
      have hall := List.all_eq_true.mp h.1 order horder
      rw [hpx] at hall
      exact of_decide_eq_true hall
  · exact h.2

def pricedAt (px : ℚ) (r : Trace × Except String LiveMarketBuyFill) : Bool :=
  halfPriced r.1 && decide (r.2.map (·.fillAvgPrice) = .ok px)

def nonDecreasing (before : ℚ) (tr : Trace) : Bool :=
  decide (((tr.filterMap orderReply).filterMap clobOrderSizeMatchedShares ++
    (tr.filterMap balanceReply).map (· - before)).Pairwise (· ≤ ·))

theorem exists_buyOne (before : ℚ) (P : Trace × Except String LiveMarketBuyFill → Bool)
    (h : ((buyOne before).replay stillFilling 0).any P = true) :
    ∃ tr r, Exec (buyOne before) tr r ∧ P (tr, r) = true := by
  obtain ⟨⟨tr, r⟩, hr, hP⟩ := (Option.any_eq_true _ _).mp h
  exact ⟨tr, r, exec_replay hr, hP⟩

/-- The cost of the first share is divided by both. -/
theorem fillPrice_inconsistent :
    ¬ ∀ (tok orderId : String) (before spend ask rate p : ℚ) (resp : Json) (tr : Trace)
      (fill : LiveMarketBuyFill), 0 < p → p < 1 →
      Exec (liveResolveMarketBuyFill tok orderId before spend ask rate resp) tr (.ok fill) →
      AgreeWith p (tryMarketBuyFillFromPostResp resp) (tr.filterMap orderReply) →
      NonDecreasing (tryMarketBuyFillFromPostResp resp) before tr →
      priceUsable (tryMarketBuyFillFromPostResp resp) (tr.filterMap orderReply) = true →
      fill.fillAvgPrice = p ∧ fill.costUsd = p * fill.fillQty := by
  intro h
  obtain ⟨tr, r, hx, hP⟩ := exists_buyOne 0
    (fun r => pricedAt (1 / 4) r && nonDecreasing 0 r.1) (by decide +kernel)
  simp only [pricedAt, nonDecreasing, Bool.and_eq_true, decide_eq_true_eq] at hP
  obtain ⟨⟨hhalf, hprice⟩, hsorted⟩ := hP
  obtain ⟨hagree, husable⟩ := halfPriced_iff hhalf
  cases r with
  | error err => cases hprice
  | ok fill =>
    have hfill := (h "up" "o1" 0 1 (1 / 2) 0 (1 / 2) .null tr fill (by norm_num) (by norm_num) hx
      hagree hsorted husable).1
    have hquarter : fill.fillAvgPrice = 1 / 4 := Except.ok.inj hprice
    rw [hquarter] at hfill
    norm_num at hfill

/-- One share was there before, so that the balance shows one new share as well. -/
theorem fillPrice_consistent_oneShare : ∃ tr fill, Exec (buyOne 1) tr (.ok fill) ∧
    ((fill.fillAvgPrice = 1 / 2 ∧ fill.costUsd = 1 / 2 * fill.fillQty) ↔
      ∀ b ∈ tr.filterMap balanceReply, b - 1 ≤ kShareEps ∨
        firstShares (tryMarketBuyFillFromPostResp .null) (tr.filterMap orderReply) =
          some (b - 1)) := by
  obtain ⟨tr, r, hx, hP⟩ := exists_buyOne 1 (pricedAt (1 / 2)) (by decide +kernel)
  simp only [pricedAt, Bool.and_eq_true, decide_eq_true_eq] at hP
  obtain ⟨hhalf, hprice⟩ := hP
  obtain ⟨hagree, husable⟩ := halfPriced_iff hhalf
  cases r with
  | error err => cases hprice
  | ok fill => exact ⟨tr, fill, hx, fillPrice_consistent_iff (by norm_num) hx hagree husable⟩

end LeadLag.Account
