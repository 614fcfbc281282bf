import LeadLag.Runner.Orders
import Mathlib.Logic.Function.Basic

/-!
# The wallet at the exchange

Shares move only through accepted orders, and a market order may fill any part
of its size. A balance read may fail or reply anything. `Careful` adds what the
thread relies on when it closes a position or gives up a BUY.
-/

namespace LeadLag.Account
open LeadLag.Core LeadLag.Execution LeadLag.Interaction LeadLag.Runner

/-- `bought` lists the tokens of the accepted BUYs and `lastRead` the last balance
read. `resolving` says that a BUY was accepted and no balance asked for since,
`reported` how many shares the replies to it have shown. -/
structure Wallet where
  balance : String → ℚ := fun _ => 0
  bought : List String := []
  lastRead : ℚ := 0
  resolving : Bool := false
  reported : ℚ := 0

/-- The first reply that shows shares counts. -/
def reportedBy (reported : ℚ) (order : Json) : ℚ :=
  match clobOrderSizeMatchedShares order with
  | none => reported
  | some matched =>
    if matched > kShareEps then (if 0 < reported then reported else matched) else reported

namespace Wallet

def receive (w : Wallet) (tok : String) (shares : ℚ) (post : Json) : Wallet :=
  { w with balance := Function.update w.balance tok (w.balance tok + shares)
           bought := tok :: w.bought, resolving := true
           reported := ((tryMarketBuyFillFromPostResp post).map Prod.snd).getD 0 }

def deliver (w : Wallet) (tok : String) (shares : ℚ) : Wallet :=
  { w with balance := Function.update w.balance tok (w.balance tok - shares) }

def read (w : Wallet) : Except String ℚ → Wallet
  | .ok b => { w with lastRead := b, resolving := false }
  | .error _ => { w with resolving := false }

def observe (w : Wallet) (order : Json) : Wallet :=
  { w with reported := reportedBy w.reported order }

end Wallet

def Fills (w : Wallet) (oi : OrderIntent) (post : Json) (w' : Wallet) : Prop :=
  match oi.side with
  | .buy => ∃ shares price, 0 ≤ shares ∧ 0 < price ∧ price ≤ oi.marketWorstPrice ∧
      shares * price ≤ oi.qty ∧ w' = w.receive oi.marketTokenId shares post
  | .sell => ∃ shares, 0 ≤ shares ∧ shares ≤ oi.qty ∧ shares ≤ w.balance oi.marketTokenId ∧
      w' = w.deliver oi.marketTokenId shares

def exchange (w : Wallet) (o : Obs Reply) (w' : Wallet) : Prop :=
  match o with
  | ⟨.queryConditionalBalance _, r⟩ => w' = w.read r
  | ⟨.queryOrder _, .ok order⟩ => w' = w.observe order
  | ⟨.submit oi, .ok resp⟩ => Fills w oi resp.resp w'
  | _ => w' = w

/-- Where a read of dust closes the position, it is true. An accepted BUY that
leaves more than dust shows it, in the replies to the order or in the balance
read after it. A sale outside the stop loop, where the order type is not forced
to FAK, leaves dust. -/
def Careful (closing : Bool) (w w' : Wallet) : Obs Reply → Prop
  | ⟨.queryConditionalBalance tok, .ok b⟩ =>
    (closing = true → tok ∈ w.bought → b ≤ kFlatEps → w.balance tok ≤ kFlatEps) ∧
      (w.resolving = true → kShareEps < w.reported ∨ kShareEps < b - w.lastRead ∨
        w.balance tok ≤ kFlatEps)
  | ⟨.queryConditionalBalance tok, .error _⟩ =>
    w.resolving = true → kShareEps < w.reported ∨ w.balance tok ≤ kFlatEps
  | ⟨.submit oi, .ok _⟩ => oi.side = .sell → oi.marketOrderType ≠ "FAK" →
      w'.balance oi.marketTokenId ≤ kFlatEps
  | _ => True

def carefulExchange (closing : Bool) (w : Wallet) (o : Obs Reply) (w' : Wallet) : Prop :=
  exchange w o w' ∧ Careful closing w w' o

theorem carefulExchange_mono {closing : Bool} {w w' : Wallet} {o : Obs Reply}
    (h : carefulExchange true w o w') : carefulExchange closing w o w' := by
  refine ⟨h.1, ?_⟩
  have hc := h.2
  obtain ⟨call, reply⟩ := o
  cases call with
  | queryConditionalBalance tok =>
    cases reply with
    | error err => exact hc
    | ok b => exact ⟨fun _ => hc.1 rfl, hc.2⟩
  | submit oi =>
    cases reply with
    | error err => trivial
    | ok resp => exact hc
  | _ => trivial

theorem exchange_quiet {w w' : Wallet} {o : Obs Reply} (h : Quiet o.call)
    (hw : exchange w o w') : w'.balance = w.balance ∧ w'.bought = w.bought := by
  obtain ⟨call, reply⟩ := o
  cases call with
  | queryConditionalBalance | submit | tokenId => exact absurd h id
  | queryOrder id =>
    cases reply with
    | error err =>
      obtain rfl : w' = w := hw
      exact ⟨rfl, rfl⟩
    | ok order =>
      obtain rfl : w' = w.observe order := hw
      exact ⟨rfl, rfl⟩
  | _ =>
    obtain rfl : w' = w := hw
    exact ⟨rfl, rfl⟩

/-! ### Dust -/

def FlatBut (w : Wallet) (tok : String) : Prop :=
  ∀ k ∈ w.bought, k ≠ tok → w.balance k ≤ kFlatEps

def AllFlat (w : Wallet) : Prop := ∀ k ∈ w.bought, w.balance k ≤ kFlatEps

section Dust

variable {w : Wallet} {tok : String}

theorem FlatBut.allFlat (h : FlatBut w tok)
    (ht : tok ∈ w.bought → w.balance tok ≤ kFlatEps) : AllFlat w := by
  intro k hk
  by_cases hkt : k = tok
  · subst hkt
    exact ht hk
  · exact h k hk hkt

theorem FlatBut.same {w' : Wallet} (h : FlatBut w tok) (hb : w'.balance = w.balance)
    (hl : w'.bought = w.bought) : FlatBut w' tok := by
  intro k hk hkt
  rw [hl] at hk
  rw [hb]
  exact h k hk hkt

theorem AllFlat.same {w' : Wallet} (h : AllFlat w) (hb : w'.balance = w.balance)
    (hl : w'.bought = w.bought) : AllFlat w' := by
  intro k hk
  rw [hl] at hk
  rw [hb]
  exact h k hk

theorem balance_read (r : Except String ℚ) : (w.read r).balance = w.balance := by
  cases r <;> rfl

theorem bought_read (r : Except String ℚ) : (w.read r).bought = w.bought := by
  cases r <;> rfl

theorem FlatBut.read (h : FlatBut w tok) (r : Except String ℚ) : FlatBut (w.read r) tok :=
  h.same (balance_read r) (bought_read r)

theorem AllFlat.read (h : AllFlat w) (r : Except String ℚ) : AllFlat (w.read r) :=
  h.same (balance_read r) (bought_read r)

theorem AllFlat.receive (h : AllFlat w) (shares : ℚ) (post : Json) :
    FlatBut (w.receive tok shares post) tok := by
  intro k hk hkt
  have hold : k ∈ w.bought := (List.mem_cons.mp hk).resolve_left hkt
  have hbal : (w.receive tok shares post).balance k = w.balance k :=
    Function.update_of_ne hkt _ _
  rw [hbal]
  exact h k hold

theorem FlatBut.deliver (h : FlatBut w tok) (shares : ℚ) : FlatBut (w.deliver tok shares) tok := by
  intro k hk hkt
  have hbal : (w.deliver tok shares).balance k = w.balance k := Function.update_of_ne hkt _ _
  rw [hbal]
  exact h k hk hkt

end Dust

/-! ### The calls of one function, one after another

`T` is what the feeds are known to answer. -/

def carefulFeeds (closing : Bool) (T : Outcome → String → Prop) (w : Wallet) (o : Obs Reply)
    (w' : Wallet) : Prop :=
  carefulExchange closing w o w' ∧ onToken T o

section Programs

variable {closing : Bool} {T : Outcome → String → Prop} {w : Wallet}

theorem quietly_flatBut {A : Type} {p : Prog A} {tok : String} (h : Quietly p)
    (hw : FlatBut w tok) : Under (carefulFeeds closing T) w p fun w' _ => FlatBut w' tok := by
  have kept : ∀ w o w', Quiet o.call → carefulFeeds closing T w o w' → FlatBut w tok →
      FlatBut w' tok := by
    intro w o w' hq he hw
    obtain ⟨hb, hl⟩ := exchange_quiet hq he.1.1
    exact hw.same hb hl
  exact (h.under_kept kept hw).mono fun _ _ h => h.1

theorem stopSellAttempts_wallet {tok : String} {bid rate : ℚ} (n : ℕ)
    {out : StopSellUntilFlatResult} (hw : FlatBut w tok) (hout : out.flat = false) :
    Under (carefulFeeds true T) w (stopSellAttempts tok bid rate n out) fun w' r =>
      FlatBut w' tok ∧ (r.flat = true → AllFlat w') := by
  induction n generalizing w out with
  | zero => exact under_pure.mpr ⟨hw, fun h => by simp [hout] at h⟩
  | succ n ih =>
    simp only [stopSellAttempts, under_bind, queryConditionalBalance, submit, under_perform]
    rintro bal _ ⟨⟨rfl, hcare⟩, -⟩
    cases bal with
    | error err => exact ih (hw.read _) hout
    | ok bal =>
      dsimp only
      split
      · rename_i hdust
        have hflat : AllFlat w := hw.allFlat fun hb => hcare.1 rfl hb hdust
        exact under_pure.mpr ⟨hw.read _, fun _ => hflat.read _⟩
      · simp only [under_bind, under_perform]
        rintro resp w₂ ⟨⟨hfill, -⟩, -⟩
        cases resp with
        | error err =>
          obtain rfl : w₂ = w.read (.ok bal) := hfill
          exact ih (hw.read _) hout
        | ok resp =>
          obtain ⟨shares, -, -, -, rfl⟩ := hfill
          have hw₂ : FlatBut ((w.read (.ok bal)).deliver tok shares) tok :=
            (hw.read _).deliver shares
          simp only [under_bind]
          refine (quietly_flatBut (awaitTerminal_quietly _ _) hw₂).mono fun w₃ _ hw₃ => ?_
          simp only [under_perform]
          rintro after _ ⟨⟨rfl, hcare'⟩, -⟩
          cases after with
          | error err => exact ih (hw₃.read _) hout
          | ok after =>
            dsimp only
            split
            · rename_i hdust
              have hflat : AllFlat w₃ := hw₃.allFlat fun hb => hcare'.1 rfl hb hdust
              exact under_pure.mpr ⟨hw₃.read _, fun _ => hflat.read _⟩
            · refine ih (hw₃.read _) ?_
              simp only [StopSellUntilFlatResult.afterSale]
              split
              · exact hout
              · exact hout

/-! ### What the replies to a BUY have shown -/

theorem fillQty_observe (fp : FillProgress) (order : Json) :
    (fp.observe order).fillQty.getD 0 = reportedBy (fp.fillQty.getD 0) order := by
  have hpos : fp.fillQty.any (0 < ·) = decide (0 < fp.fillQty.getD 0) := by
    cases fp.fillQty <;> simp
  cases hm : clobOrderSizeMatchedShares order with
  | none => simp only [FillProgress.observe, reportedBy, hm]
  | some matched =>
    by_cases hgt : matched > kShareEps
    · have hfill : (fp.observe order).fillQty =
          some (if fp.fillQty.any (0 < ·) then fp.fillQty.getD 0 else matched) := by
        simp only [FillProgress.observe, hm, if_pos hgt]
        split
        · rfl
        · split
          · split <;> rfl
          · rfl
      simp only [hfill, Option.getD_some, hpos, reportedBy, hm, if_pos hgt, decide_eq_true_eq]
    · simp only [FillProgress.observe, reportedBy, hm, if_neg hgt]

/-- The wallet while an order is polled: nothing moves, and the fill known so far
is the one reported. -/
structure Polled (w₀ : Wallet) (fp : FillProgress) (w : Wallet) : Prop where
  balance : w.balance = w₀.balance
  bought : w.bought = w₀.bought
  lastRead : w.lastRead = w₀.lastRead
  resolving : w.resolving = true
  reported : fp.fillQty.getD 0 = w.reported

theorem Polled.observe {w₀ : Wallet} {fp : FillProgress} (h : Polled w₀ fp w) (order : Json) :
    Polled w₀ (fp.observe order) (w.observe order) :=
  ⟨h.balance, h.bought, h.lastRead, h.resolving,
    (fillQty_observe fp order).trans (congrArg (reportedBy · order) h.reported)⟩

theorem pollOrder_wallet {w₀ : Wallet} (orderId : String) (n : ℕ) {fp : FillProgress}
    (h : Polled w₀ fp w) :
    Under (carefulFeeds closing T) w (pollOrder orderId n fp) fun w' fp' => Polled w₀ fp' w' := by
  induction n generalizing w fp with
  | zero => exact under_pure.mpr h
  | succ n ih =>
    simp only [pollOrder, under_bind, queryOrder, under_perform]
    rintro r w₁ ⟨⟨hw₁, -⟩, -⟩
    cases r with
    | error err =>
      obtain rfl : w₁ = w := hw₁
      apply ih
      split
      · exact h
      · exact ⟨h.balance, h.bought, h.lastRead, h.resolving, h.reported⟩
    | ok order =>
      obtain rfl : w₁ = w.observe order := hw₁
      have hobs : Polled w₀ (fp.observe order) (w.observe order) := h.observe order
      dsimp only
      split
      · exact under_pure.mpr hobs
      · exact ih hobs

end Programs

end LeadLag.Account
