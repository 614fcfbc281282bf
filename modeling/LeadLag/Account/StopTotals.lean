import LeadLag.Account.FillPrice
import LeadLag.Execution.StopSell
import Mathlib.Tactic.Ring

/-!
# Totals of a stop sale (btc_poly_runner.cpp:787-867)

An attempt counts the shares between its two balance reads. A drop of the
balance that no attempt has on both sides, because the submit or the second read
failed, is never counted.
-/

namespace LeadLag.Account
open LeadLag.Core LeadLag.Execution LeadLag.Interaction

/-! ### What the balance reads show -/

/-- `sold`: a sale was accepted since the last balance query. -/
structure Tally where
  first : Option ℚ := none
  last : Option ℚ := none
  sold : Bool := false
  uncounted : ℚ := 0
  deriving DecidableEq, Repr

namespace Tally

def readBalance (t : Tally) (b : ℚ) : Tally :=
  match t.last with
  | none => { t with first := some b, last := some b, sold := false }
  | some a =>
    { t with
      last := some b, sold := false
      uncounted := t.uncounted + if t.sold ∧ a - b > kFlatEps then 0 else a - b }

def see (t : Tally) : Obs Reply → Tally
  | ⟨.queryConditionalBalance _, .ok b⟩ => t.readBalance b
  | ⟨.queryConditionalBalance _, .error _⟩ => { t with sold := false }
  | ⟨.submit _, .ok _⟩ => { t with sold := true }
  | _ => t

/-- The shares that left between the first and the last read. -/
def fallen (t : Tally) : ℚ := t.first.getD 0 - t.last.getD 0

end Tally

/-- Shares that left the balance and were not counted: those between two reads
that are not the two reads of one attempt with an accepted sale, and those an
attempt takes for dust. -/
def tally (tr : Trace) : Tally := tr.foldl Tally.see {}

theorem foldl_see_quiet {tr : Trace} (h : ∀ o ∈ tr, Quiet o.call) (t : Tally) :
    tr.foldl Tally.see t = t := by
  induction tr with
  | nil => rfl
  | cons o tr ih =>
    have ho : t.see o = t := by
      have hq := h o List.mem_cons_self
      obtain ⟨call, reply⟩ := o
      cases call with
      | queryConditionalBalance tok => exact absurd hq id
      | submit oi => exact absurd hq id
      | _ => rfl
    rw [List.foldl_cons, ho]
    exact ih fun o' ho' => h o' (List.mem_cons_of_mem o ho')

/-! ### What has been counted -/

section Counted

variable {tok : String} {bid feeRate : ℚ}

/-- The totals at the start of an attempt, and at the end. -/
structure Counted (bid : ℚ) (out : StopSellUntilFlatResult) (t : Tally) : Prop where
  proceeds : out.totalProceeds = bid * (t.fallen - t.uncounted)
  both : t.first.isSome = t.last.isSome
  final : ∀ b, t.last = some b → out.finalBalance = b
  read : out.flat = true → t.last.isSome = true

variable {out : StopSellUntilFlatResult} {t : Tally}

theorem Counted.markFlat (h : Counted bid out t) (hlast : t.last.isSome = true) :
    Counted bid { out with flat := true } t :=
  ⟨h.proceeds, h.both, h.final, fun _ => hlast⟩

/-- A sale accepted changes nothing that is counted until the next read. -/
theorem Counted.accepted (h : Counted bid out t) : Counted bid out { t with sold := true } :=
  ⟨h.proceeds, h.both, h.final, h.read⟩

theorem readBalance_last (t : Tally) (b : ℚ) : (t.readBalance b).last = some b := by
  unfold Tally.readBalance
  cases t.last <;> rfl

theorem readBalance_sold (t : Tally) (b : ℚ) : (t.readBalance b).sold = false := by
  unfold Tally.readBalance
  cases t.last <;> rfl

/-- The first read of an attempt leaves its drop uncounted. -/
theorem Counted.firstRead (h : Counted bid out t) (hsold : t.sold = false) (b : ℚ) :
    Counted bid { out with finalBalance := b } (t.readBalance b) := by
  have hproceeds := h.proceeds
  have hboth := h.both
  cases ht : t.last with
  | none =>
    have hfirst : t.first = none := by simpa [ht] using hboth
    simp only [Tally.fallen, ht, hfirst] at hproceeds
    have hread : t.readBalance b = { t with first := some b, last := some b, sold := false } := by
      simp [Tally.readBalance, ht]
    rw [hread]
    refine ⟨?_, rfl, fun b' hb' => Option.some.inj hb', fun _ => rfl⟩
    simp only [Tally.fallen, Option.getD_some]
    rw [hproceeds]
    simp
  | some a =>
    simp only [Tally.fallen, ht, Option.getD_some] at hproceeds
    have hread : t.readBalance b =
        { t with last := some b, sold := false, uncounted := t.uncounted + (a - b) } := by
      simp [Tally.readBalance, ht, hsold]
    rw [hread]
    refine ⟨?_, hboth.trans (by rw [ht]; rfl), fun b' hb' => Option.some.inj hb', fun _ => rfl⟩
    simp only [Tally.fallen, Option.getD_some]
    rw [hproceeds]
    ring

/-- The second read of an attempt counts its drop unless it is dust. -/
theorem Counted.secondRead {before : ℚ} (h : Counted bid out t) (hsold : t.sold = true)
    (hlast : t.last = some before) (after feeRate : ℚ) :
    Counted bid (out.afterSale before after bid feeRate) (t.readBalance after) := by
  have hproceeds := h.proceeds
  simp only [Tally.fallen, hlast, Option.getD_some] at hproceeds
  have hboth : t.first.isSome = (some after).isSome := h.both.trans (by rw [hlast]; rfl)
  by_cases hgone : before - after > kFlatEps
  · have hread : t.readBalance after = { t with last := some after, sold := false } := by
      simp [Tally.readBalance, hlast, hsold, hgone]
    have hpos : 0 ≤ before - after := le_trans (by unfold kFlatEps; norm_num) hgone.le
    have hsale : out.afterSale before after bid feeRate =
        { out with
          finalBalance := after, lastSellQty := before - after
          totalProceeds := out.totalProceeds + (before - after) * bid
          totalFee := out.totalFee +
            polyTakerFee ((before - after) * bid) bid feeRate } := by
      simp only [StopSellUntilFlatResult.afterSale, max_eq_right hpos, if_pos hgone]
    rw [hread, hsale]
    refine ⟨?_, hboth, fun b' hb' => Option.some.inj hb', fun _ => rfl⟩
    simp only [Tally.fallen, Option.getD_some]
    rw [hproceeds]
    ring
  · have hread : t.readBalance after =
        { t with
          last := some after, sold := false, uncounted := t.uncounted + (before - after) } := by
      simp [Tally.readBalance, hlast, hgone]
    have hdust : ¬ max 0 (before - after) > kFlatEps := by
      rintro hmax
      rcases max_choice 0 (before - after) with hm | hm
      · rw [hm] at hmax
        exact absurd hmax (by unfold kFlatEps; norm_num)
      · rw [hm] at hmax
        exact hgone hmax
    have hsale : out.afterSale before after bid feeRate =
        { out with finalBalance := after, lastSellQty := max 0 (before - after) } := by
      simp only [StopSellUntilFlatResult.afterSale, if_neg hdust]
    rw [hread, hsale]
    refine ⟨?_, hboth, fun b' hb' => Option.some.inj hb', fun _ => rfl⟩
    simp only [Tally.fallen, Option.getD_some]
    rw [hproceeds]
    ring

/-- Each attempt keeps the count; between attempts no sale awaits its second read. -/
theorem Counted.attempt {next : StopSellUntilFlatResult} {tr : Trace} (h : Counted bid out t)
    (hattempt : Attempt tok bid feeRate out tr next) (hsold : t.sold = false) :
    Counted bid next (tr.foldl Tally.see t) ∧ (tr.foldl Tally.see t).sold = false := by
  cases hattempt with
  | unread err => exact ⟨⟨h.proceeds, h.both, h.final, h.read⟩, rfl⟩
  | flat bal =>
    have hread := h.firstRead hsold bal
    exact ⟨hread.markFlat (by simp [readBalance_last]), readBalance_sold t bal⟩
  | refused bal err =>
    have hread := h.firstRead hsold bal
    exact ⟨⟨hread.proceeds, hread.both, hread.final, hread.read⟩, readBalance_sold t bal⟩
  | unsettled bal resp err hbal hpolls =>
    have hread := h.firstRead hsold bal
    rw [List.foldl_append, List.foldl_append, foldl_see_quiet hpolls]
    exact ⟨⟨hread.proceeds, hread.both, hread.final, hread.read⟩, rfl⟩
  | sold bal resp after hbal hpolls =>
    have hcounted := (h.firstRead hsold bal).accepted.secondRead rfl (readBalance_last t bal)
      after feeRate
    rw [List.foldl_append, List.foldl_append, foldl_see_quiet hpolls]
    exact ⟨hcounted, readBalance_sold _ after⟩
  | soldOut bal resp after hbal hpolls =>
    have hcounted := (h.firstRead hsold bal).accepted.secondRead rfl (readBalance_last t bal)
      after feeRate
    rw [List.foldl_append, List.foldl_append, foldl_see_quiet hpolls]
    exact ⟨hcounted.markFlat (by simp [readBalance_last]), readBalance_sold _ after⟩

theorem stopSellAttempts_counted {n : ℕ} {r : StopSellUntilFlatResult} {tr : Trace}
    (hx : Exec (stopSellAttempts tok bid feeRate n out) tr r) (h : Counted bid out {}) :
    Counted bid r (tally tr) ∧ (tally tr).sold = false := by
  refine attempts_invariant
    (I := fun tr out => Counted bid out (tally tr) ∧ (tally tr).sold = false) hx ⟨h, rfl⟩ ?_
  rintro tr₁ tr₂ out next ⟨hcounted, hsold⟩ hattempt
  have hstart : Counted bid { out with attempts := out.attempts + 1 } (tally tr₁) :=
    ⟨hcounted.proceeds, hcounted.both, hcounted.final, hcounted.read⟩
  have hnext := hstart.attempt hattempt hsold
  rwa [tally, List.foldl_append]

end Counted

/-! ### Sizes -/

section Sizes

variable {tok : String} {bid feeRate : ℚ}

/-- Every order sells the balance read just before it. -/
def SizedByRead (tok : String) (tr : Trace) : Prop :=
  ∀ pre oi reply post, tr = pre ++ ⟨.submit oi, reply⟩ :: post →
    oi.side = .sell ∧ ∃ earlier, pre = earlier ++ [balanceRead tok (.ok oi.qty)]

def isSubmit : Obs Reply → Bool
  | ⟨.submit _, _⟩ => true
  | _ => false

theorem SizedByRead.of_no_submit {tr : Trace} (h : ∀ o ∈ tr, isSubmit o = false) :
    SizedByRead tok tr := by
  intro pre oi reply post htr
  have hsubmit := h ⟨.submit oi, reply⟩ (by rw [htr]; simp)
  cases hsubmit

theorem SizedByRead.append {tr tr' : Trace} (h : SizedByRead tok tr) (h' : SizedByRead tok tr') :
    SizedByRead tok (tr ++ tr') := by
  intro pre oi reply post htr
  rcases List.append_eq_append_iff.mp htr with ⟨later, rfl, htail⟩ | ⟨rest, hhead, htail⟩
  · obtain ⟨hside, earlier, rfl⟩ := h' later oi reply post htail
    exact ⟨hside, tr ++ earlier, (List.append_assoc _ _ _).symm⟩
  · cases rest with
    | nil =>
      obtain ⟨-, earlier, hnil⟩ := h' [] oi reply post htail.symm
      simp at hnil
    | cons o rest =>
      obtain ⟨rfl, -⟩ := List.cons.inj htail
      exact h pre oi reply rest hhead

theorem SizedByRead.sale (tok : String) (bid bal : ℚ) (answer : Except String SubmitResp) :
    SizedByRead tok
      [balanceRead tok (.ok bal), ⟨.submit (stopSellIntent tok bal bid), answer⟩] := by
  intro pre oi reply post htr
  rcases pre with _ | ⟨o, _ | ⟨o', pre⟩⟩
  · cases htr
  · obtain ⟨rfl, hrest⟩ := List.cons.inj htr
    obtain ⟨hobs, -⟩ := List.cons.inj hrest
    cases hobs
    exact ⟨rfl, [], rfl⟩
  · simp at htr

theorem SizedByRead.attempt {out next : StopSellUntilFlatResult} {tr : Trace}
    (h : Attempt tok bid feeRate out tr next) : SizedByRead tok tr := by
  have hread (reply : Except String ℚ) : SizedByRead tok [balanceRead tok reply] := by
    apply SizedByRead.of_no_submit
    intro o ho
    rw [List.mem_singleton.mp ho]
    rfl
  have hquiet {polls : Trace} (hpolls : ∀ o ∈ polls, Quiet o.call) : SizedByRead tok polls := by
    apply SizedByRead.of_no_submit
    intro o ho
    have hcall := hpolls o ho
    obtain ⟨call, reply⟩ := o
    cases call with
    | submit oi => exact absurd hcall id
    | _ => rfl
  cases h with
  | unread err => exact hread (.error err)
  | flat bal => exact hread (.ok bal)
  | refused bal err => exact .sale tok bid bal (.error err)
  | unsettled bal resp err hbal hpolls =>
    exact ((SizedByRead.sale tok bid bal (.ok resp)).append (hquiet hpolls)).append
      (hread (.error err))
  | sold bal resp after hbal hpolls | soldOut bal resp after hbal hpolls =>
    exact ((SizedByRead.sale tok bid bal (.ok resp)).append (hquiet hpolls)).append
      (hread (.ok after))

theorem stopSellAttempts_sized {n : ℕ} {out r : StopSellUntilFlatResult} {tr : Trace}
    (hx : Exec (stopSellAttempts tok bid feeRate n out) tr r) : SizedByRead tok tr :=
  attempts_invariant (I := fun tr _ => SizedByRead tok tr) hx (.of_no_submit (by simp))
    fun hsized hattempt => hsized.append (.attempt hattempt)

end Sizes

/-! ### The whole sale -/

theorem see_first {t : Tally} (hboth : t.first.isSome = t.last.isSome) (o : Obs Reply) :
    (t.see o).first = t.first.or (balanceReply o) ∧
      (t.see o).first.isSome = (t.see o).last.isSome := by
  obtain ⟨call, reply⟩ := o
  cases call with
  | queryConditionalBalance tok =>
    cases reply with
    | error err => simpa [Tally.see, balanceReply] using hboth
    | ok b =>
      cases hfirst : t.first <;> cases hlast : t.last <;>
        simp_all [Tally.see, Tally.readBalance, balanceReply]
  | submit oi => cases reply <;> simpa [Tally.see, balanceReply] using hboth
  | _ => simpa [Tally.see, balanceReply] using hboth

theorem foldl_see_first {tr : Trace} {t : Tally} (hboth : t.first.isSome = t.last.isSome) :
    (tr.foldl Tally.see t).first = t.first.or (tr.filterMap balanceReply).head? := by
  induction tr generalizing t with
  | nil => simp
  | cons o tr ih =>
    obtain ⟨hfirst, hboth'⟩ := see_first hboth o
    rw [List.foldl_cons, ih hboth', hfirst, List.filterMap_cons, Option.or_assoc]
    cases balanceReply o <;> simp

/-- The counted shares are those between the first and the last read, less the
uncounted ones. -/
theorem stopSell_proceeds {tok : String} {bid feeRate : ℚ} {tr : Trace}
    {r : StopSellUntilFlatResult} (hx : Exec (liveStopSellUntilFlat tok bid feeRate) tr r)
    (hflat : r.flat = true) :
    ∃ first, (tr.filterMap balanceReply).head? = some first ∧
      r.totalProceeds = bid * (first - r.finalBalance - (tally tr).uncounted) := by
  have hstart : Counted bid {} (tally []) := by
    constructor
    · simp [tally, Tally.fallen]
    · rfl
    · intro b hb
      cases hb
    · intro h
      cases h
  have hcounted : Counted bid r (tally tr) := (stopSellAttempts_counted hx hstart).1
  obtain ⟨final, hlast⟩ := Option.isSome_iff_exists.mp (hcounted.read hflat)
  have hsome : (tally tr).first.isSome = true := by rw [hcounted.both, hlast]; rfl
  obtain ⟨first, hfirst⟩ := Option.isSome_iff_exists.mp hsome
  refine ⟨first, ?_, ?_⟩
  · have hhead := @foldl_see_first tr {} rfl
    rw [show tr.foldl Tally.see {} = tally tr from rfl, hfirst] at hhead
    exact hhead.symm
  · rw [hcounted.proceeds, Tally.fallen, hfirst, hlast, hcounted.final final hlast]
    rfl

/-- When the sale ends flat, the proceeds are the mark times the shares between
the first read and the final balance, up to dust for each attempt, exactly when
no more than that left uncounted, or the mark is zero. Each order is of the size
read before it in any case. -/
theorem stopSell_telescopes_iff {tok : String} {bid feeRate : ℚ} {tr : Trace}
    {r : StopSellUntilFlatResult} (hx : Exec (liveStopSellUntilFlat tok bid feeRate) tr r)
    (hflat : r.flat = true) :
    ∃ first, (tr.filterMap balanceReply).head? = some first ∧
      ((|r.totalProceeds - bid * (first - r.finalBalance)| ≤ |bid| * (r.attempts * kFlatEps) ∧
          SizedByRead tok tr) ↔
        bid = 0 ∨ |(tally tr).uncounted| ≤ r.attempts * kFlatEps) := by
  obtain ⟨first, hfirst, hproceeds⟩ := stopSell_proceeds hx hflat
  refine ⟨first, hfirst, ?_⟩
  have hmissing : |r.totalProceeds - bid * (first - r.finalBalance)| =
      |bid| * |(tally tr).uncounted| := by
    rw [hproceeds, ← abs_mul, ← abs_neg]
    congr 1
    ring
  have hsized : SizedByRead tok tr := stopSellAttempts_sized hx
  rw [hmissing]
  constructor
  · rintro ⟨hle, -⟩
    rcases eq_or_ne bid 0 with hbid | hbid
    · exact .inl hbid
    · exact .inr (le_of_mul_le_mul_left hle (abs_pos.mpr hbid))
  · rintro (hbid | hle)
    · rw [hbid, abs_zero, zero_mul, zero_mul]
      exact ⟨le_rfl, hsized⟩
    · exact ⟨mul_le_mul_of_nonneg_left hle (abs_nonneg bid), hsized⟩

/-! ### A balance that changes through the sales only -/

/-- `unsettled`: what the orders sent so far may still take from the balance. -/
structure Holding where
  balance : ℚ
  unsettled : ℚ := 0

def ordered : Obs Reply → ℚ
  | ⟨.submit oi, _⟩ => oi.qty
  | _ => 0

/-- An order sells any part of its size, also later or when its reply is an
error, and a read that succeeds is true. -/
def ownSells (h : Holding) (o : Obs Reply) (h' : Holding) : Prop :=
  ∃ settled, 0 ≤ settled ∧ settled ≤ h.unsettled + ordered o ∧ settled ≤ h.balance ∧
    h'.balance = h.balance - settled ∧ h'.unsettled = h.unsettled + ordered o - settled ∧
    ∀ b, balanceReply o = some b → b = h'.balance

/-- Every order sells its whole size at once. -/
def sellsAtOnce (h : Holding) (o : Obs Reply) : Option Holding :=
  if 0 ≤ ordered o ∧ ordered o ≤ h.balance ∧ 0 ≤ h.unsettled ∧
      (balanceReply o).all (· = h.balance - ordered o) then
    some { h with balance := h.balance - ordered o }
  else none

theorem sellsAtOnce_ownSells {h h' : Holding} {o : Obs Reply} (hs : sellsAtOnce h o = some h') :
    ownSells h o h' := by
  obtain ⟨⟨hpos, hle, hunsettled, hread⟩, heq⟩ := Option.ite_none_right_eq_some.mp hs
  obtain rfl := Option.some.inj heq
  refine ⟨ordered o, hpos, by linarith, hle, rfl, by simp, fun b hb => ?_⟩
  rw [hb] at hread
  exact of_decide_eq_true hread

/-- Ten shares are sold and the read that would show it fails. -/
def unseenSale : ℕ → (e : Call) → Option (Reply e)
  | 0, .queryConditionalBalance _ => some (.ok 10)
  | 1, .submit _ => some (.ok ⟨"", .null⟩)
  | 2, .queryConditionalBalance _ => some (.error "timeout")
  | 3, .queryConditionalBalance _ => some (.ok 0)
  | _, _ => none

theorem exists_stopSell (script : ℕ → (e : Call) → Option (Reply e))
    (P : Trace × StopSellUntilFlatResult → Bool)
    (h : ((liveStopSellUntilFlat "up" (1 / 2) 0).replay script 0).any
      (fun x => (runEnv sellsAtOnce ⟨10, 0⟩ x.1).isSome && P x) = true) :
    ∃ tr r h', Exec (liveStopSellUntilFlat "up" (1 / 2) 0) tr r ∧
      Accepts ownSells ⟨10, 0⟩ tr h' ∧ P (tr, r) = true := by
  obtain ⟨⟨tr, r⟩, hr, hboth⟩ := (Option.any_eq_true _ _).mp h
  obtain ⟨hrun, hP⟩ := (Bool.and_eq_true _ _).mp hboth
  obtain ⟨h', hh'⟩ := Option.isSome_iff_exists.mp hrun
  exact ⟨tr, r, h', exec_replay hr,
    accepts_of_runEnv (fun _ _ _ hs => sellsAtOnce_ownSells hs) hh', hP⟩

/-- The proceeds of the ten shares are zero. -/
theorem stopSell_loses_proceeds :
    ¬ ∀ (tok : String) (bid feeRate : ℚ) (tr : Trace) (r : StopSellUntilFlatResult)
      (h h' : Holding), Exec (liveStopSellUntilFlat tok bid feeRate) tr r →
      Accepts ownSells h tr h' → r.flat = true →
      ∃ first, (tr.filterMap balanceReply).head? = some first ∧
        |r.totalProceeds - bid * (first - r.finalBalance)| ≤ |bid| * (r.attempts * kFlatEps) ∧
          SizedByRead tok tr := by
  intro h
  obtain ⟨tr, r, h', hx, haccepts, hP⟩ := exists_stopSell unseenSale
    (fun x => decide (x.2.flat = true ∧ x.2.totalProceeds = 0 ∧ x.2.finalBalance = 0 ∧
      x.2.attempts = 2 ∧ (x.1.filterMap balanceReply).head? = some 10)) (by decide +kernel)
  obtain ⟨hflat, hproceeds, hfinal, hattempts, hfirst⟩ := of_decide_eq_true hP
  obtain ⟨first, hhead, hle, -⟩ := h "up" (1 / 2) 0 tr r ⟨10, 0⟩ h' hx haccepts hflat
  rw [hfirst] at hhead
  obtain rfl := Option.some.inj hhead
  rw [hproceeds, hfinal, hattempts] at hle
  norm_num [kFlatEps, abs_of_pos] at hle

/-- The same sale with a second read that succeeds. -/
def seenSale : ℕ → (e : Call) → Option (Reply e)
  | 0, .queryConditionalBalance _ => some (.ok 10)
  | 1, .submit _ => some (.ok ⟨"", .null⟩)
  | 2, .queryConditionalBalance _ => some (.ok 0)
  | _, _ => none

theorem stopSell_telescopes_seenSale : ∃ tr r,
    Exec (liveStopSellUntilFlat "up" (1 / 2) 0) tr r ∧ r.flat = true ∧
      ∃ first, (tr.filterMap balanceReply).head? = some first ∧
        ((|r.totalProceeds - 1 / 2 * (first - r.finalBalance)| ≤
              |(1 / 2 : ℚ)| * (r.attempts * kFlatEps) ∧ SizedByRead "up" tr) ↔
          (1 / 2 : ℚ) = 0 ∨ |(tally tr).uncounted| ≤ r.attempts * kFlatEps) := by
  obtain ⟨tr, r, -, hx, -, hP⟩ := exists_stopSell seenSale (fun x => x.2.flat) (by decide +kernel)
  exact ⟨tr, r, hx, hP, stopSell_telescopes_iff hx hP⟩

end LeadLag.Account
