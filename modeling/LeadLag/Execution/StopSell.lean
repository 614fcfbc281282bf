import LeadLag.Execution.BuyFill

/-!
# The stop-loss sale (btc_poly_runner.cpp:787-867)

Sell the whole CLOB balance with FAK orders until a balance read says it is
gone, thirty attempts at most. A result with `flat = false` means the attempts
ran out; what was sold on the way is in the totals.
-/

namespace LeadLag.Execution
open LeadLag.Core LeadLag.Interaction

structure StopSellUntilFlatResult where
  flat : Bool := false
  totalProceeds : ℚ := 0
  totalFee : ℚ := 0
  finalBalance : ℚ := 0
  lastSellQty : ℚ := 0
  attempts : ℕ := 0
  lastError : String := ""
  deriving DecidableEq, Repr

def kMaxAttempts : ℕ := 30
def kMaxStopOrderPolls : ℕ := 15
def kFlatEps : ℚ := 1 / 10 ^ 6

def stopSellIntent (tok : String) (bal markBid : ℚ) : OrderIntent :=
  { side := .sell, marketTokenId := tok, marketOrder := true, marketOrderType := "FAK"
    marketWorstPrice := max (1 / 100) markBid, qty := bal }

def awaitTerminal (orderId : String) : ℕ → Prog Unit
  | 0 => pure ()
  | n + 1 => do
    match ← queryOrder orderId with
    | .ok order =>
      if clobOrderStatusTerminal (clobOrderStatusUpper order) then pure ()
      else awaitTerminal orderId n
    | .error _ => awaitTerminal orderId n

theorem awaitTerminal_quietly (orderId : String) (n : ℕ) :
    Quietly (awaitTerminal orderId n) := by
  induction n with
  | zero => trivial
  | succ n ih =>
    refine quietly_bind ⟨trivial, fun _ _ => trivial⟩ fun r => ?_
    cases r with
    | error err => exact ih
    | ok order =>
      dsimp only
      split
      · trivial
      · exact ih

/-- Balance read after a sale: what is gone counts as sold at the mark. -/
def StopSellUntilFlatResult.afterSale (out : StopSellUntilFlatResult)
    (before after markBid feeRate : ℚ) : StopSellUntilFlatResult :=
  let sold := max 0 (before - after)
  let out := { out with finalBalance := after, lastSellQty := sold }
  if sold > kFlatEps then
    { out with totalProceeds := out.totalProceeds + sold * markBid
               totalFee := out.totalFee + polyTakerFee (sold * markBid) markBid feeRate }
  else out

def stopSellAttempts (tok : String) (markBid feeRate : ℚ) :
    ℕ → StopSellUntilFlatResult → Prog StopSellUntilFlatResult
  | 0, out => pure out
  | n + 1, out => do
    let out := { out with attempts := out.attempts + 1 }
    match ← queryConditionalBalance tok with
    | .error err => stopSellAttempts tok markBid feeRate n { out with lastError := err }
    | .ok bal =>
      let out := { out with finalBalance := bal }
      if bal ≤ kFlatEps then pure { out with flat := true }
      else
        match ← submit (stopSellIntent tok bal markBid) with
        | .error err => stopSellAttempts tok markBid feeRate n { out with lastError := err }
        | .ok resp =>
          awaitTerminal resp.orderId (if resp.orderId = "" then 0 else kMaxStopOrderPolls)
          match ← queryConditionalBalance tok with
          | .error err => stopSellAttempts tok markBid feeRate n { out with lastError := err }
          | .ok after =>
            let out := out.afterSale bal after markBid feeRate
            if after ≤ kFlatEps then pure { out with flat := true }
            else stopSellAttempts tok markBid feeRate n out

def liveStopSellUntilFlat (tok : String) (markBid feeRate : ℚ) : Prog StopSellUntilFlatResult :=
  stopSellAttempts tok markBid feeRate kMaxAttempts {}

/-! ### One attempt after the other -/

section Attempts

variable {tok : String} {bid feeRate : ℚ}

/-- What one attempt calls, in order, and the result it leaves. -/
inductive Attempt (tok : String) (bid feeRate : ℚ) (out : StopSellUntilFlatResult) :
    Trace → StopSellUntilFlatResult → Prop where
  | unread (err : String) :
      Attempt tok bid feeRate out [⟨.queryConditionalBalance tok, .error err⟩]
        { out with lastError := err }
  | flat (bal : ℚ) (hbal : bal ≤ kFlatEps) :
      Attempt tok bid feeRate out [⟨.queryConditionalBalance tok, .ok bal⟩]
        { out with finalBalance := bal, flat := true }
  | refused (bal : ℚ) (err : String) (hbal : ¬ bal ≤ kFlatEps) :
      Attempt tok bid feeRate out
        [⟨.queryConditionalBalance tok, .ok bal⟩,
          ⟨.submit (stopSellIntent tok bal bid), .error err⟩]
        { out with finalBalance := bal, lastError := err }
  | unsettled (bal : ℚ) (resp : SubmitResp) {polls : Trace} (err : String)
      (hbal : ¬ bal ≤ kFlatEps) (hpolls : ∀ o ∈ polls, Quiet o.call) :
      Attempt tok bid feeRate out
        ([⟨.queryConditionalBalance tok, .ok bal⟩,
            ⟨.submit (stopSellIntent tok bal bid), .ok resp⟩] ++
          polls ++ [⟨.queryConditionalBalance tok, .error err⟩])
        { out with finalBalance := bal, lastError := err }
  | sold (bal : ℚ) (resp : SubmitResp) {polls : Trace} (after : ℚ)
      (hbal : ¬ bal ≤ kFlatEps) (hpolls : ∀ o ∈ polls, Quiet o.call)
      (hafter : ¬ after ≤ kFlatEps) :
      Attempt tok bid feeRate out
        ([⟨.queryConditionalBalance tok, .ok bal⟩,
            ⟨.submit (stopSellIntent tok bal bid), .ok resp⟩] ++
          polls ++ [⟨.queryConditionalBalance tok, .ok after⟩])
        ({ out with finalBalance := bal }.afterSale bal after bid feeRate)
  | soldOut (bal : ℚ) (resp : SubmitResp) {polls : Trace} (after : ℚ)
      (hbal : ¬ bal ≤ kFlatEps) (hpolls : ∀ o ∈ polls, Quiet o.call)
      (hafter : after ≤ kFlatEps) :
      Attempt tok bid feeRate out
        ([⟨.queryConditionalBalance tok, .ok bal⟩,
            ⟨.submit (stopSellIntent tok bal bid), .ok resp⟩] ++
          polls ++ [⟨.queryConditionalBalance tok, .ok after⟩])
        { ({ out with finalBalance := bal }.afterSale bal after bid feeRate) with flat := true }

theorem exec_attempt {n : ℕ} {out r : StopSellUntilFlatResult} {tr : Trace}
    (hx : Exec (stopSellAttempts tok bid feeRate (n + 1) out) tr r) :
    ∃ tr₁ next tr₂, tr = tr₁ ++ tr₂ ∧
      Attempt tok bid feeRate { out with attempts := out.attempts + 1 } tr₁ next ∧
      (tr₂ = [] ∧ r = next ∨ Exec (stopSellAttempts tok bid feeRate n next) tr₂ r) := by
  obtain ⟨reply, tr₂, rfl, hk⟩ := exec_perform_bind.mp hx
  cases reply with
  | error err => exact ⟨[_], _, tr₂, rfl, .unread err, .inr hk⟩
  | ok bal =>
    dsimp only at hk
    split at hk
    · rename_i hbal
      obtain ⟨rfl, rfl⟩ := exec_done.mp hk
      exact ⟨[_], _, [], rfl, .flat bal hbal, .inl ⟨rfl, rfl⟩⟩
    · rename_i hbal
      obtain ⟨answer, tr₃, rfl, hanswer⟩ := exec_perform_bind.mp hk
      cases answer with
      | error err => exact ⟨[_, _], _, tr₃, rfl, .refused bal err hbal, .inr hanswer⟩
      | ok resp =>
        obtain ⟨polls, u, tr₄, hpolled, hsecond, rfl⟩ := exec_bind.mp hanswer
        obtain ⟨reply, tr₅, rfl, hend⟩ := exec_perform_bind.mp hsecond
        have hpolls := ((awaitTerminal_quietly _ _).ensures polls u hpolled fun _ _ => trivial).1
        have hsplit : (⟨.queryConditionalBalance tok, .ok bal⟩ ::
            ⟨.submit (stopSellIntent tok bal bid), .ok resp⟩ ::
              (polls ++ ⟨.queryConditionalBalance tok, reply⟩ :: tr₅) : Trace) =
            ([⟨.queryConditionalBalance tok, .ok bal⟩,
                ⟨.submit (stopSellIntent tok bal bid), .ok resp⟩] ++
              polls ++ [⟨.queryConditionalBalance tok, reply⟩]) ++ tr₅ := by
          simp
        cases reply with
        | error err => exact ⟨_, _, tr₅, hsplit, .unsettled bal resp err hbal hpolls, .inr hend⟩
        | ok after =>
          dsimp only at hend
          split at hend
          · rename_i hafter
            obtain ⟨rfl, rfl⟩ := exec_done.mp hend
            exact ⟨_, _, [], hsplit, .soldOut bal resp after hbal hpolls hafter, .inl ⟨rfl, rfl⟩⟩
          · rename_i hafter
            exact ⟨_, _, tr₅, hsplit, .sold bal resp after hbal hpolls hafter, .inr hend⟩

/-- What every attempt keeps holds of the whole sale. -/
theorem attempts_invariant {I : Trace → StopSellUntilFlatResult → Prop} {n : ℕ}
    {out r : StopSellUntilFlatResult} {tr : Trace}
    (hx : Exec (stopSellAttempts tok bid feeRate n out) tr r) (hstart : I [] out)
    (hstep : ∀ {tr₁ tr₂ : Trace} {out next : StopSellUntilFlatResult}, I tr₁ out →
      Attempt tok bid feeRate { out with attempts := out.attempts + 1 } tr₂ next →
      I (tr₁ ++ tr₂) next) : I tr r := by
  have hrun : ∀ n seen out tr, I seen out →
      Exec (stopSellAttempts tok bid feeRate n out) tr r → I (seen ++ tr) r := by
    intro n
    induction n with
    | zero =>
      intro seen out tr hI hx
      obtain ⟨rfl, rfl⟩ := exec_done.mp hx
      rwa [List.append_nil]
    | succ n ih =>
      intro seen out tr hI hx
      obtain ⟨tr₁, next, tr₂, rfl, hattempt, hend⟩ := exec_attempt hx
      have hnext := hstep hI hattempt
      rw [← List.append_assoc]
      rcases hend with ⟨rfl, rfl⟩ | hend
      · rwa [List.append_nil]
      · exact ih _ next tr₂ hnext hend
  exact hrun n [] out tr hstart hx

end Attempts

/-! ### The totals -/

inductive SoldAt (bid feeRate : ℚ) : ℚ → ℚ → Prop where
  | none : SoldAt bid feeRate 0 0
  | more (qty : ℚ) {proceeds fee : ℚ} : SoldAt bid feeRate proceeds fee →
      SoldAt bid feeRate (proceeds + qty * bid) (fee + polyTakerFee (qty * bid) bid feeRate)

theorem SoldAt.single (bid feeRate qty : ℚ) :
    SoldAt bid feeRate (qty * bid) (polyTakerFee (qty * bid) bid feeRate) := by
  have h : SoldAt bid feeRate (0 + qty * bid) (0 + polyTakerFee (qty * bid) bid feeRate) :=
    SoldAt.none.more qty
  simpa using h

section Totals

variable {tok : String} {markBid feeRate : ℚ}

theorem SoldAt.afterSale {out : StopSellUntilFlatResult} (before after : ℚ)
    (h : SoldAt markBid feeRate out.totalProceeds out.totalFee) :
    SoldAt markBid feeRate (out.afterSale before after markBid feeRate).totalProceeds
      (out.afterSale before after markBid feeRate).totalFee := by
  simp only [StopSellUntilFlatResult.afterSale]
  split
  · exact h.more _
  · exact h

theorem Attempt.soldAt {out next : StopSellUntilFlatResult} {tr : Trace}
    (hattempt : Attempt tok markBid feeRate out tr next)
    (h : SoldAt markBid feeRate out.totalProceeds out.totalFee) :
    SoldAt markBid feeRate next.totalProceeds next.totalFee := by
  cases hattempt with
  | unread err => exact h
  | flat bal => exact h
  | refused bal err => exact h
  | unsettled bal resp err => exact h
  | sold bal resp after => exact SoldAt.afterSale bal after h
  | soldOut bal resp after => exact SoldAt.afterSale bal after h

theorem stopSellAttempts_soldAt (n : ℕ) {out : StopSellUntilFlatResult}
    (h : SoldAt markBid feeRate out.totalProceeds out.totalFee) :
    Returns (stopSellAttempts tok markBid feeRate n out) fun r =>
      SoldAt markBid feeRate r.totalProceeds r.totalFee :=
  fun _ _ hx => attempts_invariant
    (I := fun _ out => SoldAt markBid feeRate out.totalProceeds out.totalFee) hx h
    fun hI hattempt => hattempt.soldAt hI

theorem liveStopSellUntilFlat_soldAt :
    Returns (liveStopSellUntilFlat tok markBid feeRate) fun r =>
      SoldAt markBid feeRate r.totalProceeds r.totalFee :=
  stopSellAttempts_soldAt kMaxAttempts .none

end Totals

end LeadLag.Execution
