import LeadLag.Core.Json
import LeadLag.Interaction.Program

/-!
# What the runner asks of its environment

The consumer thread reads clocks, reads the token ids of the two quote feeds
(each under the feed's own lock, while the main thread may be switching them)
and calls the methods of `LiveExecutor`. A method that returns `true` replies
`ok` with its out parameters, one that returns `false` replies `error` with the
error message. Replies are arbitrary.
-/

namespace LeadLag.Execution
open LeadLag.Core LeadLag.Interaction

inductive Outcome where
  | up
  | down
  deriving DecidableEq, Repr

inductive OrderSide where
  | buy
  | sell
  deriving DecidableEq, Repr

/-- `OrderIntent` (executor.hpp). BUY: `qty` is USD to spend; SELL: shares. -/
structure OrderIntent where
  monoNs : ℤ := 0
  side : OrderSide
  limitPrice : ℚ := 0
  qty : ℚ
  marketTokenId : String
  marketOrder : Bool := false
  marketOrderType : String := ""
  marketWorstPrice : ℚ := 0
  deriving DecidableEq, Repr

structure SubmitResp where
  orderId : String
  resp : Json

inductive Call where
  | steadyNs
  | systemMs
  | tokenId (o : Outcome)
  | queryConditionalBalance (tokenId : String)
  | submit (oi : OrderIntent)
  | queryOrder (orderId : String)
  | queryGarchSigma (mids : List ℚ) (stepMs : ℤ)
  /-- Entering a loop that has no end: there is no reply. -/
  | loopForever

abbrev Reply : Call → Type
  | .steadyNs => ℤ
  | .systemMs => ℤ
  | .tokenId _ => String
  | .queryConditionalBalance _ => Except String ℚ
  | .submit _ => Except String SubmitResp
  | .queryOrder _ => Except String Json
  | .queryGarchSigma _ _ => Except String ℚ
  | .loopForever => Empty

abbrev Prog (A : Type) : Type := Interaction.Prog Reply A
abbrev Trace : Type := List (Obs Reply)

def steadyNs : Prog ℤ := Prog.perform Call.steadyNs
def systemMs : Prog ℤ := Prog.perform Call.systemMs
def tokenId (o : Outcome) : Prog String := Prog.perform (Call.tokenId o)
def queryConditionalBalance (tok : String) : Prog (Except String ℚ) :=
  Prog.perform (Call.queryConditionalBalance tok)
def submit (oi : OrderIntent) : Prog (Except String SubmitResp) := Prog.perform (Call.submit oi)
def queryOrder (id : String) : Prog (Except String Json) := Prog.perform (Call.queryOrder id)
def queryGarchSigma (mids : List ℚ) (stepMs : ℤ) : Prog (Except String ℚ) :=
  Prog.perform (Call.queryGarchSigma mids stepMs)

def orLoop {A : Type} : Option A → Prog A
  | some a => pure a
  | none => Prog.perform Call.loopForever >>= Empty.elim

theorem returns_orLoop {A : Type} {o : Option A} {P : A → Prop} (h : ∀ a, o = some a → P a) :
    Returns (orLoop o) P := by
  cases o with
  | none =>
    simp only [orLoop, returns_bind, returns_perform]
    exact fun r => r.elim
  | some a => exact returns_pure.mpr (h a rfl)

/-! ### Calls that concern no account -/

def Quiet : Call → Prop
  | .tokenId _ | .queryConditionalBalance _ | .submit _ => False
  | _ => True

abbrev Quietly {A : Type} (p : Prog A) : Prop := Safe (fun _ => True) Quiet (fun _ => True) p

theorem quietly_bind {A B : Type} {p : Prog A} {f : A → Prog B} (hp : Quietly p)
    (hf : ∀ a, Quietly (f a)) : Quietly (p >>= f) :=
  safe_bind.mpr (hp.mono fun a _ => hf a)

theorem quietly_orLoop {A : Type} (o : Option A) : Quietly (orLoop o) := by
  cases o with
  | some a => trivial
  | none => exact ⟨trivial, fun r _ => r.elim⟩

end LeadLag.Execution
