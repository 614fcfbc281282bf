import LeadLag.Daemon.Serve

/-!
# One reply per line (poly_daemon.py:91-328)

A statement either is silent, or replies once when it completes and has written
nothing when it raises. The `except` branches reply for what raised.
-/

namespace LeadLag.Daemon
open LeadLag.Interaction

def writes (tr : Trace) : List (List Char) :=
  tr.filterMap fun o =>
    match o.call with
    | .write text => some text
    | _ => none

theorem writes_append (tr tr' : Trace) : writes (tr ++ tr') = writes tr ++ writes tr' :=
  List.filterMap_append

/-- One line of text with its newline, which has no other. -/
def IsReply (text : List Char) : Prop := ∃ t, text = t ++ ['\n'] ∧ '\n' ∉ t

def Silent {A : Type} (p : Py A) : Prop := Ensures p.run fun tr _ => writes tr = []

def Once (tr : Trace) : Except Raised Unit → Prop
  | .ok _ => ∃ text, writes tr = [text] ∧ IsReply text
  | .error _ => writes tr = []

def RepliesOnce (p : Py Unit) : Prop := Ensures p.run Once

section Rules

variable {A B : Type}

theorem silent_pure (a : A) : Silent (pure a) := ensures_pure.mpr rfl

theorem silent_throw (e : Raised) : Silent (throw e : Py A) := ensures_pure.mpr rfl

theorem silent_orRaise (r : Except Raised A) : Silent (orRaise r) := ensures_pure.mpr rfl

theorem ensures_ask {c : Call} {Q : Trace → Except Raised (Reply c) → Prop} :
    Ensures (ask c).run Q ↔ ∀ r, Q [⟨c, r⟩] (.ok r) :=
  ensures_bind.trans (ensures_perform.trans (forall_congr' fun _ => ensures_pure))

theorem silent_ask {c : Call} (h : ∀ text, c ≠ .write text) : Silent (ask c) := by
  refine ensures_ask.mpr fun r => ?_
  cases c with
  | write text => exact absurd rfl (h text)
  | _ => rfl

theorem silent_bind {p : Py A} {f : A → Py B} (hp : Silent p) (hf : ∀ a, Silent (f a)) :
    Silent (p >>= f) := by
  refine ensures_bind.mpr (hp.mono fun tr r htr => ?_)
  cases r with
  | ok a =>
    refine (hf a).mono fun tr' _ htr' => ?_
    rw [writes_append, htr, htr', List.append_nil]
  | error e =>
    refine ensures_pure.mpr ?_
    rw [List.append_nil]
    exact htr

theorem silent_tryCatch {p : Py A} {h : Raised → Py A} (hp : Silent p) (hh : ∀ e, Silent (h e)) :
    Silent (tryCatch p h) := by
  refine ensures_bind.mpr (hp.mono fun tr r htr => ?_)
  cases r with
  | ok a =>
    refine ensures_pure.mpr ?_
    rw [List.append_nil]
    exact htr
  | error e =>
    refine (hh e).mono fun tr' _ htr' => ?_
    rw [writes_append, htr, htr', List.append_nil]

theorem repliesOnce_bind {p : Py A} {f : A → Py Unit} (hp : Silent p)
    (hf : ∀ a, RepliesOnce (f a)) : RepliesOnce (p >>= f) := by
  refine ensures_bind.mpr (hp.mono fun tr r htr => ?_)
  cases r with
  | ok a =>
    refine (hf a).mono fun tr' r' honce => ?_
    unfold Once at honce ⊢
    rw [writes_append, htr, List.nil_append]
    exact honce
  | error e =>
    refine ensures_pure.mpr ?_
    rw [List.append_nil]
    exact htr

theorem repliesOnce_tryCatch {p : Py Unit} {h : Raised → Py Unit} (hp : RepliesOnce p)
    (hh : ∀ e, RepliesOnce (h e)) : RepliesOnce (tryCatch p h) := by
  refine ensures_bind.mpr (hp.mono fun tr r honce => ?_)
  cases r with
  | ok a =>
    refine ensures_pure.mpr ?_
    rw [List.append_nil]
    exact honce
  | error e =>
    refine (hh e).mono fun tr' r' honce' => ?_
    unfold Once at honce honce' ⊢
    rw [writes_append, honce, List.nil_append]
    exact honce'

end Rules

/-! ### Statements -/

theorem silent_toFloat (v : Value) : Silent (toFloat v) :=
  silent_bind (silent_ask nofun) fun r => silent_orRaise r

theorem silent_toInt (v : Value) : Silent (toInt v) :=
  silent_bind (silent_ask nofun) fun r => silent_orRaise r

theorem silent_toStr (v : Value) : Silent (toStr v) :=
  silent_bind (silent_ask nofun) fun r => silent_orRaise r

theorem silent_item (key : String) (req : Value) : Silent (item key req) := by
  unfold item
  split
  · exact silent_pure _
  · exact silent_throw _

theorem silent_orderTypeName (req : Value) : Silent (orderTypeName req) := by
  unfold orderTypeName
  dsimp only
  split
  · exact silent_pure _
  · exact silent_bind (silent_ask nofun) fun _ => silent_pure _

theorem silent_orderIdOf (resp : Value) : Silent (orderIdOf resp) := by
  unfold orderIdOf
  split
  · exact silent_toStr _
  · exact silent_pure _

theorem silent_tryFloat (b : Value) : Silent (tryFloat b) := by
  refine silent_tryCatch (silent_bind (silent_toFloat b) fun x => silent_pure _) fun e => ?_
  split
  · exact silent_pure _
  · exact silent_throw _

theorem silent_balanceShares (raw : Value) : Silent (balanceShares raw) := by
  unfold balanceShares
  split
  · split
    · exact silent_pure _
    · refine silent_bind (silent_tryFloat _) fun x => ?_
      split
      · exact silent_pure _
      · exact silent_tryFloat _
  · exact silent_pure _

section Serve

variable (floatRepr : Option ℚ → Line)

theorem repliesOnce_reply (obj : Value) : RepliesOnce (reply floatRepr obj) := by
  unfold reply
  split
  · exact ensures_pure.mpr rfl
  · rename_i text htext
    have hline := newline_not_mem_dumps htext
    exact ensures_ask.mpr fun _ => ⟨_, rfl, text, rfl, hline⟩

theorem repliesOnce_replyOk (cmd : Value) (fields : List (String × Value)) :
    RepliesOnce (replyOk floatRepr cmd fields) :=
  repliesOnce_bind (silent_ask nofun) fun _ => repliesOnce_reply floatRepr _

theorem repliesOnce_replyError (cmd : Value) (fields : List (String × Value)) :
    RepliesOnce (replyError floatRepr cmd fields) :=
  repliesOnce_bind (silent_ask nofun) fun _ => repliesOnce_reply floatRepr _

theorem repliesOnce_replyRaised (head : List (String × Value)) (e : Raised) :
    RepliesOnce (replyRaised floatRepr head e) := by
  refine repliesOnce_bind (silent_ask nofun) fun trace => ?_
  exact repliesOnce_bind (silent_ask nofun) fun ts => repliesOnce_reply floatRepr _

/-! ### Commands -/

theorem repliesOnce_placeMarketOrder (cmd req : Value) :
    RepliesOnce (placeMarketOrder floatRepr cmd req) := by
  unfold placeMarketOrder
  refine repliesOnce_bind (silent_item _ _) fun tokenId => ?_
  refine repliesOnce_bind (silent_item _ _) fun side => ?_
  refine repliesOnce_bind (silent_item _ _) fun amountField => ?_
  refine repliesOnce_bind (silent_toFloat _) fun amount => ?_
  refine repliesOnce_bind (silent_orderTypeName _) fun otName => ?_
  refine repliesOnce_bind (silent_ask nofun) fun named => ?_
  refine repliesOnce_bind (silent_orRaise _) fun ot => ?_
  split
  · exact repliesOnce_replyOk floatRepr _ _
  · refine repliesOnce_bind (silent_toFloat _) fun price => ?_
    refine repliesOnce_bind (silent_ask nofun) fun posted => ?_
    refine repliesOnce_bind (silent_orRaise _) fun resp => ?_
    refine repliesOnce_bind (silent_orderIdOf _) fun orderId => ?_
    exact repliesOnce_replyOk floatRepr _ _

theorem repliesOnce_placeOrder (cmd req : Value) :
    RepliesOnce (placeOrder floatRepr cmd req) := by
  unfold placeOrder
  refine repliesOnce_bind (silent_item _ _) fun tokenId => ?_
  refine repliesOnce_bind (silent_item _ _) fun side => ?_
  refine repliesOnce_bind (silent_item _ _) fun priceField => ?_
  refine repliesOnce_bind (silent_toFloat _) fun price => ?_
  refine repliesOnce_bind (silent_item _ _) fun sizeField => ?_
  refine repliesOnce_bind (silent_toFloat _) fun size => ?_
  dsimp only
  split
  · exact repliesOnce_replyOk floatRepr _ _
  · refine repliesOnce_bind (silent_ask nofun) fun posted => ?_
    refine repliesOnce_bind (silent_orRaise _) fun resp => ?_
    exact repliesOnce_replyOk floatRepr _ _

theorem repliesOnce_getConditionalBalance (cmd req : Value) :
    RepliesOnce (getConditionalBalance floatRepr cmd req) := by
  unfold getConditionalBalance
  refine repliesOnce_bind (silent_item _ _) fun tokenField => ?_
  refine repliesOnce_bind (silent_toStr _) fun tokenId => ?_
  refine repliesOnce_bind (silent_ask nofun) fun got => ?_
  refine repliesOnce_bind (silent_orRaise _) fun raw => ?_
  refine repliesOnce_bind (silent_balanceShares _) fun balance => ?_
  split
  · exact repliesOnce_replyError floatRepr _ _
  · exact repliesOnce_replyOk floatRepr _ _

theorem repliesOnce_getOrder (cmd req : Value) : RepliesOnce (getOrder floatRepr cmd req) := by
  unfold getOrder
  refine repliesOnce_bind (silent_item _ _) fun orderField => ?_
  refine repliesOnce_bind (silent_toStr _) fun orderId => ?_
  refine repliesOnce_bind (silent_ask nofun) fun got => ?_
  refine repliesOnce_bind (silent_orRaise _) fun resp => ?_
  exact repliesOnce_replyOk floatRepr _ _

theorem repliesOnce_fitGarch (cmd : Value) (rets : List (Option ℚ)) (p q stepMs : ℤ) :
    RepliesOnce (fitGarch floatRepr cmd rets p q stepMs) := by
  unfold fitGarch
  refine repliesOnce_bind (silent_ask nofun) fun fitted => ?_
  refine repliesOnce_bind (silent_orRaise _) fun sigma => ?_
  exact repliesOnce_replyOk floatRepr _ _

theorem repliesOnce_garchForecast (cmd req : Value) :
    RepliesOnce (garchForecast floatRepr cmd req) := by
  unfold garchForecast
  refine repliesOnce_bind (silent_item _ _) fun mids => ?_
  refine repliesOnce_bind (silent_toInt _) fun stepMs => ?_
  refine repliesOnce_bind (silent_toInt _) fun p => ?_
  refine repliesOnce_bind (silent_toInt _) fun q => ?_
  refine repliesOnce_bind (silent_ask nofun) fun installed => ?_
  split
  · refine repliesOnce_bind (silent_ask nofun) fun converted => ?_
    refine repliesOnce_bind (silent_orRaise _) fun midsArr => ?_
    split
    · exact repliesOnce_replyError floatRepr _ _
    · refine repliesOnce_bind (silent_ask nofun) fun computed => ?_
      refine repliesOnce_bind (silent_orRaise _) fun rets => ?_
      split
      · exact repliesOnce_replyError floatRepr _ _
      · exact repliesOnce_tryCatch (repliesOnce_fitGarch floatRepr cmd rets p q stepMs)
          fun e => repliesOnce_replyRaised floatRepr _ e
  · exact repliesOnce_replyError floatRepr _ _

theorem repliesOnce_unknownCommand (cmd : Value) :
    RepliesOnce (unknownCommand floatRepr cmd) := by
  unfold unknownCommand
  refine repliesOnce_bind (silent_toStr _) fun name => ?_
  exact repliesOnce_bind (silent_ask nofun) fun ts => repliesOnce_reply floatRepr _

theorem repliesOnce_handle (text : String) : RepliesOnce (handle floatRepr text) := by
  unfold handle
  refine repliesOnce_bind (silent_ask nofun) fun parsed => ?_
  refine repliesOnce_bind (silent_orRaise _) fun req => ?_
  split
  · dsimp only
    split
    · exact repliesOnce_placeMarketOrder floatRepr _ _
    split
    · exact repliesOnce_placeOrder floatRepr _ _
    split
    · exact repliesOnce_getConditionalBalance floatRepr _ _
    split
    · exact repliesOnce_getOrder floatRepr _ _
    split
    · exact repliesOnce_reply floatRepr _
    split
    · exact repliesOnce_garchForecast floatRepr _ _
    split
    · exact repliesOnce_replyOk floatRepr _ _
    · exact repliesOnce_unknownCommand floatRepr _
  · exact ensures_pure.mpr rfl

/-! ### A line -/

/-- What stdout gets for a line. -/
def Answered (line output : List Char) : Prop :=
  if strip line = [] then output = [] else IsReply output

/-- The reply for what raised can be written: its values are texts and a time. -/
theorem replyRaised_completes (e : Raised) :
    Ensures (replyRaised floatRepr [] e).run fun _ r => r = .ok () := by
  refine ensures_bind.mpr (ensures_ask.mpr fun trace => ?_)
  refine ensures_bind.mpr (ensures_ask.mpr fun ts => ?_)
  exact ensures_ask.mpr fun _ => rfl

theorem serve_completes (line : List Char) :
    Ensures (serve floatRepr line).run fun _ r => r = .ok () := by
  unfold serve
  dsimp only
  split
  · exact ensures_pure.mpr rfl
  · refine ensures_bind.mpr fun tr r _ => ?_
    cases r with
    | ok a => exact ensures_pure.mpr rfl
    | error e => exact replyRaised_completes floatRepr e

theorem serve_answers (line : List Char) :
    Ensures (serve floatRepr line).run fun tr _ => Answered line (writes tr).flatten := by
  intro tr r h
  obtain rfl := serve_completes floatRepr line tr r h
  unfold serve at h
  unfold Answered
  dsimp only at h
  split at h
  · rename_i hblank
    obtain ⟨rfl, -⟩ := exec_done.mp h
    rw [if_pos hblank]
    rfl
  · rename_i hline
    have honce : RepliesOnce (tryCatch (handle floatRepr (String.ofList (strip line)))
        (replyRaised floatRepr [])) :=
      repliesOnce_tryCatch (repliesOnce_handle floatRepr _) (repliesOnce_replyRaised floatRepr [])
    obtain ⟨text, htext, hreply⟩ := honce tr _ h
    rw [if_neg hline, htext, List.flatten_singleton]
    exact hreply

end Serve

end LeadLag.Daemon
