import LeadLag.Execution.Calls

/-!
# Replies of the daemon (live_executor.cpp:25-228, 230-382)

The four methods that ask the daemon share their treatment of the reply up to
its `ok` field. Only the parser is called under a handler: `value` throws when
the reply is no object or the field is of another type, and a traffic log
writes the line back with `dump`, which throws on bytes that are no UTF-8.
`parse` is nlohmann::json's, `none` where it throws; the error message is always
asked for.
-/

namespace LeadLag.Execution.LiveExecutor
open LeadLag.Core

abbrev Bytes : Type := List UInt8

def text (s : String) : Bytes := s.toUTF8.data.toList

def validUtf8 (b : Bytes) : Bool := (ByteArray.mk b.toArray).validateUTF8

/-- What comes out of the daemon's pipe. -/
inductive Channel where
  | startFailed (err : Bytes)
  | ioFailed (line err : Bytes)
  | line (l : Bytes)
  deriving DecidableEq

/-- The parser, and whether a traffic log is attached. -/
structure Setting where
  parse : Bytes → Option Json
  logging : Bool

/-- `threw`: an exception left the method. -/
inductive Answer (A : Type) where
  | threw
  | returned (r : Except Bytes A)

variable {A : Type}

/-- `emit_poly_daemon_traffic`: whether it returns. -/
def emitPolyDaemonTraffic (st : Setting) (transportErr responseLine : Bytes) : Bool :=
  !st.logging || (validUtf8 transportErr && validUtf8 responseLine)

/-- `resp.value("ok", false)`; `none` is the exception. -/
def okValue : Json → Option Bool
  | .obj fields =>
    match fields.lookup "ok" with
    | none => some false
    | some (.bool b) => some b
    | some _ => none
  | _ => none

/-- `resp.value("error", "daemon error")`. -/
def errorValue : Json → Option Bytes
  | .obj fields =>
    match fields.lookup "error" with
    | none => some (text "daemon error")
    | some (.str s) => some (text s)
    | some _ => none
  | _ => none

def answerLine (st : Setting) (l : Bytes) (k : Bytes → Json → Except Bytes A) : Answer A :=
  match st.parse l with
  | none => .returned (.error (text "daemon returned non-JSON: " ++ l))
  | some resp =>
    match okValue resp with
    | none => .threw
    | some true => .returned (k l resp)
    | some false =>
      match errorValue resp with
      | none => .threw
      | some e => .returned (.error (e ++ text " raw=" ++ l))

def answer (st : Setting) (ch : Channel) (k : Bytes → Json → Except Bytes A) : Answer A :=
  match ch with
  | .startFailed err =>
    let msg := text "start daemon failed: " ++ err
    if emitPolyDaemonTraffic st msg [] then .returned (.error msg) else .threw
  | .ioFailed line err =>
    if emitPolyDaemonTraffic st err line then
      .returned (.error (text "daemon request failed: " ++ err))
    else .threw
  | .line l => if emitPolyDaemonTraffic st [] l then answerLine st l k else .threw

/-! ### The four methods -/

structure Submitted where
  orderId : String
  resp : Json
  message : Bytes

def stringField (key : String) (j : Json) : Option String := (j.field? key).bind Json.string?

def orderIdOf (resp : Json) : String :=
  let id := (stringField "order_id" resp).getD ""
  if id = "" then
    match resp.field? "resp" with
    | some r =>
      if r.isObject then
        let id := (stringField "orderID" r).getD ""
        let id := if id = "" then (stringField "order_id" r).getD "" else id
        if id = "" then (stringField "orderId" r).getD "" else id
      else ""
    | none => ""
  else id

def submitReply (l : Bytes) (resp : Json) : Except Bytes Submitted :=
  .ok ⟨orderIdOf resp, resp, if orderIdOf resp = "" then l else []⟩

/-- The balance may be an infinity or NaN, read by `std::stod`. -/
def balanceReply (l : Bytes) (resp : Json) : Except Bytes (Option ℚ) :=
  match resp.field? "balance" with
  | some (.int i) => .ok (some i)
  | some (.float x) => .ok (some x)
  | some (.str s) =>
    match stod s with
    | some bal => .ok bal
    | none => .error (text "balance not numeric: " ++ l)
  | some _ => .error (text "balance missing or invalid type: " ++ l)
  | none => .error (text "no balance field: " ++ l)

def orderReply (l : Bytes) (resp : Json) : Except Bytes Json :=
  match (resp.field? "order").filter Json.isObject with
  | some order => .ok order
  | none =>
    match (resp.field? "resp").filter Json.isObject with
    | some order => .ok order
    | none => .error (text "no order object in response: " ++ l)

def sigmaReply (l : Bytes) (resp : Json) : Except Bytes ℚ :=
  match resp.field? "sigma_annual" with
  | some (.int i) => .ok i
  | some (.float x) => .ok x
  | _ => .error (text "no sigma_annual in response: " ++ l)

def submit (st : Setting) (ch : Channel) : Answer Submitted := answer st ch submitReply

def queryConditionalBalance (st : Setting) (ch : Channel) : Answer (Option ℚ) :=
  answer st ch balanceReply

def queryOrder (st : Setting) (ch : Channel) : Answer Json := answer st ch orderReply

def queryGarchSigma (st : Setting) (ch : Channel) : Answer ℚ := answer st ch sigmaReply

/-! ### What is handled -/

/-- A method returns; `true` only for an object whose `ok` is the boolean true,
and otherwise with a message. -/
def Handled (st : Setting) (ch : Channel) : Answer A → Prop
  | .threw => False
  | .returned (.ok _) => ∃ l fields, ch = .line l ∧ st.parse l = some (.obj fields) ∧
      fields.lookup "ok" = some (.bool true)
  | .returned (.error msg) => msg ≠ []

/-- The fields that every method reads are of the type it reads. -/
def WellTyped (resp : Json) : Prop :=
  ∃ fields, resp = .obj fields ∧ (fields.lookup "ok" = some (.bool true) ∨
    (∀ v, fields.lookup "ok" = some v → v = .bool false) ∧
      ∀ v, fields.lookup "error" = some v → ∃ s, v = .str s)

/-- What is logged is UTF-8 and a line that is JSON is well typed. -/
def Readable (st : Setting) : Channel → Prop
  | .startFailed err =>
    st.logging = true → validUtf8 (text "start daemon failed: " ++ err) = true
  | .ioFailed line err => st.logging = true → validUtf8 err = true ∧ validUtf8 line = true
  | .line l => (st.logging = true → validUtf8 l = true) ∧
      ∀ resp, st.parse l = some resp → WellTyped resp

theorem text_append_ne {s : String} (hs : text s ≠ []) (b : Bytes) : text s ++ b ≠ [] :=
  fun h => hs (List.append_eq_nil_iff.mp h).1

/-- Neither `value` throws on the fields of a well-typed reply. -/
theorem wellTyped_iff {resp : Json} :
    WellTyped resp ↔
      okValue resp = some true ∨ (okValue resp = some false ∧ (errorValue resp).isSome = true) := by
  cases resp with
  | obj fields =>
    have hobj : WellTyped (.obj fields) ↔ (fields.lookup "ok" = some (.bool true) ∨
        (∀ v, fields.lookup "ok" = some v → v = .bool false) ∧
          ∀ v, fields.lookup "error" = some v → ∃ s, v = .str s) := by
      simp [WellTyped]
    rw [hobj]
    have herror : (errorValue (.obj fields)).isSome = true ↔
        ∀ v, fields.lookup "error" = some v → ∃ s, v = .str s := by
      simp only [errorValue]
      cases fields.lookup "error" with
      | none => simp
      | some v => cases v <;> simp
    rw [herror]
    simp only [okValue]
    cases fields.lookup "ok" with
    | none => simp
    | some v =>
      cases v with
      | bool b => cases b <;> simp
      | _ => simp
  | _ => simp [WellTyped, okValue]

theorem okValue_eq_true {resp : Json} (h : okValue resp = some true) :
    ∃ fields, resp = .obj fields ∧ fields.lookup "ok" = some (.bool true) := by
  cases resp with
  | obj fields =>
    refine ⟨fields, rfl, ?_⟩
    simp only [okValue] at h
    split at h
    · cases h
    · rename_i b hb
      rw [hb, Option.some.inj h]
    · cases h
  | _ => simp [okValue] at h

section Methods

variable {st : Setting} {k : Bytes → Json → Except Bytes A}

/-- The treatment that the four methods share, up to what they do with a reply
that is `ok`. -/
theorem handled_answerLine_iff (hk : ∀ l resp msg, k l resp = .error msg → msg ≠ []) (l : Bytes) :
    Handled st (.line l) (answerLine st l k) ↔
      ∀ resp, st.parse l = some resp → WellTyped resp := by
  unfold answerLine
  cases hparse : st.parse l with
  | none =>
    have hmsg : text "daemon returned non-JSON: " ++ l ≠ [] := text_append_ne (by decide) l
    simp [Handled, hmsg]
  | some resp =>
    simp only [Option.some.injEq, forall_eq', wellTyped_iff]
    cases hok : okValue resp with
    | none => simp [Handled]
    | some b =>
      cases b with
      | true =>
        cases hr : k l resp with
        | error msg => simpa [Handled] using hk l resp msg hr
        | ok a =>
          obtain ⟨fields, rfl, hfields⟩ := okValue_eq_true hok
          simpa [Handled, hparse] using hfields
      | false =>
        cases herr : errorValue resp with
        | none => simp [Handled]
        | some e =>
          have hraw : text " raw=" ++ l ≠ [] := text_append_ne (by decide) l
          have hmsg : e ++ text " raw=" ++ l ≠ [] := by
            rw [List.append_assoc]
            exact fun h => hraw (List.append_eq_nil_iff.mp h).2
          exact ⟨fun _ => .inr ⟨rfl, rfl⟩, fun _ => hmsg⟩

theorem emit_iff (transportErr line : Bytes) :
    emitPolyDaemonTraffic st transportErr line = true ↔
      (st.logging = true → validUtf8 transportErr = true ∧ validUtf8 line = true) := by
  unfold emitPolyDaemonTraffic
  cases st.logging <;> simp

theorem validUtf8_nil : validUtf8 [] = true := by decide +kernel

theorem handled_answer_iff (hk : ∀ l resp msg, k l resp = .error msg → msg ≠ []) (ch : Channel) :
    Handled st ch (answer st ch k) ↔ Readable st ch := by
  cases ch with
  | startFailed err =>
    have hmsg : text "start daemon failed: " ++ err ≠ [] := text_append_ne (by decide) err
    simp only [answer, Readable]
    split
    · rename_i hlog
      rw [emit_iff] at hlog
      exact ⟨fun _ hl => (hlog hl).1, fun _ => hmsg⟩
    · rename_i hlog
      rw [emit_iff] at hlog
      exact ⟨False.elim, fun h => hlog fun hl => ⟨h hl, validUtf8_nil⟩⟩
  | ioFailed line err =>
    have hmsg : text "daemon request failed: " ++ err ≠ [] := text_append_ne (by decide) err
    simp only [answer, Readable]
    split
    · rename_i hlog
      rw [emit_iff] at hlog
      exact ⟨fun _ => hlog, fun _ => hmsg⟩
    · rename_i hlog
      rw [emit_iff] at hlog
      exact ⟨False.elim, fun h => hlog h⟩
  | line l =>
    simp only [answer, Readable]
    split
    · rename_i hlog
      rw [emit_iff] at hlog
      rw [handled_answerLine_iff hk]
      exact ⟨fun h => ⟨fun hl => (hlog hl).2, h⟩, fun h => h.2⟩
    · rename_i hlog
      rw [emit_iff] at hlog
      exact ⟨False.elim, fun h => hlog fun hl => ⟨validUtf8_nil, h.1 hl⟩⟩

end Methods

/-! ### Messages of the four methods -/

theorem submitReply_error (l : Bytes) (resp : Json) (msg : Bytes)
    (h : submitReply l resp = .error msg) : msg ≠ [] := by
  cases h

theorem balanceReply_error (l : Bytes) (resp : Json) (msg : Bytes)
    (h : balanceReply l resp = .error msg) : msg ≠ [] := by
  unfold balanceReply at h
  split at h
  · cases h
  · cases h
  · split at h
    · cases h
    · cases h
      exact text_append_ne (by decide) l
  · cases h
    exact text_append_ne (by decide) l
  · cases h
    exact text_append_ne (by decide) l

theorem orderReply_error (l : Bytes) (resp : Json) (msg : Bytes)
    (h : orderReply l resp = .error msg) : msg ≠ [] := by
  unfold orderReply at h
  split at h
  · cases h
  · split at h
    · cases h
    · cases h
      exact text_append_ne (by decide) l

theorem sigmaReply_error (l : Bytes) (resp : Json) (msg : Bytes)
    (h : sigmaReply l resp = .error msg) : msg ≠ [] := by
  unfold sigmaReply at h
  split at h
  · cases h
  · cases h
  · cases h
    exact text_append_ne (by decide) l

/-- Each of the four methods handles what the channel delivers exactly when it
is readable: no exception leaves it, it succeeds only on an object whose `ok` is
true, and it fails with a message. -/
theorem replies_handled_iff (st : Setting) (ch : Channel) :
    (Handled st ch (submit st ch) ↔ Readable st ch) ∧
      (Handled st ch (queryConditionalBalance st ch) ↔ Readable st ch) ∧
      (Handled st ch (queryOrder st ch) ↔ Readable st ch) ∧
      (Handled st ch (queryGarchSigma st ch) ↔ Readable st ch) :=
  ⟨handled_answer_iff submitReply_error ch, handled_answer_iff balanceReply_error ch,
    handled_answer_iff orderReply_error ch, handled_answer_iff sigmaReply_error ch⟩

/-- An empty array is JSON and no object. -/
theorem replies_throw :
    ¬ ∀ (st : Setting) (ch : Channel),
      Handled st ch (submit st ch) ∧ Handled st ch (queryConditionalBalance st ch) ∧
        Handled st ch (queryOrder st ch) ∧ Handled st ch (queryGarchSigma st ch) := by
  intro h
  have hsubmit := (h ⟨fun l => if l = text "[]" then some (.arr []) else none, false⟩
    (.line (text "[]"))).1
  simp [submit, answer, answerLine, emitPolyDaemonTraffic, okValue, Handled] at hsubmit

end LeadLag.Execution.LiveExecutor
