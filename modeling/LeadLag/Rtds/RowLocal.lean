import LeadLag.Rtds.Messages

/-!
# Rows that stop the collection

A row of a `data` array whose `symbol` is no string throws, and the whole
message is lost with it; the payload that is a row itself has this check.
-/

namespace LeadLag.Rtds
open LeadLag.Core LeadLag.Pipeline

section Rows

variable (outOfRange : ℚ → ℤ)

def collectRow (row : Row) : Ticks :=
  if row.inData then dataRow outOfRange row.json else payloadRow outOfRange row.json

theorem jsonToMs_isSome (j : Json) : (jsonToMs outOfRange j).isSome = isNumber j := by
  cases j <;> rfl

theorem tickOf_eq_ofFault {row : Json} {s : String} (inData : Bool)
    (hsym : row.field? "symbol" = some (.str s)) (hmatch : btcUsdSymbolMatch s = true) :
    tickOf outOfRange row = Collected.ofFault Row.fault
      (fun r => (rowTick outOfRange r.json).toList) ⟨inData, row⟩ := by
  unfold tickOf Collected.ofFault Row.fault
  have hrow : rowTick outOfRange row =
      (do
        let ts ← (row.field? "timestamp").bind (jsonToMs outOfRange)
        let px ← (row.field? "value").bind price
        pure ⟨ts, px.1, px.2⟩) := by
    simp [rowTick, symbol?, hsym, Json.string?, hmatch, guard]
  simp only [hsym, hmatch, if_true, hrow]
  cases hts : row.field? "timestamp" with
  | none => rfl
  | some ts =>
    have hnum := jsonToMs_isSome outOfRange ts
    cases hms : jsonToMs outOfRange ts with
    | none =>
      rw [hms] at hnum
      simp [← hnum, hms]
    | some ms =>
      rw [hms] at hnum
      cases hval : row.field? "value" with
      | none => simp [← hnum, hms]
      | some value =>
        cases hpx : price value with
        | none => simp [hms, hpx]
        | some px => simp [hms, hpx]

theorem collectRow_eq_ofFault (row : Row) :
    collectRow outOfRange row = Collected.ofFault Row.fault
      (fun r => (rowTick outOfRange r.json).toList) row := by
  obtain ⟨inData, row⟩ := row
  cases hsym : row.field? "symbol" with
  | none =>
    cases inData <;>
      simp [collectRow, dataRow, payloadRow, Collected.ofFault, Row.fault, rowTick, symbol?, hsym]
  | some sym =>
    cases sym with
    | str s =>
      by_cases hmatch : btcUsdSymbolMatch s = true
      · rw [← tickOf_eq_ofFault outOfRange inData hsym hmatch]
        cases inData <;> simp [collectRow, dataRow, payloadRow, hsym, hmatch]
      · cases inData <;>
          simp [collectRow, dataRow, payloadRow, Collected.ofFault, Row.fault, rowTick, symbol?,
            hsym, hmatch, Json.string?, guard]
    | _ =>
      cases inData <;>
        simp [collectRow, dataRow, payloadRow, Collected.ofFault, Row.fault, rowTick, symbol?,
          hsym, Json.string?]

theorem all_payloadRows (p : Json) :
    Collected.all (collectRow outOfRange) (payloadRows p) =
      collectTicksFromPayload outOfRange p := by
  unfold payloadRows collectTicksFromPayload
  split
  · rw [Collected.all_map]
    rfl
  · exact Collected.andThen_empty _

theorem all_objectRows (o : Json) :
    Collected.all (collectRow outOfRange) (objectRows o) = collectOne outOfRange o := by
  unfold objectRows collectOne
  cases isChainlink o with
  | false => rfl
  | true =>
    cases o.field? "payload" with
    | none => rfl
    | some p => exact all_payloadRows outOfRange p

theorem all_messageRows (j : Json) :
    Collected.all (collectRow outOfRange) (messageRows j) =
      collectTicksFromMessage outOfRange j := by
  cases j with
  | arr xs =>
    show Collected.all _ (xs.flatMap objectRows) = Collected.all _ xs
    rw [Collected.all_flatMap]
    exact Collected.all_congr fun o _ => all_objectRows outOfRange o
  | _ => exact all_objectRows outOfRange _

theorem collectTicksFromMessage_eq (j : Json) :
    collectTicksFromMessage outOfRange j =
      ⟨((messageRows j).takeWhile fun row => row.fault.isNone).flatMap
          fun row => (rowTick outOfRange row.json).toList,
        (messageRows j).findSome? Row.fault⟩ := by
  have hrows : Collected.all (collectRow outOfRange) (messageRows j) =
      Collected.all (Collected.ofFault Row.fault fun row =>
        (rowTick outOfRange row.json).toList) (messageRows j) :=
    Collected.all_congr fun row _ => collectRow_eq_ofFault outOfRange row
  rw [← all_messageRows, hrows, Collected.all_ofFault]

/-- The ticks of the rows of a message, each row taken by itself. -/
def rowTicks (j : Json) : List Tick :=
  (messageRows j).filterMap fun row => rowTick outOfRange row.json

theorem flatMap_toList {α β : Type*} (f : α → Option β) (as : List α) :
    (as.flatMap fun a => (f a).toList) = as.filterMap f := by
  induction as with
  | nil => rfl
  | cons a as ih =>
    rw [List.flatMap_cons, List.filterMap_cons, ih]
    cases f a <;> rfl

/-- The message pushes the ticks of its rows exactly when no row has a fault, or
the first fault is an exception and there is no tick to lose. -/
theorem onMessage_rowTicks_iff (j : Json) :
    onMessage outOfRange (some j) = some (rowTicks outOfRange j) ↔
      (messageRows j).findSome? Row.fault = none ∨
        ((messageRows j).findSome? Row.fault = some .threw ∧ rowTicks outOfRange j = []) := by
  show pushed (collectTicksFromMessage outOfRange j) = _ ↔ _
  rw [collectTicksFromMessage_eq]
  cases hfault : (messageRows j).findSome? Row.fault with
  | none =>
    have hall : ((messageRows j).takeWhile fun row => row.fault.isNone) = messageRows j := by
      rw [List.takeWhile_eq_self_iff]
      intro row hrow
      rw [List.findSome?_eq_none_iff.mp hfault row hrow]
      rfl
    rw [hall, flatMap_toList]
    simp [pushed, rowTicks]
  | some stop =>
    cases stop with
    | threw =>
      show some [] = some (rowTicks outOfRange j) ↔ _
      rw [Option.some.injEq]
      constructor
      · intro h
        exact .inr ⟨rfl, h.symm⟩
      · rintro (h | ⟨-, h⟩)
        · cases h
        · exact h.symm
    | undefined =>
      show none = some (rowTicks outOfRange j) ↔ _
      constructor
      · intro h
        cases h
      · rintro (h | ⟨h, -⟩) <;> cases h

end Rows

/-- A valid row and one whose symbol is a number. -/
def mixedMessage : Json :=
  .obj [("topic", .str "crypto_prices_chainlink"),
    ("payload", .obj [("data", .arr [
      .obj [("symbol", .str "btc/usd"), ("timestamp", .int 1), ("value", .int 1)],
      .obj [("symbol", .int 7)]])])]

/-- The second row is not passed over: the tick of the first is lost with it. -/
theorem onMessage_loses_tick :
    ¬ ∀ (outOfRange : ℚ → ℤ) (j : Json),
      onMessage outOfRange (some j) = some (rowTicks outOfRange j) := by
  intro h
  have hpushed : (onMessage (fun _ => 0) (some mixedMessage)).map List.length = some 0 := by
    decide +kernel
  have hrows : (rowTicks (fun _ => 0) mixedMessage).length = 1 := by decide +kernel
  rw [h, Option.map_some, hrows] at hpushed
  cases hpushed

end LeadLag.Rtds
