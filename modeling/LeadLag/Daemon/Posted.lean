import LeadLag.Daemon.Lockstep
import LeadLag.Daemon.Orders
import LeadLag.Execution.Replies

/-!
# Orders over a run (live_executor.cpp:62-147, poly_daemon_client.cpp:133-150,
poly_daemon.py:131-239)

The runner's requests go through the two pipes to the daemon, and from there to the
exchange. `posted` is what the exchange was handed, under the number of the
request that was served.
-/

namespace LeadLag.Daemon
open LeadLag.Interaction
open LeadLag.Core (Json)
open LeadLag.Execution (OrderIntent)
open LeadLag.Execution.LiveExecutor (Bytes Setting Submitted)

/-! ### The runner, the daemon and the exchange -/

inductive Act where
  | ask (q : Request)
  | move (mv : Move)

structure Desk where
  sys : System := {}
  asked : List Request := []
  posted : List (ℕ × Post) := []

def postsOf : Move → List Post
  | .serve tr => posts tr
  | _ => []

def Desk.moved (d : Desk) (mv : Move) (t : System) : Desk :=
  { d with sys := t, posted := d.posted ++ (postsOf mv).map fun p => (d.sys.index, p) }

inductive DeskStep (py : Python) (d : Desk) : Act → Desk → Prop where
  | ask (q : Request) (t : System) : Step py.floatRepr d.sys (.request (py.dump q)) t →
      DeskStep py d (.ask q) { d with sys := t, asked := d.asked ++ [q] }
  | move (mv : Move) (t : System) : (∀ text, mv ≠ .request text) →
      (∀ tr, mv = .serve tr → ∀ o ∈ tr, py.promises o) → Step py.floatRepr d.sys mv t →
      DeskStep py d (.move mv) (d.moved mv t)

def Act.toMove (py : Python) : Act → Move
  | .ask q => .request (py.dump q)
  | .move mv => mv

/-- The runs in which every step is in turn. -/
def desk (py : Python) : Lts Desk Act :=
  Lts.restrict ⟨fun d => d = {}, DeskStep py⟩ fun d a => InTurn d.sys (a.toMove py)

/-! ### What was asked for and what was done -/

def Request.order (py : Python) : Request → Option Order
  | .submit env o => some (orderOf py.typeNamed env o)
  | _ => none

/-- The orders asked for, under the numbers of their requests. -/
def ordered (py : Python) (asked : List Request) : List (ℕ × Order) :=
  (asked.zipIdx 1).filterMap fun q => (q.1.order py).map fun order => (q.2, order)

section Steps

variable {py : Python} {d : Desk} {t : System}

end Steps

/-! ### What the runner reads -/

/-- What a parser makes of the text of a value. Beyond 64 bits an integer becomes a
float, and of keys that repeat nothing is said. -/
inductive Carries : Value → Json → Prop where
  | null : Carries .none .null
  | bool (b : Bool) : Carries (.bool b) (.bool b)
  | int (i : ℤ) : Carries (.int i) (.int i)
  | wide (i : ℤ) (x : ℚ) : Carries (.int i) (.float x)
  | float (x : Option ℚ) (y : ℚ) : Carries (.float x) (.float y)
  | str (s : String) : Carries (.str s) (.str s)
  | list (xs : List Value) (ys : List Json) : List.Forall₂ Carries xs ys →
      Carries (.list xs) (.arr ys)
  | dict (fields : List (String × Value)) (gs : List (String × Json)) (child : String → Json) :
      (∀ key v, fields.lookup key = some v → gs.lookup key = some (child key)) →
      (∀ key, fields.lookup key = none → gs.lookup key = none) →
      ((fields.map Prod.fst).Nodup → ∀ key v, fields.lookup key = some v → Carries v (child key)) →
      Carries (.dict fields) (.obj gs)

def bytes (line : List Char) : Bytes := Execution.LiveExecutor.text (String.ofList line)

/-- `submit` returns true on this line just when the exchange took the order, and with
the id that the exchange gave; `v` is what the daemon wrote the line for. -/
def Settled (py : Python) (order : Order) (ps : List Post) (line : List Char) : Prop :=
  ∃ v, dumps py.floatRepr v = some line ∧
    ∀ (st : Setting) (j : Json), st.parse (bytes line) = some j → Carries v j →
      (∀ sub, Execution.LiveExecutor.submit st (.line (bytes line)) = .returned (.ok sub) →
        ∃ resp, ps = [(order, .ok resp)] ∧ ∀ fs id, resp = .dict fs → (fs.map Prod.fst).Nodup →
          fs.lookup "orderID" = some (.str id) → id ≠ "" → sub.orderId = id) ∧
      ∀ resp, ps = [(order, .ok resp)] → dumps py.floatRepr resp ≠ none →
        ∃ sub, Execution.LiveExecutor.submit st (.line (bytes line)) = .returned (.ok sub)

section Read

open Execution.LiveExecutor

theorem Carries.field {fields : List (String × Value)} {j : Json} {key : String} {v : Value}
    (h : Carries (.dict fields) j) (hkeys : (fields.map Prod.fst).Nodup)
    (hv : fields.lookup key = some v) : ∃ w, j.field? key = some w ∧ Carries v w := by
  cases h with
  | dict _ gs child hsome _ hchild => exact ⟨child key, hsome key v hv, hchild hkeys key v hv⟩

theorem Carries.okValue {fields : List (String × Value)} {j : Json} {b : Bool}
    (h : Carries (.dict fields) j) (hkeys : (fields.map Prod.fst).Nodup)
    (hok : fields.lookup "ok" = some (.bool b)) : okValue j = some b := by
  obtain ⟨w, hw, hcarries⟩ := h.field hkeys hok
  cases hcarries
  cases h with
  | dict _ gs child _ _ _ =>
    have hlookup : gs.lookup "ok" = some (.bool b) := hw
    rw [Execution.LiveExecutor.okValue, hlookup]

theorem Carries.stringField {fields : List (String × Value)} {j : Json} {key s : String}
    (h : Carries (.dict fields) j) (hkeys : (fields.map Prod.fst).Nodup)
    (hs : fields.lookup key = some (.str s)) : stringField key j = some s := by
  obtain ⟨w, hw, hcarries⟩ := h.field hkeys hs
  cases hcarries
  rw [Execution.LiveExecutor.stringField, hw]
  rfl

end Read

section Sample

def fiveDollars : OrderIntent :=
  { side := .buy, qty := 5, marketTokenId := "42", marketOrder := true }

def buy : Request := .submit "" fiveDollars

def buyText : List Char :=
  Core.literal "\x7b\"amount\":5.0,\"cmd\":\"place_market_order\"," String.toList_ofList ++
    Core.literal "\"order_type\":\"FAK\",\"side\":\"BUY\",\"token_id\":\"42\"\x7d"
      String.toList_ofList

def taken : Value := .dict [("orderID", .str "7")]

def takenText : List Char :=
  Core.literal "\x7b\"ok\": true, \"cmd\": \"place_market_order\", " String.toList_ofList ++
    Core.literal "\"resp\": \x7b\"orderID\": \"7\"\x7d, \"order_id\": \"7\", \"ts_ms\": 0\x7d"
      String.toList_ofList

def buyOrder : Order :=
  .market (.str "42") (some 5) (.str "BUY") (some 0) (.str "FAK")

/-- After the request has been served, with `acc` read of the reply. -/
def served (acc rest : List Char) : Desk where
  sys := { client := .reading acc, index := 1, current := buyText, fromDaemon := rest
           log := [{ input := buyText.map fun c => (1, c), output := takenText ++ ['\n'] }] }
  asked := [buy]
  posted := [(1, buyOrder, .ok taken)]

theorem DeskStep.read {py : Python} {d : Desk} {t : System}
    (h : Step py.floatRepr d.sys .read t) : DeskStep py d (.move .read) (d.moved .read t) := by
  refine .move _ _ ?_ ?_ h
  · intro text heq
    cases heq
  · intro tr heq
    cases heq

theorem DeskStep.write {py : Python} {d : Desk} {t : System} {n : ℕ}
    (h : Step py.floatRepr d.sys (.write n) t) :
    DeskStep py d (.move (.write n)) (d.moved (.write n) t) := by
  refine .move _ _ ?_ ?_ h
  · intro text heq
    cases heq
  · intro tr heq
    cases heq

end Sample

end LeadLag.Daemon
