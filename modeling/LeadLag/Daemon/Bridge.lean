import LeadLag.Daemon.OneReply
import LeadLag.Interaction.Runs

/-!
# The client, the daemon and the two pipes (poly_daemon_client.cpp:14-51, 133-150,
poly_daemon.py:131-328)

The daemon is alive and has sent its ready line. All requests are made by one
thread. A step is one `write` or `read` of the client, or one turn of the
daemon's loop. Each character on the way to the daemon is tagged with the number
of its request.
-/

namespace LeadLag.Daemon
open LeadLag.Interaction

/-- `request_response_jsonl` returned, with the response line or false. -/
structure Result where
  index : ℕ
  request : List Char
  response : Option (List Char)
  deriving DecidableEq, Repr

structure Served where
  input : List (ℕ × Char)
  output : List Char
  deriving DecidableEq, Repr

inductive Client where
  | idle
  | writing (rest : List Char)
  | reading (acc : List Char)
  deriving DecidableEq, Repr

/-- `index` and `current` are the number and the text of the last request. -/
structure System where
  client : Client := .idle
  index : ℕ := 0
  current : List Char := []
  toDaemon : List (ℕ × Char) := []
  fromDaemon : List Char := []
  results : List Result := []
  log : List Served := []
  deriving DecidableEq, Repr

inductive Move where
  | request (text : List Char)
  | write (n : ℕ)
  | writeFails
  | read
  | readFails
  | serve (tr : Trace)

def maxReply : ℕ := 2 * 1024 * 1024

/-- The first complete line and what follows it. -/
def splitLine : List (ℕ × Char) → Option (List (ℕ × Char) × List (ℕ × Char))
  | [] => none
  | x :: xs =>
    if endsLine x.2 then some ([], xs)
    else (splitLine xs).map fun (line, rest) => (x :: line, rest)

namespace System

def respond (s : System) (response : Option (List Char)) : System :=
  { s with
    client := .idle
    results := s.results ++ [{ index := s.index, request := s.current, response := response }] }

def request (s : System) (text : List Char) : Option System :=
  if s.client = .idle then
    some { s with client := .writing (text ++ ['\n']), index := s.index + 1, current := text }
  else none

/-- `write` accepts `n` characters; an interrupted call is made again. -/
def write (s : System) (n : ℕ) : Option System :=
  match s.client with
  | .writing rest =>
    if 0 < n ∧ n ≤ rest.length then
      some { s with
        toDaemon := s.toDaemon ++ (rest.take n).map fun c => (s.index, c)
        client := if n = rest.length then .reading [] else .writing (rest.drop n) }
    else none
  | _ => none

/-- One turn of the loop in `read_line`. -/
def read (s : System) : Option System :=
  match s.client, s.fromDaemon with
  | .reading acc, c :: rest =>
    let s := { s with fromDaemon := rest }
    if c = '\n' then some (s.respond (some acc))
    else if maxReply < (acc ++ [c]).length then some (s.respond none)
    else some { s with client := .reading (acc ++ [c]) }
  | _, _ => none

def writeFails (s : System) : Option System :=
  match s.client with
  | .writing _ => some (s.respond none)
  | _ => none

def readFails (s : System) : Option System :=
  match s.client with
  | .reading _ => some (s.respond none)
  | _ => none

def served (s : System) (line rest : List (ℕ × Char)) (output : List Char) : System :=
  { s with
    toDaemon := rest, fromDaemon := s.fromDaemon ++ output
    log := s.log ++ [{ input := line, output := output }] }

end System

section Bridge

variable (floatRepr : Option ℚ → Line)

inductive Step (s : System) : Move → System → Prop where
  | request (text : List Char) (t : System) : s.request text = some t →
      Step s (.request text) t
  | write (n : ℕ) (t : System) : s.write n = some t → Step s (.write n) t
  | writeFails (t : System) : s.writeFails = some t → Step s .writeFails t
  | read (t : System) : s.read = some t → Step s .read t
  | readFails (t : System) : s.readFails = some t → Step s .readFails t
  | serve (line rest : List (ℕ × Char)) (tr : Trace) (r : Except Raised Unit) :
      splitLine s.toDaemon = some (line, rest) →
      Exec (serve floatRepr (line.map Prod.snd)).run tr r →
      Step s (.serve tr) (s.served line rest (writes tr).flatten)

def bridge : Lts System Move where
  init s := s = {}
  step := Step floatRepr

end Bridge

/-! ### Lines -/

theorem map_snd_request (i : ℕ) (text : List Char) :
    (text.map fun c => (i, c)).map Prod.snd = text := by
  rw [List.map_map]
  exact List.map_id text

theorem splitLine_request {text : List Char} (i : ℕ) (h : ∀ c ∈ text, endsLine c = false) :
    splitLine ((text ++ ['\n']).map fun c => (i, c)) = some (text.map fun c => (i, c), []) := by
  induction text with
  | nil => rfl
  | cons c text ih =>
    have hc := h c List.mem_cons_self
    have htail := ih fun d hd => h d (List.mem_cons_of_mem c hd)
    simp only [List.cons_append, List.map_cons, splitLine, hc, Bool.false_eq_true, ite_false,
      htail, Option.map_some]

/-- Before its newline has arrived a request is no line. -/
theorem splitLine_eq_none {text : List (ℕ × Char)} (h : ∀ x ∈ text, endsLine x.2 = false) :
    splitLine text = none := by
  induction text with
  | nil => rfl
  | cons x text ih =>
    have hx := h x List.mem_cons_self
    have htail := ih fun y hy => h y (List.mem_cons_of_mem x hy)
    simp only [splitLine, hx, Bool.false_eq_true, ite_false, htail, Option.map_none]

end LeadLag.Daemon
