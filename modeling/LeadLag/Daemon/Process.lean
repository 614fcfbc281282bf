import LeadLag.Daemon.Bridge
import Mathlib.Data.Finset.Basic
import Mathlib.Data.Finset.Card

/-!
# The daemon's process and its pipes (poly_daemon_client.cpp:14-173)

`start`, `request_response_jsonl` and `stop` over the calls of the operating system,
and what they hold of it over any sequence of them: the two ends of the pipes while the
daemon runs and nothing else. A `read` or `write` that a signal interrupted is made
again, and `waitpid` is called once whatever it replies; what the child does between
`fork` and `execl` is another process.
-/

namespace LeadLag.Daemon.PolyDaemonClient
open LeadLag.Interaction

/-! ### Calls -/

inductive Call where
  | pipe
  | fork (daemonCmd : String)
  | write (fd : ℤ) (buf : List Char)
  | read (fd : ℤ)
  | close (fd : ℤ)
  | kill (pid : ℤ)
  | waitpid (pid : ℤ)

/-- An error is its `strerror`. A pipe is its end to read and its end to write, `write`
accepts one character more than its reply says, and `read` replies with a character or
the end of the file. -/
abbrev Reply : Call → Type
  | .pipe => Except String (ℤ × ℤ)
  | .fork _ => Except String ℤ
  | .write _ buf => Except String (Fin buf.length)
  | .read _ => Except String (Option Char)
  | .close _ => Unit
  | .kill _ => Unit
  | .waitpid _ => Unit

abbrev Prog (A : Type) : Type := Interaction.Prog Reply A

def writeAll (fd : ℤ) (buf : List Char) : Prog (Except String Unit) :=
  if buf = [] then pure (.ok ())
  else do
    match ← Prog.perform (Call.write fd buf) with
    | .error e => pure (.error ("write failed: " ++ e))
    | .ok n => writeAll fd (buf.drop (n + 1))
termination_by buf.length
decreasing_by
  have hn := n.isLt
  rw [List.length_drop]
  omega

/-- `room` more characters fit into `out`. -/
def readLineFrom (fd : ℤ) (out : List Char) : ℕ → Prog (Except String (List Char))
  | 0 => pure (.error "daemon response too large (>2MB)")
  | room + 1 => do
    match ← Prog.perform (Call.read fd) with
    | .error e => pure (.error ("read failed: " ++ e))
    | .ok none => pure (.error "read EOF from daemon")
    | .ok (some c) => if c = '\n' then pure (.ok out) else readLineFrom fd (out ++ [c]) room

def readLine (fd : ℤ) : Prog (Except String (List Char)) := readLineFrom fd [] (maxReply + 1)

/-! ### The client -/

structure Client where
  running : Bool := false
  childPid : ℤ := -1
  toChildFd : ℤ := -1
  fromChildFd : ℤ := -1
  deriving DecidableEq, Repr

/-- `close_fd`: what is left in the variable. -/
def closeFd (fd : ℤ) : Prog ℤ := do
  if 0 ≤ fd then
    Prog.perform (Call.close fd)
    pure (-1)
  else pure fd

/-- `close_fd` of both ends. -/
def closeEnds (c : Client) : Prog Client := do
  let toChildFd ← closeFd c.toChildFd
  let fromChildFd ← closeFd c.fromChildFd
  pure { c with toChildFd := toChildFd, fromChildFd := fromChildFd }

def stop (c : Client) : Prog Client := do
  if c.running then
    let c ← closeEnds { c with running := false }
    if 0 < c.childPid then
      Prog.perform (Call.kill c.childPid)
      Prog.perform (Call.waitpid c.childPid)
    pure { c with childPid := -1 }
  else
    let c ← closeEnds c
    pure { c with childPid := -1 }

inductive StartError where
  | commandEmpty
  | pipeToChild (e : String)
  | pipeFromChild (e : String)
  | fork (e : String)
  | notReady (e : String)
  | unexpectedLine (line : List Char)
  deriving DecidableEq

def StartError.message : StartError → String
  | .commandEmpty => "POLY_DAEMON_CMD is empty"
  | .pipeToChild e => "pipe(to_child) failed: " ++ e
  | .pipeFromChild e => "pipe(from_child) failed: " ++ e
  | .fork e => "fork failed: " ++ e
  | .notReady e => "daemon did not become ready: " ++ e
  | .unexpectedLine line => "daemon unexpected first line: " ++ String.ofList line

/-- The first line of a daemon that is ready. -/
def isReadyLine (ready : List Char) : Bool :=
  decide ("\"ok\"".toList <:+: ready) && decide ("ready".toList <:+: ready)

/-- In the parent, once the child has been forked. -/
def awaitReady (c : Client) : Prog (Client × Except StartError Unit) := do
  match ← readLine c.fromChildFd with
  | .error e => pure (← stop c, .error (.notReady e))
  | .ok ready =>
    if isReadyLine ready then pure ({ c with running := true }, .ok ())
    else pure (← stop c, .error (.unexpectedLine ready))

def start (c : Client) (daemonCmd : String) : Prog (Client × Except StartError Unit) := do
  if c.running then return (c, .ok ())
  if daemonCmd = "" then return (c, .error .commandEmpty)
  match ← Prog.perform Call.pipe with
  | .error e => return (c, .error (.pipeToChild e))
  | .ok toChild =>
    match ← Prog.perform Call.pipe with
    | .error e =>
      Prog.perform (Call.close toChild.1)
      Prog.perform (Call.close toChild.2)
      return (c, .error (.pipeFromChild e))
    | .ok fromChild =>
      match ← Prog.perform (Call.fork daemonCmd) with
      | .error e =>
        Prog.perform (Call.close toChild.1)
        Prog.perform (Call.close toChild.2)
        Prog.perform (Call.close fromChild.1)
        Prog.perform (Call.close fromChild.2)
        return (c, .error (.fork e))
      | .ok pid =>
        Prog.perform (Call.close toChild.1)
        Prog.perform (Call.close fromChild.2)
        awaitReady { c with childPid := pid, toChildFd := toChild.2, fromChildFd := fromChild.1 }

def requestResponseJsonl (c : Client) (requestJsonLine : List Char) :
    Prog (Except String (List Char)) := do
  if c.running then
    match ← writeAll c.toChildFd (requestJsonLine ++ ['\n']) with
    | .error e => pure (.error e)
    | .ok _ => readLine c.fromChildFd
  else pure (.error "daemon not running")

/-! ### The operating system -/

/-- The open ends of these pipes in the parent, and the children not waited for. -/
structure Os where
  opened : Finset ℤ := ∅
  children : List ℤ := []

def osEnv (os : Os) : Obs Reply → Os → Prop
  | ⟨.pipe, .ok (r, w)⟩, os' => 0 ≤ r ∧ 0 ≤ w ∧ r ≠ w ∧ r ∉ os.opened ∧ w ∉ os.opened ∧
      os' = { os with opened := insert r (insert w os.opened) }
  | ⟨.fork _, .ok pid⟩, os' => 0 < pid ∧ os' = { os with children := pid :: os.children }
  | ⟨.close fd, _⟩, os' => os' = { os with opened := os.opened.erase fd }
  | ⟨.waitpid pid, _⟩, os' => os' = { os with children := os.children.erase pid }
  | _, os' => os' = os

/-- Only an open end is read, written or closed, and only a child that has not been
waited for is killed or waited for: its number is not another process's yet. -/
def Allowed (os : Os) : Call → Prop
  | .write fd _ | .read fd | .close fd => fd ∈ os.opened
  | .kill pid | .waitpid pid => pid ∈ os.children
  | .pipe | .fork _ => True

abbrev Allows {A : Type} (Q : Os → A → Prop) (p : Prog A) (os : Os) : Prop :=
  SafeFrom osEnv Allowed Q p os

/-! ### What the client holds -/

/-- The client's two ends are what is open, and its child has not been waited for. -/
structure Holds (c : Client) (os : Os) : Prop where
  toChild : 0 ≤ c.toChildFd
  fromChild : 0 ≤ c.fromChildFd
  ne : c.toChildFd ≠ c.fromChildFd
  opened : os.opened = {c.toChildFd, c.fromChildFd}
  positive : 0 < c.childPid
  child : c.childPid ∈ os.children

structure Released (c : Client) (os : Os) : Prop where
  running : c.running = false
  toChild : c.toChildFd = -1
  fromChild : c.fromChildFd = -1
  opened : os.opened = ∅

def Owns (c : Client) (os : Os) : Prop := (c.running = true ∧ Holds c os) ∨ Released c os

section Calls

variable {c : Client} {os : Os}

theorem Holds.to_mem (h : Holds c os) : c.toChildFd ∈ os.opened := by
  rw [h.opened]
  exact Finset.mem_insert_self _ _

theorem Holds.from_mem (h : Holds c os) : c.fromChildFd ∈ os.opened := by
  rw [h.opened]
  exact Finset.mem_insert_of_mem (Finset.mem_singleton_self _)

/-- Writing and reading open and close nothing. -/
theorem writeAll_allowed {fd : ℤ} (hfd : fd ∈ os.opened) (buf : List Char) :
    Allows (fun os' _ => os' = os) (writeAll fd buf) os := by
  induction hn : buf.length using Nat.strong_induction_on generalizing buf with
  | h n ih =>
    rw [writeAll]
    split
    · exact safeFrom_pure.mpr rfl
    · refine safeFrom_bind.mpr (safeFrom_perform.mpr ⟨hfd, ?_⟩)
      intro r os' hos
      cases r with
      | error e =>
        obtain rfl : os' = os := hos
        exact safeFrom_pure.mpr rfl
      | ok k =>
        obtain rfl : os' = os := hos
        have hk := k.isLt
        refine ih (buf.drop (k + 1)).length ?_ _ rfl
        rw [List.length_drop]
        omega

theorem readLineFrom_allowed {fd : ℤ} (hfd : fd ∈ os.opened) (out : List Char) (room : ℕ) :
    Allows (fun os' _ => os' = os) (readLineFrom fd out room) os := by
  induction room generalizing out with
  | zero => exact safeFrom_pure.mpr rfl
  | succ room ih =>
    refine safeFrom_bind.mpr (safeFrom_perform.mpr ⟨hfd, ?_⟩)
    intro r os' hos
    cases r with
    | error e =>
      obtain rfl : os' = os := hos
      exact safeFrom_pure.mpr rfl
    | ok got =>
      obtain rfl : os' = os := hos
      cases got with
      | none => exact safeFrom_pure.mpr rfl
      | some ch =>
        dsimp only
        split
        · exact safeFrom_pure.mpr rfl
        · exact ih _

theorem closeFd_allowed {fd : ℤ} (hpos : 0 ≤ fd) (hfd : fd ∈ os.opened) :
    Allows (fun os' left => os' = { os with opened := os.opened.erase fd } ∧ left = -1)
      (closeFd fd) os := by
  unfold closeFd
  rw [if_pos hpos]
  refine safeFrom_bind.mpr (safeFrom_perform.mpr ⟨hfd, ?_⟩)
  intro r os' hos
  exact safeFrom_pure.mpr ⟨hos, rfl⟩

theorem closeEnds_allowed (h : Holds c os) :
    Allows (fun os' c' => os' = { os with opened := ∅ } ∧
      c' = { c with toChildFd := -1, fromChildFd := -1 }) (closeEnds c) os := by
  have hfrom : c.fromChildFd ∈ os.opened.erase c.toChildFd :=
    Finset.mem_erase.mpr ⟨h.ne.symm, h.from_mem⟩
  have hempty : (os.opened.erase c.toChildFd).erase c.fromChildFd = ∅ := by
    rw [h.opened, Finset.erase_insert (by simpa using h.ne), Finset.erase_singleton]
  refine safeFrom_bind.mpr ((closeFd_allowed h.toChild h.to_mem).mono ?_)
  intro os₁ toChildFd h₁
  obtain ⟨rfl, rfl⟩ := h₁
  refine safeFrom_bind.mpr ((closeFd_allowed h.fromChild hfrom).mono ?_)
  intro os₂ fromChildFd h₂
  obtain ⟨rfl, rfl⟩ := h₂
  refine safeFrom_pure.mpr ⟨?_, rfl⟩
  dsimp only
  rw [hempty]

/-- Of a daemon that has not been ready the ends are closed, and it is not waited for. -/
theorem stop_unready (h : Holds c os) (hrun : c.running = false) :
    Allows (fun os' c' => os' = { os with opened := ∅ } ∧ c' = {}) (stop c) os := by
  unfold stop
  rw [hrun]
  refine safeFrom_bind.mpr ((closeEnds_allowed h).mono ?_)
  intro os₁ c₁ h₁
  obtain ⟨rfl, rfl⟩ := h₁
  refine safeFrom_pure.mpr ⟨rfl, ?_⟩
  rw [hrun]

theorem stop_running (h : Holds c os) (hrun : c.running = true) :
    Allows (fun os' c' => os' = { opened := ∅, children := os.children.erase c.childPid } ∧
      c' = {}) (stop c) os := by
  have hstopped : Holds { c with running := false } os :=
    ⟨h.toChild, h.fromChild, h.ne, h.opened, h.positive, h.child⟩
  unfold stop
  rw [if_pos hrun]
  refine safeFrom_bind.mpr ((closeEnds_allowed hstopped).mono ?_)
  intro os₁ c₁ h₁
  obtain ⟨rfl, rfl⟩ := h₁
  rw [if_pos h.positive]
  refine safeFrom_bind.mpr (safeFrom_perform.mpr ⟨h.child, ?_⟩)
  intro r₂ os₂ h₂
  obtain rfl : os₂ = { os with opened := ∅ } := h₂
  refine safeFrom_bind.mpr (safeFrom_perform.mpr ⟨h.child, ?_⟩)
  intro r₃ os₃ h₃
  exact safeFrom_pure.mpr ⟨h₃, rfl⟩

theorem stop_released (h : Released c os) :
    Allows (fun os' c' => os' = os ∧ c' = {}) (stop c) os := by
  unfold stop
  rw [h.running]
  unfold closeEnds closeFd
  rw [h.toChild, h.fromChild]
  refine safeFrom_pure.mpr ⟨rfl, ?_⟩
  rw [h.running]

/-! ### Starting -/

/-- The daemon was started and is left behind: nobody waits for it. -/
def StartError.leaves : StartError → Bool
  | .notReady _ | .unexpectedLine _ => true
  | _ => false

/-- Whether a child is left behind. -/
def leaves : Except StartError Unit → Bool
  | .ok _ => false
  | .error e => e.leaves

/-- How a client that does not run comes out of `start`. -/
def Started (children : List ℤ) (os : Os) (out : Client × Except StartError Unit) : Prop :=
  (out.2 = .ok () ∧ out.1.running = true ∧ Holds out.1 os ∧
      os.children.length = children.length + 1) ∨
    ((∃ e, out.2 = .error e) ∧ Released out.1 os ∧
      os.children.length = children.length + if leaves out.2 then 1 else 0)

theorem released_default {os : Os} (h : os.opened = ∅) : Released {} os := ⟨rfl, rfl, rfl, h⟩

theorem awaitReady_allowed {children : List ℤ} (h : Holds c os) (hrun : c.running = false)
    (hchildren : os.children.length = children.length + 1) :
    Allows (fun os' out => Started children os' out) (awaitReady c) os := by
  refine safeFrom_bind.mpr ((readLineFrom_allowed h.from_mem [] _).mono ?_)
  intro os₁ r h₁
  obtain rfl := h₁
  cases r with
  | error e =>
    refine safeFrom_bind.mpr ((stop_unready h hrun).mono ?_)
    intro os₂ c₂ h₂
    obtain ⟨rfl, rfl⟩ := h₂
    exact safeFrom_pure.mpr (.inr ⟨⟨_, rfl⟩, released_default rfl, hchildren⟩)
  | ok ready =>
    dsimp only
    split
    · exact safeFrom_pure.mpr (.inl ⟨rfl, rfl,
        ⟨h.toChild, h.fromChild, h.ne, h.opened, h.positive, h.child⟩, hchildren⟩)
    · refine safeFrom_bind.mpr ((stop_unready h hrun).mono ?_)
      intro os₂ c₂ h₂
      obtain ⟨rfl, rfl⟩ := h₂
      exact safeFrom_pure.mpr (.inr ⟨⟨_, rfl⟩, released_default rfl, hchildren⟩)

theorem closed_allowed {A : Type} {Q : Os → A → Prop} {fd : ℤ} {p : Prog A} (hfd : fd ∈ os.opened)
    (hp : Allows Q p { os with opened := os.opened.erase fd }) :
    Allows Q (do Prog.perform (Call.close fd); p) os := by
  refine safeFrom_bind.mpr (safeFrom_perform.mpr ⟨hfd, ?_⟩)
  intro r os' hos
  obtain rfl : os' = { os with opened := os.opened.erase fd } := hos
  exact hp

/-- The four ends of two pipes, none of which is another. -/
structure Ends (toChild fromChild : ℤ × ℤ) : Prop where
  toNe : toChild.1 ≠ toChild.2
  fromNe : fromChild.1 ≠ fromChild.2
  readRead : fromChild.1 ≠ toChild.1
  readWrite : fromChild.1 ≠ toChild.2
  writeRead : fromChild.2 ≠ toChild.1
  writeWrite : fromChild.2 ≠ toChild.2

def allEnds (toChild fromChild : ℤ × ℤ) : Finset ℤ :=
  insert fromChild.1 (insert fromChild.2 (insert toChild.1 (insert toChild.2 ∅)))

theorem Ends.kept {toChild fromChild : ℤ × ℤ} (h : Ends toChild fromChild) :
    ((allEnds toChild fromChild).erase toChild.1).erase fromChild.2 =
      {toChild.2, fromChild.1} := by
  obtain ⟨h₁, h₂, h₃, h₄, h₅, h₆⟩ := h
  ext fd
  simp only [allEnds, Finset.mem_erase, Finset.mem_insert, Finset.notMem_empty,
    Finset.mem_singleton, or_false]
  omega

theorem Ends.closed {toChild fromChild : ℤ × ℤ} :
    ((((allEnds toChild fromChild).erase toChild.1).erase toChild.2).erase
      fromChild.1).erase fromChild.2 = ∅ := by
  ext fd
  simp only [allEnds, Finset.mem_erase, Finset.mem_insert, Finset.notMem_empty, or_false,
    iff_false]
  omega

theorem forked_allowed {toChild fromChild : ℤ × ℤ} {pid : ℤ} {children : List ℤ}
    (hrun : c.running = false) (hends : Ends toChild fromChild) (hto : 0 ≤ toChild.2)
    (hfrom : 0 ≤ fromChild.1) (hpid : 0 < pid) :
    Allows (fun os' out => Started children os' out)
      (do
        Prog.perform (Call.close toChild.1)
        Prog.perform (Call.close fromChild.2)
        awaitReady { c with childPid := pid, toChildFd := toChild.2, fromChildFd := fromChild.1 })
      { opened := allEnds toChild fromChild, children := pid :: children } := by
  refine closed_allowed (by simp [allEnds]) (closed_allowed ?_ ?_)
  · refine Finset.mem_erase.mpr ⟨hends.writeRead, ?_⟩
    simp [allEnds]
  · refine awaitReady_allowed ⟨hto, hfrom, hends.readWrite.symm, hends.kept, hpid, ?_⟩ hrun rfl
    exact List.mem_cons_self

theorem start_released (h : Released c os) (daemonCmd : String) :
    Allows (fun os' out => Started os.children os' out) (start c daemonCmd) os := by
  have hrefused (os' : Os) (e : StartError) (he : e.leaves = false) (hopened : os'.opened = ∅)
      (hchildren : os'.children = os.children) : Started os.children os' (c, .error e) := by
    refine .inr ⟨⟨e, rfl⟩, ⟨h.running, h.toChild, h.fromChild, hopened⟩, ?_⟩
    show os'.children.length = os.children.length + if e.leaves then 1 else 0
    rw [he, hchildren]
    rfl
  have hrun : ¬ c.running = true := by
    rw [h.running]
    exact Bool.false_ne_true
  unfold start
  rw [if_neg hrun]
  split
  · exact safeFrom_pure.mpr (hrefused os _ rfl h.opened rfl)
  refine safeFrom_bind.mpr (safeFrom_perform.mpr ⟨trivial, ?_⟩)
  intro r₁ os₁ h₁
  cases r₁ with
  | error e =>
    obtain rfl : os₁ = os := h₁
    exact safeFrom_pure.mpr (hrefused _ _ rfl h.opened rfl)
  | ok toChild =>
    obtain ⟨hread, hwrite, hne, -, -, rfl⟩ := h₁
    refine safeFrom_bind.mpr (safeFrom_perform.mpr ⟨trivial, ?_⟩)
    intro r₂ os₂ h₂
    cases r₂ with
    | error e =>
      obtain rfl := h₂
      refine closed_allowed (by simp) (closed_allowed ?_ (safeFrom_pure.mpr ?_))
      · exact Finset.mem_erase.mpr ⟨hne.symm, by simp⟩
      · refine hrefused _ _ rfl ?_ rfl
        ext fd
        simp only [h.opened, Finset.mem_erase, Finset.mem_insert, Finset.notMem_empty, or_false,
          iff_false]
        omega
    | ok fromChild =>
      obtain ⟨hread₂, hwrite₂, hne₂, hreadNew, hwriteNew, rfl⟩ := h₂
      rw [h.opened] at hreadNew hwriteNew ⊢
      simp only [Finset.mem_insert, Finset.notMem_empty, or_false, not_or] at hreadNew hwriteNew
      have hends : Ends toChild fromChild :=
        ⟨hne, hne₂, hreadNew.1, hreadNew.2, hwriteNew.1, hwriteNew.2⟩
      refine safeFrom_bind.mpr (safeFrom_perform.mpr ⟨trivial, ?_⟩)
      intro r₃ os₃ h₃
      cases r₃ with
      | error e =>
        obtain rfl := h₃
        refine closed_allowed (by simp) (closed_allowed ?_ (closed_allowed ?_ (closed_allowed ?_
          (safeFrom_pure.mpr ?_))))
        · exact Finset.mem_erase.mpr ⟨hne.symm, by simp⟩
        · refine Finset.mem_erase.mpr ⟨hends.readWrite, Finset.mem_erase.mpr ⟨hends.readRead, ?_⟩⟩
          exact Finset.mem_insert_self _ _
        · refine Finset.mem_erase.mpr ⟨hne₂.symm, Finset.mem_erase.mpr ⟨hends.writeWrite, ?_⟩⟩
          refine Finset.mem_erase.mpr ⟨hends.writeRead, ?_⟩
          simp
        · exact hrefused _ _ rfl Ends.closed rfl
      | ok pid =>
        obtain ⟨hpid, rfl⟩ := h₃
        exact forked_allowed h.running hends hwrite hread₂ hpid

end Calls

/-! ### Any sequence of calls -/

inductive Event where
  | started (daemonCmd : String) (r : Except StartError Unit)
  | requested (requestJsonLine : List Char) (r : Except String (List Char))
  | stopped

def Event.leaves : Event → Bool
  | .started _ r => PolyDaemonClient.leaves r
  | _ => false

structure State where
  client : Client := {}
  os : Os := {}

inductive Step (s : State) : Event → State → Prop where
  | start (daemonCmd : String) (tr : List (Obs Reply)) (c : Client) (r : Except StartError Unit)
      (os : Os) : Exec (start s.client daemonCmd) tr (c, r) → Accepts osEnv s.os tr os →
      Step s (.started daemonCmd r) ⟨c, os⟩
  | request (requestJsonLine : List Char) (tr : List (Obs Reply)) (r : Except String (List Char))
      (os : Os) : Exec (requestResponseJsonl s.client requestJsonLine) tr r →
      Accepts osEnv s.os tr os → Step s (.requested requestJsonLine r) ⟨s.client, os⟩
  | stop (tr : List (Obs Reply)) (c : Client) (os : Os) : Exec (stop s.client) tr c →
      Accepts osEnv s.os tr os → Step s .stopped ⟨c, os⟩

def process : Lts State Event where
  init s := s = {}
  step := Step

structure Tidy (s : State) (events : List Event) : Prop where
  owns : Owns s.client s.os
  children : s.os.children.length =
    (if s.client.running then 1 else 0) + events.countP Event.leaves

section Runs

variable {c : Client} {os : Os}

theorem start_allowed (h : Owns c os) (daemonCmd : String) :
    Allows (fun os' out => Owns out.1 os' ∧ os'.children.length +
        (if c.running then 1 else 0) = os.children.length +
          (if out.1.running then 1 else 0) + if leaves out.2 then 1 else 0)
      (start c daemonCmd) os := by
  rcases h with ⟨hrun, hholds⟩ | hreleased
  · have hstart : start c daemonCmd = pure (c, .ok ()) := by
      unfold start
      rw [if_pos hrun]
    rw [hstart]
    exact safeFrom_pure.mpr ⟨.inl ⟨hrun, hholds⟩, rfl⟩
  · refine (start_released hreleased daemonCmd).mono ?_
    intro os' out hout
    rw [hreleased.running]
    rcases hout with ⟨hok, hrun, hholds, hlength⟩ | ⟨-, hrel, hlength⟩
    · refine ⟨.inl ⟨hrun, hholds⟩, ?_⟩
      rw [hok, hrun]
      exact hlength
    · refine ⟨.inr hrel, ?_⟩
      rw [hrel.running]
      exact hlength

theorem request_allowed (h : Owns c os) (requestJsonLine : List Char) :
    Allows (fun os' _ => os' = os) (requestResponseJsonl c requestJsonLine) os := by
  unfold requestResponseJsonl
  split
  · rename_i hrun
    rcases h with ⟨-, hholds⟩ | hreleased
    · refine safeFrom_bind.mpr ((writeAll_allowed hholds.to_mem _).mono ?_)
      intro os₁ r h₁
      obtain rfl := h₁
      cases r with
      | error e => exact safeFrom_pure.mpr rfl
      | ok _ => exact readLineFrom_allowed hholds.from_mem [] _
    · rw [hreleased.running] at hrun
      cases hrun
  · exact safeFrom_pure.mpr rfl

theorem stop_allowed (h : Owns c os) :
    Allows (fun os' c' => Owns c' os' ∧ c'.running = false ∧ os'.children.length +
      (if c.running then 1 else 0) = os.children.length) (stop c) os := by
  rcases h with ⟨hrun, hholds⟩ | hreleased
  · refine (stop_running hholds hrun).mono ?_
    intro os' c' hout
    obtain ⟨rfl, rfl⟩ := hout
    refine ⟨.inr (released_default rfl), rfl, ?_⟩
    have hlength := List.length_erase_of_mem hholds.child
    have hpos := List.length_pos_of_mem hholds.child
    rw [hrun]
    show (os.children.erase c.childPid).length + 1 = os.children.length
    omega
  · refine (stop_released hreleased).mono ?_
    intro os' c' hout
    obtain ⟨rfl, rfl⟩ := hout
    refine ⟨.inr (released_default hreleased.opened), rfl, ?_⟩
    rw [hreleased.running]
    rfl

theorem tidy_step {s t : State} {events : List Event} {e : Event} (inv : Tidy s events)
    (h : Step s e t) : Tidy t (events ++ [e]) := by
  have hchildren := inv.children
  cases h with
  | start daemonCmd tr c r os hx hos =>
    obtain ⟨howns, hlength⟩ := (start_allowed inv.owns daemonCmd).under tr (c, r) os hx hos
    refine ⟨howns, ?_⟩
    rw [List.countP_append, List.countP_singleton, Event.leaves]
    dsimp only at hlength ⊢
    omega
  | request line tr r os hx hos =>
    obtain rfl := (request_allowed inv.owns line).under tr r os hx hos
    refine ⟨inv.owns, ?_⟩
    rw [List.countP_append, List.countP_singleton]
    exact hchildren
  | stop tr c os hx hos =>
    obtain ⟨howns, hrun, hlength⟩ := (stop_allowed inv.owns).under tr c os hx hos
    refine ⟨howns, ?_⟩
    rw [List.countP_append, List.countP_singleton]
    dsimp only [Event.leaves]
    rw [hrun]
    simp only [Bool.false_eq_true, ite_false] at hlength ⊢
    omega

/-- In every run the ends of the pipes that are open are the two of a daemon that runs.
The children not waited for are that daemon and those that never became ready. Whatever is
called next, no end is used or closed once closed, and no process is signalled once
waited for. -/
theorem pipes_owned {s : State} {events : List Event} (h : process.Run {} events s) :
    (s.client.running = true → s.os.opened = {s.client.toChildFd, s.client.fromChildFd} ∧
      s.client.toChildFd ≠ s.client.fromChildFd ∧ s.client.childPid ∈ s.os.children) ∧
    (s.client.running = false → s.os.opened = ∅) ∧
    s.os.children.length =
      (if s.client.running then 1 else 0) + events.countP Event.leaves ∧
    (∀ daemonCmd, Allows (fun _ _ => True) (start s.client daemonCmd) s.os) ∧
    (∀ line, Allows (fun _ _ => True) (requestResponseJsonl s.client line) s.os) ∧
    Allows (fun _ _ => True) (stop s.client) s.os := by
  have inv : Tidy s events := by
    induction h with
    | nil => exact ⟨.inr (released_default rfl), rfl⟩
    | snoc _ hst ih => exact tidy_step ih hst
  refine ⟨?_, ?_, inv.children, ?_, ?_, ?_⟩
  · intro hrun
    rcases inv.owns with ⟨-, hholds⟩ | hreleased
    · exact ⟨hholds.opened, hholds.ne, hholds.child⟩
    · rw [hreleased.running] at hrun
      cases hrun
  · intro hrun
    rcases inv.owns with ⟨hrunning, -⟩ | hreleased
    · rw [hrunning] at hrun
      cases hrun
    · exact hreleased.opened
  · exact fun daemonCmd => (start_allowed inv.owns daemonCmd).mono fun _ _ _ => trivial
  · exact fun line => (request_allowed inv.owns line).mono fun _ _ _ => trivial
  · exact (stop_allowed inv.owns).mono fun _ _ _ => trivial

end Runs

/-! ### A run -/

section Sample

def osAfter (os : Os) : Obs Reply → Option Os
  | ⟨.pipe, .ok (r, w)⟩ =>
    if 0 ≤ r ∧ 0 ≤ w ∧ r ≠ w ∧ r ∉ os.opened ∧ w ∉ os.opened then
      some { os with opened := insert r (insert w os.opened) }
    else none
  | ⟨.fork _, .ok pid⟩ =>
    if 0 < pid then some { os with children := pid :: os.children } else none
  | ⟨.close fd, _⟩ => some { os with opened := os.opened.erase fd }
  | ⟨.waitpid pid, _⟩ => some { os with children := os.children.erase pid }
  | _ => some os

theorem osEnv_of_osAfter {os os' : Os} {o : Obs Reply} (h : osAfter os o = some os') :
    osEnv os o os' := by
  unfold osAfter at h
  split at h
  · split at h
    · rename_i hnew
      cases h
      exact ⟨hnew.1, hnew.2.1, hnew.2.2.1, hnew.2.2.2.1, hnew.2.2.2.2, rfl⟩
    · cases h
  · split at h
    · rename_i hpid
      cases h
      exact ⟨hpid, rfl⟩
    · cases h
  · cases h
    rfl
  · cases h
    rfl
  · rename_i hpipe hfork hclose hwait
    cases h
    unfold osEnv
    split
    · exact (hpipe _ _ rfl).elim
    · exact (hfork _ _ rfl).elim
    · exact (hclose _ _ rfl).elim
    · exact (hwait _ _ rfl).elim
    · rfl

/-- What a program returns, and what is open and waited for then. -/
def played {A : Type} (p : Prog A) (script : ℕ → (e : Call) → Option (Reply e)) (os : Os) :
    Option (A × Os) :=
  match p.replay script 0 with
  | none => none
  | some (tr, a) => (runEnv osAfter os tr).map fun os' => (a, os')

theorem exists_played {A : Type} [DecidableEq A] {p : Prog A} {os : Os} {a : A}
    (script : ℕ → (e : Call) → Option (Reply e)) {opened : Finset ℤ} {children : List ℤ}
    (h : (played p script os).any (fun out =>
      decide (out.1 = a) && decide (out.2.opened = opened) &&
        decide (out.2.children = children)) = true) :
    ∃ tr, Exec p tr a ∧ Accepts osEnv os tr ⟨opened, children⟩ := by
  obtain ⟨⟨a', os'⟩, hplayed, hout⟩ := (Option.any_eq_true _ _).mp h
  simp only [Bool.and_eq_true, decide_eq_true_eq] at hout
  obtain ⟨⟨rfl, rfl⟩, rfl⟩ := hout
  unfold played at hplayed
  split at hplayed
  · cases hplayed
  · rename_i tr a'' hreplay
    obtain ⟨os'', hos, heq⟩ := Option.map_eq_some_iff.mp hplayed
    cases heq
    exact ⟨tr, exec_replay hreplay, accepts_of_runEnv (fun _ _ _ => osEnv_of_osAfter) hos⟩

/-- The daemon writes `line` and then no more. -/
def daemonWrites (pid : ℤ) (line : List Char) : ℕ → (e : Call) → Option (Reply e)
  | 0, .pipe => some (Except.ok (3, 4))
  | _, .pipe => some (Except.ok (5, 6))
  | _, .fork _ => some (Except.ok pid)
  | n, .read _ => some (Except.ok (line.drop (n - 5)).head?)
  | _, .close _ => some ()
  | _, _ => none

/-- The daemon of the first start exits without a word, that of the second is ready. -/
theorem pipes_owned_sample :
    ∃ s events, process.Run {} events s ∧ s.client.running = true ∧
      s.os.opened = {s.client.toChildFd, s.client.fromChildFd} ∧ s.os.children.length = 2 ∧
      events.countP Event.leaves = 1 ∧ Allows (fun _ _ => True) (stop s.client) s.os := by
  obtain ⟨tr₁, hx₁, hos₁⟩ : ∃ tr, Exec (start {} "sh") tr
      ({}, .error (.notReady "read EOF from daemon")) ∧ Accepts osEnv {} tr ⟨∅, [100]⟩ :=
    exists_played (daemonWrites 100 []) (by decide +kernel)
  obtain ⟨tr₂, hx₂, hos₂⟩ : ∃ tr, Exec (start {} "sh") tr (⟨true, 101, 4, 5⟩, .ok ()) ∧
      Accepts osEnv ⟨∅, [100]⟩ tr ⟨{4, 5}, [101, 100]⟩ :=
    exists_played (daemonWrites 101 "\"ok\" ready\n".toList) (by decide +kernel)
  have hrun : process.Run {} [.started "sh" (.error (.notReady "read EOF from daemon")),
      .started "sh" (.ok ())] ⟨⟨true, 101, 4, 5⟩, ⟨{4, 5}, [101, 100]⟩⟩ := by
    refine Lts.run_cons.mpr ⟨_, .start "sh" tr₁ _ _ _ hx₁ hos₁, ?_⟩
    exact Lts.run_singleton.mpr (.start "sh" tr₂ _ _ _ hx₂ hos₂)
  obtain ⟨hopen, -, hchildren, -, -, hstop⟩ := pipes_owned hrun
  exact ⟨_, _, hrun, rfl, (hopen rfl).1, hchildren, rfl, hstop⟩

end Sample

end LeadLag.Daemon.PolyDaemonClient
