import LeadLag.Core.Defaults
import LeadLag.Core.SplitOn
import LeadLag.Daemon.Text

/-!
# Three readers of one .env file (live_trader.cpp:17-59, btc_poly_runner.cpp:92-121,
poly_daemon.py:33-63)

The trader, the runner and the daemon each read `.env`. The trader and the daemon
differ in what they strip and in where a line ends, the runner in more. The daemon's
`read_text` raises on what is not UTF-8 and `os.environ` on a NUL; both are caught, and
what was read by then stays. A C++ loader hands `setenv` the part before a NUL.
-/

namespace LeadLag.Live
open LeadLag.Core

abbrev Env : Type := String → Option String

/-! ### A line -/

def trimBy (p : Char → Bool) (cs : List Char) : List Char := (cs.dropWhile p).rdropWhile p

def blank (c : Char) : Bool := c = ' ' || c = '\t'

def exportPrefix : List Char := "export ".toList

/-- What stands before and after the first `=`. -/
def splitEq? (line : List Char) : Option (List Char × List Char) :=
  if '=' ∈ line then some (line.takeWhile (· ≠ '='), (line.dropWhile (· ≠ '=')).tail) else none

/-- Without the double quotes around it. -/
def unquoted (val : List Char) : List Char :=
  if 2 ≤ val.length ∧ val.head? = some '"' ∧ val.getLast? = some '"' then val.tail.dropLast
  else val

/-- The line of the trader and of the daemon. -/
def assignment? (p : Char → Bool) (raw : List Char) : Option (String × String) :=
  let line := trimBy p raw
  if line = [] ∨ line.head? = some '#' then none
  else
    let line := if exportPrefix <+: line then trimBy p (line.drop 7) else line
    match splitEq? line with
    | none => none
    | some (key, val) =>
      if trimBy p key = [] then none
      else some (String.ofList (trimBy p key), String.ofList (unquoted (trimBy p val)))

/-- The line of the runner. -/
def runnerAssignment? (raw : List Char) : Option (String × String) :=
  let line := raw.dropWhile fun c => blank c || c = '\r' || c = '\n'
  if line = [] ∨ line.head? = some '#' then none
  else
    let line := if exportPrefix <+: line then line.drop 7 else line
    match splitEq? line with
    | none => none
    | some (key, val) =>
      if key.rdropWhile blank = [] then none
      else some (String.ofList (key.rdropWhile blank),
        String.ofList (unquoted (val.rdropWhile fun c => c = '\r' || c = '\n')))

/-! ### A file -/

/-- Where `str.splitlines` ends a line. Of CR LF the LF makes a blank line, which is skipped. -/
def lineBoundary (c : Char) : Bool :=
  let n := c.toNat
  decide (10 ≤ n ∧ n ≤ 13 ∨ 28 ≤ n ∧ n ≤ 30 ∨ n = 133 ∨ n = 8232 ∨ n = 8233)

def isNewline (c : Char) : Bool := c = '\n'

/-- The C string of a text. -/
def cString (s : String) : String := String.ofList (s.toList.takeWhile (· ≠ '\x00'))

/-- What `setenv` is handed; an empty name is an error and changes nothing. -/
def setenv? (d : String × String) : Option (String × String) :=
  if cString d.1 = "" then none else some (cString d.1, cString d.2)

def traderAssignments (text : List Char) : List (String × String) :=
  (text.splitOnP isNewline).filterMap fun raw => (assignment? blank raw).bind setenv?

def runnerAssignments (text : List Char) : List (String × String) :=
  (text.splitOnP isNewline).filterMap fun raw => (runnerAssignment? raw).bind setenv?

def daemonAssignments (text : List Char) : List (String × String) :=
  (text.splitOnP lineBoundary).filterMap (assignment? Daemon.isSpace)

/-- `load_dotenv_if_present` (live_trader.cpp). -/
def loadDotenvIfPresent (env : Env) (text : List Char) : Env := fill env (traderAssignments text)

/-- `load_dotenv` (btc_poly_runner.cpp). -/
def loadDotenv (env : Env) (text : List Char) : Env := fill env (runnerAssignments text)

def hasNul (d : String × String) : Bool := (d.1.toList ++ d.2.toList).contains '\x00'

/-- The assignments up to the first that `os.environ` refuses. -/
def daemonFill (env : Env) : List (String × String) → Env
  | [] => env
  | d :: rest =>
    if (env d.1).isSome then daemonFill env rest
    else if hasNul d then env
    else daemonFill (fillIn env d) rest

/-- `_load_dotenv_if_present` (poly_daemon.py); `none` is a file that does not decode. -/
def daemonLoadDotenvIfPresent (env : Env) : Option (List Char) → Env
  | none => env
  | some text => daemonFill env (daemonAssignments text)

/-! ### Stripping the same characters -/

section Congr

variable {p q : Char → Bool}

theorem dropWhile_congr {cs : List Char} (h : ∀ c ∈ cs, p c = q c) :
    cs.dropWhile p = cs.dropWhile q := by
  induction cs with
  | nil => rfl
  | cons c cs ih =>
    rw [List.forall_mem_cons] at h
    rw [List.dropWhile_cons, List.dropWhile_cons, h.1, ih h.2]

theorem mem_of_mem_dropWhile {cs : List Char} {c : Char} (h : c ∈ cs.dropWhile p) : c ∈ cs :=
  (List.dropWhile_sublist p).subset h

theorem mem_of_mem_trimBy {cs : List Char} {c : Char} (h : c ∈ trimBy p cs) : c ∈ cs :=
  mem_of_mem_dropWhile ((List.rdropWhile_prefix p _).subset h)

theorem trimBy_congr {cs : List Char} (h : ∀ c ∈ cs, p c = q c) : trimBy p cs = trimBy q cs := by
  unfold trimBy
  rw [dropWhile_congr h, List.rdropWhile, List.rdropWhile]
  have hrest : ∀ c ∈ (cs.dropWhile q).reverse, p c = q c := by
    intro c hc
    exact h c (mem_of_mem_dropWhile (List.mem_reverse.mp hc))
  rw [dropWhile_congr hrest]

theorem mem_of_mem_unquoted {val : List Char} {c : Char} (h : c ∈ unquoted val) : c ∈ val := by
  unfold unquoted at h
  split at h
  · exact List.mem_of_mem_tail (List.dropLast_subset _ h)
  · exact h

theorem mem_of_splitEq? {line key val : List Char} (h : splitEq? line = some (key, val)) :
    (∀ c ∈ key, c ∈ line) ∧ ∀ c ∈ val, c ∈ line := by
  unfold splitEq? at h
  split at h
  · cases h
    refine ⟨fun c hc => (List.takeWhile_sublist _).subset hc, fun c hc => ?_⟩
    exact mem_of_mem_dropWhile (List.mem_of_mem_tail hc)
  · cases h

/-- A name that is assigned is not empty, and all that is assigned is in the line. -/
theorem assignment?_spec {raw : List Char} {d : String × String} (h : assignment? p raw = some d) :
    d.1 ≠ "" ∧ ∀ c ∈ d.1.toList ++ d.2.toList, c ∈ raw := by
  unfold assignment? at h
  dsimp only at h
  split at h
  · cases h
  · generalize hb : (if exportPrefix <+: trimBy p raw then trimBy p ((trimBy p raw).drop 7)
      else trimBy p raw) = body at h
    have hbody : ∀ c ∈ body, c ∈ raw := by
      intro c hc
      rw [← hb] at hc
      split at hc
      · exact mem_of_mem_trimBy (List.mem_of_mem_drop (mem_of_mem_trimBy hc))
      · exact mem_of_mem_trimBy hc
    split at h
    · cases h
    · rename_i key val hsplit
      obtain ⟨hkey, hval⟩ := mem_of_splitEq? hsplit
      split at h
      · cases h
      · rename_i hnamed
        cases h
        refine ⟨?_, ?_⟩
        · intro hempty
          exact hnamed (String.ofList_eq_empty_iff.mp hempty)
        · intro c hc
          rw [String.toList_ofList, String.toList_ofList] at hc
          rcases List.mem_append.mp hc with hc | hc
          · exact hbody c (hkey c (mem_of_mem_trimBy hc))
          · exact hbody c (hval c (mem_of_mem_trimBy (mem_of_mem_unquoted hc)))

/-- Of a line only the characters stripped matter. -/
theorem assignment?_congr {raw : List Char} (h : ∀ c ∈ raw, p c = q c) :
    assignment? p raw = assignment? q raw := by
  have hline := trimBy_congr h
  unfold assignment?
  rw [hline]
  generalize hl : trimBy q raw = line
  have hmem : ∀ c ∈ line, p c = q c := by
    intro c hc
    rw [← hl] at hc
    exact h c (mem_of_mem_trimBy hc)
  have hdrop : trimBy p (line.drop 7) = trimBy q (line.drop 7) :=
    trimBy_congr fun c hc => hmem c (List.mem_of_mem_drop hc)
  dsimp only
  rw [hdrop]
  generalize hb : (if exportPrefix <+: line then trimBy q (line.drop 7) else line) = body
  have hbody : ∀ c ∈ body, p c = q c := by
    intro c hc
    rw [← hb] at hc
    split at hc
    · exact hmem c (List.mem_of_mem_drop (mem_of_mem_trimBy hc))
    · exact hmem c hc
  cases hsplit : splitEq? body with
  | none => rfl
  | some kv =>
    obtain ⟨key, val⟩ := kv
    obtain ⟨hkey, hval⟩ := mem_of_splitEq? hsplit
    dsimp only
    rw [trimBy_congr fun c hc => hbody c (hkey c hc), trimBy_congr fun c hc => hbody c (hval c hc)]

end Congr

/-! ### Lines that all three read alike -/

/-- A line with no space but that after `export`. -/
inductive PlainLine : List Char → Prop where
  | empty : PlainLine []
  | comment (cs : List Char) : PlainLine ('#' :: cs)
  | assignment (key val : List Char) : key ≠ [] → key.head? ≠ some '#' → '=' ∉ key →
      (∀ c ∈ key ++ val, Daemon.isSpace c = false) → PlainLine (key ++ '=' :: val)
  | exported (key val : List Char) : key ≠ [] → '=' ∉ key →
      (∀ c ∈ key ++ val, Daemon.isSpace c = false) → PlainLine (exportPrefix ++ (key ++ '=' :: val))

section Plain

variable {p : Char → Bool} {key val : List Char}

theorem trimBy_eq_self {cs : List Char} (hhead : ∀ c, cs.head? = some c → p c = false)
    (hlast : ∀ c, cs.getLast? = some c → p c = false) : trimBy p cs = cs := by
  have hdrop : cs.dropWhile p = cs := by
    cases cs with
    | nil => rfl
    | cons c cs => rw [List.dropWhile_cons, hhead c rfl, if_neg Bool.false_ne_true]
  rw [trimBy, hdrop, List.rdropWhile_eq_self_iff]
  intro hne
  rw [hlast _ (List.getLast?_eq_some_getLast hne)]
  exact Bool.false_ne_true

theorem trimBy_of_forall {cs : List Char} (h : ∀ c ∈ cs, p c = false) : trimBy p cs = cs :=
  trimBy_eq_self (fun c hc => h c (List.mem_of_mem_head? hc))
    fun c hc => h c (List.mem_of_getLast? hc)

theorem rdropWhile_of_forall {cs : List Char} (h : ∀ c ∈ cs, p c = false) :
    cs.rdropWhile p = cs := by
  rw [List.rdropWhile_eq_self_iff]
  intro hne
  rw [h _ (List.getLast_mem hne)]
  exact Bool.false_ne_true

theorem splitEq?_append (hkey : '=' ∉ key) (val : List Char) :
    splitEq? (key ++ '=' :: val) = some (key, val) := by
  have hall : ∀ c ∈ key, decide (c ≠ '=') = true := by
    intro c hc
    rw [decide_eq_true_eq]
    rintro rfl
    exact hkey hc
  have hmem : '=' ∈ key ++ '=' :: val := by simp
  rw [splitEq?, if_pos hmem, List.takeWhile_append_of_pos hall, List.dropWhile_append_of_pos hall]
  simp

theorem not_export {line : List Char} (h : ' ' ∉ line) : ¬ exportPrefix <+: line :=
  fun hstart => h (hstart.subset (by decide))

theorem last_not {cs : List Char} (hval : ∀ c ∈ val, p c = false) (heq : p '=' = false) :
    ∀ c, (cs ++ '=' :: val).getLast? = some c → p c = false := by
  intro c hc
  rw [List.getLast?_append_cons] at hc
  rcases List.mem_cons.mp (List.mem_of_getLast? hc) with rfl | hc
  · exact heq
  · exact hval c hc

/-- What is stripped here is neither in the key nor in the value. -/
structure Bare (p : Char → Bool) (key val : List Char) : Prop where
  named : key ≠ []
  noEq : '=' ∉ key
  noSpace : ' ' ∉ key ++ val
  kept : ∀ c ∈ key ++ val, p c = false
  eqKept : p '=' = false

theorem Bare.key_strip (h : Bare p key val) : ∀ c ∈ key, p c = false :=
  fun c hc => h.kept c (List.mem_append_left _ hc)

theorem Bare.val_strip (h : Bare p key val) : ∀ c ∈ val, p c = false :=
  fun c hc => h.kept c (List.mem_append_right _ hc)

theorem Bare.line (h : Bare p key val) : ' ' ∉ key ++ '=' :: val := by
  intro hmem
  rcases List.mem_append.mp hmem with hkey | hval
  · exact h.noSpace (List.mem_append_left _ hkey)
  · rcases List.mem_cons.mp hval with heq | hval
    · exact absurd heq (by decide)
    · exact h.noSpace (List.mem_append_right _ hval)

theorem Bare.strip_line (h : Bare p key val) :
    trimBy p (key ++ '=' :: val) = key ++ '=' :: val := by
  refine trimBy_eq_self ?_ (last_not h.val_strip h.eqKept)
  intro c hc
  cases key with
  | nil => exact absurd rfl h.named
  | cons a key =>
    cases hc
    exact h.key_strip c List.mem_cons_self

/-- An assignment with its two sides as they stand. -/
theorem assignment?_bare (h : Bare p key val) (hhash : key.head? ≠ some '#') :
    assignment? p (key ++ '=' :: val) =
      some (String.ofList key, String.ofList (unquoted val)) := by
  have hhead : (key ++ '=' :: val).head? = key.head? := by
    cases key with
    | nil => exact absurd rfl h.named
    | cons a key => rfl
  have hread : ¬ (key ++ '=' :: val = [] ∨ (key ++ '=' :: val).head? = some '#') := by
    rw [hhead]
    simp [hhash]
  unfold assignment?
  rw [h.strip_line]
  dsimp only
  rw [if_neg hread, if_neg (not_export h.line), splitEq?_append h.noEq]
  dsimp only
  rw [trimBy_of_forall h.key_strip, trimBy_of_forall h.val_strip, if_neg h.named]

theorem assignment?_export (h : Bare p key val) (he : p 'e' = false) :
    assignment? p (exportPrefix ++ (key ++ '=' :: val)) =
      some (String.ofList key, String.ofList (unquoted val)) := by
  have hstrip : trimBy p (exportPrefix ++ (key ++ '=' :: val)) =
      exportPrefix ++ (key ++ '=' :: val) := by
    refine trimBy_eq_self ?_ ?_
    · intro c hc
      cases hc
      exact he
    · rw [← List.append_assoc]
      exact last_not h.val_strip h.eqKept
  have hdrop : (exportPrefix ++ (key ++ '=' :: val)).drop 7 = key ++ '=' :: val := by
    show (exportPrefix ++ (key ++ '=' :: val)).drop exportPrefix.length = key ++ '=' :: val
    exact List.drop_left
  have hread : ¬ (exportPrefix ++ (key ++ '=' :: val) = [] ∨
      (exportPrefix ++ (key ++ '=' :: val)).head? = some '#') := by
    rintro (hnil | hhash)
    · cases hnil
    · cases hhash
  unfold assignment?
  rw [hstrip]
  dsimp only
  rw [if_neg hread, if_pos (List.prefix_append _ _), hdrop, h.strip_line, splitEq?_append h.noEq]
  dsimp only
  rw [trimBy_of_forall h.key_strip, trimBy_of_forall h.val_strip, if_neg h.named]

def returns (c : Char) : Bool := c = '\r' || c = '\n'

theorem kept_of_isSpace {c : Char} (h : Daemon.isSpace c = false) :
    blank c = false ∧ returns c = false := by
  have hne (d : Char) (hd : Daemon.isSpace d = true) : c ≠ d := by
    rintro rfl
    rw [hd] at h
    cases h
  have hspace := hne ' ' (by decide)
  have htab := hne '\t' (by decide)
  have hreturn := hne '\r' (by decide)
  have hnewline := hne '\n' (by decide)
  simp [blank, returns, hspace, htab, hreturn, hnewline]

theorem Bare.blank (h : Bare Daemon.isSpace key val) : Bare Live.blank key val :=
  ⟨h.named, h.noEq, h.noSpace, fun c hc => (kept_of_isSpace (h.kept c hc)).1, rfl⟩

/-- What the runner makes of the part after `export`. -/
theorem runner_sides (h : Bare Daemon.isSpace key val) :
    key.rdropWhile Live.blank = key ∧ val.rdropWhile (fun c => c = '\r' || c = '\n') = val :=
  ⟨rdropWhile_of_forall h.blank.key_strip,
    rdropWhile_of_forall fun c hc => (kept_of_isSpace (h.val_strip c hc)).2⟩

theorem runnerAssignment?_bare (h : Bare Daemon.isSpace key val) (hhash : key.head? ≠ some '#') :
    runnerAssignment? (key ++ '=' :: val) =
      some (String.ofList key, String.ofList (unquoted val)) := by
  obtain ⟨a, key', rfl⟩ := List.exists_cons_of_ne_nil h.named
  have ha := kept_of_isSpace (h.key_strip a List.mem_cons_self)
  have hfront : (a :: key' ++ '=' :: val).dropWhile
      (fun c => Live.blank c || c = '\r' || c = '\n') = a :: key' ++ '=' :: val := by
    have hkeep : (Live.blank a || a = '\r' || a = '\n') = false := by
      rw [Bool.or_assoc, ha.1, Bool.false_or]
      exact ha.2
    rw [List.cons_append, List.dropWhile_cons, hkeep, if_neg Bool.false_ne_true]
  have hread : ¬ (a :: key' ++ '=' :: val = [] ∨
      (a :: key' ++ '=' :: val).head? = some '#') := by
    rintro (hnil | hcomment)
    · cases hnil
    · exact hhash hcomment
  obtain ⟨hkey, hval⟩ := runner_sides h
  unfold runnerAssignment?
  rw [hfront]
  dsimp only
  rw [if_neg hread, if_neg (not_export h.line), splitEq?_append h.noEq]
  dsimp only
  rw [hkey, hval, if_neg h.named]

theorem runnerAssignment?_export (h : Bare Daemon.isSpace key val) :
    runnerAssignment? (exportPrefix ++ (key ++ '=' :: val)) =
      some (String.ofList key, String.ofList (unquoted val)) := by
  have hdrop : (exportPrefix ++ (key ++ '=' :: val)).drop 7 = key ++ '=' :: val := by
    show (exportPrefix ++ (key ++ '=' :: val)).drop exportPrefix.length = key ++ '=' :: val
    exact List.drop_left
  have hfront : (exportPrefix ++ (key ++ '=' :: val)).dropWhile
      (fun c => Live.blank c || c = '\r' || c = '\n') =
        exportPrefix ++ (key ++ '=' :: val) := rfl
  have hread : ¬ (exportPrefix ++ (key ++ '=' :: val) = [] ∨
      (exportPrefix ++ (key ++ '=' :: val)).head? = some '#') := by
    rintro (hnil | hcomment)
    · cases hnil
    · cases hcomment
  obtain ⟨hkey, hval⟩ := runner_sides h
  unfold runnerAssignment?
  rw [hfront]
  dsimp only
  rw [if_neg hread, if_pos (List.prefix_append _ _), hdrop, splitEq?_append h.noEq]
  dsimp only
  rw [hkey, hval, if_neg h.named]

end Plain

theorem PlainLine.agree {line : List Char} (h : PlainLine line) :
    runnerAssignment? line = assignment? blank line := by
  cases h with
  | empty => rfl
  | comment cs =>
    have htrim : (trimBy blank ('#' :: cs)).head? = some '#' := by
      have hdrop : ('#' :: cs).dropWhile blank = '#' :: cs := rfl
      rw [trimBy, hdrop]
      obtain ⟨tail, htail⟩ := List.rdropWhile_prefix blank ('#' :: cs)
      cases hkept : ('#' :: cs).rdropWhile blank with
      | nil =>
        rw [List.rdropWhile_eq_nil_iff] at hkept
        exact absurd (hkept '#' List.mem_cons_self) (by decide)
      | cons a rest =>
        rw [hkept] at htail
        cases htail
        rfl
    unfold assignment?
    dsimp only
    rw [if_pos (.inr htrim)]
    rfl
  | assignment key val hne hhash heq hspace =>
    have hbare : Bare Daemon.isSpace key val :=
      ⟨hne, heq, fun hmem => absurd (hspace _ hmem) (by decide), hspace, by decide⟩
    rw [runnerAssignment?_bare hbare hhash, assignment?_bare hbare.blank hhash]
  | exported key val hne heq hspace =>
    have hbare : Bare Daemon.isSpace key val :=
      ⟨hne, heq, fun hmem => absurd (hspace _ hmem) (by decide), hspace, by decide⟩
    rw [runnerAssignment?_export hbare, assignment?_export hbare.blank rfl]

/-! ### Files -/

/-- There is no NUL, and the only white space is the space, the tab and the newline. -/
def PlainText (text : List Char) : Prop :=
  ∀ c ∈ text, c ≠ '\x00' ∧ (Daemon.isSpace c = true → blank c = true ∨ isNewline c = true)

instance (text : List Char) : Decidable (PlainText text) := List.decidableBAll _ _

theorem cString_eq_self {s : String} (h : ∀ c ∈ s.toList, c ≠ '\x00') : cString s = s := by
  have hall : ∀ c ∈ s.toList, decide (c ≠ '\x00') = true := fun c hc => decide_eq_true (h c hc)
  rw [cString, List.takeWhile_eq_self_iff.mpr hall, String.ofList_toList]

theorem setenv?_of_noNul {d : String × String} (hname : d.1 ≠ "")
    (h : ∀ c ∈ d.1.toList ++ d.2.toList, c ≠ '\x00') : setenv? d = some d := by
  rw [setenv?, cString_eq_self fun c hc => h c (List.mem_append_left _ hc),
    cString_eq_self fun c hc => h c (List.mem_append_right _ hc), if_neg hname]

theorem daemonFill_eq_fill {env : Env} {defs : List (String × String)}
    (h : ∀ d ∈ defs, hasNul d = false) : daemonFill env defs = fill env defs := by
  induction defs generalizing env with
  | nil => rfl
  | cons d defs ih =>
    rw [List.forall_mem_cons] at h
    have hstep : fill env (d :: defs) = fill (fillIn env d) defs := rfl
    unfold daemonFill
    rw [hstep]
    split
    · rename_i hset
      have hkept : fillIn env d = env := if_pos hset
      rw [hkept]
      exact ih h.2
    · rw [h.1, if_neg Bool.false_ne_true]
      exact ih h.2

theorem isSpace_of_lineBoundary {c : Char} (h : lineBoundary c = true) :
    Daemon.isSpace c = true := by
  simp only [lineBoundary, Daemon.isSpace, decide_eq_true_eq] at h ⊢
  omega

theorem isSpace_of_blank {c : Char} (h : blank c = true) : Daemon.isSpace c = true := by
  have hc : c = ' ' ∨ c = '\t' := by simpa [blank] using h
  rcases hc with rfl | rfl
  · decide
  · decide

theorem noNul_of_line {text line : List Char} (h : PlainText text)
    (hline : line ∈ text.splitOnP isNewline) {d : String × String}
    (hd : assignment? blank line = some d) : ∀ c ∈ d.1.toList ++ d.2.toList, c ≠ '\x00' :=
  fun c hc => (h c (mem_of_mem_splitOnP hline c ((assignment?_spec hd).2 c hc))).1

/-- On such a file the trader hands on what it reads. -/
theorem traderAssignments_plain {text : List Char} (h : PlainText text) :
    traderAssignments text = (text.splitOnP isNewline).filterMap (assignment? blank) := by
  refine List.filterMap_congr fun line hline => ?_
  cases hd : assignment? blank line with
  | none => rfl
  | some d => exact setenv?_of_noNul (assignment?_spec hd).1 (noNul_of_line h hline hd)

/-- The daemon's lines are then the trader's, and so is what it strips. -/
theorem daemonAssignments_plain {text : List Char} (h : PlainText text) :
    daemonAssignments text = traderAssignments text := by
  have hlines : text.splitOnP lineBoundary = text.splitOnP isNewline := by
    refine splitOnP_congr fun c hc => ?_
    rw [Bool.eq_iff_iff]
    constructor
    · intro hboundary
      rcases (h c hc).2 (isSpace_of_lineBoundary hboundary) with hblank | hnewline
      · have hc : c = ' ' ∨ c = '\t' := by simpa [blank] using hblank
        rcases hc with rfl | rfl
        · cases hboundary
        · cases hboundary
      · exact hnewline
    · intro hnewline
      rw [of_decide_eq_true hnewline]
      decide
  rw [traderAssignments_plain h, daemonAssignments, hlines]
  refine List.filterMap_congr fun line hline => assignment?_congr fun c hc => ?_
  have hnewline := eq_false_of_mem_splitOnP hline c hc
  rw [Bool.eq_iff_iff]
  constructor
  · intro hspace
    have hmem : c ∈ text := mem_of_mem_splitOnP hline c hc
    rcases (h c hmem).2 hspace with hblank | hnew
    · exact hblank
    · rw [hnewline] at hnew
      cases hnew
  · exact isSpace_of_blank

theorem daemonLoad_plain {text : List Char} (h : PlainText text) (env : Env) :
    daemonLoadDotenvIfPresent env (some text) = loadDotenvIfPresent env text := by
  have hnul : ∀ d ∈ daemonAssignments text, hasNul d = false := by
    intro d hd
    rw [daemonAssignments_plain h, traderAssignments_plain h] at hd
    obtain ⟨line, hline, hassigned⟩ := List.mem_filterMap.mp hd
    by_contra hcontains
    rw [Bool.not_eq_false] at hcontains
    have hmem : '\x00' ∈ d.1.toList ++ d.2.toList := List.contains_iff_mem.mp hcontains
    exact noNul_of_line h hline hassigned _ hmem rfl
  show daemonFill env (daemonAssignments text) = _
  rw [daemonFill_eq_fill hnul, daemonAssignments_plain h, loadDotenvIfPresent]

/-- The three loaders on one file. In the trader and in the runner a value that is there
stays, and otherwise the first assignment counts. Where the file has no NUL and no other
white space than the space, the tab and the newline, the daemon does as the trader does,
and started with what the trader read, reads nothing else; and where no assignment has
blanks around its parts the runner agrees too. -/
theorem dotenv_shared (text : List Char) (env : Env) :
    (∀ name, loadDotenvIfPresent env text name =
      (env name).or ((traderAssignments text).lookup name)) ∧
    (∀ name, loadDotenv env text name = (env name).or ((runnerAssignments text).lookup name)) ∧
    (PlainText text →
      daemonLoadDotenvIfPresent env (some text) = loadDotenvIfPresent env text ∧
      daemonLoadDotenvIfPresent (loadDotenvIfPresent env text) (some text) =
        loadDotenvIfPresent env text) ∧
    ((∀ line ∈ text.splitOnP isNewline, PlainLine line) →
      loadDotenv env text = loadDotenvIfPresent env text) := by
  refine ⟨fun name => fill_apply _ _ name, fun name => fill_apply _ _ name, ?_, ?_⟩
  · intro h
    refine ⟨daemonLoad_plain h env, ?_⟩
    rw [daemonLoad_plain h]
    exact fill_fill _ _
  · intro hplain
    rw [loadDotenv, loadDotenvIfPresent]
    congr 1
    exact List.filterMap_congr fun line hline => by rw [(hplain line hline).agree]

/-- Of a file with CR LF the trader keeps the CR, and the runner does not. -/
example :
    loadDotenvIfPresent (fun _ => none) "POLY_REQUIRE_CONFIRM=1\r\n".toList "POLY_REQUIRE_CONFIRM" =
        some "1\r" ∧
      loadDotenv (fun _ => none) "POLY_REQUIRE_CONFIRM=1\r\n".toList "POLY_REQUIRE_CONFIRM" =
        some "1" := by
  decide +kernel

def sampleDotenv : List Char :=
  Core.literal "# trader\nPOLY_REQUIRE_CONFIRM=1\nexport POLY_TOKEN_ID=\"42\"\nPOLY_TOKEN_ID=43\n"
    String.toList_ofList

/-- The token of the first assignment, without its quotes. -/
theorem dotenv_shared_sample :
    loadDotenvIfPresent (fun _ => none) sampleDotenv "POLY_TOKEN_ID" = some "42" ∧
      daemonLoadDotenvIfPresent (fun _ => none) (some sampleDotenv) =
        loadDotenvIfPresent (fun _ => none) sampleDotenv ∧
      loadDotenv (fun _ => none) sampleDotenv =
        loadDotenvIfPresent (fun _ => none) sampleDotenv := by
  have hplain : PlainText sampleDotenv := by decide +kernel
  obtain ⟨-, -, hdaemon, hrunner⟩ := dotenv_shared sampleDotenv fun _ => none
  have hlines : sampleDotenv.splitOnP isNewline =
      ["# trader".toList, "POLY_REQUIRE_CONFIRM=1".toList,
        "export POLY_TOKEN_ID=\"42\"".toList, "POLY_TOKEN_ID=43".toList, []] := by
    decide +kernel
  have noSpace {cs : List Char} (h : cs.all (!Daemon.isSpace ·) = true) :
      ∀ c ∈ cs, Daemon.isSpace c = false := by
    intro c hc
    exact (Bool.not_eq_true' _).mp (List.all_eq_true.mp h c hc)
  refine ⟨by decide +kernel, (hdaemon hplain).1, hrunner ?_⟩
  rw [hlines]
  intro line hline
  simp only [List.mem_cons, List.not_mem_nil, or_false] at hline
  obtain rfl | rfl | rfl | rfl | rfl := hline
  · exact .comment _
  · exact .assignment "POLY_REQUIRE_CONFIRM".toList "1".toList (by decide) (by decide)
      (by decide) (noSpace rfl)
  · exact .exported "POLY_TOKEN_ID".toList "\"42\"".toList (by decide) (by decide) (noSpace rfl)
  · exact .assignment "POLY_TOKEN_ID".toList "43".toList (by decide) (by decide)
      (by decide) (noSpace rfl)
  · exact .empty

end LeadLag.Live
