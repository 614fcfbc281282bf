import LeadLag.Core.SplitOn
import LeadLag.Daemon.Bridge

/-!
# Requests and replies in step (poly_daemon_client.cpp:14-51, 133-150)

Replies carry no number: the client takes the next line for the reply to its
last request. That is right as long as each call leaves both pipes empty.
-/

namespace LeadLag.Daemon
open LeadLag.Interaction

/-- The daemon wrote the response for a line that is this request and nothing else. -/
def Result.Matched (log : List Served) (r : Result) : Prop :=
  ∀ line, r.response = some line →
    ∃ e ∈ log, e.input = r.request.map (fun c => (r.index, c)) ∧ e.output = line ++ ['\n']

def SingleLine (text : List Char) : Prop :=
  (∀ c ∈ text, endsLine c = false) ∧ strip text ≠ []

/-- Requests are single lines. A call fails only before any of its request has
been written. No reply is longer than the client reads. -/
def InTurn (s : System) : Move → Prop
  | .request text => SingleLine text
  | .writeFails => s.client = .writing (s.current ++ ['\n'])
  | .readFails => False
  | .serve tr => (writes tr).flatten.length ≤ maxReply + 1
  | .write _ | .read => True

/-! ### The invariant -/

/-- The pipes between the calls and at each point of a call. -/
def Phase (s : System) : Client → Prop
  | .idle => s.toDaemon = [] ∧ s.fromDaemon = []
  | .writing rest =>
    SingleLine s.current ∧ s.fromDaemon = [] ∧ ∃ written, written ++ rest = s.current ++ ['\n'] ∧
      rest ≠ [] ∧ s.toDaemon = written.map fun c => (s.index, c)
  | .reading acc =>
    SingleLine s.current ∧
      ((acc = [] ∧ s.fromDaemon = [] ∧
          s.toDaemon = (s.current ++ ['\n']).map fun c => (s.index, c)) ∨
        (s.toDaemon = [] ∧ ∃ text, '\n' ∉ text ∧ text.length ≤ maxReply ∧
          acc ++ s.fromDaemon = text ++ ['\n'] ∧
          ∃ e ∈ s.log, e.input = s.current.map (fun c => (s.index, c)) ∧
            e.output = text ++ ['\n']))

structure InStep (s : System) : Prop where
  results : ∀ r ∈ s.results, r.Matched s.log
  phase : Phase s s.client

theorem inStep_start : InStep {} where
  results := fun _ hmem => absurd hmem List.not_mem_nil
  phase := ⟨rfl, rfl⟩

section Steps

variable {s t : System}

theorem inStep_request {text : List Char} (inv : InStep s) (hline : SingleLine text)
    (h : s.request text = some t) : InStep t := by
  unfold System.request at h
  split at h
  · rename_i hidle
    cases h
    have hphase := inv.phase
    rw [hidle] at hphase
    obtain ⟨hto, hfrom⟩ := hphase
    exact ⟨inv.results, hline, hfrom, [], rfl, by simp, hto⟩
  · cases h

theorem inStep_write {n : ℕ} (inv : InStep s) (h : s.write n = some t) : InStep t := by
  unfold System.write at h
  split at h
  · rename_i rest hwriting
    split at h
    · rename_i hn
      have hphase := inv.phase
      rw [hwriting] at hphase
      obtain ⟨hline, hfrom, written, hsplit, -, hto⟩ := hphase
      have hgrown : s.toDaemon ++ (rest.take n).map (fun c => (s.index, c)) =
          (written ++ rest.take n).map fun c => (s.index, c) := by
        rw [hto, List.map_append]
      cases h
      refine ⟨inv.results, ?_⟩
      dsimp only
      split
      · rename_i hall
        refine ⟨hline, .inl ⟨rfl, hfrom, ?_⟩⟩
        dsimp only
        rw [hgrown, hall, List.take_length, hsplit]
      · rename_i hsome
        refine ⟨hline, hfrom, written ++ rest.take n, ?_, ?_, hgrown⟩
        · rw [List.append_assoc, List.take_append_drop]
          exact hsplit
        · intro hnil
          have hle := List.drop_eq_nil_iff.mp hnil
          omega
    · cases h
  · cases h

theorem inStep_writeFails (inv : InStep s) (hnone : s.client = .writing (s.current ++ ['\n']))
    (h : s.writeFails = some t) : InStep t := by
  have hphase := inv.phase
  rw [hnone] at hphase
  obtain ⟨-, hfrom, written, hsplit, -, hto⟩ := hphase
  have hempty : written = [] := List.append_left_eq_self.mp hsplit
  simp only [System.writeFails, hnone, Option.some.injEq] at h
  subst h
  refine ⟨fun r hmem => ?_, ?_, hfrom⟩
  · rcases List.mem_append.mp hmem with hold | hnew
    · exact inv.results r hold
    · rw [List.mem_singleton.mp hnew]
      exact nofun
  · rw [hempty] at hto
    exact hto

/-- The first newline of a line ends it. -/
theorem line_ends {acc rest text : List Char} (htext : '\n' ∉ text)
    (h : acc ++ '\n' :: rest = text ++ ['\n']) : acc = text ∧ rest = [] := by
  induction acc generalizing text with
  | nil =>
    cases text with
    | nil => exact ⟨rfl, by simpa using h⟩
    | cons c text =>
      have hc := (List.cons.inj h).1
      exact absurd (by rw [hc]; exact List.mem_cons_self) htext
  | cons a acc ih =>
    cases text with
    | nil =>
      have htail := (List.cons.inj h).2
      simp at htail
    | cons c text =>
      obtain ⟨rfl, htail⟩ := List.cons.inj h
      obtain ⟨rfl, hrest⟩ := ih (fun hmem => htext (List.mem_cons_of_mem a hmem)) htail
      exact ⟨rfl, hrest⟩

theorem inStep_read (inv : InStep s) (h : s.read = some t) : InStep t := by
  unfold System.read at h
  split at h
  · rename_i acc c rest hreading hfrom
    have hphase := inv.phase
    rw [hreading] at hphase
    obtain ⟨hline, ⟨-, hnone, -⟩ | ⟨hto, text, htext, hshort, hsplit, e, he, hinput, houtput⟩⟩ :=
      hphase
    · rw [hfrom] at hnone
      cases hnone
    · rw [hfrom] at hsplit
      dsimp only at h
      split at h
      · rename_i hnewline
        cases h
        rw [hnewline] at hsplit
        obtain ⟨rfl, rfl⟩ := line_ends htext hsplit
        refine ⟨fun r hmem => ?_, hto, rfl⟩
        rcases List.mem_append.mp hmem with hold | hnew
        · exact inv.results r hold
        · rw [List.mem_singleton.mp hnew]
          rintro line ⟨⟩
          exact ⟨e, he, hinput, houtput⟩
      · rename_i hother
        have hlength : (acc ++ [c]).length ≤ text.length := by
          have htotal := congrArg List.length hsplit
          have hrest : rest ≠ [] := by
            rintro rfl
            have hlast := congrArg List.getLast? hsplit
            simp only [List.getLast?_append, List.getLast?_singleton, Option.some_or,
              Option.some.injEq] at hlast
            exact hother hlast
          have hpos := List.length_pos_of_ne_nil hrest
          simp only [List.length_append, List.length_cons, List.length_nil] at htotal ⊢
          omega
        rw [if_neg (by omega)] at h
        cases h
        refine ⟨inv.results, hline, .inr ⟨hto, text, htext, hshort, ?_, e, he, hinput, houtput⟩⟩
        dsimp only
        rw [List.append_assoc]
        exact hsplit
  · cases h

theorem Result.Matched.mono {log : List Served} {r : Result} (h : r.Matched log) (e : Served) :
    r.Matched (log ++ [e]) := by
  intro line hline
  obtain ⟨e', he', hmatch⟩ := h line hline
  exact ⟨e', List.mem_append_left [e] he', hmatch⟩

/-- A request that is still being written is no line for the daemon. -/
theorem splitLine_writing {written rest current : List Char} {i : ℕ}
    (hline : ∀ c ∈ current, endsLine c = false) (hsplit : written ++ rest = current ++ ['\n'])
    (hrest : rest ≠ []) : splitLine (written.map fun c => (i, c)) = none := by
  have hinitial : written <+: current := by
    have hle : written.length ≤ current.length := by
      have htotal := congrArg List.length hsplit
      have hpos := List.length_pos_of_ne_nil hrest
      simp only [List.length_append, List.length_singleton] at htotal
      omega
    exact List.prefix_of_prefix_length_le ⟨rest, hsplit⟩ (List.prefix_append _ _) hle
  refine splitLine_eq_none fun x hx => ?_
  obtain ⟨c, hc, rfl⟩ := List.mem_map.mp hx
  exact hline c (hinitial.subset hc)

theorem inStep_served {line rest : List (ℕ × Char)} {output : List Char} (inv : InStep s)
    (hsplit : splitLine s.toDaemon = some (line, rest))
    (houtput : Answered (line.map Prod.snd) output) (hshort : output.length ≤ maxReply + 1) :
    InStep (s.served line rest output) := by
  refine ⟨fun r hmem => (inv.results r hmem).mono _, ?_⟩
  have hphase := inv.phase
  have hkept : (s.served line rest output).client = s.client := rfl
  rw [hkept]
  cases hclient : s.client with
  | idle =>
    rw [hclient] at hphase
    rw [hphase.1] at hsplit
    cases hsplit
  | writing unwritten =>
    rw [hclient] at hphase
    obtain ⟨hline, -, written, happend, hne, hto⟩ := hphase
    rw [hto, splitLine_writing hline.1 happend hne] at hsplit
    cases hsplit
  | reading acc =>
    rw [hclient] at hphase
    obtain ⟨hline, ⟨rfl, hfrom, hto⟩ | ⟨hto, -⟩⟩ := hphase
    · rw [hto, splitLine_request s.index hline.1] at hsplit
      cases hsplit
      rw [map_snd_request, Answered, if_neg hline.2] at houtput
      obtain ⟨text, rfl, hnewline⟩ := houtput
      rw [List.length_append, List.length_singleton] at hshort
      refine ⟨hline, .inr ⟨rfl, text, hnewline, by omega, ?_, _,
        List.mem_append_right _ (List.mem_singleton_self _), rfl, rfl⟩⟩
      simp only [System.served, hfrom, List.nil_append]
    · rw [hto] at hsplit
      cases hsplit

end Steps

/-! ### Runs -/

section Runs

variable {floatRepr : Option ℚ → Line}

theorem bridge_answers {s : System} (h : (bridge floatRepr).Reachable s) :
    ∀ e ∈ s.log, Answered (e.input.map Prod.snd) e.output := by
  refine h.invariant (I := fun s => ∀ e ∈ s.log, Answered (e.input.map Prod.snd) e.output) ?_ ?_
  · rintro _ rfl
    exact fun _ hmem => absurd hmem List.not_mem_nil
  · intro s mv t _ hlog hst
    cases hst with
    | request text _ h =>
      unfold System.request at h
      split at h <;> cases h
      exact hlog
    | write n _ h =>
      unfold System.write at h
      split at h
      · split at h <;> cases h
        exact hlog
      · cases h
    | writeFails _ h =>
      unfold System.writeFails at h
      split at h <;> cases h
      exact hlog
    | readFails _ h =>
      unfold System.readFails at h
      split at h <;> cases h
      exact hlog
    | read _ h =>
      unfold System.read at h
      split at h
      · dsimp only at h
        split at h
        · cases h
          exact hlog
        · split at h <;> cases h <;> exact hlog
      · cases h
    | serve line rest tr r _ hx =>
      intro e hmem
      rcases List.mem_append.mp hmem with hold | hnew
      · exact hlog e hold
      · rw [List.mem_singleton.mp hnew]
        exact serve_answers floatRepr _ tr r hx

theorem inStep_step {s t : System} {mv : Move} (inv : InStep s) (hturn : InTurn s mv)
    (h : Step floatRepr s mv t) : InStep t := by
  cases h with
  | request text _ h => exact inStep_request inv hturn h
  | write n _ h => exact inStep_write inv h
  | writeFails _ h => exact inStep_writeFails inv hturn h
  | read _ h => exact inStep_read inv h
  | readFails => exact absurd hturn id
  | serve line rest tr r hsplit hx =>
    exact inStep_served inv hsplit (serve_answers floatRepr _ tr r hx) hturn

def inTurn (floatRepr : Option ℚ → Line) : Lts System Move := (bridge floatRepr).restrict InTurn

/-- In every run the daemon answers each line once. In a run whose steps are in
turn each response is the reply to its own request. -/
theorem replies_matched {s : System} (h : (bridge floatRepr).Reachable s) :
    (∀ e ∈ s.log, Answered (e.input.map Prod.snd) e.output) ∧
      ((inTurn floatRepr).Reachable s → ∀ r ∈ s.results, r.Matched s.log) := by
  refine ⟨bridge_answers h, fun hturn => ?_⟩
  have inv : InStep s := by
    refine hturn.invariant ?_ fun s mv t _ inv hst => inStep_step inv hst.2 hst.1
    rintro _ rfl
    exact inStep_start
  exact inv.results

end Runs

/-! ### Exchanges -/

section Exchange

variable {floatRepr : Option ℚ → Line} {cond : System → Move → Prop} {s : System}

def System.asked (s : System) (text output : List Char) : System :=
  { s with
    client := .reading [], index := s.index + 1, current := text, toDaemon := []
    fromDaemon := s.fromDaemon ++ output
    log := s.log ++ [{ input := text.map fun c => (s.index + 1, c), output := output }] }

theorem stepped_reachable {mv : Move} {t : System}
    (h : ((bridge floatRepr).restrict cond).Reachable s) (hst : Step floatRepr s mv t)
    (hc : cond s mv) : ((bridge floatRepr).restrict cond).Reachable t :=
  h.step (l := mv) ⟨hst, hc⟩

theorem asked_reachable {text : List Char} {tr : Trace} {r : Except Raised Unit}
    (h : ((bridge floatRepr).restrict cond).Reachable s) (hidle : s.client = .idle)
    (hto : s.toDaemon = []) (hline : SingleLine text)
    (hx : Exec (serve floatRepr text).run tr r)
    (hcond : ∀ s, cond s (.request text) ∧ (∀ n, cond s (.write n)) ∧ cond s (.serve tr)) :
    ((bridge floatRepr).restrict cond).Reachable (s.asked text (writes tr).flatten) := by
  have hrequest := stepped_reachable h (.request text _ (if_pos hidle)) (hcond _).1
  have hwrite := stepped_reachable hrequest
    (.write (text ++ ['\n']).length _ (if_pos ⟨by simp, le_rfl⟩)) ((hcond _).2.1 _)
  have hsplit : splitLine (s.toDaemon ++
      ((text ++ ['\n']).take (text ++ ['\n']).length).map fun c => (s.index + 1, c)) =
        some (text.map fun c => (s.index + 1, c), []) := by
    rw [hto, List.nil_append, List.take_length]
    exact splitLine_request (s.index + 1) hline.1
  rw [← map_snd_request (s.index + 1) text] at hx
  have hserve := stepped_reachable hwrite (.serve _ _ tr r hsplit hx) (hcond _).2.2
  simpa [System.served, System.asked] using hserve

theorem reads_reachable (cs acc rest : List Char)
    (h : ((bridge floatRepr).restrict cond).Reachable
      { s with client := .reading acc, fromDaemon := cs ++ rest })
    (hcond : ∀ s, cond s .read) (hnewline : '\n' ∉ cs)
    (hshort : acc.length + cs.length ≤ maxReply) :
    ((bridge floatRepr).restrict cond).Reachable
      { s with client := .reading (acc ++ cs), fromDaemon := rest } := by
  induction cs generalizing acc with
  | nil =>
    rw [List.append_nil]
    exact h
  | cons c cs ih =>
    rw [List.length_cons] at hshort
    have hc : c ≠ '\n' := fun heq => hnewline (heq ▸ List.mem_cons_self)
    have hread : System.read { s with client := .reading acc, fromDaemon := c :: cs ++ rest } =
        some { s with client := .reading (acc ++ [c]), fromDaemon := cs ++ rest } := by
      have hfits : ¬ maxReply < (acc ++ [c]).length := by
        rw [List.length_append, List.length_singleton]
        omega
      simp only [System.read, List.cons_append, if_neg hc, if_neg hfits]
    have hstep := stepped_reachable h (.read _ hread) (hcond _)
    have hrest := ih _ hstep (fun hmem => hnewline (List.mem_cons_of_mem c hmem)) (by
      rw [List.length_append, List.length_singleton]
      omega)
    rw [List.append_assoc] at hrest
    exact hrest

theorem returned_reachable {acc rest : List Char}
    (h : ((bridge floatRepr).restrict cond).Reachable
      { s with client := .reading acc, fromDaemon := '\n' :: rest })
    (hcond : ∀ s, cond s .read) :
    ((bridge floatRepr).restrict cond).Reachable
      (System.respond { s with client := .reading acc, fromDaemon := rest } (some acc)) :=
  stepped_reachable h (.read _ rfl) (hcond _)

end Exchange

/-! ### What the daemon serves -/

def zeroRepr (_ : Option ℚ) : Line := ⟨['0', '.', '0'], by decide⟩

section Serves

theorem exec_ask (c : Call) (r : Reply c) : Exec (ask c).run [⟨c, r⟩] (Except.ok r) :=
  exec_bind.mpr ⟨_, r, [], .call r (.done r), .done _, rfl⟩

theorem exec_orRaise {A : Type} (r : Except Raised A) : Exec (orRaise r).run [] r :=
  exec_done.mpr ⟨rfl, rfl⟩

variable {A B : Type} {tr tr' : Trace} {e : Raised}

theorem exec_ok {p : Py A} {f : A → Py B} {a : A} {r : Except Raised B}
    (hp : Exec p.run tr (.ok a)) (hf : Exec (f a).run tr' r) :
    Exec (p >>= f).run (tr ++ tr') r :=
  exec_bind.mpr ⟨tr, _, tr', hp, hf, rfl⟩

theorem exec_raised {p : Py A} {f : A → Py B} (hp : Exec p.run tr (.error e)) :
    Exec (p >>= f).run tr (.error e) :=
  exec_bind.mpr ⟨tr, _, [], hp, .done _, (List.append_nil tr).symm⟩

theorem exec_caught {p : Py A} {h : Raised → Py A} {r : Except Raised A}
    (hp : Exec p.run tr (.error e)) (hh : Exec (h e).run tr' r) :
    Exec (tryCatch p h).run (tr ++ tr') r :=
  exec_bind.mpr ⟨tr, _, tr', hp, hh, rfl⟩

theorem exec_completed {p : Py A} {h : Raised → Py A} {a : A} (hp : Exec p.run tr (.ok a)) :
    Exec (tryCatch p h).run tr (.ok a) :=
  exec_bind.mpr ⟨tr, _, [], hp, .done _, (List.append_nil tr).symm⟩

section Programs

variable (floatRepr : Option ℚ → Line)

theorem exec_serve {line : List Char} {r : Except Raised Unit} (hline : strip line ≠ [])
    (h : Exec (tryCatch (handle floatRepr (String.ofList (strip line)))
      (replyRaised floatRepr [])).run tr r) : Exec (serve floatRepr line).run tr r := by
  unfold serve
  rw [if_neg hline]
  exact h

def pong : List Char :=
  Core.literal "\x7b\"ok\": true, \"cmd\": \"ping\", \"ts_ms\": 0\x7d" String.toList_ofList

theorem exec_ping (text : String) :
    Exec (handle floatRepr text).run
      [⟨.loads text, Except.ok (.dict [("cmd", .str "ping")])⟩, ⟨.timeMs, (0 : ℤ)⟩,
        ⟨.write (pong ++ ['\n']), ()⟩] (.ok ()) := by
  refine exec_ok (exec_ask (.loads text) (Except.ok _)) (exec_ok (exec_orRaise (.ok _)) ?_)
  have hpong : Exec (replyOk floatRepr (.str "ping") []).run
      [⟨.timeMs, (0 : ℤ)⟩, ⟨.write (pong ++ ['\n']), ()⟩] (.ok ()) :=
    exec_ok (exec_ask .timeMs (0 : ℤ)) (exec_ask (.write (pong ++ ['\n'])) ())
  simpa [Value.isDict, Value.getD, Value.get?, Value.isStr] using hpong

def orderRequest : Value := .dict [("cmd", .str "get_order"), ("order_id", .str "1")]

theorem exec_getOrder (e : Raised) :
    Exec (getOrder floatRepr (.str "get_order") orderRequest).run
      [⟨.toStr (.str "1"), Except.ok "1"⟩, ⟨.getOrder "1", Except.error e⟩] (.error e) := by
  have hitem : Exec (item "order_id" orderRequest).run [] (.ok (.str "1")) :=
    exec_done.mpr ⟨rfl, rfl⟩
  have hstr : Exec (toStr (.str "1")).run [⟨.toStr (.str "1"), Except.ok "1"⟩] (.ok "1") :=
    exec_ok (exec_ask (.toStr (.str "1")) (Except.ok "1")) (exec_orRaise _)
  exact exec_ok hitem (exec_ok hstr
    (exec_ok (exec_ask (.getOrder "1") (Except.error e)) (exec_raised (exec_orRaise _))))

/-- The reply for `e` without trace at time 0. -/
def raisedText (e : Raised) : List Char :=
  '{' :: joined [quoted "ok" ++ [':', ' '] ++ "false".toList,
    quoted "error" ++ [':', ' '] ++ quoted e.str, quoted "trace" ++ [':', ' '] ++ quoted "",
    quoted "ts_ms" ++ [':', ' '] ++ (toString (0 : ℤ)).toList] ++ ['}']

theorem exec_replyRaised (e : Raised) :
    Exec (replyRaised floatRepr [] e).run
      [⟨.formatExc, ""⟩, ⟨.timeMs, (0 : ℤ)⟩, ⟨.write (raisedText e ++ ['\n']), ()⟩] (.ok ()) := by
  refine exec_ok (exec_ask .formatExc "") (exec_ok (exec_ask .timeMs (0 : ℤ)) ?_)
  exact exec_ask (.write (raisedText e ++ ['\n'])) ()

theorem exec_order (text : String) (e : Raised) :
    Exec (tryCatch (handle floatRepr text) (replyRaised floatRepr [])).run
      [⟨.loads text, Except.ok orderRequest⟩, ⟨.toStr (.str "1"), Except.ok "1"⟩,
        ⟨.getOrder "1", Except.error e⟩, ⟨.formatExc, ""⟩, ⟨.timeMs, (0 : ℤ)⟩,
        ⟨.write (raisedText e ++ ['\n']), ()⟩] (.ok ()) := by
  have hhandle : Exec (handle floatRepr text).run
      [⟨.loads text, Except.ok orderRequest⟩, ⟨.toStr (.str "1"), Except.ok "1"⟩,
        ⟨.getOrder "1", Except.error e⟩] (.error e) := by
    refine exec_ok (exec_ask (.loads text) (Except.ok orderRequest))
      (exec_ok (exec_orRaise (.ok orderRequest)) ?_)
    have hget := exec_getOrder floatRepr e
    simpa [orderRequest, Value.isDict, Value.getD, Value.get?, Value.isStr] using hget
  exact exec_caught hhandle (exec_replyRaised floatRepr e)

end Programs

theorem raisedText_length (n : ℕ) :
    (raisedText ⟨false, String.ofList (List.replicate n 'a')⟩).length = 51 + n := by
  have ha : escapeChar 'a' = ['a'] := by decide
  have hbody : (quoted (String.ofList (List.replicate n 'a'))).length = n + 2 := by
    simp [quoted, List.flatMap_replicate, ha]
  have hok : (quoted "ok").length = 4 := by decide +kernel
  have herror : (quoted "error").length = 7 := by decide +kernel
  have htrace : (quoted "trace").length = 7 := by decide +kernel
  have hts : (quoted "ts_ms").length = 7 := by decide +kernel
  have hempty : (quoted "").length = 2 := by decide +kernel
  have hzero : (toString (0 : ℤ)).toList.length = 1 := by decide +kernel
  have hfalse : "false".toList.length = 5 := by decide +kernel
  simp only [raisedText, joined, List.intercalate, List.intersperse, List.flatten_cons,
    List.flatten_nil, List.length_cons, List.length_append, List.length_nil, hbody, hok, herror,
    htrace, hts, hempty, hzero, hfalse]
  omega

theorem newline_not_mem_raisedText (e : Raised) : '\n' ∉ raisedText e := by
  have hdumps : dumps zeroRepr (.dict [("ok", .bool false), ("error", .str e.str),
      ("trace", .str ""), ("ts_ms", .int 0)]) = some (raisedText e) := rfl
  exact newline_not_mem_dumps hdumps

def pingText : List Char := Core.literal "\x7b\"cmd\":\"ping\"\x7d" String.toList_ofList

def orderText : List Char :=
  Core.literal "\x7b\"cmd\":\"get_order\",\"order_id\":\"1\"\x7d" String.toList_ofList

theorem singleLine_of_checks {text : List Char} (hline : text.any endsLine = false)
    (hstrip : strip text ≠ []) : SingleLine text := by
  refine ⟨?_, hstrip⟩
  intro c hc
  have hno := List.any_eq_false.mp hline c hc
  simpa using hno

theorem pingText_singleLine : SingleLine pingText :=
  singleLine_of_checks (by decide +kernel) (by decide +kernel)

theorem orderText_singleLine : SingleLine orderText :=
  singleLine_of_checks (by decide +kernel) (by decide +kernel)

theorem serves_ping : ∃ tr r, Exec (serve zeroRepr pingText).run tr r ∧
    (writes tr).flatten = pong ++ ['\n'] := by
  have hx := exec_completed (h := replyRaised zeroRepr [])
    (exec_ping zeroRepr (String.ofList (strip pingText)))
  exact ⟨_, _, exec_serve zeroRepr pingText_singleLine.2 hx, rfl⟩

/-- A reply of one character more than the client reads. -/
theorem serves_oversize : ∃ tr r text, Exec (serve zeroRepr orderText).run tr r ∧
    (writes tr).flatten = text ++ ['\n'] ∧ '\n' ∉ text ∧ text.length = maxReply + 1 := by
  have hlength := raisedText_length (maxReply - 50)
  generalize (⟨false, String.ofList (List.replicate (maxReply - 50) 'a')⟩ : Raised) = e at hlength
  have hx := exec_order zeroRepr (String.ofList (strip orderText)) e
  refine ⟨_, _, raisedText e, exec_serve zeroRepr orderText_singleLine.2 hx, ?_,
    newline_not_mem_raisedText e, ?_⟩
  · simp [writes]
  · rw [hlength]
    decide

end Serves

/-! ### Two runs -/

theorem ping_matched :
    ∃ s, (bridge zeroRepr).Reachable s ∧
      s.results = [{ index := 1, request := pingText, response := some pong }] ∧
      ∀ r ∈ s.results, r.Matched s.log := by
  obtain ⟨tr, r, hx, hout⟩ := serves_ping
  have hcond : ∀ s, InTurn s (.request pingText) ∧ (∀ n, InTurn s (.write n)) ∧
      InTurn s (.serve tr) := by
    intro s
    refine ⟨pingText_singleLine, fun _ => trivial, ?_⟩
    simp only [InTurn, hout]
    decide +kernel
  have hasked := asked_reachable (.init rfl) rfl rfl pingText_singleLine hx hcond
  rw [hout] at hasked
  have hread := reads_reachable (s := System.asked {} pingText (pong ++ ['\n'])) pong []
    ['\n'] hasked (fun _ => trivial) (by decide +kernel) (by decide +kernel)
  have hdone := returned_reachable hread fun _ => trivial
  exact ⟨_, hdone.of_restrict, rfl, (replies_matched hdone.of_restrict).2 hdone⟩

/-- The end of an oversize reply is taken for the reply to the next request. -/
theorem oversize_reply_shifts :
    ∃ s, (bridge zeroRepr).Reachable s ∧ ∃ r ∈ s.results, ¬ r.Matched s.log := by
  obtain ⟨tr, r, text, hx, hout, hnewline, hlength⟩ := serves_oversize
  obtain ⟨tr', r', hx', hout'⟩ := serves_ping
  let anyStep (_ : System) (_ : Move) : Prop := True
  have hstart : ((bridge zeroRepr).restrict anyStep).Reachable {} := .init rfl
  -- the order is asked for and its reply read up to the limit
  have horder := asked_reachable hstart rfl rfl orderText_singleLine hx
    fun _ => ⟨trivial, fun _ => trivial, trivial⟩
  obtain ⟨cs, c, rfl⟩ : ∃ cs c, text = cs ++ [c] :=
    ⟨_, _, (List.dropLast_append_getLast (List.ne_nil_of_length_pos (by omega))).symm⟩
  rw [List.length_append, List.length_singleton, Nat.add_right_cancel_iff] at hlength
  rw [List.mem_append, not_or, List.mem_singleton] at hnewline
  rw [hout, List.append_assoc] at horder
  have hreads (s : System) : anyStep s .read := trivial
  have hread := reads_reachable (s := System.asked {} orderText (cs ++ ([c] ++ ['\n']))) cs []
    ([c] ++ ['\n']) horder hreads hnewline.1
    (by simp [hlength])
  -- one more character is too much: the call fails and leaves the newline behind
  have htoo : System.read { System.asked {} orderText (cs ++ ([c] ++ ['\n'])) with
      client := .reading ([] ++ cs), fromDaemon := [c] ++ ['\n'] } =
      some (System.respond { System.asked {} orderText (cs ++ ([c] ++ ['\n'])) with
        client := .reading ([] ++ cs), fromDaemon := ['\n'] } none) := by
    have hlong : maxReply < ([] ++ cs ++ [c]).length := by simp [hlength]
    simp only [System.read, List.singleton_append, if_neg (Ne.symm hnewline.2), if_pos hlong]
  have hfailed := stepped_reachable hread (.read _ htoo) trivial
  -- the next request finds the newline first
  have hping := asked_reachable hfailed rfl rfl pingText_singleLine hx'
    fun _ => ⟨trivial, fun _ => trivial, trivial⟩
  have hdone := returned_reachable (s := System.asked (System.respond
    { System.asked {} orderText (cs ++ ([c] ++ ['\n'])) with
      client := .reading ([] ++ cs), fromDaemon := ['\n'] } none) pingText
    (writes tr').flatten) hping hreads
  refine ⟨_, hdone.of_restrict, { index := 2, request := pingText, response := some [] }, ?_, ?_⟩
  · exact List.mem_append_right _ (List.mem_singleton_self _)
  · intro hmatch
    obtain ⟨e, he, hinput, houtput⟩ := hmatch [] rfl
    simp only [System.respond, System.asked, List.nil_append, List.mem_append, List.mem_singleton,
      hout'] at he
    rcases he with rfl | rfl
    · have hhead : (orderText.map fun c => ((1 : ℕ), c)).head? =
          (pingText.map fun c => ((2 : ℕ), c)).head? := congrArg List.head? hinput
      exact absurd hhead (by decide +kernel)
    · revert houtput
      decide +kernel

end LeadLag.Daemon
