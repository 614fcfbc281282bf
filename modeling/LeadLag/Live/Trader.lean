import LeadLag.Core.Double
import LeadLag.Live.Dotenv

/-!
# The command line of the trader (live_trader.cpp:61-74, 140-301)

`main` up to `LiveExecutor::submit`. `stod` is `std::stod`, `none` where it throws. An
order is sent just for a command line that says all of it, that is confirmed where
`POLY_REQUIRE_CONFIRM` asks for that, and that has no `--dry-run`.
-/

namespace LeadLag.Live
open LeadLag.Core

/-! ### Options -/

inductive Confirmation where
  | confirm
  | y
  | yes

inductive Opt where
  | tokenId (v : String)
  | side (v : String)
  | price (v : String)
  | qty (v : String)
  | notional (v : String)
  | spend (v : String)
  | market
  | dryRun
  | confirm (word : Confirmation)

def Confirmation.word : Confirmation → String
  | .confirm => "--confirm"
  | .y => "-y"
  | .yes => "--yes"

def Opt.words : Opt → List String
  | .tokenId v => ["--token-id", v]
  | .side v => ["--side", v]
  | .price v => ["--price", v]
  | .qty v => ["--qty", v]
  | .notional v => ["--notional", v]
  | .spend v => ["--spend", v]
  | .market => ["--market"]
  | .dryRun => ["--dry-run"]
  | .confirm word => [word.word]

/-- The options that take the next word. -/
def valued? (a : String) : Option (String → Opt) :=
  if a = "--token-id" then some .tokenId
  else if a = "--side" then some .side
  else if a = "--price" then some .price
  else if a = "--qty" then some .qty
  else if a = "--notional" then some .notional
  else if a = "--spend" then some .spend
  else none

def flag? (a : String) : Option Opt :=
  if a = "--market" then some .market
  else if a = "--dry-run" then some .dryRun
  else if a = "--confirm" then some (.confirm .confirm)
  else if a = "-y" then some (.confirm .y)
  else if a = "--yes" then some (.confirm .yes)
  else none

/-! ### The loop over the words -/

/-- The fields of `OrderIntent` that the command line sets. -/
structure Intent where
  side : String := ""
  limitPrice : Double := .finite 0
  qty : Double := .finite 0
  marketTokenId : String := ""
  marketOrder : Bool := false
  deriving DecidableEq

structure Line where
  o : Intent := {}
  notionalUsd : Double := .finite 0
  haveQty : Bool := false
  dryRun : Bool := false
  confirmFlag : Bool := false
  deriving DecidableEq

section Main

variable (stod : String → Option Double)

def Opt.apply (l : Line) : Opt → Option Line
  | .tokenId v => some { l with o := { l.o with marketTokenId := v } }
  | .side v => some { l with o := { l.o with side := v } }
  | .price v => (stod v).map fun x => { l with o := { l.o with limitPrice := x } }
  | .qty v => (stod v).map fun x => { l with o := { l.o with qty := x }, haveQty := true }
  | .notional v | .spend v => (stod v).map fun x => { l with notionalUsd := x }
  | .market => some { l with o := { l.o with marketOrder := true } }
  | .dryRun => some { l with dryRun := true }
  | .confirm _ => some { l with confirmFlag := true }

inductive Parsed where
  | line (l : Line)
  | help
  | unknownArg (a : String)
  | threw

/-- A last word that would take a next one is no option. -/
def parseArgs (l : Line) : List String → Parsed
  | [] => .line l
  | a :: rest =>
    match valued? a with
    | some mk =>
      match rest with
      | [] => .unknownArg a
      | v :: rest =>
        match (mk v).apply stod l with
        | none => .threw
        | some l => parseArgs l rest
    | none =>
      match flag? a with
      | some opt =>
        match opt.apply stod l with
        | none => .threw
        | some l => parseArgs l rest
      | none => if a = "--help" then .help else .unknownArg a

/-! ### Validation -/

def usage : String := "usage"

def missingToken : String :=
  "missing outcome token: pass --token-id or set POLY_TOKEN_ID (e.g. in .env in cwd)"

/-- What is to be bought or sold, or the message without it. -/
def sized (l : Line) : Except String Intent :=
  if l.o.marketOrder then
    if l.o.side = "BUY" then
      if l.notionalUsd.nonpos then .error "market BUY requires --notional/--spend USD"
      else .ok { l.o with qty := l.notionalUsd }
    else if l.o.side = "SELL" then
      if !l.haveQty || l.o.qty.nonpos then .error "market SELL requires --qty shares"
      else .ok l.o
    else .error "--market requires side BUY or SELL"
  else if l.notionalUsd.pos then
    if l.o.side ≠ "BUY" then .error "--notional/--spend only supported for side BUY"
    else if l.o.limitPrice.nonpos then .error usage
    else .ok { l.o with qty := l.notionalUsd.div l.o.limitPrice }
  else if !l.haveQty || l.o.qty.nonpos then .error usage
  else .ok l.o

def complete (o : Intent) : Except String Intent :=
  if o.marketTokenId = "" then .error missingToken
  else if o.marketOrder then
    if o.side = "" ∨ o.qty.nonpos then .error usage else .ok o
  else if o.side = "" ∨ o.limitPrice.nonpos ∨ o.qty.nonpos then .error usage
  else .ok o

def withToken (env : Env) (l : Line) : Line :=
  if l.o.marketTokenId = "" then
    { l with o := { l.o with marketTokenId := (env "POLY_TOKEN_ID").getD "" } }
  else l

def validated (env : Env) (l : Line) : Except String Intent := do
  complete (← sized (withToken env l))

/-! ### `main` -/

/-- `env_flag_true`. -/
def envFlagTrue (env : Env) (key : String) : Bool :=
  match env key with
  | none => false
  | some v => v = "1" ||
      ["true", "yes"].contains (String.ofList (v.toList.map Char.toLower))

def refusedUnconfirmed : String :=
  "live submit refused: POLY_REQUIRE_CONFIRM=1 requires --confirm (or -y / --yes). " ++
    "Use --dry-run to preview without contacting the daemon."

/-- The path of the traffic log, empty where there is none. -/
def trafficPath (env : Env) : String :=
  if envFlagTrue env "POLY_DISABLE_DAEMON_TRAFFIC_LOG" then ""
  else match env "POLY_DAEMON_TRAFFIC_JSONL" with
    | some e => if e = "" then "data/live_poly_daemon.jsonl" else e
    | none => "data/live_poly_daemon.jsonl"

/-- `refused` is an exit with 2, `helped` and `preview` are exits with 0. -/
inductive Outcome where
  | strategy
  | threw
  | helped
  | refused (message : String)
  | preview (o : Intent)
  | submit (o : Intent) (traffic : String)
  deriving DecidableEq

def decided (env : Env) (l : Line) : Outcome :=
  match validated env l with
  | .error message => .refused message
  | .ok o =>
    if envFlagTrue env "POLY_REQUIRE_CONFIRM" && !l.dryRun && !l.confirmFlag then
      .refused refusedUnconfirmed
    else if l.dryRun then .preview o
    else .submit o (trafficPath env)

/-- `args` are the words after the program's name. -/
def traderIn (env : Env) (args : List String) : Outcome :=
  if args.head? = some "--strategy" then .strategy
  else match parseArgs stod {} args with
    | .line l => decided env l
    | .help => .helped
    | .unknownArg a => .refused ("unknown arg: " ++ a)
    | .threw => .threw

def afterDotenv (env : Env) : Option (List Char) → Env
  | none => env
  | some text => loadDotenvIfPresent env text

def trader (env : Env) (dotenv : Option (List Char)) (args : List String) : Outcome :=
  traderIn stod (afterDotenv env dotenv) args

end Main

/-! ### The words of the options -/

section Words

variable {stod : String → Option Double}

theorem words_of_valued? {a : String} {mk : String → Opt} (h : valued? a = some mk) (v : String) :
    (mk v).words = [a, v] := by
  unfold valued? at h
  split_ifs at h with ha ha ha ha ha ha
  all_goals
    cases h
    rw [ha]
    rfl

theorem words_of_flag? {a : String} {opt : Opt} (h : flag? a = some opt) : opt.words = [a] := by
  unfold flag? at h
  split_ifs at h with ha ha ha ha ha
  all_goals
    cases h
    rw [ha]
    rfl

/-- The options in `words`, applied one after another. -/
theorem parseArgs_line {words : List String} {l l' : Line}
    (h : parseArgs stod l words = .line l') :
    ∃ opts : List Opt, words = opts.flatMap Opt.words ∧
      opts.foldlM (Opt.apply stod) l = some l' := by
  fun_induction parseArgs stod l words with
  | case1 l =>
    cases h
    exact ⟨[], rfl, rfl⟩
  | case2 => cases h
  | case3 => cases h
  | case4 l a mk hmk v rest l₁ hl₁ ih =>
    obtain ⟨opts, hopts, hfold⟩ := ih h
    refine ⟨mk v :: opts, ?_, ?_⟩
    · rw [List.flatMap_cons, words_of_valued? hmk, ← hopts]
      rfl
    · rw [List.foldlM_cons, hl₁]
      exact hfold
  | case5 => cases h
  | case6 l a rest hmk opt hopt l₁ hl₁ ih =>
    obtain ⟨opts, hopts, hfold⟩ := ih h
    refine ⟨opt :: opts, ?_, ?_⟩
    · rw [List.flatMap_cons, words_of_flag? hopt, ← hopts]
      rfl
    · rw [List.foldlM_cons, hl₁]
      exact hfold
  | case7 => cases h
  | case8 => cases h

theorem parseArgs_words (opts : List Opt) {l l' : Line}
    (h : opts.foldlM (Opt.apply stod) l = some l') :
    parseArgs stod l (opts.flatMap Opt.words) = .line l' := by
  induction opts generalizing l with
  | nil =>
    cases h
    rfl
  | cons opt opts ih =>
    rw [List.foldlM_cons] at h
    obtain ⟨l₁, hl₁, hrest⟩ := Option.bind_eq_some_iff.mp h
    have htail := ih hrest
    have hstep : parseArgs stod l ((opt :: opts).flatMap Opt.words) =
        parseArgs stod l₁ (opts.flatMap Opt.words) := by
      rw [List.flatMap_cons]
      cases opt with
      | confirm word =>
        cases word <;>
          simp [Opt.words, Confirmation.word, parseArgs, valued?, flag?, hl₁]
      | _ => simp [Opt.words, parseArgs, valued?, flag?, hl₁]
    rw [hstep]
    exact htail

end Words

/-! ### What a command line says -/

/-- Of an option that is given several times the last counts. -/
def lastOf {A : Type} (f : Opt → Option A) (opts : List Opt) : Option A :=
  (opts.filterMap f).getLast?

def Opt.tokenId? : Opt → Option String
  | .tokenId v => some v
  | _ => none

def Opt.side? : Opt → Option String
  | .side v => some v
  | _ => none

section Said

variable (stod : String → Option Double)

def Opt.price? : Opt → Option Double
  | .price v => stod v
  | _ => none

def Opt.qty? : Opt → Option Double
  | .qty v => stod v
  | _ => none

def Opt.notional? : Opt → Option Double
  | .notional v | .spend v => stod v
  | _ => none

/-- Every number can be read. -/
def Opt.Reads : Opt → Prop
  | .price v | .qty v | .notional v | .spend v => (stod v).isSome = true
  | _ => True

def Opt.isMarket : Opt → Bool
  | .market => true
  | _ => false

def Opt.isDryRun : Opt → Bool
  | .dryRun => true
  | _ => false

def Opt.isConfirm : Opt → Bool
  | .confirm _ => true
  | _ => false

def said (opts : List Opt) : Line where
  o := { side := (lastOf Opt.side? opts).getD ""
         limitPrice := (lastOf (Opt.price? stod) opts).getD (.finite 0)
         qty := (lastOf (Opt.qty? stod) opts).getD (.finite 0)
         marketTokenId := (lastOf Opt.tokenId? opts).getD ""
         marketOrder := opts.any Opt.isMarket }
  notionalUsd := (lastOf (Opt.notional? stod) opts).getD (.finite 0)
  haveQty := (lastOf (Opt.qty? stod) opts).isSome
  dryRun := opts.any Opt.isDryRun
  confirmFlag := opts.any Opt.isConfirm

variable {stod}

theorem lastOf_concat {A : Type} (f : Opt → Option A) (opts : List Opt) (opt : Opt) :
    lastOf f (opts ++ [opt]) = (f opt).or (lastOf f opts) := by
  rw [lastOf, List.filterMap_append]
  cases hf : f opt with
  | none => simp [hf, lastOf]
  | some a => simp [hf]

/-- One more option. -/
theorem apply_said (opts : List Opt) (opt : Opt) (l : Line) :
    opt.apply stod (said stod opts) = some l ↔
      opt.Reads stod ∧ l = said stod (opts ++ [opt]) := by
  cases opt with
  | price v | qty v | notional v | spend v =>
    cases hv : stod v with
    | none => simp [Opt.apply, Opt.Reads, hv]
    | some x =>
      simp [Opt.apply, Opt.Reads, hv, said, lastOf_concat, Opt.side?, Opt.tokenId?, Opt.price?,
        Opt.qty?, Opt.notional?, Opt.isMarket, Opt.isDryRun, Opt.isConfirm, eq_comm]
  | _ =>
    simp [Opt.apply, Opt.Reads, said, lastOf_concat, Opt.side?, Opt.tokenId?, Opt.price?,
      Opt.qty?, Opt.notional?, Opt.isMarket, Opt.isDryRun, Opt.isConfirm, eq_comm]

theorem foldlM_apply_iff (opts : List Opt) (l : Line) :
    opts.foldlM (Opt.apply stod) {} = some l ↔
      (∀ opt ∈ opts, opt.Reads stod) ∧ l = said stod opts := by
  induction opts using List.reverseRecOn generalizing l with
  | nil =>
    constructor
    · intro h
      cases h
      exact ⟨nofun, rfl⟩
    · intro h
      rw [h.2]
      rfl
  | append_singleton opts opt ih =>
    rw [List.foldlM_append]
    constructor
    · intro h
      obtain ⟨l₁, hl₁, hlast⟩ := Option.bind_eq_some_iff.mp h
      obtain ⟨hreads, rfl⟩ := (ih l₁).mp hl₁
      rw [List.foldlM_cons] at hlast
      obtain ⟨l₂, hl₂, heq⟩ := Option.bind_eq_some_iff.mp hlast
      cases heq
      obtain ⟨hopt, rfl⟩ := (apply_said opts opt l).mp hl₂
      refine ⟨?_, rfl⟩
      intro opt' hmem
      rcases List.mem_append.mp hmem with hold | hnew
      · exact hreads opt' hold
      · rw [List.mem_singleton.mp hnew]
        exact hopt
    · intro h
      have hopts := (ih _).mpr ⟨fun opt' hmem => h.1 opt' (List.mem_append_left _ hmem), rfl⟩
      have hopt := (apply_said opts opt l).mpr ⟨h.1 opt (by simp), h.2⟩
      refine Option.bind_eq_some_iff.mpr ⟨_, hopts, ?_⟩
      rw [List.foldlM_cons]
      exact Option.bind_eq_some_iff.mpr ⟨l, hopt, rfl⟩

end Said

/-! ### Orders that are sent -/

section Sent

variable {stod : String → Option Double} {env : Env}

/-- How much a line asks for. -/
structure Sized (l : Line) (o : Intent) : Prop where
  same : o = { l.o with qty := o.qty }
  market : l.o.marketOrder = true →
    (l.o.side = "BUY" ∧ l.notionalUsd.nonpos = false ∧ o.qty = l.notionalUsd) ∨
      (l.o.side = "SELL" ∧ (l.haveQty = true ∧ l.o.qty.nonpos = false) ∧ o.qty = l.o.qty)
  spend : l.o.marketOrder = false → l.notionalUsd.pos = true → l.o.side = "BUY" ∧
    l.o.limitPrice.nonpos = false ∧ o.qty = l.notionalUsd.div l.o.limitPrice
  shares : l.o.marketOrder = false → l.notionalUsd.pos = false →
    (l.haveQty = true ∧ l.o.qty.nonpos = false) ∧ o.qty = l.o.qty

theorem guard_iff {A : Type} {c : Prop} [Decidable c] {message : String} {x : Except String A}
    {a : A} : (if c then .error message else x) = .ok a ↔ ¬ c ∧ x = .ok a := by
  split
  · simp [*]
  · simp [*]

theorem sized_iff {l : Line} {o : Intent} : sized l = .ok o ↔ Sized l o := by
  have hqty (x : Double) : (Except.ok { l.o with qty := x } : Except String Intent) = .ok o ↔
      o = { l.o with qty := o.qty } ∧ o.qty = x := by
    constructor
    · intro h
      cases h
      exact ⟨rfl, rfl⟩
    · intro h
      rw [h.1, ← h.2]
  have hself : (Except.ok l.o : Except String Intent) = .ok o ↔
      o = { l.o with qty := o.qty } ∧ o.qty = l.o.qty := hqty l.o.qty
  have hgiven : ¬ (!l.haveQty || l.o.qty.nonpos) = true ↔
      l.haveQty = true ∧ l.o.qty.nonpos = false := by
    cases l.haveQty <;> simp
  unfold sized
  cases hmarket : l.o.marketOrder with
  | true =>
    rw [if_pos rfl]
    by_cases hbuy : l.o.side = "BUY"
    · have hsell : ¬ l.o.side = "SELL" := by
        rw [hbuy]
        decide
      rw [if_pos hbuy, guard_iff, hqty, Bool.not_eq_true]
      constructor
      · intro h
        exact ⟨h.2.1, fun _ => .inl ⟨hbuy, h.1, h.2.2⟩, by simp [hmarket], by simp [hmarket]⟩
      · intro h
        rcases h.market hmarket with ⟨-, hnotional, hq⟩ | ⟨hs, -⟩
        · exact ⟨hnotional, h.same, hq⟩
        · exact absurd hs hsell
    · rw [if_neg hbuy]
      by_cases hsell : l.o.side = "SELL"
      · rw [if_pos hsell, guard_iff, hself, hgiven]
        constructor
        · intro h
          exact ⟨h.2.1, fun _ => .inr ⟨hsell, h.1, h.2.2⟩, by simp [hmarket], by simp [hmarket]⟩
        · intro h
          rcases h.market hmarket with ⟨hb, -⟩ | ⟨-, hshares, hq⟩
          · exact absurd hb hbuy
          · exact ⟨hshares, h.same, hq⟩
      · rw [if_neg hsell]
        constructor
        · intro h
          cases h
        · intro h
          rcases h.market hmarket with ⟨hb, -⟩ | ⟨hs, -⟩
          · exact absurd hb hbuy
          · exact absurd hs hsell
  | false =>
    rw [if_neg Bool.false_ne_true]
    cases hpos : l.notionalUsd.pos with
    | true =>
      rw [if_pos rfl, guard_iff, guard_iff, hqty, not_not, Bool.not_eq_true]
      constructor
      · intro h
        exact ⟨h.2.2.1, by simp [hmarket], fun _ _ => ⟨h.1, h.2.1, h.2.2.2⟩, by simp [hpos]⟩
      · intro h
        obtain ⟨hbuy, hprice, hq⟩ := h.spend hmarket hpos
        exact ⟨hbuy, hprice, h.same, hq⟩
    | false =>
      rw [if_neg Bool.false_ne_true, guard_iff, hself, hgiven]
      constructor
      · intro h
        exact ⟨h.2.1, by simp [hmarket], by simp [hpos], fun _ _ => ⟨h.1, h.2.2⟩⟩
      · intro h
        obtain ⟨hshares, hq⟩ := h.shares hmarket hpos
        exact ⟨hshares, h.same, hq⟩

theorem complete_iff {o o' : Intent} :
    complete o = .ok o' ↔ o' = o ∧ o.marketTokenId ≠ "" ∧ o.side ≠ "" ∧ o.qty.nonpos = false ∧
      (o.marketOrder = false → o.limitPrice.nonpos = false) := by
  have hok : (Except.ok o : Except String Intent) = .ok o' ↔ o' = o :=
    ⟨fun h => (Except.ok.inj h).symm, fun h => h ▸ rfl⟩
  unfold complete
  rw [guard_iff]
  by_cases hmarket : o.marketOrder = true
  · rw [if_pos hmarket, guard_iff, hok, not_or, Bool.not_eq_true, hmarket]
    tauto
  · rw [if_neg hmarket, guard_iff, hok, not_or, not_or, Bool.not_eq_true, Bool.not_eq_true]
    rw [Bool.not_eq_true] at hmarket
    tauto

/-- What an order that is sent takes from the options and the environment. -/
structure AskedFor (stod : String → Option Double) (env : Env) (opts : List Opt) (o : Intent) :
    Prop where
  token : o.marketTokenId = if (lastOf Opt.tokenId? opts).getD "" = "" then
    (env "POLY_TOKEN_ID").getD "" else (lastOf Opt.tokenId? opts).getD ""
  named : o.marketTokenId ≠ ""
  side : o.side = (lastOf Opt.side? opts).getD ""
  sided : o.side ≠ ""
  market : o.marketOrder = opts.any Opt.isMarket
  price : o.limitPrice = (lastOf (Opt.price? stod) opts).getD (.finite 0)
  positive : o.qty.nonpos = false
  limit : o.marketOrder = false → o.limitPrice.nonpos = false
  amount : o.marketOrder = true →
    (o.side = "BUY" ∧ lastOf (Opt.notional? stod) opts = some o.qty) ∨
      (o.side = "SELL" ∧ lastOf (Opt.qty? stod) opts = some o.qty)
  spend : o.marketOrder = false →
    ((lastOf (Opt.notional? stod) opts).getD (.finite 0)).pos = true → o.side = "BUY" ∧
      o.qty = ((lastOf (Opt.notional? stod) opts).getD (.finite 0)).div o.limitPrice
  shares : o.marketOrder = false →
    ((lastOf (Opt.notional? stod) opts).getD (.finite 0)).pos = false →
      lastOf (Opt.qty? stod) opts = some o.qty

theorem validated_iff {l : Line} {o : Intent} :
    validated env l = .ok o ↔ Sized (withToken env l) o ∧ o.marketTokenId ≠ "" ∧ o.side ≠ "" ∧
      o.qty.nonpos = false ∧ (o.marketOrder = false → o.limitPrice.nonpos = false) := by
  rw [← sized_iff, validated]
  cases sized (withToken env l) with
  | error message => simp [bind, Except.bind]
  | ok o₁ =>
    show complete o₁ = .ok o ↔ _
    rw [complete_iff, Except.ok.injEq]
    constructor
    · intro h
      obtain ⟨rfl, h⟩ := h
      exact ⟨rfl, h⟩
    · intro h
      obtain ⟨rfl, h⟩ := h
      exact ⟨rfl, h⟩

/-- A number that is not 0 or less was given. -/
theorem given_iff {x : Option Double} {y : Double} (hy : y.nonpos = false) :
    y = x.getD (.finite 0) ↔ x = some y := by
  cases x with
  | none =>
    constructor
    · intro h
      rw [h] at hy
      exact absurd hy (by decide)
    · intro h
      cases h
  | some z =>
    constructor
    · intro h
      rw [h]
      rfl
    · intro h
      cases h
      rfl

theorem withToken_said (opts : List Opt) : withToken env (said stod opts) =
    { said stod opts with
      o := { (said stod opts).o with
        marketTokenId := if (lastOf Opt.tokenId? opts).getD "" = "" then
          (env "POLY_TOKEN_ID").getD "" else (lastOf Opt.tokenId? opts).getD "" } } := by
  unfold withToken
  by_cases h : (said stod opts).o.marketTokenId = ""
  · have hgiven : (lastOf Opt.tokenId? opts).getD "" = "" := h
    rw [if_pos h, if_pos hgiven]
  · have hgiven : ¬ (lastOf Opt.tokenId? opts).getD "" = "" := h
    rw [if_neg h, if_neg hgiven]
    rfl

theorem validated_said {opts : List Opt} {o : Intent} :
    validated env (said stod opts) = .ok o ↔ AskedFor stod env opts o := by
  rw [validated_iff, withToken_said]
  constructor
  · intro h
    obtain ⟨hsized, hnamed, hsided, hpositive, hlimit⟩ := h
    have hside : o.side = (lastOf Opt.side? opts).getD "" := congrArg Intent.side hsized.same
    have hmarket : o.marketOrder = opts.any Opt.isMarket :=
      congrArg Intent.marketOrder hsized.same
    have hprice : o.limitPrice = (lastOf (Opt.price? stod) opts).getD (.finite 0) :=
      congrArg Intent.limitPrice hsized.same
    refine ⟨congrArg Intent.marketTokenId hsized.same, hnamed, hside, hsided, hmarket, hprice,
      hpositive, hlimit, ?_, ?_, ?_⟩
    · intro hm
      rcases hsized.market (hmarket.symm.trans hm) with ⟨hbuy, -, hqty⟩ | ⟨hsell, -, hqty⟩
      · exact .inl ⟨hside.trans hbuy, (given_iff hpositive).mp hqty⟩
      · exact .inr ⟨hside.trans hsell, (given_iff hpositive).mp hqty⟩
    · intro hm hpos
      obtain ⟨hbuy, -, hqty⟩ := hsized.spend (hmarket.symm.trans hm) hpos
      rw [hprice]
      exact ⟨hside.trans hbuy, hqty⟩
    · intro hm hpos
      exact (given_iff hpositive).mp (hsized.shares (hmarket.symm.trans hm) hpos).2
  · intro h
    have hshares (hgiven : lastOf (Opt.qty? stod) opts = some o.qty) :
        ((lastOf (Opt.qty? stod) opts).isSome = true ∧
          ((lastOf (Opt.qty? stod) opts).getD (.finite 0)).nonpos = false) ∧
          o.qty = (lastOf (Opt.qty? stod) opts).getD (.finite 0) := by
      rw [hgiven]
      exact ⟨⟨rfl, h.positive⟩, rfl⟩
    refine ⟨⟨?_, ?_, ?_, ?_⟩, h.named, h.sided, h.positive, h.limit⟩
    · rw [Intent.mk.injEq]
      exact ⟨h.side, h.price, rfl, h.token, h.market⟩
    · intro hm
      rcases h.amount (h.market.trans hm) with ⟨hbuy, hgiven⟩ | ⟨hsell, hgiven⟩
      · refine .inl ⟨h.side.symm.trans hbuy, ?_⟩
        show ((lastOf (Opt.notional? stod) opts).getD (.finite 0)).nonpos = false ∧
          o.qty = (lastOf (Opt.notional? stod) opts).getD (.finite 0)
        rw [hgiven]
        exact ⟨h.positive, rfl⟩
      · exact .inr ⟨h.side.symm.trans hsell, hshares hgiven⟩
    · intro hm hpos
      obtain ⟨hbuy, hqty⟩ := h.spend (h.market.trans hm) hpos
      have hprice := h.limit (h.market.trans hm)
      rw [h.price] at hprice hqty
      exact ⟨h.side.symm.trans hbuy, hprice, hqty⟩
    · intro hm hpos
      exact hshares (h.shares (h.market.trans hm) hpos)

theorem decided_submit {l : Line} {o : Intent} {traffic : String} :
    decided env l = .submit o traffic ↔ validated env l = .ok o ∧ l.dryRun = false ∧
      (envFlagTrue env "POLY_REQUIRE_CONFIRM" = true → l.confirmFlag = true) ∧
      traffic = trafficPath env := by
  unfold decided
  cases validated env l with
  | error message =>
    constructor
    · intro h
      cases h
    · intro h
      cases h.1
  | ok o₁ =>
    dsimp only
    cases l.dryRun with
    | true =>
      constructor
      · intro h
        split at h
        · cases h
        · cases h
      · intro h
        cases h.2.1
    | false =>
      cases hrequire : envFlagTrue env "POLY_REQUIRE_CONFIRM" with
      | false =>
        constructor
        · intro h
          cases h
          exact ⟨rfl, rfl, nofun, rfl⟩
        · intro h
          obtain ⟨ho, -, -, rfl⟩ := h
          cases ho
          rfl
      | true =>
        cases l.confirmFlag with
        | true =>
          constructor
          · intro h
            cases h
            exact ⟨rfl, rfl, fun _ => rfl, rfl⟩
          · intro h
            obtain ⟨ho, -, -, rfl⟩ := h
            cases ho
            rfl
        | false =>
          constructor
          · intro h
            cases h
          · intro h
            cases h.2.2.1 rfl

theorem dryRun_said {opts : List Opt} : (said stod opts).dryRun = false ↔ .dryRun ∉ opts := by
  show opts.any Opt.isDryRun = false ↔ _
  rw [List.any_eq_false]
  constructor
  · intro h hmem
    exact h _ hmem rfl
  · intro h opt hmem hdry
    cases opt with
    | dryRun => exact h hmem
    | _ => cases hdry

theorem confirm_said {opts : List Opt} :
    (said stod opts).confirmFlag = true ↔ ∃ word, .confirm word ∈ opts := by
  show opts.any Opt.isConfirm = true ↔ _
  rw [List.any_eq_true]
  constructor
  · intro h
    obtain ⟨opt, hmem, hconfirm⟩ := h
    cases opt with
    | confirm word => exact ⟨word, hmem⟩
    | _ => cases hconfirm
  · intro h
    obtain ⟨word, hmem⟩ := h
    exact ⟨_, hmem, rfl⟩

/-- The trader sends an order just when the words are options whose numbers can be read,
none of them `--dry-run`, one of them a confirmation where the environment or `.env`
asks for that, and the order is the one they ask for. -/
theorem submit_iff (dotenv : Option (List Char)) (args : List String) (o : Intent)
    (traffic : String) :
    trader stod env dotenv args = .submit o traffic ↔
      args.head? ≠ some "--strategy" ∧
      ∃ opts : List Opt, args = opts.flatMap Opt.words ∧ (∀ opt ∈ opts, opt.Reads stod) ∧
        .dryRun ∉ opts ∧
        (envFlagTrue (afterDotenv env dotenv) "POLY_REQUIRE_CONFIRM" = true →
          ∃ word, .confirm word ∈ opts) ∧
        AskedFor stod (afterDotenv env dotenv) opts o ∧
        traffic = trafficPath (afterDotenv env dotenv) := by
  unfold trader traderIn
  by_cases hstrategy : args.head? = some "--strategy"
  · rw [if_pos hstrategy]
    constructor
    · intro h
      cases h
    · intro h
      exact absurd hstrategy h.1
  rw [if_neg hstrategy]
  constructor
  · intro h
    refine ⟨hstrategy, ?_⟩
    cases hparse : parseArgs stod {} args with
    | line l =>
      obtain ⟨opts, hargs, hfold⟩ := parseArgs_line hparse
      obtain ⟨hreads, rfl⟩ := (foldlM_apply_iff opts l).mp hfold
      rw [hparse] at h
      obtain ⟨hvalid, hdry, hconfirm, htraffic⟩ := decided_submit.mp h
      exact ⟨opts, hargs, hreads, dryRun_said.mp hdry, fun hr => confirm_said.mp (hconfirm hr),
        validated_said.mp hvalid, htraffic⟩
    | help =>
      rw [hparse] at h
      cases h
    | unknownArg a =>
      rw [hparse] at h
      cases h
    | threw =>
      rw [hparse] at h
      cases h
  · intro h
    obtain ⟨-, opts, hargs, hreads, hdry, hconfirm, hasked, htraffic⟩ := h
    have hfold : opts.foldlM (Opt.apply stod) {} = some (said stod opts) :=
      (foldlM_apply_iff opts _).mpr ⟨hreads, rfl⟩
    rw [hargs, parseArgs_words opts hfold]
    exact decided_submit.mpr ⟨validated_said.mpr hasked, dryRun_said.mpr hdry,
      fun hr => confirm_said.mpr (hconfirm hr), htraffic⟩

end Sent

def readFive (v : String) : Option Double := if v = "5" then some (.finite 5) else none

/-- With a confirmation asked for in `.env` and given, five dollars are spent. -/
theorem submit_iff_sample :
    ∃ opts : List Opt, ["--token-id", "42", "--side", "BUY", "--market", "--spend", "5", "-y"] =
        opts.flatMap Opt.words ∧ .dryRun ∉ opts ∧ (∃ word, .confirm word ∈ opts) ∧
      AskedFor readFive
        (afterDotenv (fun _ => none) (some "POLY_REQUIRE_CONFIRM=1".toList)) opts
        { side := "BUY", qty := .finite 5, marketTokenId := "42", marketOrder := true } := by
  have hsent : trader readFive (fun _ => none) (some "POLY_REQUIRE_CONFIRM=1".toList)
      ["--token-id", "42", "--side", "BUY", "--market", "--spend", "5", "-y"] =
        .submit { side := "BUY", qty := .finite 5, marketTokenId := "42", marketOrder := true }
          "data/live_poly_daemon.jsonl" := by decide +kernel
  obtain ⟨-, opts, hargs, -, hdry, hconfirm, hasked, -⟩ := (submit_iff _ _ _ _).mp hsent
  exact ⟨opts, hargs, hdry, hconfirm (by decide +kernel), hasked⟩

end LeadLag.Live
