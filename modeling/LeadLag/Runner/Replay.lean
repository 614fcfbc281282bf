import LeadLag.Runner.Consumer

/-!
# Computed runs

The model runs: `replayEvents` drives the thread with given events and given
answers to its calls, and the state it computes is reachable. `coarse` stands
in for libm there: it is close to the real functions for ratios near one, short
times and a spot so far from the strike that `erfc` is 0 or 2.
-/

namespace LeadLag.Runner
open LeadLag.Execution LeadLag.Interaction

abbrev Script := ℕ → (e : Call) → Option (Reply e)

section Replay

variable {σ : Type}

def replayStep (f : σ → Obs Reply → Option σ) (check : Consumer × σ → Label → Bool)
    (x : Consumer × σ) (label : Trace → Label) (p : Prog Consumer) (script : Script) :
    Option (Consumer × σ) :=
  match p.replay script 0 with
  | none => none
  | some (tr, c) =>
    match runEnv f x.2 tr with
    | none => none
    | some s => if check x (label tr) then some (c, s) else none

def replayUpdate (M : Libm) (cfg : Config) (f : σ → Obs Reply → Option σ)
    (check : Consumer × σ → Label → Bool) (x : Consumer × σ) (e : Event) (script : Script) :
    Option ((Consumer × σ) × Trace × (Consumer × σ)) :=
  if x.1.updateDue || e.isStartup then none
  else
    match replayStep f check x (.event e) (x.1.take M cfg e) script with
    | none => none
    | some y =>
      if y.1.updateDue then
        match (y.1.updateDone.onHotUpdate M cfg).replay script 0 with
        | none => none
        | some (tr, c) =>
          match runEnv f y.2 tr with
          | none => none
          | some s => if check y (.update tr) then some (y, tr, c, s) else none
      else none

def replayEvent (M : Libm) (cfg : Config) (f : σ → Obs Reply → Option σ)
    (check : Consumer × σ → Label → Bool) (x : Consumer × σ) (e : Event) (script : Script) :
    Option (Consumer × σ) :=
  if x.1.updateDue || (e.isStartup && x.1.tradingEnabled) then none
  else
    match replayStep f check x (.event e) (x.1.take M cfg e) script with
    | none => none
    | some y =>
      if y.1.updateDue then
        replayStep f check y .update (y.1.updateDone.onHotUpdate M cfg) script
      else some y

def replayEvents (M : Libm) (cfg : Config) (f : σ → Obs Reply → Option σ)
    (check : Consumer × σ → Label → Bool) :
    Consumer × σ → List (Event × Script) → Option (Consumer × σ)
  | x, [] => some x
  | x, (e, script) :: rest =>
    match replayEvent M cfg f check x e script with
    | none => none
    | some y => replayEvents M cfg f check y rest

variable {M : Libm} {cfg : Config} {f : σ → Obs Reply → Option σ}
  {check : Consumer × σ → Label → Bool} {env : σ → Obs Reply → σ → Prop} {start : σ → Prop}
  {x y : Consumer × σ}

abbrev checkedIn (M : Libm) (cfg : Config) (start : σ → Prop) (env : σ → Obs Reply → σ → Prop)
    (check : Consumer × σ → Label → Bool) : Lts (Consumer × σ) Label :=
  (runnerIn M cfg start env).restrict fun x l => check x l = true

theorem replayStep_exec {label : Trace → Label} {p : Prog Consumer} {script : Script}
    (hf : ∀ s o t, f s o = some t → env s o t)
    (h : replayStep f check x label p script = some y) :
    ∃ tr, Exec p tr y.1 ∧ Accepts env x.2 tr y.2 ∧ check x (label tr) = true := by
  unfold replayStep at h
  split at h
  · cases h
  · rename_i tr c hp
    split at h
    · cases h
    · rename_i s hs
      split at h
      · rename_i hc
        cases h
        exact ⟨tr, exec_replay hp, accepts_of_runEnv hf hs, hc⟩
      · cases h

theorem replayUpdate_steps (start : σ → Prop) (env : σ → Obs Reply → σ → Prop) {e : Event}
    {script : Script} {tr : Trace} {z : Consumer × σ} (hf : ∀ s o t, f s o = some t → env s o t)
    (h : replayUpdate M cfg f check x e script = some (y, tr, z)) :
    (∃ tr₀, (checkedIn M cfg start env check).step x (.event e tr₀) y) ∧
      (checkedIn M cfg start env check).step y (.update tr) z := by
  unfold replayUpdate at h
  split at h
  · cases h
  · rename_i hok
    simp only [Bool.or_eq_true, not_or, Bool.not_eq_true] at hok
    split at h
    · cases h
    · rename_i y' hy
      obtain ⟨tr₀, hexec, hacc, hc⟩ := replayStep_exec hf hy
      split at h
      · rename_i hdue
        split at h
        · cases h
        · rename_i tr' c hup
          split at h
          · cases h
          · rename_i s hs
            split at h
            · rename_i hc'
              cases h
              exact ⟨⟨tr₀, ⟨.event hok.1 (fun hst => by simp [hok.2] at hst) hexec, hacc⟩, hc⟩,
                ⟨.update hdue (exec_replay hup), accepts_of_runEnv hf hs⟩, hc'⟩
            · cases h
      · cases h

theorem replayEvent_run (start : σ → Prop) (env : σ → Obs Reply → σ → Prop) {e : Event}
    {script : Script} (hf : ∀ s o t, f s o = some t → env s o t)
    (h : replayEvent M cfg f check x e script = some y) :
    ∃ ls, (checkedIn M cfg start env check).Run x ls y := by
  unfold replayEvent at h
  split at h
  · cases h
  · rename_i hok
    simp only [Bool.or_eq_true, Bool.and_eq_true, not_or, not_and, Bool.not_eq_true] at hok
    split at h
    · cases h
    · rename_i z hz
      obtain ⟨tr, hexec, hacc, hc⟩ := replayStep_exec hf hz
      have hzr : (checkedIn M cfg start env check).Run x [.event e tr] z :=
        Lts.run_singleton.mpr ⟨⟨.event hok.1 hok.2 hexec, hacc⟩, hc⟩
      split at h
      · rename_i hdue
        obtain ⟨tr', hexec', hacc', hc'⟩ := replayStep_exec hf h
        exact ⟨_, .snoc hzr ⟨⟨.update hdue hexec', hacc'⟩, hc'⟩⟩
      · cases h
        exact ⟨_, hzr⟩

theorem replayEvents_run (start : σ → Prop) (env : σ → Obs Reply → σ → Prop)
    {es : List (Event × Script)} (hf : ∀ s o t, f s o = some t → env s o t)
    (h : replayEvents M cfg f check x es = some y) :
    ∃ ls, (checkedIn M cfg start env check).Run x ls y := by
  induction es generalizing x with
  | nil =>
    cases h
    exact ⟨[], .nil⟩
  | cons es rest ih =>
    obtain ⟨e, script⟩ := es
    simp only [replayEvents] at h
    split at h
    · cases h
    · rename_i z hz
      obtain ⟨ls, hls⟩ := replayEvent_run start env hf hz
      obtain ⟨ls', hls'⟩ := ih h
      exact ⟨ls ++ ls', Lts.run_append.mpr ⟨z, hls, hls'⟩⟩

theorem exists_in_environment (M : Libm) (cfg : Config) (start : σ → Prop)
    (env : σ → Obs Reply → σ → Prop) (check : Consumer × σ → Label → Bool) {s : σ}
    (es : List (Event × Script)) (P : Consumer × σ → Bool)
    (hf : ∀ s o t, f s o = some t → env s o t) (hs : start s)
    (h : (replayEvents M cfg f check (.start cfg [], s) es).any P = true) :
    ∃ x, (checkedIn M cfg start env check).Reachable x ∧ P x = true := by
  obtain ⟨x, hx, hP⟩ := (Option.any_eq_true _ _).mp h
  obtain ⟨ls, hrun⟩ := replayEvents_run start env hf hx
  exact ⟨x, hrun.reachable (.init ⟨⟨[], rfl⟩, hs⟩), hP⟩

end Replay

/-! ### Without an environment -/

section Plain

variable (M : Libm) (cfg : Config) (check : Consumer → Label → Bool) (es : List (Event × Script))

def anyEnv (_ : Unit) (_ : Obs Reply) (_ : Unit) : Prop := True

theorem anyEnv_all (s : Unit) (o : Obs Reply) (t : Unit) (_ : some () = some t) : anyEnv s o t :=
  trivial

def replayPlain : Option (Consumer × Unit) :=
  replayEvents M cfg (fun _ _ => some ()) (fun x => check x.1) (.start cfg [], ()) es

def replayPlainUpdate (e : Event) (script : Script) (x : Consumer × Unit) :
    Option ((Consumer × Unit) × Trace × (Consumer × Unit)) :=
  replayUpdate M cfg (fun _ _ => some ()) (fun x => check x.1) x e script

theorem exists_checked_of_replay (P : Consumer → Bool)
    (h : (replayPlain M cfg check es).any (fun x => P x.1) = true) :
    ∃ c, ((runner M cfg).restrict fun c l => check c l = true).Reachable c ∧ P c = true := by
  obtain ⟨x, hr, hP⟩ := exists_in_environment M cfg (fun _ => True) anyEnv (fun x => check x.1) es
    (fun x => P x.1) anyEnv_all trivial h
  exact ⟨x.1, runnerIn_restrict hr, hP⟩

theorem exists_reachable_of_replay (P : Consumer → Bool)
    (h : (replayPlain M cfg (fun _ _ => true) es).any (fun x => P x.1) = true) :
    ∃ c, (runner M cfg).Reachable c ∧ P c = true := by
  obtain ⟨c, hr, hP⟩ := exists_checked_of_replay M cfg (fun _ _ => true) es P h
  exact ⟨c, hr.of_restrict, hP⟩

theorem exists_update_of_replay (e : Event) (script : Script)
    (P : Consumer → Trace → Consumer → Bool)
    (h : (replayPlain M cfg check es).any (fun x =>
      (replayPlainUpdate M cfg check e script x).any fun (y, tr, z) => P y.1 tr z.1) = true) :
    ∃ s ls c tr c', (runner M cfg).init s ∧
      ((runner M cfg).restrict fun c l => check c l = true).Run s ls c ∧
      ((runner M cfg).restrict fun c l => check c l = true).step c (.update tr) c' ∧
      P c tr c' = true := by
  obtain ⟨x, hr, hx⟩ := exists_in_environment M cfg (fun _ => True) anyEnv (fun x => check x.1) es
    _ anyEnv_all trivial h
  obtain ⟨⟨y, tr, z⟩, hup, hP⟩ := (Option.any_eq_true _ _).mp hx
  obtain ⟨⟨tr₀, hstep₀⟩, hstep⟩ := replayUpdate_steps (fun _ => True) anyEnv anyEnv_all hup
  have hy : ((runner M cfg).restrict fun c l => check c l = true).Reachable y.1 :=
    runnerIn_restrict (hr.step hstep₀)
  obtain ⟨s, ls, hs, hrun⟩ := hy.exists_run
  exact ⟨s, ls, y.1, tr, z.1, hs, hrun, ⟨hstep.1.1, hstep.2⟩, hP⟩

end Plain

/-- One event, without the hot update after it. -/
def replayTake (M : Libm) (cfg : Config) (c : Consumer) (e : Event) (script : Script) :
    Option (Trace × Consumer) :=
  if c.updateDue || (e.isStartup && c.tradingEnabled) then none
  else (c.take M cfg e).replay script 0

theorem replayTake_step {M : Libm} {cfg : Config} {c c' : Consumer} {e : Event} {script : Script}
    {tr : Trace} (h : replayTake M cfg c e script = some (tr, c')) :
    (runner M cfg).step c (.event e tr) c' := by
  unfold replayTake at h
  split at h
  · cases h
  · rename_i hok
    simp only [Bool.or_eq_true, Bool.and_eq_true, not_or, not_and, Bool.not_eq_true] at hok
    exact .event hok.1 hok.2 (exec_replay h)

def replayDue (M : Libm) (cfg : Config) (c : Consumer) (script : Script) :
    Option (Trace × Consumer) :=
  if c.updateDue then (c.updateDone.onHotUpdate M cfg).replay script 0 else none

theorem replayDue_step {M : Libm} {cfg : Config} {c c' : Consumer} {script : Script} {tr : Trace}
    (h : replayDue M cfg c script = some (tr, c')) :
    (runner M cfg).step c (.update tr) c' := by
  unfold replayDue at h
  split at h
  · rename_i hdue
    exact .update hdue (exec_replay h)
  · cases h

/-- The labels of the run too. -/
def replayRun (M : Libm) (cfg : Config) :
    Consumer → List (Event × Script) → Option (List Label × Consumer)
  | c, [] => some ([], c)
  | c, (e, script) :: rest =>
    match replayTake M cfg c e script with
    | none => none
    | some (tr, c₁) =>
      if c₁.updateDue then
        match replayDue M cfg c₁ script with
        | none => none
        | some (tr', c₂) =>
          (replayRun M cfg c₂ rest).map fun (ls, c') => (.event e tr :: .update tr' :: ls, c')
      else (replayRun M cfg c₁ rest).map fun (ls, c') => (.event e tr :: ls, c')

theorem replayRun_run {M : Libm} {cfg : Config} {c c' : Consumer} {es : List (Event × Script)}
    {ls : List Label} (h : replayRun M cfg c es = some (ls, c')) :
    (runner M cfg).Run c ls c' := by
  induction es generalizing c ls with
  | nil =>
    cases h
    exact .nil
  | cons es rest ih =>
    obtain ⟨e, script⟩ := es
    simp only [replayRun] at h
    split at h
    · cases h
    · rename_i tr c₁ hc₁
      have hstep := replayTake_step hc₁
      split at h
      · split at h
        · cases h
        · rename_i tr' c₂ hc₂
          obtain ⟨⟨ls', c''⟩, hrest, heq⟩ := Option.map_eq_some_iff.mp h
          cases heq
          exact Lts.run_cons.mpr ⟨c₁, hstep,
            Lts.run_cons.mpr ⟨c₂, replayDue_step hc₂, ih hrest⟩⟩
      · obtain ⟨⟨ls', c''⟩, hrest, heq⟩ := Option.map_eq_some_iff.mp h
        cases heq
        exact Lts.run_cons.mpr ⟨c₁, hstep, ih hrest⟩

theorem exists_run_of_replay (M : Libm) (cfg : Config) (hist : History)
    (es : List (Event × Script)) (P : List Label → Consumer → Bool)
    (h : (replayRun M cfg (.start cfg hist) es).any (fun (ls, c) => P ls c) = true) :
    ∃ ls c, (runner M cfg).Run (.start cfg hist) ls c ∧ P ls c = true := by
  obtain ⟨⟨ls, c⟩, hrun, hP⟩ := (Option.any_eq_true _ _).mp h
  exact ⟨ls, c, replayRun_run hrun, hP⟩

def sqrtFrom : ℕ → ℕ → ℕ → ℕ
  | 0, _, r => r
  | k + 1, n, r => sqrtFrom k n (if (r + 2 ^ k) * (r + 2 ^ k) ≤ n then r + 2 ^ k else r)

/-- Two terms of the series for `log`, three of that for `exp`, the root to six
decimals, and `erfc` far from zero. -/
def coarse : Libm where
  log x := 2 * ((x - 1) / (x + 1)) + 2 / 3 * ((x - 1) / (x + 1)) ^ 3
  sqrt x := (sqrtFrom 24 ⌊x * 10 ^ 12⌋.toNat 0 : ℚ) / 10 ^ 6
  exp x := 1 + x + x * x / 2
  erfc x := if x < 0 then 2 else 0

example : coarse.sqrt 2 = 1414213 / 10 ^ 6 := by decide +kernel

/-! ### Answers -/

structure Answers where
  now : ℤ := 0
  wallMs : ℤ := 0
  tokenId : Outcome → String := fun _ => ""
  balance : ℕ → Except String ℚ := fun _ => .error "timeout"
  submit : ℕ → Except String SubmitResp := fun _ => .error "rejected"

def Answers.script (a : Answers) : Script := fun n e =>
  match e with
  | .steadyNs => some a.now
  | .systemMs => some a.wallMs
  | .tokenId o => some (a.tokenId o)
  | .queryConditionalBalance _ => some (a.balance n)
  | .submit _ => some (a.submit n)
  | .queryOrder _ => some (.error "not found")
  | .queryGarchSigma _ _ => some (.error "off")
  | .loopForever => none

/-! ### A first trade -/

def boughtNow (c c' : Consumer) : Option BuyRow :=
  match c'.trades with
  | .buy r :: rest => if rest = c.trades then some r else none
  | _ => none

theorem boughtNow_spec {c c' : Consumer} {r : BuyRow} (h : boughtNow c c' = some r) :
    c'.trades = .buy r :: c.trades := by
  unfold boughtNow at h
  split at h
  · rename_i r' rest ht
    split at h
    · rename_i hrest
      cases h
      rw [ht, hrest]
    · cases h
  · cases h

def quickEntry : Config := { useEntryElapsedWindow := false, edgePersistMs := 0 }

theorem quickEntry_accepted : quickEntry.Accepted :=
  { Config.default_accepted with window := nofun, edgePersist := le_rfl }

def upQuote (tok slug : String) (epoch : ℤ) (bid ask : ℚ) : Event :=
  .polyQuote { tokenId := tok, eventSlug := slug, marketBucketEpoch := epoch, outcome := some .up
               bestBid := bid, bestAsk := ask }

def downQuote (tok slug : String) (epoch : ℤ) (bid ask : ℚ) : Event :=
  .polyQuote { tokenId := tok, eventSlug := slug, marketBucketEpoch := epoch, outcome := some .down
               bestBid := bid, bestAsk := ask }

def rolloverTo (epoch : ℤ) (slug : String) (K : ℚ) (up down : Option Quote) : Event :=
  .rollover { epoch := epoch, slug := slug, priceToBeat := some K, up := up, down := down }

/-- Bucket 300 opens at strike 100, the spot is 110 and Up is offered at 0.8. -/
def signalUp (a : Answers) : List (Event × Script) :=
  [(.startup "btc-0" 0 (some 100) false, a.script),
   (rolloverTo 300 "btc-300" 100 none none, a.script),
   (.binTrade 110 300500, a.script),
   (downQuote "down-300" "btc-300" 300 (18 / 100) (2 / 10), a.script),
   (upQuote "up-300" "btc-300" 300 (78 / 100) (8 / 10), a.script)]

def dropTo (bid : ℚ) : Quote :=
  { tokenId := "up-300", eventSlug := "btc-300", marketBucketEpoch := 300, outcome := some .up
    bestBid := bid, bestAsk := 8 / 10 }

def paperAnswers : Answers where
  tokenId
    | .up => "up-300"
    | .down => "down-300"

/-- Live orders with the given balance replies; the exchange accepts all orders
and names none of them, so that none is polled. -/
def liveAnswers (balance : ℕ → Except String ℚ) : Answers :=
  { paperAnswers with
    balance := balance
    submit := fun _ => .ok { orderId := "", resp := .null } }

def quickLive : Config := { quickEntry with liveExecution := true }

/-- The BUY of `signalUp` fills 1.25 shares: calls 3 and 5 of the update are the
balance reads around the order. -/
def fillUp : Answers := liveAnswers fun n => .ok (if n = 3 then 0 else 5 / 4)

end LeadLag.Runner
