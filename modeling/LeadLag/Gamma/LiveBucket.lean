import LeadLag.Gamma.AllOrNothing

/-!
# Rolling over to the live bucket (btc_poly_runner.cpp:3040-3092)

The scan accepts a bucket that is open by the clock it reads. The exact slug is
accepted for `next_epoch` without a look at the clock, and after a long outage
that bucket is over.
-/

namespace LeadLag.Gamma
open LeadLag.Core LeadLag.Execution LeadLag.Feeds LeadLag.Interaction LeadLag.Runner

/-- One pass of the loop; `seconds` are those the wall clock showed meanwhile. -/
structure Pass where
  trace : Trace
  seconds : Set ℤ
  found : Option (Lookup × BtcFiveMinuteBucketDiscovery)

/-- The clock readings of a pass are among its seconds. -/
def Pass.Timed (p : Pass) : Prop :=
  (∀ ms : ℤ, ⟨.systemMs, ms⟩ ∈ p.trace → ms.tdiv 1000 ∈ p.seconds) ∧
    ∀ s : ℤ, ⟨.systemSeconds, s⟩ ∈ p.trace → s ∈ p.seconds

def Pass.Pushes (p : Pass) (ev : Rollover) : Prop := ⟨.pushRollover ev, ()⟩ ∈ p.trace

def Pass.Live (p : Pass) (epoch : ℤ) : Prop := ∃ s ∈ p.seconds, epoch ≤ s ∧ s < epoch + 300

/-- The wall clock did not go back behind the first reading of the pass. -/
def Pass.Forward (p : Pass) : Prop :=
  ∀ ms : ℤ, p.trace.head? = some ⟨.systemMs, ms⟩ → ∀ s ∈ p.seconds, ms.tdiv 1000 ≤ s

def monitorLoop (parse : String → Option Json) (webPtb : Bool) : Lts Monitor Pass where
  init _ := True
  step m p m' := Exec (iteration parse webPtb m) p.trace (p.found, m') ∧ p.Timed

/-- The exact slug of `next_epoch` is accepted in its bucket only. -/
def InTime (m : Monitor) (p : Pass) : Prop :=
  ∀ d, p.found = some (.exactSlug, d) →
    ∀ ms : ℤ, p.trace.head? = some ⟨.systemMs, ms⟩ → ms.tdiv 1000 < m.nextEpoch + 300

def Call.pushesOnly (epoch : ℤ) : Call → Prop
  | .pushRollover ev => ev.epoch = epoch
  | _ => True

theorem Call.aside.pushesOnly {c : Call} (epoch : ℤ) (h : c.aside) : c.pushesOnly epoch := by
  cases c with
  | pushRollover => exact h.elim
  | _ => trivial

theorem rollTo_pushesOnly {webPtb : Bool} {m : Monitor} {d : BtcFiveMinuteBucketDiscovery} :
    Safe (fun _ => True) (Call.pushesOnly d.bucketEpochSeconds) (fun _ => True)
      (rollTo webPtb m d) := by
  unfold rollTo
  have hfill := (aside_maybeFillStrikeWebThenRtds webPtb d).and_returns
    maybeFillStrikeWebThenRtds_sameMarket
  refine safe_bind.mpr ((hfill.weaken (fun _ h => h) fun _ h => h.pushesOnly _).mono ?_)
  rintro d2 ⟨-, -, hbucket, -, -⟩
  refine safe_bind.mpr ⟨trivial, fun quotes _ => ?_⟩
  refine safe_bind.mpr ⟨trivial, fun upSwitched _ => ?_⟩
  cases upSwitched with
  | false => exact trivial
  | true =>
    refine safe_bind.mpr ⟨trivial, fun downSwitched _ => ?_⟩
    cases downSwitched with
    | false => exact trivial
    | true =>
      refine safe_bind.mpr ⟨trivial, fun _ _ => ?_⟩
      refine safe_bind.mpr ⟨trivial, fun _ _ => ?_⟩
      exact safe_bind.mpr ⟨hbucket, fun _ _ => trivial⟩

/-- A pass that pushes has found a bucket, after `next_epoch` by its first reading. -/
theorem pushes_found {parse : String → Option Json} {webPtb : Bool} {m m' : Monitor}
    {tr : Trace} {found : Option (Lookup × BtcFiveMinuteBucketDiscovery)} {ev : Rollover}
    (hx : Exec (iteration parse webPtb m) tr (found, m')) (hev : ⟨.pushRollover ev, ()⟩ ∈ tr) :
    ∃ (ms : ℤ) (how : Lookup) (d : BtcFiveMinuteBucketDiscovery),
      tr.head? = some ⟨.systemMs, ms⟩ ∧ m.nextEpoch + 1 ≤ ms.tdiv 1000 ∧
        found = some (how, d) ∧ Finds m.nextEpoch tr how d ∧ ev.epoch = d.bucketEpochSeconds := by
  unfold iteration at hx
  obtain ⟨tr₁, ms, tr₂, hms, hbody, rfl⟩ := exec_bind.mp hx
  have htr : tr₁ = [⟨.systemMs, ms⟩] := by
    cases hms with
    | call r hr =>
      obtain ⟨rfl, rfl⟩ := exec_done.mp hr
      rfl
  subst htr
  have hev : ⟨.pushRollover ev, ()⟩ ∈ tr₂ := by simpa using hev
  split at hbody
  · rename_i hnow
    have hnext : 0 ≤ m.nextEpoch := by
      rw [m.next_eq]
      omega
    obtain ⟨tr₃, hit, tr₄, hfind, hafter, rfl⟩ := exec_bind.mp hbody
    have haside := (aside_findNext.ensures tr₃ _ hfind fun _ _ => trivial).1
    have hev : ⟨.pushRollover ev, ()⟩ ∈ tr₄ := by
      rcases List.mem_append.mp hev with hev | hev
      · exact (haside _ hev).elim
      · exact hev
    cases hit with
    | none =>
      obtain ⟨rfl, -⟩ := exec_done.mp hafter
      exact absurd hev List.not_mem_nil
    | some hit =>
      obtain ⟨how, d⟩ := hit
      obtain ⟨tr₅, m₅, tr₆, hroll, hend, rfl⟩ := exec_bind.mp hafter
      obtain ⟨rfl, hr⟩ := exec_done.mp hend
      cases hr
      have hev : ⟨.pushRollover ev, ()⟩ ∈ tr₅ := by simpa using hev
      have hepoch : ev.epoch = d.bucketEpochSeconds :=
        (rollTo_pushesOnly.ensures tr₅ _ hroll fun _ _ => trivial).1 _ hev
      refine ⟨ms, how, d, rfl, hnow.2, rfl, ?_, hepoch⟩
      have hfinds := findNext_finds hnext tr₃ _ hfind how d rfl
      cases how with
      | exactSlug => exact hfinds
      | bucketScan =>
        obtain ⟨hle, s, hs, hwindow⟩ := hfinds
        exact ⟨hle, s, by simp [hs], hwindow⟩
  · obtain ⟨rfl, -⟩ := exec_done.mp hbody
    exact absurd hev List.not_mem_nil

section
variable {parse : String → Option Json} {webPtb : Bool} {m m' : Monitor} {p : Pass}
  {ev : Rollover}

theorem live_of_inTime (hst : (monitorLoop parse webPtb).step m p m') (hev : p.Pushes ev)
    (hin : InTime m p) : p.Live ev.epoch := by
  obtain ⟨hx, hms, hsec⟩ := hst
  obtain ⟨ms, how, d, hhead, hnext, hfound, hfinds, hepoch⟩ := pushes_found hx hev
  rw [hepoch]
  cases how with
  | exactSlug =>
    have hbucket : d.bucketEpochSeconds = m.nextEpoch := hfinds
    have hlt := hin d hfound ms hhead
    have hmem : ms.tdiv 1000 ∈ p.seconds := hms ms (List.mem_of_mem_head? hhead)
    exact ⟨_, hmem, by omega, by omega⟩
  | bucketScan =>
    obtain ⟨-, s, hs, hwindow⟩ := hfinds
    exact ⟨s, hsec s hs, hwindow⟩

theorem inTime_of_live (hst : (monitorLoop parse webPtb).step m p m') (hev : p.Pushes ev)
    (hforward : p.Forward) (hlive : p.Live ev.epoch) : InTime m p := by
  obtain ⟨hx, hms, hsec⟩ := hst
  obtain ⟨ms, how, d, hhead, hnext, hfound, hfinds, hepoch⟩ := pushes_found hx hev
  intro d' hd' ms' hms'
  rw [hfound] at hd'
  cases hd'
  have hbucket : d.bucketEpochSeconds = m.nextEpoch := hfinds
  obtain ⟨s, hs, -, hlt⟩ := hlive
  have hle := hforward ms' hms' s hs
  omega

end

/-- In every run whose exact lookups are accepted in time, every Rollover pushed is
for a bucket that is live meanwhile; and a pass that accepts one late pushes an
ended bucket, unless the clock goes back. -/
theorem rollover_to_live_bucket {parse : String → Option Json} {webPtb : Bool} :
    (∀ m ls m', ((monitorLoop parse webPtb).restrict InTime).Run m ls m' →
      ∀ p ∈ ls, ∀ ev, p.Pushes ev → p.Live ev.epoch) ∧
    ∀ m p m', (monitorLoop parse webPtb).step m p m' → p.Forward → ∀ ev, p.Pushes ev →
      (p.Live ev.epoch ↔ InTime m p) := by
  constructor
  · intro m ls m' hrun
    induction hrun with
    | nil => exact fun p hp => absurd hp List.not_mem_nil
    | snoc _ hst ih =>
      intro p hp ev hev
      rcases List.mem_append.mp hp with hp | hp
      · exact ih p hp ev hev
      · obtain rfl := List.mem_singleton.mp hp
        exact live_of_inTime hst.1 hev hst.2
  · intro m p m' hst hforward ev hev
    exact ⟨inTime_of_live hst hev hforward, live_of_inTime hst hev⟩

/-! ### A pass within one second -/

def readsOnly (sec : ℤ) (o : Obs Reply) : Bool :=
  match o with
  | ⟨.systemMs, ms⟩ => decide (ms.tdiv 1000 = sec)
  | ⟨.systemSeconds, s⟩ => decide (s = sec)
  | _ => true

def pushesEpoch (epoch : ℤ) (o : Obs Reply) : Bool :=
  match o with
  | ⟨.pushRollover ev, _⟩ => decide (ev.epoch = epoch)
  | _ => false

theorem exists_pass (nowMs : ℤ)
    (h : ((iteration (fun _ => none) false bucket300).replay
      (script600 nowMs "up-600" "down-600") 0).any (fun r =>
        r.1.all (readsOnly (nowMs.tdiv 1000)) && r.1.any (pushesEpoch 600)) = true) :
    ∃ m' p ev, (monitorLoop (fun _ => none) false).step bucket300 p m' ∧ p.Pushes ev ∧
      ev.epoch = 600 ∧ p.seconds = {nowMs.tdiv 1000} ∧ p.Forward := by
  obtain ⟨⟨tr, found, m'⟩, hr, hcheck⟩ := (Option.any_eq_true _ _).mp h
  obtain ⟨hreads, hpush⟩ := (Bool.and_eq_true _ _).mp hcheck
  have hreads := List.all_eq_true.mp hreads
  have hms : ∀ ms : ℤ, ⟨.systemMs, ms⟩ ∈ tr → ms.tdiv 1000 = nowMs.tdiv 1000 :=
    fun ms hmem => of_decide_eq_true (hreads _ hmem)
  obtain ⟨⟨c, r⟩, hmem, hepoch⟩ := List.any_eq_true.mp hpush
  cases c with
  | pushRollover ev =>
    refine ⟨m', ⟨tr, {nowMs.tdiv 1000}, found⟩, ev, ⟨exec_replay hr, hms, ?_⟩, hmem,
      of_decide_eq_true hepoch, rfl, ?_⟩
    · exact fun s hs => of_decide_eq_true (hreads _ hs)
    · rintro ms hhead s rfl
      exact le_of_eq (hms ms (List.mem_of_mem_head? hhead))
  | _ => cases hepoch

/-- One second after the boundary. -/
theorem rollover_in_time :
    ∃ m' p ev, (monitorLoop (fun _ => none) false).Run bucket300 [p] m' ∧ p.Pushes ev ∧
      ev.epoch = 600 ∧ p.Live 600 ∧ InTime bucket300 p := by
  obtain ⟨m', p, ev, hst, hev, hepoch, hsec, hforward⟩ := exists_pass 601000 (by decide +kernel)
  have hlive : p.Live ev.epoch := by
    rw [hepoch]
    exact ⟨601, by rw [hsec]; decide, by decide, by decide⟩
  have hin : InTime bucket300 p := (rollover_to_live_bucket.2 _ _ _ hst hforward ev hev).mp hlive
  have hrun : ((monitorLoop (fun _ => none) false).restrict InTime).Run bucket300 [p] m' :=
    Lts.run_singleton.mpr ⟨hst, hin⟩
  have hlive := rollover_to_live_bucket.1 _ _ _ hrun p List.mem_cons_self ev hev
  rw [hepoch] at hlive
  exact ⟨m', p, ev, hrun.of_restrict, hev, hepoch, hlive, hin⟩

/-- After an outage of 15 minutes Gamma still lists bucket 600 as active. -/
theorem rollover_to_ended_bucket :
    ∃ m' p ev, (monitorLoop (fun _ => none) false).Run bucket300 [p] m' ∧ p.Pushes ev ∧
      ev.epoch = 600 ∧ ¬ p.Live ev.epoch := by
  obtain ⟨m', p, ev, hst, hev, hepoch, hsec, -⟩ := exists_pass 1500000 (by decide +kernel)
  refine ⟨m', p, ev, Lts.run_singleton.mpr hst, hev, hepoch, ?_⟩
  rintro ⟨s, hs, -, hlt⟩
  rw [hsec] at hs
  rw [hepoch, hs] at hlt
  exact absurd hlt (by decide)

end LeadLag.Gamma
