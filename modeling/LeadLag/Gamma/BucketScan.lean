import LeadLag.Gamma.AllOrNothing

/-!
# The bucket a scan returns (bucket_market_discovery.cpp:550-588)

The three probes share one output. What a failed probe wrote to it is gone when
a later one succeeds, and only the probe of the current bucket can.
-/

namespace LeadLag.Gamma
open LeadLag.Core LeadLag.Execution LeadLag.Interaction

/-- The epoch the scan reads from an accepted slug is the one the slug was made of. -/
theorem epoch_of_confirms {b epoch : ℤ} {d : BtcFiveMinuteBucketDiscovery}
    (hd : Confirms (slugForBucket b) d)
    (hepoch : (if d.bucketEpochSeconds < 0 then parseBucketEpochFromSlug d.confirmedSlug
      else some d.bucketEpochSeconds) = some epoch) : epoch = b := by
  obtain ⟨hslug, hbucket⟩ := hd
  have hparse := parse_slugForBucket b
  rw [hslug, hbucket, hparse] at hepoch
  by_cases hfits : fitsInt64 b = true
  · simp only [hfits, if_true, Option.getD_some] at hepoch
    split at hepoch <;> exact (Option.some.inj hepoch).symm
  · -- a slug whose epoch does not fit gives -1, and is parsed again in vain
    simp [hfits] at hepoch

/-- Among the three offsets only that of the current bucket passes the window test. -/
theorem offset_of_window {nowS off : ℤ} (h0 : 0 ≤ nowS) (hoff : off ∈ [0, 300, -300])
    (hwindow : nowS.tdiv 300 * 300 + off ≤ nowS ∧ nowS < nowS.tdiv 300 * 300 + off + 300) :
    nowS.tdiv 300 * 300 + off = 300 * (nowS / 300) := by
  rw [Int.tdiv_eq_ediv_of_nonneg h0] at hwindow ⊢
  simp only [List.mem_cons, List.not_mem_nil, or_false] at hoff
  rcases hoff with rfl | rfl | rfl
  · omega
  · omega
  · omega

/-- Whatever Gamma answers and whatever the output held, a scan that succeeds
returns the bucket of the second it was made in, with the slug of that bucket. -/
theorem bucketScan_sound {parse : String → Option Json} {out r : BtcFiveMinuteBucketDiscovery}
    {tr : Trace} (hx : Exec (discoverActiveBtcUpdown5mViaBucket parse out) tr (true, r)) :
    ∃ (nowS : ℤ) (rest : Trace), tr = ⟨.systemSeconds, nowS⟩ :: rest ∧ (0 ≤ nowS →
      r.bucketEpochSeconds = 300 * (nowS / 300) ∧
        (r.bucketEpochSeconds ≤ nowS ∧ nowS < r.bucketEpochSeconds + 300) ∧
        r.confirmedSlug = "btc-updown-5m-" ++ toString r.bucketEpochSeconds) := by
  obtain ⟨nowS, rest, htr, hscan⟩ := exec_perform_bind.mp hx
  refine ⟨nowS, rest, htr, ?_⟩
  intro h0
  obtain ⟨off, hoff, d, epoch, hd, hepoch, hwindow, hr⟩ :=
    probeOffsets_accepts (fun _ _ => trySlug_confirms) _ _ hscan rfl
  have hbase : epoch = nowS.tdiv 300 * 300 + off := epoch_of_confirms hd hepoch
  rw [hbase] at hwindow
  have hbucket : epoch = 300 * (nowS / 300) := hbase.trans (offset_of_window h0 hoff hwindow)
  have hresult : r = { d with bucketEpochSeconds := epoch } := hr
  have hslug : d.confirmedSlug = slugForBucket epoch := by
    rw [hbase]
    exact hd.1
  rw [← hbase] at hwindow
  rw [hresult]
  exact ⟨hbucket, hwindow, hslug⟩

/-- At 601 s, with the marks of an earlier bucket in the output. -/
theorem bucketScan_sound_600 :
    ∃ tr r, Exec (discoverActiveBtcUpdown5mViaBucket (fun _ => none)
        { confirmedSlug := "btc-updown-5m-300", bucketEpochSeconds := 300 }) tr (true, r) ∧
      r.bucketEpochSeconds = 600 ∧ r.confirmedSlug = "btc-updown-5m-600" := by
  have hrun : ((probeOffsets (fun _ => none) 601 600 [0, 300, -300]
      { confirmedSlug := "btc-updown-5m-300", bucketEpochSeconds := 300 }).replay
        (script600 601000 "up-600" "down-600") 1).any (fun x => x.2.1) = true := by
    decide +kernel
  obtain ⟨⟨rest, found, r⟩, hr, hfound⟩ := (Option.any_eq_true _ _).mp hrun
  obtain rfl : found = true := hfound
  have hx : Exec (discoverActiveBtcUpdown5mViaBucket (fun _ => none)
      { confirmedSlug := "btc-updown-5m-300", bucketEpochSeconds := 300 })
      (⟨.systemSeconds, (601 : ℤ)⟩ :: rest) (true, r) :=
    exec_perform_bind.mpr ⟨(601 : ℤ), rest, rfl, exec_replay hr⟩
  obtain ⟨nowS, rest', htr, hsound⟩ := bucketScan_sound hx
  obtain ⟨hhead, -⟩ := List.cons.inj htr
  cases hhead
  obtain ⟨hbucket, -, hslug⟩ := hsound (by decide)
  have h600 : r.bucketEpochSeconds = 600 := hbucket.trans (by decide)
  rw [h600] at hslug
  exact ⟨_, r, hx, h600, hslug.trans (by decide)⟩

end LeadLag.Gamma
