import LeadLag.Gamma.IsoTime

/-!
# The instant of an ISO date-time

The month is not asked for its length, the clock not for its range and the zone not
for its offset. On the date-times where none of this matters the milliseconds are
those of the instant, to within one.
-/

namespace LeadLag.Gamma
open LeadLag.Core

/-! ### Days -/

theorem era_days (y : ℕ) : (y : ℤ) / 400 * 146097 + (y - y / 400 * 400) * 365 +
    (y - y / 400 * 400) / 4 - (y - y / 400 * 400) / 100 = 365 * y + leapYears y := by
  unfold leapYears
  omega

/-- The first of a month, counted from 1 January by way of 1 March. -/
theorem daysBeforeMonth_eq (year : ℕ) {month : ℕ} (h1 : 1 ≤ month) (h12 : month ≤ 12) :
    (daysBeforeMonth year month : ℤ) =
      if month ≤ 2 then (153 * ((month : ℤ) + 9) + 2) / 5 - 306
      else (153 * ((month : ℤ) - 3) + 2) / 5 + 59 + if IsLeap year then 1 else 0 := by
  have hjanuary : daysBeforeMonth year 1 = 0 := by simp [daysBeforeMonth]
  have hsucc := @daysBeforeMonth_succ year
  interval_cases month
  all_goals simp [hjanuary, hsucc, daysInMonth]
  all_goals (split_ifs <;> omega)

theorem daysFromCivil_eq {year month day : ℕ} (hyear : 1970 ≤ year) (h1 : 1 ≤ month)
    (h12 : month ≤ 12) (hday : 1 ≤ day) :
    daysFromCivil year month day = dayNumber year month day := by
  obtain ⟨n, rfl⟩ := Nat.exists_eq_add_of_le hyear
  have hyears := daysBeforeYear_eq n
  have hmonths := daysBeforeMonth_eq (1970 + n) h1 h12
  have hleap := leapYears_succ (1969 + n)
  have hsucc : 1969 + n + 1 = 1970 + n := by omega
  rw [hsucc] at hleap
  have hcast : ((day - 1 : ℕ) : ℤ) = day - 1 := by omega
  have hstart : leapYears 1969 = 477 := by decide
  have htotal : (dayNumber (1970 + n) month day : ℤ) = 365 * n + leapYears (1969 + n) - 477 +
      daysBeforeMonth (1970 + n) month + (day - 1) := by
    rw [← hstart, ← hyears, ← hcast]
    rfl
  rw [htotal, hmonths]
  simp only [daysFromCivil]
  by_cases hmonth : month ≤ 2
  · have hlate : ¬ (month : ℤ) > 2 := by omega
    have hearly : (month : ℤ) ≤ 2 := by omega
    have hbefore : ((1970 + n : ℕ) : ℤ) - 1 = ((1969 + n : ℕ) : ℤ) := by omega
    rw [if_pos hearly, if_neg hlate, if_pos hmonth, hbefore, era_days]
    omega
  · have hlate : (month : ℤ) > 2 := by omega
    have hearly : ¬ (month : ℤ) ≤ 2 := by omega
    rw [if_neg hearly, if_pos hlate, if_neg hmonth, era_days, hleap]
    omega

/-! ### Milliseconds -/

theorem truncate_of_nonneg {x : ℚ} (h : 0 ≤ x) : truncate x = ⌊x⌋ := if_pos h

theorem roundHalfAway_near {x : ℚ} (h : 0 ≤ x) :
    0 ≤ Execution.roundHalfAway x ∧ |(Execution.roundHalfAway x : ℚ) - x| ≤ 1 / 2 := by
  have heq : Execution.roundHalfAway x = ⌊x + 1 / 2⌋ := if_pos h
  have hlow := Int.floor_le (x + 1 / 2)
  have hhigh := Int.lt_floor_add_one (x + 1 / 2)
  rw [heq]
  constructor
  · exact Int.floor_nonneg.mpr (by linarith)
  · rw [abs_le]
    constructor <;> linarith

def secondsMs (r : Rounding) (x : ℚ) : ℤ := truncate (r.rnd x) * 1000 + fracMsIn r (r.rnd x)

section Seconds

variable (r : Rounding) {x : ℚ}

/-- Unless it is cut to 999 the fraction is off by little more than half a millisecond. -/
theorem fracMsIn_near (hx : 0 ≤ x) :
    |(fracMsIn r x : ℚ) - (x - ⌊x⌋) * 1000| ≤ 3 / 4 ∨
      fracMsIn r x = 999 ∧ 999 ≤ (x - ⌊x⌋) * 1000 := by
  have hlow : 0 ≤ x - ⌊x⌋ := sub_nonneg.mpr (Int.floor_le x)
  have hhigh : x - ⌊x⌋ ≤ 1 := by linarith [Int.lt_floor_add_one x]
  have hd := abs_le.mp (r.near_of_le hlow (hhigh.trans (by norm_num)))
  have hdLow := r.nonneg hlow
  have hdHigh : r.rnd (x - ⌊x⌋) ≤ (1 : ℕ) :=
    r.le_natCast hlow (by rw [Nat.cast_one]; exact hhigh) (by norm_num)
  rw [Nat.cast_one] at hdHigh
  have hproduct : 0 ≤ r.rnd (x - ⌊x⌋) * 1000 := by linarith
  have hy := abs_le.mp (r.near_of_le hproduct (by linarith))
  obtain ⟨hnonneg, hround⟩ := roundHalfAway_near (r.nonneg hproduct)
  have hm := abs_le.mp hround
  simp only [fracMsIn, truncate_of_nonneg hx]
  by_cases hclamp : Execution.roundHalfAway (r.rnd (r.rnd (x - ⌊x⌋) * 1000)) ≥ 1000
  · right
    have hcast : (1000 : ℚ) ≤ Execution.roundHalfAway (r.rnd (r.rnd (x - ⌊x⌋) * 1000)) := by
      exact_mod_cast hclamp
    constructor
    · rw [if_pos hclamp]
    · linarith
  · left
    rw [if_neg hclamp, if_neg (not_lt.mpr hnonneg), abs_le]
    constructor <;> linarith

theorem secondsMs_near (hx : 0 ≤ x) (hlt : x < 100) :
    |(secondsMs r x : ℚ) - x * 1000| ≤ 1 := by
  have hnonneg := r.nonneg hx
  have hr := abs_le.mp (r.near_of_le hx (by linarith))
  obtain ⟨n, hn⟩ := Int.eq_ofNat_of_zero_le (Int.floor_nonneg.mpr hnonneg)
  have hlow := Int.floor_le (r.rnd x)
  have hhigh := Int.lt_floor_add_one (r.rnd x)
  have hfrac := fracMsIn_near r hnonneg
  unfold secondsMs
  rw [truncate_of_nonneg hnonneg]
  rw [hn] at hlow hhigh hfrac ⊢
  push_cast at hlow hhigh hfrac ⊢
  rcases hfrac with hfrac | ⟨hfrac, hclamp⟩
  · have hms := abs_le.mp hfrac
    rw [abs_le]
    constructor <;> linarith
  · -- rounding does not carry the seconds past the next whole one
    have hnext : x < n + 1 := by
      by_contra hpast
      have hsmall : n + 1 ≤ 2 ^ 52 := by
        have hcast : ((n + 1 : ℕ) : ℚ) ≤ 100 := by
          push_cast
          linarith
        have hle : n + 1 ≤ 100 := by exact_mod_cast hcast
        omega
      have hround : ((n + 1 : ℕ) : ℚ) ≤ r.rnd x := r.natCast_le (by push_cast; linarith) hsmall
      push_cast at hround
      linarith
    rw [hfrac, abs_le]
    push_cast
    constructor <;> linarith

theorem secondsMs_natCast {n : ℕ} (hn : n < 100) : secondsMs r n = n * 1000 := by
  have hround : r.rnd (n : ℚ) = n := r.natCast n (by omega)
  have htruncate : truncate (n : ℚ) = n := by
    rw [truncate_of_nonneg (Nat.cast_nonneg n)]
    exact Int.floor_natCast n
  have hhalf : Execution.roundHalfAway 0 = 0 := by decide +kernel
  have hfrac : fracMsIn r (n : ℚ) = 0 := by
    simp only [fracMsIn, htruncate, Int.cast_natCast, sub_self, r.zero, zero_mul, hhalf]
    rfl
  unfold secondsMs
  rw [hround, htruncate, hfrac, add_zero]

end Seconds

/-! ### The string as a whole -/

namespace IsoDateTime

variable (t : IsoDateTime)

def fractionValue : ℚ := t.fraction.elim 0 Fraction.value

/-- Milliseconds of the whole minutes, on the clocks of the zone. -/
def minutesMs : ℕ :=
  (dayNumber t.year t.month t.day * 86400 + t.hour * 3600 + t.minute * 60) * 1000

/-- The milliseconds, in UTC, of the instant that the string denotes. -/
def instantMs : ℚ :=
  t.minutesMs + (t.second + t.fractionValue) * 1000 - t.zone.aheadMinutes * 60000

/-- What the function asks of the month and the day. -/
def Accepted : Prop := 1 ≤ t.month.val ∧ t.month.val ≤ 12 ∧ 1 ≤ t.day.val ∧ t.day.val ≤ 31

instance : Decidable t.Accepted := by
  unfold Accepted
  infer_instance

theorem gammaIso_text (r : Rounding) : gammaIso8601UtcToUnixMsIn r t.text =
    if t.Accepted then some (t.minutesMs + secondsMs r (t.second + t.readFraction)) else none := by
  have hsince := t.since
  unfold gammaIso8601UtcToUnixMsIn
  rw [t.strip_text]
  simp only [t.scanTime_chars]
  by_cases haccepted : t.Accepted
  · obtain ⟨h1, h12, hday, h31⟩ := id haccepted
    have hdays := daysFromCivil_eq hsince h1 h12 hday
    have hguard : ¬ ((t.year.val : ℤ) < 1970 ∨ (t.month.val : ℤ) < 1 ∨ (t.month.val : ℤ) > 12 ∨
        (t.day.val : ℤ) < 1 ∨ (t.day.val : ℤ) > 31) := by omega
    have hseconds : 0 ≤ truncate (r.rnd (t.second + t.readFraction)) := by
      have hnonneg := r.nonneg (add_nonneg (Nat.cast_nonneg t.second.val) t.readFraction_nonneg)
      rw [truncate_of_nonneg hnonneg]
      exact Int.floor_nonneg.mpr hnonneg
    simp only [timegm, hdays]
    have hafter : ¬ (dayNumber t.year t.month t.day : ℤ) * 86400 + (t.hour.val : ℤ) * 3600 +
        (t.minute.val : ℤ) * 60 + truncate (r.rnd (t.second + t.readFraction)) = -1 := by omega
    have hsum : ∀ d h m s f : ℤ, (d * 86400 + h * 3600 + m * 60 + s) * 1000 + f =
        (d * 86400 + h * 3600 + m * 60) * 1000 + (s * 1000 + f) := by
      intro d h m s f
      ring
    have hwhole : (t.minutesMs : ℤ) = ((dayNumber t.year t.month t.day : ℤ) * 86400 +
        (t.hour.val : ℤ) * 3600 + (t.minute.val : ℤ) * 60) * 1000 := by
      unfold minutesMs
      push_cast
      rfl
    rw [if_neg hguard, if_neg hafter, if_pos haccepted, hwhole]
    unfold secondsMs
    rw [hsum]
  · have hguard : (t.year.val : ℤ) < 1970 ∨ (t.month.val : ℤ) < 1 ∨ (t.month.val : ℤ) > 12 ∨
        (t.day.val : ℤ) < 1 ∨ (t.day.val : ℤ) > 31 := by
      unfold Accepted at haccepted
      omega
    rw [if_pos hguard, if_neg haccepted]

/-- The milliseconds are those of a proper date and time, to within one. -/
structure Denotes (ms : ℤ) : Prop where
  date : ValidDate t.year t.month t.day
  hour : t.hour.val ≤ 23
  minute : t.minute.val ≤ 59
  second : t.second.val ≤ 59
  near : |(ms : ℚ) - t.instantMs| ≤ 1

/-- What the function takes for granted of a month and a day it accepts. -/
structure Plain : Prop where
  day : t.day.val ≤ daysInMonth t.year t.month
  hour : t.hour.val ≤ 23
  minute : t.minute.val ≤ 59
  second : t.second.val ≤ 59
  zone : t.zone.aheadMinutes = 0
  comma : ∀ f, t.fraction = some f → f.mark = .comma → f.value ≤ 1 / 1000

/-- A fraction is read in full or, after a comma, not at all. -/
theorem fraction_read :
    (t.readFraction = t.fractionValue ∧ ∀ f, t.fraction = some f → f.mark ≠ .comma) ∨
      t.readFraction = 0 ∧ ∃ f, t.fraction = some f ∧ f.mark = .comma ∧
        t.fractionValue = f.value := by
  unfold readFraction fractionValue
  cases t.fraction with
  | none =>
    left
    refine ⟨rfl, ?_⟩
    intro f hf
    cases hf
  | some f =>
    show (f.read = f.value ∧ _) ∨ f.read = 0 ∧ ∃ f', some f = some f' ∧ f'.mark = .comma ∧
      f.value = f'.value
    unfold Fraction.read
    cases hmark : f.mark with
    | point =>
      left
      refine ⟨rfl, ?_⟩
      intro f' hf hcomma
      rw [← Option.some.inj hf, hmark] at hcomma
      cases hcomma
    | comma =>
      right
      exact ⟨rfl, f, rfl, hmark, rfl⟩

theorem fraction_gap : 0 ≤ t.fractionValue - t.readFraction ∧
    t.fractionValue - t.readFraction < 1 := by
  rcases t.fraction_read with ⟨hread, -⟩ | ⟨hread, f, -, -, hvalue⟩
  · rw [hread, sub_self]
    exact ⟨le_rfl, zero_lt_one⟩
  · rw [hread, hvalue, sub_zero]
    exact ⟨f.value_nonneg, f.value_lt⟩

theorem seconds_near (r : Rounding) :
    |(secondsMs r (t.second + t.readFraction) : ℚ) - (t.second + t.readFraction) * 1000| ≤ 1 := by
  have hsecond : ((t.second.val : ℕ) : ℚ) ≤ 99 := by
    have hle : t.second.val ≤ 99 := by omega
    exact_mod_cast hle
  have hnonneg : (0 : ℚ) ≤ t.second.val + t.readFraction :=
    add_nonneg (Nat.cast_nonneg _) t.readFraction_nonneg
  have hlt := t.readFraction_lt
  exact secondsMs_near r hnonneg (by linarith)

/-- With an offset the milliseconds are those of another minute. -/
theorem aheadMinutes_of_near (r : Rounding)
    (h : |((t.minutesMs + secondsMs r (t.second + t.readFraction) : ℤ) : ℚ) - t.instantMs| ≤ 1) :
    t.zone.aheadMinutes = 0 := by
  have hseconds := abs_le.mp (t.seconds_near r)
  have hgap := t.fraction_gap
  have hnear := abs_le.mp h
  unfold instantMs at hnear
  push_cast at hnear
  have hlow : (-1 : ℚ) < t.zone.aheadMinutes := by linarith
  have hhigh : (t.zone.aheadMinutes : ℚ) < 1 := by linarith
  have hlowInt : -1 < t.zone.aheadMinutes := by exact_mod_cast hlow
  have hhighInt : t.zone.aheadMinutes < 1 := by exact_mod_cast hhigh
  omega

/-- In UTC the fraction decides. -/
theorem near_iff (r : Rounding) (hzone : t.zone.aheadMinutes = 0) :
    |((t.minutesMs + secondsMs r (t.second + t.readFraction) : ℤ) : ℚ) - t.instantMs| ≤ 1 ↔
      ∀ f, t.fraction = some f → f.mark = .comma → f.value ≤ 1 / 1000 := by
  have hdiff : ((t.minutesMs + secondsMs r (t.second + t.readFraction) : ℤ) : ℚ) - t.instantMs =
      secondsMs r (t.second + t.readFraction) - (t.second + t.fractionValue) * 1000 := by
    unfold instantMs
    rw [hzone]
    push_cast
    ring
  rw [hdiff]
  rcases t.fraction_read with ⟨hread, hpoint⟩ | ⟨hread, f, hf, hcomma, hvalue⟩
  · have hseconds := t.seconds_near r
    rw [hread] at hseconds ⊢
    constructor
    · intro _ f hf hcomma
      exact absurd hcomma (hpoint f hf)
    · intro _
      exact hseconds
  · have hwhole : secondsMs r (t.second + t.readFraction) = t.second.val * 1000 := by
      rw [hread, add_zero]
      exact secondsMs_natCast r t.second.isLt
    have hlost : (((t.second.val : ℤ) * 1000 : ℤ) : ℚ) - (t.second + t.fractionValue) * 1000 =
        -(f.value * 1000) := by
      rw [hvalue]
      push_cast
      ring
    have hnonneg := f.value_nonneg
    rw [hwhole, hlost, abs_neg, abs_of_nonneg (by linarith)]
    constructor
    · intro h f' hf' _
      rw [hf] at hf'
      rw [← Option.some.inj hf']
      linarith
    · intro h
      have hle := h f hf hcomma
      linarith

/-- What the function makes of a date-time, where it makes anything of it, is the instant
denoted exactly when the month has the day, the clock is in range, the zone has no offset
and no comma hides more than a millisecond. -/
theorem gammaIso_denotes_iff (r : Rounding) :
    (∀ ms, gammaIso8601UtcToUnixMsIn r t.text = some ms → t.Denotes ms) ↔
      (t.Accepted → t.Plain) := by
  rw [t.gammaIso_text r]
  by_cases haccepted : t.Accepted
  · rw [if_pos haccepted]
    constructor
    · intro h _
      have hdenotes := h _ rfl
      have hzone := t.aheadMinutes_of_near r hdenotes.near
      exact {
        day := hdenotes.date.day_le
        hour := hdenotes.hour
        minute := hdenotes.minute
        second := hdenotes.second
        zone := hzone
        comma := (t.near_iff r hzone).mp hdenotes.near }
    · intro h ms hms
      have hplain := h haccepted
      obtain ⟨h1, h12, hday, -⟩ := haccepted
      rw [← Option.some.inj hms]
      exact {
        date := ⟨h1, h12, hday, hplain.day⟩
        hour := hplain.hour
        minute := hplain.minute
        second := hplain.second
        near := (t.near_iff r hplain.zone).mpr hplain.comma }
  · rw [if_neg haccepted]
    constructor
    · intro _ h
      exact absurd h haccepted
    · intro _ ms hms
      cases hms

end IsoDateTime

/-- Eleven at night two hours east of UTC. -/
def eastern : IsoDateTime where
  year := 2026
  since := by decide
  month := 5
  day := 6
  hour := 23
  minute := 5
  second := 0
  fraction := none
  zone := .offset false 2 0

theorem gammaIso_eastern :
    eastern.text = "2026-05-06T23:05:00+02:00" ∧
      gammaIso8601UtcToUnixMsIn .toDouble eastern.text = some 1778108700000 ∧
      eastern.instantMs = 1778101500000 ∧ ¬ eastern.Denotes 1778108700000 := by
  have htext : eastern.text = "2026-05-06T23:05:00+02:00" := by decide +kernel
  have hminutes : eastern.minutesMs = 1778108700000 := by decide +kernel
  have hread : (eastern.second.val : ℚ) + eastern.readFraction = ((0 : ℕ) : ℚ) := by decide +kernel
  have hresult : gammaIso8601UtcToUnixMsIn .toDouble eastern.text = some 1778108700000 := by
    rw [eastern.gammaIso_text, if_pos (by decide), hread, secondsMs_natCast _ (by decide), hminutes]
    rfl
  have hinstant : eastern.instantMs = 1778101500000 := by
    unfold IsoDateTime.instantMs
    rw [hminutes]
    decide +kernel
  refine ⟨htext, hresult, hinstant, ?_⟩
  intro h
  have hnear := h.near
  rw [hinstant] at hnear
  norm_num at hnear

end LeadLag.Gamma
