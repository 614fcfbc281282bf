import LeadLag.Core.Binary64
import LeadLag.Core.Calendar
import LeadLag.Core.FixedWidth
import LeadLag.Gamma.Text
import Mathlib.Data.List.DropRight

/-!
# Reading an ISO date-time (bucket_market_discovery.cpp:336-379)

`IsoDateTime` is a string of the form `YYYY-MM-DDThh:mm:ss`, with or without a
fraction, and with a zone. The fields are read as they stand; what follows the
seconds is dropped, and a comma ends them.
-/

namespace LeadLag.Gamma
open LeadLag.Core

/-! ### In doubles -/

def fracMsIn (r : Rounding) (second : ℚ) : ℤ :=
  let ms := Execution.roundHalfAway (r.rnd (r.rnd (second - truncate second) * 1000))
  if ms ≥ 1000 then 999 else if ms < 0 then 0 else ms

/-- The seconds, their fraction and its thousandfold are rounded by `r`. -/
def gammaIso8601UtcToUnixMsIn (r : Rounding) (input : String) : Option ℤ :=
  let s := (input.toList.reverse.dropWhile fun c => c = 'Z' || c = 'z').reverse
  match scanTime s with
  | none => none
  | some scanned =>
    let t := { scanned with second := r.rnd scanned.second }
    if t.year < 1970 ∨ t.month < 1 ∨ t.month > 12 ∨ t.day < 1 ∨ t.day > 31 then none
    else if timegm t = -1 then none
    else some (timegm t * 1000 + fracMsIn r t.second)

theorem gammaIso_exact (input : String) :
    gammaIso8601UtcToUnixMsIn .exact input = gammaIso8601UtcToUnixMs input := rfl

/-! ### The form -/

inductive Mark where
  | point
  | comma
  deriving DecidableEq

def Mark.char : Mark → Char
  | .point => '.'
  | .comma => ','

structure Fraction where
  mark : Mark
  digits : List (Fin 10)
  nonempty : digits ≠ []

def Fraction.value (f : Fraction) : ℚ := digitsValue 0 f.digits / 10 ^ f.digits.length

/-- What `%lf` reads of it. -/
def Fraction.read (f : Fraction) : ℚ :=
  match f.mark with
  | .point => f.value
  | .comma => 0

inductive Zone where
  | utc
  | offset (west : Bool) (hour minute : Fin 100)

/-- How far the clocks of the zone are ahead of UTC. -/
def Zone.aheadMinutes : Zone → ℤ
  | .utc => 0
  | .offset west hour minute =>
    let minutes : ℤ := hour.val * 60 + minute.val
    if west then -minutes else minutes

structure IsoDateTime where
  year : Fin 10000
  since : 1970 ≤ year.val
  month : Fin 100
  day : Fin 100
  hour : Fin 100
  minute : Fin 100
  second : Fin 100
  fraction : Option Fraction
  zone : Zone

def field (width n : ℕ) : List Char := digitsText (digitsOf width n)

def fractionText : Option Fraction → List Char
  | none => []
  | some f => f.mark.char :: digitsText f.digits

/-- The zone without the letter for UTC. -/
def Zone.offsetText : Zone → List Char
  | .utc => []
  | .offset west hour minute =>
    (if west then '-' else '+') :: (field 2 hour ++ ':' :: field 2 minute)

def Zone.text : Zone → List Char
  | .utc => ['Z']
  | .offset west hour minute => (Zone.offset west hour minute).offsetText

namespace IsoDateTime

/-- The string up to the zone, with `tail` after it. -/
def chars (t : IsoDateTime) (tail : List Char) : List Char :=
  field 4 t.year ++ '-' :: (field 2 t.month ++ '-' :: (field 2 t.day ++ 'T' ::
    (field 2 t.hour ++ ':' :: (field 2 t.minute ++ ':' ::
      (field 2 t.second ++ (fractionText t.fraction ++ tail))))))

def text (t : IsoDateTime) : String := String.ofList (t.chars t.zone.text)

def readFraction (t : IsoDateTime) : ℚ := t.fraction.elim 0 Fraction.read

end IsoDateTime

/-! ### The letters at the end -/

def EndsInDigit (cs : List Char) : Prop := ∃ front d, cs = front ++ [digitChar d]

theorem EndsInDigit.append {cs : List Char} (h : EndsInDigit cs) (front : List Char) :
    EndsInDigit (front ++ cs) := by
  obtain ⟨pre, d, rfl⟩ := h
  exact ⟨front ++ pre, d, (List.append_assoc front pre _).symm⟩

theorem EndsInDigit.cons {cs : List Char} (h : EndsInDigit cs) (c : Char) :
    EndsInDigit (c :: cs) := h.append [c]

theorem endsInDigit_digitsText {ds : List (Fin 10)} (hne : ds ≠ []) :
    EndsInDigit (digitsText ds) := by
  refine ⟨digitsText ds.dropLast, ds.getLast hne, ?_⟩
  have hsplit : digitsText (ds.dropLast ++ [ds.getLast hne]) =
      digitsText ds.dropLast ++ [digitChar (ds.getLast hne)] := List.map_append
  rw [← hsplit, List.dropLast_append_getLast hne]

theorem digitsOf_ne_nil {width : ℕ} (hwidth : 0 < width) (n : ℕ) : digitsOf width n ≠ [] := by
  intro h
  have hlen := digitsOf_length width n
  rw [h] at hlen
  exact absurd hlen hwidth.ne

theorem endsInDigit_field {width : ℕ} (hwidth : 0 < width) (n : ℕ) :
    EndsInDigit (field width n) := endsInDigit_digitsText (digitsOf_ne_nil hwidth n)

theorem IsoDateTime.endsInDigit (t : IsoDateTime) : EndsInDigit (t.chars t.zone.offsetText) := by
  have hseconds : EndsInDigit
      (field 2 t.second ++ (fractionText t.fraction ++ t.zone.offsetText)) := by
    cases t.zone with
    | offset west hour minute =>
      have hzone : EndsInDigit (Zone.offset west hour minute).offsetText :=
        (((endsInDigit_field two_pos minute.val).cons ':').append (field 2 hour)).cons _
      exact (hzone.append _).append _
    | utc =>
      show EndsInDigit (field 2 t.second ++ (fractionText t.fraction ++ []))
      rw [List.append_nil]
      cases t.fraction with
      | none =>
        show EndsInDigit (field 2 t.second ++ [])
        rw [List.append_nil]
        exact endsInDigit_field two_pos _
      | some f => exact ((endsInDigit_digitsText f.nonempty).cons _).append _
  have hminute := ((hseconds.cons ':').append (field 2 t.minute)).cons ':'
  have hday := ((hminute.append (field 2 t.hour)).cons 'T').append (field 2 t.day)
  exact ((hday.cons '-').append (field 2 t.month)).cons '-' |>.append (field 4 t.year)

theorem IsoDateTime.strip_text (t : IsoDateTime) :
    (t.text.toList.reverse.dropWhile fun c => c = 'Z' || c = 'z').reverse =
      t.chars t.zone.offsetText := by
  have hkeep : ∀ {cs : List Char}, EndsInDigit cs →
      List.rdropWhile (fun c => c = 'Z' || c = 'z') cs = cs := by
    intro cs hcs
    obtain ⟨front, d, rfl⟩ := hcs
    have hdigit : ¬ (decide (digitChar d = 'Z') || decide (digitChar d = 'z')) = true := by
      revert d
      decide
    exact List.rdropWhile_concat_neg _ _ _ hdigit
  show List.rdropWhile (fun c => c = 'Z' || c = 'z') t.text.toList = _
  unfold IsoDateTime.text
  rw [String.toList_ofList]
  have hends := t.endsInDigit
  cases hzone : t.zone with
  | offset west hour minute =>
    rw [hzone] at hends
    exact hkeep hends
  | utc =>
    rw [hzone] at hends
    have hsplit : t.chars Zone.utc.text = t.chars Zone.utc.offsetText ++ ['Z'] := by
      simp [IsoDateTime.chars, Zone.text, Zone.offsetText]
    rw [hsplit, List.rdropWhile_concat_pos _ _ _ (by decide)]
    exact hkeep hends

/-! ### The fields -/

theorem scanInt_field {width n : ℕ} (hwidth : 0 < width) (hn : n < 10 ^ width)
    {rest : List Char} (h : EndsDigits rest) :
    scanInt (field width n ++ rest) = some ((n : ℤ), rest) := by
  have hlen : ¬ (digitsOf width n).length = 0 := by
    rw [digitsOf_length]
    omega
  unfold scanInt field
  rw [splitSign_digitsText (digitsOf_ne_nil hwidth n)]
  simp only [takeDigits_digitsText _ h, digitsOf_read hn, hlen, if_false, Bool.false_eq_true]

theorem scanLiteral_self (c : Char) (cs : List Char) : scanLiteral c (c :: cs) = some cs :=
  if_pos rfl

theorem exponentPart_cons {marker c : Char} (h : c.toLower ≠ marker) (cs : List Char) :
    exponentPart marker (c :: cs) = 0 := if_neg h

/-- What follows the digits is neither a digit nor an exponent. -/
theorem Zone.offsetText_ends (z : Zone) :
    EndsDigits z.offsetText ∧ exponentPart 'e' z.offsetText = 0 ∧
      ∀ cs, z.offsetText ≠ '.' :: cs := by
  cases z with
  | utc =>
    refine ⟨endsDigits_nil, rfl, ?_⟩
    intro cs h
    cases h
  | offset west hour minute =>
    cases west with
    | true =>
      refine ⟨endsDigits_cons (by decide) _, exponentPart_cons (by decide) _, ?_⟩
      intro cs h
      exact absurd (List.cons.inj h).1 (by decide)
    | false =>
      refine ⟨endsDigits_cons (by decide) _, exponentPart_cons (by decide) _, ?_⟩
      intro cs h
      exact absurd (List.cons.inj h).1 (by decide)

theorem Fraction.value_nonneg (f : Fraction) : 0 ≤ f.value :=
  div_nonneg (Nat.cast_nonneg _) (by positivity)

theorem Fraction.value_lt (f : Fraction) : f.value < 1 := by
  have hpow : (0 : ℚ) < 10 ^ f.digits.length := by positivity
  have hlt : (digitsValue 0 f.digits : ℚ) < 10 ^ f.digits.length := by
    exact_mod_cast digitsValue_lt f.digits
  exact (div_lt_one hpow).mpr hlt

theorem Fraction.read_nonneg (f : Fraction) : 0 ≤ f.read := by
  unfold Fraction.read
  cases f.mark with
  | point => exact f.value_nonneg
  | comma => exact le_rfl

theorem Fraction.read_lt (f : Fraction) : f.read < 1 := by
  unfold Fraction.read
  cases f.mark with
  | point => exact f.value_lt
  | comma => exact zero_lt_one

namespace IsoDateTime

variable (t : IsoDateTime)

theorem readFraction_nonneg : 0 ≤ t.readFraction := by
  unfold readFraction
  cases t.fraction with
  | none => exact le_rfl
  | some f => exact f.read_nonneg

theorem readFraction_lt : t.readFraction < 1 := by
  unfold readFraction
  cases t.fraction with
  | none => exact zero_lt_one
  | some f => exact f.read_lt

theorem magnitude_seconds :
    magnitude 10 10 'e' (field 2 t.second ++ (fractionText t.fraction ++ t.zone.offsetText)) =
      some (t.second.val + t.readFraction : ℚ) := by
  have hne := digitsOf_ne_nil two_pos t.second.val
  have hread : digitsValue 0 (digitsOf 2 t.second) = t.second := digitsOf_read t.second.isLt
  obtain ⟨hdigits, hexp, hpoint⟩ := t.zone.offsetText_ends
  unfold readFraction
  cases t.fraction with
  | none =>
    show magnitude 10 10 'e' (digitsText (digitsOf 2 t.second) ++ t.zone.offsetText) = _
    rw [magnitude_digitsText hne hdigits hpoint hexp, hread]
    exact congrArg some (add_zero _).symm
  | some f =>
    show magnitude 10 10 'e' (digitsText (digitsOf 2 t.second) ++
      f.mark.char :: (digitsText f.digits ++ t.zone.offsetText)) =
        some (t.second.val + f.read : ℚ)
    unfold Fraction.read
    cases f.mark with
    | point =>
      show magnitude 10 10 'e' (_ ++ '.' :: _) = _
      rw [magnitude_fraction hne f.digits hdigits hexp, hread]
      rfl
    | comma =>
      have hcomma : ∀ cs cs', ',' :: cs ≠ '.' :: cs' := by
        intro cs cs' h
        exact absurd (List.cons.inj h).1 (by decide)
      show magnitude 10 10 'e' (_ ++ ',' :: _) = _
      rw [magnitude_digitsText hne (endsDigits_cons (by decide) _) (hcomma _)
        (exponentPart_cons (by decide) _), hread]
      exact congrArg some (add_zero _).symm

theorem scanDouble_seconds :
    scanDouble (field 2 t.second ++ (fractionText t.fraction ++ t.zone.offsetText)) =
      some (t.second.val + t.readFraction : ℚ) := by
  have hlen : 2 ≤ (digitsOf 2 t.second.val).length := (digitsOf_length 2 _).ge
  unfold scanDouble
  rw [show field 2 t.second = digitsText (digitsOf 2 t.second) from rfl,
    scanNumber_digitsText hlen t.magnitude_seconds rfl]
  rfl

theorem scanTime_chars : scanTime (t.chars t.zone.offsetText) = some
    { year := t.year.val
      month := t.month.val
      day := t.day.val
      hour := t.hour.val
      minute := t.minute.val
      second := t.second.val + t.readFraction } := by
  have hyear : ∀ cs, scanInt (field 4 t.year ++ '-' :: cs) = some ((t.year.val : ℤ), '-' :: cs) :=
    fun cs => scanInt_field four_pos t.year.isLt (endsDigits_cons (by decide) cs)
  have htwo : ∀ c, digitValue 10 c = none → ∀ (n : Fin 100) (cs : List Char),
      scanInt (field 2 n ++ c :: cs) = some ((n.val : ℤ), c :: cs) :=
    fun c hc n cs => scanInt_field two_pos n.isLt (endsDigits_cons hc cs)
  have hdash := htwo '-' (by decide)
  have hletter := htwo 'T' (by decide)
  have hcolon := htwo ':' (by decide)
  unfold scanTime chars
  simp only [hyear, hdash, hcolon, hletter, scanLiteral_self, scanDouble_seconds,
    Option.bind_eq_bind, Option.bind_some, Option.pure_def]

end IsoDateTime

end LeadLag.Gamma
