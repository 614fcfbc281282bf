import LeadLag.Core.Binary64
import Mathlib.Data.List.DropRight

/-!
# Rows the dashboards read (live_plot_common.py:9-21, 63-166)

A line is parsed, checked and converted. `KeyError`, `TypeError` and `ValueError`
of the conversions reject the row; an `AttributeError` or an `OverflowError`
escapes, and so does what `json.loads` raises besides `JSONDecodeError`.
`Python` holds what the conversion of a string does and the parser itself.
-/

namespace LeadLag.Dashboard
open LeadLag.Core (binary64 Rounding)

inductive PyFloat where
  | finite (x : ℚ)
  | inf (negative : Bool)
  | nan
  deriving DecidableEq, Repr

inductive Value where
  | none
  | bool (b : Bool)
  | int (i : ℤ)
  | float (x : PyFloat)
  | str (s : String)
  | list (xs : List Value)
  | dict (fields : List (String × Value))

inductive PyError where
  | decode
  | key
  | type
  | value
  | attribute
  | overflow
  | recursion
  deriving DecidableEq, Repr

abbrev Raises := Except PyError

structure Python where
  loads : List Char → Raises Value
  intOfStr : String → Option ℤ
  floatOfStr : String → Option PyFloat
  /-- `str` of what is not a string. -/
  strOf : Value → String

/-! ### Conversions -/

/-- From here on an `int` rounds to no `float`. -/
def floatBound : ℤ := 2 ^ 1024 - 2 ^ 970

def finite : PyFloat → Bool
  | .finite _ => true
  | .inf _ | .nan => false

namespace Value

def truthy : Value → Bool
  | .none => false
  | .bool b => b
  | .int i => i ≠ 0
  | .float x => x ≠ .finite 0
  | .str s => s ≠ ""
  | .list xs => !xs.isEmpty
  | .dict fields => !fields.isEmpty

def isStr (s : String) : Value → Bool
  | .str t => t = s
  | _ => false

/-- `x.get(key)`. -/
def get (key : String) : Value → Raises (Option Value)
  | .dict fields => .ok (fields.lookup key)
  | _ => .error .attribute

/-- `x[key]` of a dict. -/
def item (key : String) (x : Value) : Raises Value := do
  match ← x.get key with
  | some v => return v
  | Option.none => .error .key

/-- `x.get(key) or {}`. -/
def getOrEmpty (key : String) (x : Value) : Raises Value := do
  match ← x.get key with
  | some v => return if v.truthy then v else .dict []
  | Option.none => return .dict []

def toInt (py : Python) : Value → Raises ℤ
  | .int i => .ok i
  | .bool b => .ok (if b then 1 else 0)
  | .float (.finite x) => .ok (x.num.tdiv x.den)
  | .float .nan => .error .value
  | .float (.inf _) => .error .overflow
  | .str s => (py.intOfStr s).elim (.error .value) .ok
  | .none | .list _ | .dict _ => .error .type

def toFloat (py : Python) : Value → Raises PyFloat
  | .int i => if floatBound ≤ |i| then .error .overflow else .ok (.finite (binary64 i))
  | .bool b => .ok (.finite (if b then 1 else 0))
  | .float x => .ok x
  | .str s => (py.floatOfStr s).elim (.error .value) .ok
  | .none | .list _ | .dict _ => .error .type

def toStr (py : Python) : Value → String
  | .str s => s
  | v => py.strOf v

/-- `float(x.get(key, nan))`. -/
def floatField (py : Python) (key : String) (x : Value) : Raises PyFloat := do
  match ← x.get key with
  | some v => v.toFloat py
  | Option.none => return .nan

/-- `bool(x.get(key, False))`. -/
def boolField (key : String) (x : Value) : Raises Bool := do
  return (← x.get key).any truthy

end Value

/-! ### Time in a bucket -/

def bucketEpochFromWallMs (wallMs : ℤ) : ℤ :=
  let sec := wallMs / 1000
  sec / 300 * 300

/-- Seconds since the start of the bucket. -/
def xOf (wallMs : ℤ) : ℚ :=
  let sec := binary64 (binary64 wallMs / 1000)
  binary64 (sec - binary64 (bucketEpochFromWallMs wallMs))

def relSInBucket (wallMs : ℤ) : Raises (ℤ × ℚ) :=
  if floatBound ≤ |wallMs| then .error .overflow
  else .ok (bucketEpochFromWallMs wallMs, xOf wallMs)

theorem relSInBucket_ok {wallMs b : ℤ} {rs : ℚ} (h : relSInBucket wallMs = .ok (b, rs)) :
    b = bucketEpochFromWallMs wallMs ∧ rs = xOf wallMs := by
  unfold relSInBucket at h
  split at h
  · cases h
  · cases h
    exact ⟨rfl, rfl⟩

/-- Within the axis, as long as the milliseconds are exact. -/
theorem xOf_range {wallMs : ℤ} (hlo : 0 ≤ wallMs) (hhi : wallMs ≤ 2 ^ 52) :
    0 ≤ xOf wallMs ∧ xOf wallMs ≤ 300 := by
  obtain ⟨w, rfl⟩ := Int.eq_ofNat_of_zero_le hlo
  have hw : w ≤ 2 ^ 52 := by exact_mod_cast hhi
  obtain ⟨b, hb⟩ : ∃ b : ℕ, bucketEpochFromWallMs w = b := by
    refine Int.eq_ofNat_of_zero_le ?_
    show 0 ≤ (w : ℤ) / 1000 / 300 * 300
    omega
  have hbounds : b * 1000 ≤ w ∧ w ≤ (b + 300) * 1000 := by
    have hdef : (w : ℤ) / 1000 / 300 * 300 = b := hb
    omega
  have hmsec : binary64 ((w : ℤ) : ℚ) = w := Rounding.toDouble.natCast w hw
  have hstart : binary64 ((b : ℤ) : ℚ) = b := Rounding.toDouble.natCast b (by omega)
  have hlow : (b : ℚ) ≤ (w : ℚ) / 1000 := by
    rw [le_div_iff₀ (by norm_num)]
    exact_mod_cast hbounds.1
  have hhigh : (w : ℚ) / 1000 ≤ ((b + 300 : ℕ) : ℚ) := by
    rw [div_le_iff₀ (by norm_num)]
    exact_mod_cast hbounds.2
  have hsecLow : (b : ℚ) ≤ binary64 ((w : ℚ) / 1000) :=
    Rounding.toDouble.natCast_le hlow (by omega)
  have hsecHigh : binary64 ((w : ℚ) / 1000) ≤ ((b + 300 : ℕ) : ℚ) :=
    Rounding.toDouble.le_natCast ((Nat.cast_nonneg b).trans hlow) hhigh (by omega)
  unfold xOf
  simp only [hb, hmsec, hstart]
  have hnonneg : 0 ≤ binary64 ((w : ℚ) / 1000) - b := sub_nonneg.mpr hsecLow
  have hwithin : binary64 ((w : ℚ) / 1000) - b ≤ ((300 : ℕ) : ℚ) := by
    push_cast at hsecHigh ⊢
    linarith
  exact ⟨Rounding.toDouble.nonneg hnonneg,
    Rounding.toDouble.le_natCast hnonneg hwithin (by norm_num)⟩

/-! ### The three parsers -/

/-- `except (KeyError, TypeError, ValueError): return None`. -/
def orNone {A : Type} : Raises A → Raises (Option A)
  | .ok a => .ok (some a)
  | .error .key | .error .type | .error .value => .ok none
  | .error e => .error e

/-- `json.loads`, with the `except` around it. -/
def loadsOrNone (py : Python) (line : List Char) : Raises (Option Value) :=
  match py.loads line with
  | .ok r => .ok (some r)
  | .error .decode => .ok none
  | .error e => .error e

structure SeriesRow where
  wallMs : ℤ
  bucket : ℤ
  theoUp : PyFloat
  theoDn : PyFloat
  upMid : PyFloat
  dnMid : PyFloat
  S : PyFloat
  sigma : PyFloat
  sigmaVolWindowFull : Bool
  sigmaSlugReady : Bool
  sigmaFallback : Bool
  deriving DecidableEq, Repr

def seriesRow (py : Python) (r up dn : Value) : Raises SeriesRow := do
  let wallMs ← (← r.item "local_ts_wall_ms").toInt py
  let bucket ← (← r.item "active_epoch").toInt py
  let theoUp ← (← r.item "theo_up").toFloat py
  let theoDn ← (← r.item "theo_down").toFloat py
  let upMid ← up.floatField py "mid"
  let dnMid ← dn.floatField py "mid"
  let S ← r.floatField py "S"
  let sigma ← r.floatField py "sigma"
  let sigmaVolWindowFull ← r.boolField "sigma_vol_window_full"
  let sigmaSlugReady ← r.boolField "sigma_slug_ready"
  let sigmaFallback ← r.boolField "sigma_fallback"
  return { wallMs, bucket, theoUp, theoDn, upMid, dnMid, S, sigma, sigmaVolWindowFull
           sigmaSlugReady, sigmaFallback }

def parseSeriesLine (py : Python) (line : List Char) : Raises (Option SeriesRow) := do
  let some r ← loadsOrNone py line | return none
  let eventType ← r.get "event_type"
  if !eventType.any (Value.isStr "series") then return none
  let up ← r.getOrEmpty "up"
  let dn ← r.getOrEmpty "down"
  orNone (seriesRow py r up dn)

structure ChainRow where
  wallMs : ℤ
  px : PyFloat
  deriving DecidableEq, Repr

def chainRow (py : Python) (r p : Value) : Raises ChainRow := do
  let wallMs ← (← r.item "local_ts_wall_ms").toInt py
  let price ← match p with
    | .dict fields => (fields.lookup "price").elim (.error PyError.key) .ok
    | _ => .error PyError.type
  let px ← price.toFloat py
  return { wallMs, px }

def parseChainlinkLine (py : Python) (line : List Char) : Raises (Option ChainRow) := do
  let some r ← loadsOrNone py line | return none
  let eventType ← r.get "event_type"
  if !eventType.any (Value.isStr "chainlink") then return none
  let p ← r.getOrEmpty "payload"
  orNone (chainRow py r p)

inductive Kind where
  | buy
  | sell
  deriving DecidableEq, Repr

structure TradeMarker where
  bucket : ℤ
  wallMs : ℤ
  side : String
  kind : Kind
  mid : PyFloat
  S : PyFloat
  slug : String
  deriving DecidableEq, Repr

/-- `act`, unless it is none of the three actions. -/
def kindOf : Option Value → Option Kind
  | some (.str "BUY") => some .buy
  | some (.str "SELL") => some .sell
  | some (.str "FORCE_SELL") => some .sell
  | _ => none

/-- `slug.rsplit("-", 1)[-1]`. -/
def afterLastDash (slug : String) : String :=
  String.ofList (slug.toList.rtakeWhile (· ≠ '-'))

def tradeFields (py : Python) (r : Value) (bucket : ℤ) (kind : Kind) (slug : String) :
    Raises TradeMarker := do
  let wallMs ← (← r.item "local_ts_wall_ms").toInt py
  let side := match ← r.get "side" with
    | some v => v.toStr py
    | none => ""
  let mid ← r.floatField py "mid"
  let S ← r.floatField py "S"
  return { bucket, wallMs, side, kind, mid, S, slug }

def parseTradeLine (py : Python) (line : List Char) : Raises (Option TradeMarker) := do
  let some r ← loadsOrNone py line | return none
  let eventType ← r.get "event_type"
  if !eventType.any (Value.isStr "trade") then return none
  let some kind := kindOf (← r.get "action") | return none
  let some (.str slug) ← r.get "slug" | return none
  if slug = "" then return none
  let some bucket := py.intOfStr (afterLastDash slug) | return none
  orNone (tradeFields py r bucket kind slug)

end LeadLag.Dashboard
