import SnowflakeClient.Timestamp.Wire

/-!
# Epoch seconds

What `snowflake_timestamp_from_epoch_seconds` makes of a text of the server.

* `epoch_exact_iff`: without an offset, the value of the text, unless it is between -1 and 0.
* `wall_clock_iff`: with an offset, the time of day in the zone, unless the offset is positive and
  below an hour, where the zone's name gets the wrong sign.
-/

namespace Snowflake

open CInt Calendar Decimal

/-! ## Times and broken-down times -/

theorem brokenDown_seconds (t : Int) : (brokenDown t).seconds = t := by
  obtain ⟨hm0, hm1, -, -⟩ := ofDays_valid (t / 86400)
  have hdays := toDays_ofDays (t / 86400)
  have hmon : ((ofDays (t / 86400)).month - 1) / 12 = 0 := by omega
  have hmon' : ((ofDays (t / 86400)).month - 1) % 12 + 1 = (ofDays (t / 86400)).month := by omega
  have hyear : (ofDays (t / 86400)).year - 1900 + 1900 + 0 = (ofDays (t / 86400)).year := by omega
  simp only [toDays] at hdays
  simp only [BrokenDown.seconds, brokenDown, clockOf, hmon, hmon', hyear, toDays]
  omega

theorem brokenDown_injective : Function.Injective brokenDown := by
  intro t u h
  rw [← brokenDown_seconds t, h, brokenDown_seconds]

theorem YearFits.bounds {t : Int} (h : YearFits t) : -2 ^ 62 < t ∧ t < 2 ^ 62 := by
  obtain ⟨h0, h1⟩ := h
  obtain ⟨hlow, hhigh⟩ := ofDays_year (t / 86400)
  simp only [brokenDown, clockOf] at h0 h1
  unfold yearStart at hlow hhigh
  omega

theorem yearFits_of_lt {t : Int} (h0 : -2 ^ 33 < t) (h1 : t < 2 ^ 33) : YearFits t := by
  obtain ⟨hlow, hhigh⟩ := ofDays_year (t / 86400)
  unfold yearStart at hlow hhigh
  constructor <;> simp only [brokenDown, clockOf] <;> omega

theorem gmtime_of_fits {t : Int} (h : YearFits t) : gmtime t = some ⟨brokenDown t, 0, 0⟩ := if_pos h

theorem gmtime_eq_some {t : Int} {tm : Tm} (h : gmtime t = some tm) :
    YearFits t ∧ tm = ⟨brokenDown t, 0, 0⟩ := by
  by_cases hfits : YearFits t
  · rw [gmtime_of_fits hfits] at h
    exact ⟨hfits, (Option.some.inj h).symm⟩
  · rw [gmtime, if_neg hfits] at h
    cases h

/-! ## The function, step by step -/

/-- What is returned for a broken-down time. -/
def timestampOf (nsec tzoffset : Int) (scale : Nat) (tsType : DbType) :
    Option Tm → ValueStatus × SfTimestamp
  | none => (.errorGeneral, ⟨zeroTm, toI32 nsec, tzoffset, scale, tsType⟩)
  | some tm => (.success, ⟨tm, toI32 nsec, tzoffset, scale, tsType⟩)

theorem fromEpoch_eq (zones : Zones) (timezone : List Char) {str : List Char} {scale : Nat}
    {tsType : DbType}
    {sec nsec tz sec' nsec' : Int} {tm : Option Tm} (hpoint : afterFirst '.' str ≠ none)
    (hscale : scale ≤ 9) (hparse : parseEpoch str tsType = some (sec, nsec, tz))
    (hborrow : borrow scale sec nsec = some (sec', nsec'))
    (hmin : -2 ^ 63 ≤ nsec' * 10 ^ (9 - scale)) (hmax : nsec' * 10 ^ (9 - scale) < 2 ^ 63)
    (htime : timeFor zones timezone tsType sec' tz = some tm) :
    snowflakeTimestampFromEpochSeconds zones str timezone scale tsType =
      some (timestampOf (nsec' * 10 ^ (9 - scale))
        (if tsType = .timestampTz then toI32 tz else 0) scale tsType tm) := by
  have hunit : pow10Int64 (9 - scale) = some (10 ^ (9 - scale)) := by
    rw [← Wire.pow10Int64_natCast (by omega : 9 - scale ≤ 9)]
    congr 1
    omega
  rw [snowflakeTimestampFromEpochSeconds]
  simp only [hpoint, false_and, if_false, hparse, hborrow, hunit, checkI64_of_lt hmin hmax, htime,
    Option.bind_eq_bind, Option.bind_some]
  cases tm <;> rfl

theorem mul_pow_bounds {n : Int} (hn : -10 ^ 9 ≤ n ∧ n ≤ 10 ^ 9) (scale : Nat) :
    -10 ^ 18 ≤ n * 10 ^ (9 - scale) ∧ n * 10 ^ (9 - scale) ≤ 10 ^ 18 := by
  have hpos : (0 : Int) ≤ 10 ^ (9 - scale) := by positivity
  have hpow : (10 : Int) ^ (9 - scale) ≤ 10 ^ 9 := pow_le_pow_right₀ (by decide) (by omega)
  constructor <;> nlinarith

/-- A number of units of the scale is less than a second. -/
theorem mul_pow_lt {scale : Nat} {n : Int} (hscale : scale ≤ 9) (h0 : 0 ≤ n) (h1 : n < 10 ^ scale) :
    0 ≤ n * 10 ^ (9 - scale) ∧ n * 10 ^ (9 - scale) < 10 ^ 9 := by
  have hpos : (0 : Int) < 10 ^ (9 - scale) := by positivity
  refine ⟨by positivity, ?_⟩
  calc n * 10 ^ (9 - scale) < 10 ^ scale * 10 ^ (9 - scale) := by
        exact mul_lt_mul_of_pos_right h1 hpos
    _ = 10 ^ 9 := by rw [← pow_add, Nat.add_sub_cancel' hscale]

/-! ## Times without an offset -/

section Plain

variable (zones : Zones) (timezone : List Char) {tsType : DbType} (w : Wire)

theorem timeFor_plain {sec tz : Int} (htype : tsType = .time ∨ tsType = .timestampNtz) :
    timeFor zones timezone tsType sec tz = some (gmtime sec) := by
  rcases htype with rfl | rfl <;> rfl

theorem fromEpoch_plain {sec nsec : Int} (htype : tsType = .time ∨ tsType = .timestampNtz)
    (hscale : w.scale ≤ 9) (hwhole : w.whole.value < 2 ^ 63)
    (hborrow : borrow w.scale w.signed w.fraction.value = some (sec, nsec))
    (hnsec : -10 ^ 9 ≤ nsec ∧ nsec ≤ 10 ^ 9) :
    snowflakeTimestampFromEpochSeconds zones w.text timezone w.scale tsType =
      some (timestampOf (nsec * 10 ^ (9 - w.scale)) 0 w.scale tsType (gmtime sec)) := by
  have hdate : tsType ≠ .date := by rcases htype with rfl | rfl <;> decide
  have htz : tsType ≠ .timestampTz := by rcases htype with rfl | rfl <;> decide
  have hpoint : afterFirst '.' w.text ≠ none := by
    rw [Wire.text, w.afterFirst_point]
    exact Option.some_ne_none _
  obtain ⟨hlow, hhigh⟩ := mul_pow_bounds hnsec w.scale
  have hrun := fromEpoch_eq zones timezone hpoint hscale
    (w.parseEpoch_text hdate hscale hwhole) hborrow (by omega) (by omega)
    (timeFor_plain zones timezone htype)
  rwa [if_neg htz] at hrun

theorem Wire.whole_lt {w : Wire} (h : YearFits w.floor) : w.whole.value < 2 ^ 63 := by
  obtain ⟨h0, h1⟩ := h.bounds
  rw [Wire.floor, Wire.signed] at h0 h1
  split_ifs at h0 h1 <;> omega

/-- A fraction of a second in units of the scale, and in nanoseconds. -/
theorem Wire.nanoseconds (hscale : w.scale ≤ 9) :
    (w.value - ⌊w.value⌋) * 10 ^ 9 = ((w.fract * 10 ^ (9 - w.scale) : Int) : ℚ) := by
  rw [Int.cast_mul, ← w.sub_floor, mul_assoc]
  push_cast
  rw [← pow_add, Nat.add_sub_cancel' hscale]

/-- The time of a text and its nanoseconds are exact if and only if its value is not between -1 and
0. -/
theorem epoch_exact_iff (htype : tsType = .time ∨ tsType = .timestampNtz) (hscale : w.scale ≤ 9)
    (tm : Tm) (hrange : gmtime ⌊w.value⌋ = some tm) :
    (∃ ts, snowflakeTimestampFromEpochSeconds zones w.text timezone w.scale tsType =
        some (.success, ts) ∧ ts.tm = tm ∧ (ts.nsec : ℚ) = (w.value - ⌊w.value⌋) * 10 ^ 9 ∧
        0 ≤ ts.nsec ∧ ts.nsec < 10 ^ 9) ↔
      ¬(-1 < w.value ∧ w.value < 0) := by
  rw [w.between_iff]
  have htime := hrange
  rw [w.floor_value] at htime
  obtain ⟨hfits, htm⟩ := gmtime_eq_some htime
  have hwhole := Wire.whole_lt hfits
  have hfraction := value_lt_of_length_le hscale
  have hpow : (10 : Int) ^ w.scale ≤ 10 ^ 9 := pow_le_pow_right₀ (by decide) hscale
  constructor
  · rintro ⟨ts, hrun, htm', -⟩ hbetween
    -- the code takes the time of the epoch for the one of the second before it
    have hfloor : w.floor = -1 := by
      simp [Wire.floor, hbetween.1, hbetween.2.1, hbetween.2.2]
    rw [fromEpoch_plain zones timezone w htype hscale hwhole (w.borrow_between hbetween)
      ⟨by omega, by omega⟩, gmtime_of_fits (by decide)] at hrun
    obtain ⟨-, rfl⟩ := Prod.mk.inj (Option.some.inj hrun)
    have hclock : brokenDown 0 = brokenDown (-1) := by
      rw [htm, hfloor] at htm'
      exact congrArg Tm.clock htm'
    exact absurd (brokenDown_injective hclock) (by decide)
  · intro hbetween
    have hnonneg := w.fract_nonneg
    have hlt := w.fract_lt
    obtain ⟨h0, h1⟩ := mul_pow_lt hscale hnonneg hlt
    have hnsec : toI32 (w.fract * 10 ^ (9 - w.scale)) = w.fract * 10 ^ (9 - w.scale) :=
      toI32_of_lt (by omega) (by omega)
    have hrun := fromEpoch_plain zones timezone w htype hscale hwhole
      (w.borrow_floor hscale hwhole hbetween) ⟨by omega, by omega⟩
    rw [htime, timestampOf, hnsec] at hrun
    exact ⟨_, hrun, rfl, (w.nanoseconds hscale).symm, h0, h1⟩

end Plain

/-- `-12.5`. -/
def beforeEpoch : Wire := ⟨true, .ofNat 12, (Numeral.ofNat 5).toDigits⟩

theorem epoch_exact_before_epoch :
    ∃ ts, snowflakeTimestampFromEpochSeconds (fun _ _ => 0) beforeEpoch.text [] 1 .timestampNtz =
        some (.success, ts) ∧ ts.tm = ⟨brokenDown (-13), 0, 0⟩ ∧
      (ts.nsec : ℚ) = (beforeEpoch.value - ⌊beforeEpoch.value⌋) * 10 ^ 9 ∧
      0 ≤ ts.nsec ∧ ts.nsec < 10 ^ 9 := by
  refine (epoch_exact_iff (fun _ _ => 0) [] beforeEpoch (Or.inr rfl) (by decide) _ ?_).mpr ?_
  · rw [beforeEpoch.floor_value]
    decide
  · rw [beforeEpoch.between_iff, Wire.Between]
    decide

/-- `-0.5`. -/
def halfBeforeEpoch : Wire := ⟨true, .ofNat 0, (Numeral.ofNat 5).toDigits⟩

/-- Half a second before the epoch is taken for half a second after it. -/
theorem epoch_sign_lost :
    gmtime ⌊halfBeforeEpoch.value⌋ = some ⟨brokenDown (-1), 0, 0⟩ ∧
      snowflakeTimestampFromEpochSeconds (fun _ _ => 0) halfBeforeEpoch.text [] 1 .timestampNtz =
        some (.success, ⟨⟨brokenDown 0, 0, 0⟩, 500000000, 0, 1, .timestampNtz⟩) ∧
      brokenDown 0 ≠ brokenDown (-1) := by
  refine ⟨?_, by decide, by decide⟩
  rw [halfBeforeEpoch.floor_value]
  decide

/-! ## Times with an offset -/

/-- The time that the code takes for the one of the zone. -/
def zoneTime (sec tz : Int) : Int := if UnderAnHour tz then sec + 180 * tz else sec + 60 * tz

/-- The broken-down time of the zone, if its year fits. -/
def zoneTm (sec tz : Int) : Option Tm :=
  if YearFits (zoneTime sec tz) then
    some ⟨brokenDown (zoneTime sec tz), 0, zoneTime sec tz - (sec + 120 * tz)⟩
  else none

section Zoned

variable (zones : Zones) (timezone : List Char) (w : Wire) {o : Numeral}

theorem localtime_zoned {sec tz : Int} (h0 : -1440 ≤ tz) (h1 : tz ≤ 1440) :
    localtime zones ('U' :: 'T' :: 'C' :: printOffset tz) (sec + 120 * tz) = zoneTm sec tz := by
  have heast : zoneOffset zones ('U' :: 'T' :: 'C' :: printOffset tz) (sec + 120 * tz) =
      zoneTime sec tz - (sec + 120 * tz) := by
    rw [zoneOffset_utc zones h0 h1, zoneTime]
    split_ifs <;> omega
  rw [localtime, zoneTm, heast, add_sub_cancel]

theorem timeFor_zoned {sec tz : Int} (h0 : -1440 ≤ tz) (h1 : tz ≤ 1440)
    (hmin : -2 ^ 62 - 86400 ≤ sec) (hmax : sec ≤ 2 ^ 62 + 86400) :
    timeFor zones timezone .timestampTz sec tz = some (zoneTm sec tz) := by
  have hadjust : checkI64 (tz * 60 * 2) = some (120 * tz) := by
    rw [checkI64_of_lt (by omega) (by omega)]
    congr 1
    omega
  have hsec : checkI64 (sec + 120 * tz) = some (sec + 120 * tz) :=
    checkI64_of_lt (by omega) (by omega)
  simp [timeFor, hadjust, hsec, localtime_zoned zones h0 h1]

theorem fromEpoch_zoned {sec nsec : Int} (hscale : w.scale ≤ 9) (hwhole : w.whole.value < 2 ^ 63)
    (ho : o.value ≤ 2880)
    (hborrow : borrow w.scale w.signed (w.zonedFraction o) = some (sec, nsec))
    (hnsec : -10 ^ 9 ≤ nsec ∧ nsec ≤ 10 ^ 9) (hmin : -2 ^ 62 - 86400 ≤ sec)
    (hmax : sec ≤ 2 ^ 62 + 86400) :
    snowflakeTimestampFromEpochSeconds zones (w.zoned o) timezone w.scale .timestampTz =
      some (timestampOf (nsec * 10 ^ (9 - w.scale)) (o.value - 1440) w.scale .timestampTz
        (zoneTm sec (o.value - 1440))) := by
  have hpoint : afterFirst '.' (w.zoned o) ≠ none := by
    rw [Wire.zoned, w.afterFirst_point]
    exact Option.some_ne_none _
  obtain ⟨hlow, hhigh⟩ := mul_pow_bounds hnsec w.scale
  have hrun := fromEpoch_eq zones timezone hpoint hscale
    (w.parseEpoch_zoned (by decide) hscale hwhole ho) hborrow (by omega) (by omega)
    (timeFor_zoned zones timezone (by omega) (by omega) hmin hmax)
  rwa [if_pos rfl, toI32_of_lt (by omega) (by omega)] at hrun

theorem Wire.zonedFraction_bounds (hscale : w.scale ≤ 9) (ho : o.value ≤ 2880) :
    0 ≤ w.zonedFraction o ∧ w.zonedFraction o ≤ 10 ^ 9 := by
  have hfraction := value_lt_of_length_le hscale
  rw [Wire.zonedFraction]
  split_ifs <;> omega

/-- From the epoch on, the time of day in the zone is right if and only if the offset is not
positive and below an hour. -/
theorem wall_clock_iff (hpos : w.negative = false) (hscale : w.scale ≤ 9) (ho : o.value ≤ 2880)
    (tm : Tm) (hrange : gmtime (w.whole.value + 60 * ((o.value : Int) - 1440)) = some tm) :
    (∃ ts, snowflakeTimestampFromEpochSeconds zones (w.zoned o) timezone w.scale .timestampTz =
        some (.success, ts) ∧ ts.tzoffset = (o.value : Int) - 1440 ∧ ts.tm.clock = tm.clock) ↔
      ¬UnderAnHour ((o.value : Int) - 1440) := by
  obtain ⟨hfits, rfl⟩ := gmtime_eq_some hrange
  obtain ⟨hmin, hmax⟩ := hfits.bounds
  obtain ⟨hn0, hn1⟩ := w.zonedFraction_bounds hscale ho
  have hsigned : w.signed = w.whole.value := by simp [Wire.signed, hpos]
  have hborrow : borrow w.scale w.signed (w.zonedFraction o) =
      some ((w.whole.value : Int), w.zonedFraction o) := by
    rw [hsigned, Wire.borrow_of_not (by omega)]
  rw [fromEpoch_zoned zones timezone w hscale (by omega) ho hborrow ⟨by omega, hn1⟩ (by omega)
    (by omega)]
  constructor
  · rintro ⟨ts, hrun, -, hclock⟩ hunder
    -- the two signs of the offset do not cancel
    have htime : zoneTime w.whole.value (o.value - 1440) =
        w.whole.value + 180 * (o.value - 1440) := if_pos hunder
    rw [zoneTm, htime] at hrun
    by_cases hfits' : YearFits (w.whole.value + 180 * (o.value - 1440))
    · rw [if_pos hfits'] at hrun
      obtain ⟨-, rfl⟩ := Prod.mk.inj (Option.some.inj hrun)
      have hsame := brokenDown_injective hclock
      have hlow := hunder.1
      omega
    · rw [if_neg hfits'] at hrun
      cases hrun
  · intro hunder
    have htime : zoneTime w.whole.value (o.value - 1440) =
        w.whole.value + 60 * (o.value - 1440) := if_neg hunder
    rw [zoneTm, htime, if_pos hfits]
    exact ⟨_, rfl, rfl, rfl⟩

end Zoned

/-- `0.25`. -/
def quarter : Wire := ⟨false, .ofNat 0, (Numeral.ofNat 25).toDigits⟩

/-- An hour to the east. -/
theorem wall_clock_hour :
    ∃ ts, snowflakeTimestampFromEpochSeconds (fun _ _ => 0) (quarter.zoned (.ofNat 1500)) [] 2
        .timestampTz = some (.success, ts) ∧
      ts.tzoffset = ((Numeral.ofNat 1500).value : Int) - 1440 ∧
      ts.tm.clock = brokenDown 3600 := by
  refine (wall_clock_iff (fun _ _ => 0) [] quarter rfl (by decide) (by decide)
    ⟨brokenDown 3600, 0, 0⟩ ?_).mpr ?_ <;> decide

/-- Half an hour to the east, the time is taken for an hour and a half after the epoch. -/
theorem wall_clock_half_hour :
    gmtime (0 + 60 * ((Numeral.ofNat 1470).value - 1440)) = some ⟨brokenDown 1800, 0, 0⟩ ∧
      (snowflakeTimestampFromEpochSeconds (fun _ _ => 0) (quarter.zoned (.ofNat 1470)) [] 2
        .timestampTz).map (fun r => (r.1, r.2.tzoffset, r.2.tm.clock)) =
        some (.success, 30, brokenDown 5400) ∧
      brokenDown 5400 ≠ brokenDown 1800 := by
  decide

end Snowflake
