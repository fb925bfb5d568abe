import SnowflakeClient.Timestamp.Epoch

/-!
# Epoch seconds and back

`snowflake_timestamp_get_epoch_seconds` of what `snowflake_timestamp_from_epoch_seconds` made, in a
process whose zone is UTC. `mktime` is right (`mktime_of_clock`), but the offset is subtracted in
minutes from a time in seconds, so only times with an offset of zero come back
(`epoch_round_trip_iff`).
-/

namespace Snowflake

open CInt Calendar Decimal

/-! ## The function -/

theorem mktime_of_clock {t : Int} (hfits : YearFits t) {tm : Tm}
    (hclock : tm.clock = brokenDown t) : mktime tm = (t, ⟨brokenDown t, 0, 0⟩) := by
  rw [mktime, hclock, brokenDown_seconds, gmtime_of_fits hfits, Option.elim_some]

theorem getEpoch_eq {t : Int} (hfits : YearFits t) {ts : SfTimestamp}
    (hclock : ts.tm.clock = brokenDown t) :
    snowflakeTimestampGetEpochSeconds ts =
      (checkI32 (toI32 (toI32 t) - ts.tzoffset)).map fun epochTime =>
        (.success, epochTime, { ts with tm := ⟨brokenDown t, 0, 0⟩ }) := by
  have hmktime : mktime { ts.tm with isdst := -1 } = (t, ⟨brokenDown t, 0, 0⟩) :=
    mktime_of_clock hfits hclock
  rw [snowflakeTimestampGetEpochSeconds, hmktime]
  simp only [add_zero]
  cases checkI32 (toI32 (toI32 t) - ts.tzoffset) <;> rfl

/-- An offset is taken for seconds, which shows, whatever the seconds before are. -/
theorem epoch_eq_iff {floor sec m : Int} (h0 : -2 ^ 31 ≤ floor) (h1 : floor < 2 ^ 31)
    (hsec : floor - 1 ≤ sec ∧ sec ≤ floor + 1) (hm : -1440 ≤ m ∧ m ≤ 1440) :
    checkI32 (toI32 (toI32 (sec + 60 * m)) - m) = some floor ↔ m = 0 ∧ sec = floor := by
  obtain ⟨k, hk, hlow, hhigh⟩ := toI32_eq (sec + 60 * m)
  rw [toI32_of_lt hlow hhigh, hk, checkI32_eq_some_iff]
  constructor
  · rintro ⟨heq, -, -⟩
    -- `59 * m` is less than a multiple of `2 ^ 32`, and more than a second
    obtain rfl : k = 0 := by omega
    omega
  · rintro ⟨rfl, rfl⟩
    omega

/-! ## The seconds that are stored -/

/-- The seconds after the borrow, for a fraction that is read as it is. -/
theorem Wire.borrow_fraction (w : Wire) (hscale : w.scale ≤ 9) (hwhole : w.whole.value < 2 ^ 63) :
    ∃ sec nsec, borrow w.scale w.signed w.fraction.value = some (sec, nsec) ∧
      (0 ≤ nsec ∧ nsec < 10 ^ w.scale) ∧ (w.floor ≤ sec ∧ sec ≤ w.floor + 1) ∧
      (sec = w.floor ↔ ¬w.Between) := by
  by_cases h : w.Between
  · have hfloor : w.floor = -1 := by simp [Wire.floor, h.1, h.2.1, h.2.2]
    refine ⟨0, w.fraction.value, w.borrow_between h, ⟨by omega, ?_⟩, by omega, ?_⟩
    · exact_mod_cast w.fraction_lt
    · simp [h, hfloor]
  · exact ⟨_, _, w.borrow_floor hscale hwhole h, ⟨w.fract_nonneg, w.fract_lt⟩, by omega,
      by simp [h]⟩

/-- Without a fraction the value is the number before the point. -/
theorem Wire.of_scale_zero {w : Wire} (h : w.scale = 0) :
    w.value = w.signed ∧ w.floor = w.signed ∧ ¬w.Between := by
  have hzero : w.fraction.value = 0 := by
    have hlt := w.fraction_lt
    rw [h] at hlt
    omega
  have hneg : ¬(w.negative ∧ 0 < w.fraction.value) := by omega
  have hfloor : w.floor = w.signed := if_neg hneg
  refine ⟨?_, hfloor, fun hbetween => hneg ⟨hbetween.1, hbetween.2.2⟩⟩
  rw [w.value_eq, hfloor, Wire.fract, if_neg hneg, hzero]
  simp

/-- A value with an offset for `TIMESTAMP_TZ`, and without one for `TIMESTAMP_NTZ`. -/
structure StampText where
  wire : Wire
  offset : Option Numeral

namespace StampText

variable (x : StampText)

def text : List Char := x.offset.elim x.wire.text x.wire.zoned

def tsType : DbType := x.offset.elim .timestampNtz fun _ => .timestampTz

/-- The offset in minutes. -/
def minutes : Int := x.offset.elim 0 fun o => (o.value : Int) - 1440

/-- What is taken for the fraction. -/
def fraction : Int := x.offset.elim (x.wire.fraction.value : Int) x.wire.zonedFraction

/-- The offset is taken for the fraction, and the borrow made for it. -/
def OffsetBorrowed : Prop := x.offset.isSome ∧ x.wire.scale = 0 ∧ x.wire.value < 0

variable {x}

/-- Without a fraction of its own, a value before the epoch loses a second to the offset. -/
theorem borrow_offset {o : Numeral} (hoffset : x.offset = some o) (hzero : x.wire.scale = 0)
    (hwhole : x.wire.whole.value < 2 ^ 63) (hminutes : x.minutes ≤ 1440) :
    ∃ sec nsec, borrow x.wire.scale x.wire.signed x.fraction = some (sec, nsec) ∧
      (-10 ^ 9 ≤ nsec ∧ nsec ≤ 10 ^ 9) ∧ (x.wire.floor - 1 ≤ sec ∧ sec ≤ x.wire.floor + 1) ∧
      (x.minutes = 0 → (sec = x.wire.floor ↔ ¬x.wire.Between ∧ ¬x.OffsetBorrowed)) := by
  obtain ⟨hvalue, hfloor, hbetween⟩ := Wire.of_scale_zero hzero
  have hminutes' : x.minutes = (o.value : Int) - 1440 := by rw [minutes, hoffset]; rfl
  have hfraction : x.fraction = o.value := by
    rw [fraction, hoffset]
    exact if_pos hzero
  have hsigned : -2 ^ 63 < x.wire.signed := by
    rw [Wire.signed]
    split_ifs <;> omega
  have hnegative : x.wire.value < 0 ↔ x.wire.signed < 0 := by rw [hvalue, Int.cast_lt_zero]
  by_cases hneg : x.wire.signed < 0 ∧ 0 < (o.value : Int)
  · have hborrow :=
      Wire.borrow_of_neg (by omega : x.wire.scale ≤ 9) hneg.1 hneg.2 (by omega) hsigned
    rw [hzero, pow_zero] at hborrow
    refine ⟨x.wire.signed - 1, 1 - o.value, ?_, by omega, by omega, fun _ => ?_⟩
    · rw [hfraction, hzero, hborrow]
    · have hborrowed : x.OffsetBorrowed := ⟨by rw [hoffset]; rfl, hzero, hnegative.mpr hneg.1⟩
      simp [hborrowed, hfloor]
  · refine ⟨x.wire.signed, o.value, ?_, by omega, by omega, fun hutc => ?_⟩
    · rw [hfraction, Wire.borrow_of_not hneg]
    · have hborrowed : ¬x.OffsetBorrowed := fun h => hneg ⟨hnegative.mp h.2.2, by omega⟩
      simp [hborrowed, hbetween, hfloor]

theorem borrow_eq (hscale : x.wire.scale ≤ 9) (hwhole : x.wire.whole.value < 2 ^ 63)
    (hminutes : x.minutes ≤ 1440) :
    ∃ sec nsec, borrow x.wire.scale x.wire.signed x.fraction = some (sec, nsec) ∧
      (-10 ^ 9 ≤ nsec ∧ nsec ≤ 10 ^ 9) ∧ (x.wire.floor - 1 ≤ sec ∧ sec ≤ x.wire.floor + 1) ∧
      (x.minutes = 0 → (sec = x.wire.floor ↔ ¬x.wire.Between ∧ ¬x.OffsetBorrowed)) := by
  obtain ⟨sec, nsec, hborrow, ⟨h0, h1⟩, hsec, hexact⟩ := x.wire.borrow_fraction hscale hwhole
  have hpow : (10 : Int) ^ x.wire.scale ≤ 10 ^ 9 := pow_le_pow_right₀ (by decide) hscale
  cases hoffset : x.offset with
  | none =>
    have hfraction : x.fraction = x.wire.fraction.value := by rw [fraction, hoffset]; rfl
    refine ⟨sec, nsec, by rw [hfraction, hborrow], by omega, by omega, fun _ => ?_⟩
    rw [hexact, OffsetBorrowed, hoffset]
    simp
  | some o =>
    by_cases hzero : x.wire.scale = 0
    · exact borrow_offset hoffset hzero hwhole hminutes
    · have hfraction : x.fraction = x.wire.fraction.value := by
        rw [fraction, hoffset]
        exact if_neg hzero
      refine ⟨sec, nsec, by rw [hfraction, hborrow], by omega, by omega, fun _ => ?_⟩
      rw [hexact, OffsetBorrowed]
      simp [hzero]

theorem fromEpoch (zones : Zones) (timezone : List Char) {sec nsec : Int}
    (hscale : x.wire.scale ≤ 9) (hwhole : x.wire.whole.value < 2 ^ 63) (hlow : -1440 ≤ x.minutes)
    (hhigh : x.minutes ≤ 1440) (hhour : ¬UnderAnHour x.minutes)
    (hborrow : borrow x.wire.scale x.wire.signed x.fraction = some (sec, nsec))
    (hnsec : -10 ^ 9 ≤ nsec ∧ nsec ≤ 10 ^ 9) (hmin : -2 ^ 32 ≤ sec) (hmax : sec ≤ 2 ^ 32) :
    ∃ ts, snowflakeTimestampFromEpochSeconds zones x.text timezone x.wire.scale x.tsType =
        some (.success, ts) ∧ ts.tm.clock = brokenDown (sec + 60 * x.minutes) ∧
      ts.tzoffset = x.minutes := by
  have hfits : YearFits (sec + 60 * x.minutes) := yearFits_of_lt (by omega) (by omega)
  cases hoffset : x.offset with
  | none =>
    have hutc : x.minutes = 0 := by rw [minutes, hoffset]; rfl
    have htext : x.text = x.wire.text := by rw [text, hoffset]; rfl
    have htype : x.tsType = .timestampNtz := by rw [tsType, hoffset]; rfl
    have hfraction : x.fraction = x.wire.fraction.value := by rw [fraction, hoffset]; rfl
    rw [hutc, mul_zero, add_zero] at hfits ⊢
    rw [hfraction] at hborrow
    rw [htext, htype,
      fromEpoch_plain zones timezone x.wire (Or.inr rfl) hscale hwhole hborrow hnsec,
      gmtime_of_fits hfits]
    exact ⟨_, rfl, rfl, rfl⟩
  | some o =>
    have hvalue : x.minutes = (o.value : Int) - 1440 := by rw [minutes, hoffset]; rfl
    have htext : x.text = x.wire.zoned o := by rw [text, hoffset]; rfl
    have htype : x.tsType = .timestampTz := by rw [tsType, hoffset]; rfl
    have hfraction : x.fraction = x.wire.zonedFraction o := by rw [fraction, hoffset]; rfl
    have htime : zoneTime sec x.minutes = sec + 60 * x.minutes := if_neg hhour
    rw [hfraction] at hborrow
    rw [htext, htype, fromEpoch_zoned zones timezone x.wire hscale hwhole (by omega) hborrow hnsec
      (by omega) (by omega), ← hvalue, zoneTm, htime, if_pos hfits]
    exact ⟨_, rfl, rfl, rfl⟩

end StampText

/-! ## The round trip -/

/-- A time comes back if and only if its offset is zero, its value is not between -1 and 0, and the
offset was not taken for the fraction. -/
theorem epoch_round_trip_iff (zones : Zones) (timezone : List Char) (x : StampText)
    (hscale : x.wire.scale ≤ 9)
    (hminutes : -1440 ≤ x.minutes ∧ x.minutes ≤ 0 ∨ 60 ≤ x.minutes ∧ x.minutes ≤ 1440)
    (hlow : -2 ^ 31 ≤ ⌊x.wire.value⌋) (hhigh : ⌊x.wire.value⌋ < 2 ^ 31) :
    (∃ ts ts', snowflakeTimestampFromEpochSeconds zones x.text timezone x.wire.scale x.tsType =
        some (.success, ts) ∧
      snowflakeTimestampGetEpochSeconds ts = some (.success, ⌊x.wire.value⌋, ts')) ↔
      x.minutes = 0 ∧ ¬(-1 < x.wire.value ∧ x.wire.value < 0) ∧ ¬x.OffsetBorrowed := by
  rw [x.wire.between_iff, x.wire.floor_value]
  rw [x.wire.floor_value] at hlow hhigh
  have hwhole : x.wire.whole.value < 2 ^ 63 := Wire.whole_lt (yearFits_of_lt (by omega) (by omega))
  have hhour : ¬UnderAnHour x.minutes := fun h => by
    obtain ⟨h1, h2⟩ := h
    omega
  obtain ⟨sec, nsec, hborrow, hnsec, hsec, hexact⟩ :=
    StampText.borrow_eq hscale hwhole (by omega)
  obtain ⟨ts, hrun, hclock, htz⟩ := StampText.fromEpoch zones timezone hscale hwhole (by omega)
    (by omega) hhour hborrow hnsec (by omega) (by omega)
  have hfits : YearFits (sec + 60 * x.minutes) := yearFits_of_lt (by omega) (by omega)
  have hback := getEpoch_eq hfits hclock
  rw [htz] at hback
  have harith := epoch_eq_iff hlow hhigh hsec (by omega : -1440 ≤ x.minutes ∧ x.minutes ≤ 1440)
  constructor
  · rintro ⟨ts₁, ts', hrun₁, hget⟩
    rw [hrun] at hrun₁
    obtain ⟨-, rfl⟩ := Prod.mk.inj (Option.some.inj hrun₁)
    rw [hback] at hget
    obtain ⟨e, he, hpair⟩ := Option.map_eq_some_iff.mp hget
    obtain rfl : e = x.wire.floor := by
      simp only [Prod.mk.injEq] at hpair
      exact hpair.2.1
    obtain ⟨hzero, hfloor⟩ := harith.mp he
    exact ⟨hzero, (hexact hzero).mp hfloor⟩
  · rintro ⟨hzero, hgood⟩
    have he := harith.mpr ⟨hzero, (hexact hzero).mpr hgood⟩
    rw [he] at hback
    exact ⟨ts, _, hrun, hback⟩

/-- `-12.5` of type `TIMESTAMP_NTZ`. -/
theorem epoch_round_trip_before_epoch :
    ∃ ts ts', snowflakeTimestampFromEpochSeconds (fun _ _ => 0) beforeEpoch.text [] 1
        .timestampNtz = some (.success, ts) ∧
      snowflakeTimestampGetEpochSeconds ts = some (.success, ⌊beforeEpoch.value⌋, ts') := by
  refine (epoch_round_trip_iff (fun _ _ => 0) [] ⟨beforeEpoch, none⟩ (by decide) (by decide) ?_
    ?_).mpr ⟨rfl, ?_, ?_⟩
  · rw [beforeEpoch.floor_value]
    decide
  · rw [beforeEpoch.floor_value]
    decide
  · rw [beforeEpoch.between_iff, Wire.Between]
    decide
  · exact fun h => absurd h.1 (by decide)

/-- A quarter of a second after the epoch, an hour to the east, comes back as 3540 seconds after
it. -/
theorem epoch_round_trip_hour :
    ⌊quarter.value⌋ = 0 ∧
      ((snowflakeTimestampFromEpochSeconds (fun _ _ => 0) (quarter.zoned (.ofNat 1500)) [] 2
        .timestampTz).bind fun r => snowflakeTimestampGetEpochSeconds r.2).map
        (fun r => (r.1, r.2.1)) = some (.success, 3540) := by
  constructor
  · rw [quarter.floor_value]
    decide
  · decide

end Snowflake
