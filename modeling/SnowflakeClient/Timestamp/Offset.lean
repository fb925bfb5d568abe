import SnowflakeClient.Timestamp.Basic

/-!
# Offsets as texts

Both directions write an offset of minutes as a sign, hours and minutes, with a plus only if the
hours are positive: the zone's name for `localtime`, and the end of a printed `TIMESTAMP_TZ`. From 1
to 59 minutes the sign is the wrong one.
-/

namespace Snowflake

open Decimal

/-- An offset below an hour, to the east. -/
def UnderAnHour (tz : Int) : Prop := 1 ≤ tz ∧ tz ≤ 59

instance (tz : Int) : Decidable (UnderAnHour tz) := inferInstanceAs (Decidable (_ ∧ _))

theorem quot_pos_iff (tz : Int) : 0 < tz.tdiv 60 ↔ 60 ≤ tz := by
  rcases lt_or_ge tz 0 with h | h
  · obtain ⟨n, rfl⟩ : ∃ n, tz = -n := ⟨-tz, (neg_neg tz).symm⟩
    rw [Int.neg_tdiv, Int.tdiv_eq_ediv_of_nonneg (by omega)]
    omega
  · rw [Int.tdiv_eq_ediv_of_nonneg h]
    omega

theorem natAbs_quot_rem (tz : Int) :
    60 * (tz.tdiv 60).natAbs + (tz.tmod 60).natAbs = tz.natAbs ∧ (tz.tmod 60).natAbs < 60 := by
  rw [Int.natAbs_tdiv, Int.natAbs_tmod]
  exact ⟨Nat.div_add_mod _ _, Nat.mod_lt _ (by decide)⟩

theorem readOffset_printOffset (tz : Int) :
    readOffset (printOffset tz) =
      some (if 60 ≤ tz then '+' else '-', (tz.tdiv 60).natAbs, (tz.tmod 60).natAbs) := by
  have hminutes : readNumber (padded 2 (tz.tmod 60).natAbs) = some ((tz.tmod 60).natAbs, []) := by
    have hread : readNumber (padded 2 (tz.tmod 60).natAbs ++ []) = some ((tz.tmod 60).natAbs, []) :=
      readNumber_padded stops_nil
    rwa [List.append_nil] at hread
  simp only [printOffset, readOffset, readNumber_padded (stops_cons ':' rfl _), hminutes,
    quot_pos_iff, Option.bind_eq_bind, Option.bind_some, if_true]

/-- The offset of the zone that the code makes up. -/
theorem zoneOffset_utc (zones : Zones) {tz : Int} (h0 : -1440 ≤ tz) (h1 : tz ≤ 1440) (t : Int) :
    zoneOffset zones ('U' :: 'T' :: 'C' :: printOffset tz) t =
      if UnderAnHour tz then 60 * tz else -(60 * tz) := by
  obtain ⟨hsum, hrem⟩ := natAbs_quot_rem tz
  have hsmall : (tz.tdiv 60).natAbs ≤ 24 ∧ (tz.tmod 60).natAbs ≤ 59 := by omega
  have hminutes :
      (60 * (60 * (tz.tdiv 60).natAbs + (tz.tmod 60).natAbs) : Int) = 60 * tz.natAbs := by omega
  rw [zoneOffset, posixOffset, readOffset_printOffset]
  simp only [Option.bind_eq_bind, Option.bind_some, if_pos hsmall, hminutes]
  by_cases hplus : 60 ≤ tz
  · have hunder : ¬UnderAnHour tz := fun h => absurd h.2 (by omega)
    rw [if_pos hplus, if_pos rfl, Option.getD_some, if_neg hunder]
    omega
  · rw [if_neg hplus, if_neg (by decide), if_pos rfl, Option.getD_some]
    by_cases hunder : UnderAnHour tz
    · have hlow := hunder.1
      rw [if_pos hunder]
      omega
    · have hneg : tz ≤ 0 := by
        by_contra hpos
        exact hunder ⟨by omega, by omega⟩
      rw [if_neg hunder]
      omega

end Snowflake
