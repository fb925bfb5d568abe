import SnowflakeClient.Timestamp.Basic

/-!
# Timestamps from their parts

`snowflake_timestamp_from_parts` (`lib/client.c`) and the functions that read the parts of a
timestamp. Each part is checked against a range of its own and stored, and `mktime` puts the members
into their ranges in the end. The documentation of the function says that nothing else is checked.

`timestamp_parts`: a timestamp is made exactly if the parts are in their ranges. It has the parts
that were passed, but for a day that the month does not have: this is the day of the next month that
comes as many days later.
-/

namespace Snowflake

open Calendar

/-! ## The functions -/

structure Parts where
  nanoseconds : Int
  seconds : Int
  minutes : Int
  hours : Int
  mday : Int
  months : Int
  year : Int
  tzoffset : Int
  scale : Int
  tsType : DbType
  deriving DecidableEq, Repr

/-- What `memset` leaves. -/
def zeroTimestamp : SfTimestamp := ⟨zeroTm, 0, 0, 0, .fixed⟩

/-- A part is stored if it is in its range. The timestamp of an error has the parts before it. -/
def storePart (value low high : Int) (store : SfTimestamp → SfTimestamp) (ts : SfTimestamp) :
    Except SfTimestamp SfTimestamp :=
  if value < low ∨ high < value then .error ts else .ok (store ts)

/-- The types that a timestamp may have. -/
def stampTypes : List DbType := [.date, .time, .timestampLtz, .timestampNtz, .timestampTz]

def storeType (tsType : DbType) (ts : SfTimestamp) : Except SfTimestamp SfTimestamp :=
  if tsType ∉ stampTypes then .error ts else .ok { ts with tsType }

/-- The parts one after the other. -/
def storeParts (p : Parts) : Except SfTimestamp SfTimestamp := do
  let ts ← storePart p.nanoseconds 0 999999999 ({ · with nsec := p.nanoseconds }) zeroTimestamp
  let ts ← storePart p.seconds 0 59 ({ · with tm.clock.sec := p.seconds }) ts
  let ts ← storePart p.minutes 0 59 ({ · with tm.clock.min := p.minutes }) ts
  let ts ← storePart p.hours 0 23 ({ · with tm.clock.hour := p.hours }) ts
  let ts ← storePart p.mday 1 31 ({ · with tm.clock.mday := p.mday }) ts
  let ts ← storePart p.months 1 12 ({ · with tm.clock.mon := p.months - 1 }) ts
  let ts ← storePart p.year (-99999) 99999 ({ · with tm.clock.year := p.year - 1900 }) ts
  let ts ← storePart p.tzoffset 0 1439 ({ · with tzoffset := p.tzoffset }) ts
  let ts ← storePart p.scale 0 9 ({ · with scale := p.scale }) ts
  storeType p.tsType ts

/-- `snowflake_timestamp_from_parts`. A pointer that is `none` is `NULL`. -/
def snowflakeTimestampFromParts (ts : Option SfTimestamp) (p : Parts) :
    ValueStatus × Option SfTimestamp :=
  match ts with
  | none => (.errorNullPointer, none)
  | some _ =>
    match storeParts p with
    | .error ts => (.errorOutOfRange, some ts)
    | .ok ts => (.success, some { ts with tm := (mktime ts.tm).2 })

/-- A part that is read, or `null` for the null pointer. -/
def readPart (null : Int) (read : SfTimestamp → Int) (ts : Option SfTimestamp) : Int :=
  ts.elim null read

def snowflakeTimestampGetNanoseconds : Option SfTimestamp → Int := readPart (-1) (·.nsec)

def snowflakeTimestampGetSeconds : Option SfTimestamp → Int := readPart (-1) (·.tm.clock.sec)

def snowflakeTimestampGetMinutes : Option SfTimestamp → Int := readPart (-1) (·.tm.clock.min)

def snowflakeTimestampGetHours : Option SfTimestamp → Int := readPart (-1) (·.tm.clock.hour)

def snowflakeTimestampGetMday : Option SfTimestamp → Int := readPart (-1) (·.tm.clock.mday)

def snowflakeTimestampGetMonth : Option SfTimestamp → Int := readPart (-1) (·.tm.clock.mon + 1)

def snowflakeTimestampGetYear : Option SfTimestamp → Int :=
  readPart (-100000) (·.tm.clock.year + 1900)

/-! ## The parts that are stored -/

/-- Every part is in its range. -/
structure Parts.InRange (p : Parts) : Prop where
  nanoseconds : 0 ≤ p.nanoseconds ∧ p.nanoseconds ≤ 999999999
  seconds : 0 ≤ p.seconds ∧ p.seconds ≤ 59
  minutes : 0 ≤ p.minutes ∧ p.minutes ≤ 59
  hours : 0 ≤ p.hours ∧ p.hours ≤ 23
  mday : 1 ≤ p.mday ∧ p.mday ≤ 31
  months : 1 ≤ p.months ∧ p.months ≤ 12
  year : -99999 ≤ p.year ∧ p.year ≤ 99999
  tzoffset : 0 ≤ p.tzoffset ∧ p.tzoffset ≤ 1439
  scale : 0 ≤ p.scale ∧ p.scale ≤ 9
  tsType : p.tsType ∈ stampTypes

/-- The timestamp with the parts, before `mktime`. -/
def Parts.stored (p : Parts) : SfTimestamp where
  tm :=
    { clock := ⟨p.seconds, p.minutes, p.hours, p.mday, p.months - 1, p.year - 1900, 0, 0⟩
      isdst := 0
      gmtoff := 0 }
  nsec := p.nanoseconds
  tzoffset := p.tzoffset
  scale := p.scale
  tsType := p.tsType

theorem bind_eq_ok {ε α β : Type} {x : Except ε α} {f : α → Except ε β} {b : β} :
    x >>= f = .ok b ↔ ∃ a, x = .ok a ∧ f a = .ok b := by
  constructor
  · intro h
    cases x with
    | error e => cases h
    | ok a => exact ⟨a, rfl, h⟩
  · rintro ⟨a, rfl, h⟩
    exact h

theorem storePart_eq_ok {value low high : Int} {store : SfTimestamp → SfTimestamp}
    {ts ts' : SfTimestamp} :
    storePart value low high store ts = .ok ts' ↔
      (low ≤ value ∧ value ≤ high) ∧ store ts = ts' := by
  unfold storePart
  split_ifs with h
  · exact iff_of_false (fun h' => by cases h') (fun h' => by omega)
  · rw [Except.ok.injEq]
    exact (and_iff_right (by omega)).symm

theorem storeType_eq_ok {tsType : DbType} {ts ts' : SfTimestamp} :
    storeType tsType ts = .ok ts' ↔ tsType ∈ stampTypes ∧ { ts with tsType } = ts' := by
  unfold storeType
  split_ifs with h
  · rw [Except.ok.injEq]
    exact (and_iff_right h).symm
  · exact iff_of_false (fun h' => by cases h') (fun h' => h h'.1)

/-- The parts are stored exactly if they are in their ranges. -/
theorem storeParts_eq_ok {p : Parts} {ts : SfTimestamp} :
    storeParts p = .ok ts ↔ p.InRange ∧ p.stored = ts := by
  unfold storeParts
  simp only [bind_eq_ok, storePart_eq_ok, storeType_eq_ok]
  constructor
  · rintro ⟨_, ⟨hnsec, rfl⟩, _, ⟨hsec, rfl⟩, _, ⟨hmin, rfl⟩, _, ⟨hhour, rfl⟩, _, ⟨hmday, rfl⟩,
      _, ⟨hmon, rfl⟩, _, ⟨hyear, rfl⟩, _, ⟨hzone, rfl⟩, _, ⟨hscale, rfl⟩, htype, rfl⟩
    exact ⟨⟨hnsec, hsec, hmin, hhour, hmday, hmon, hyear, hzone, hscale, htype⟩, rfl⟩
  · rintro ⟨⟨hnsec, hsec, hmin, hhour, hmday, hmon, hyear, hzone, hscale, htype⟩, rfl⟩
    exact ⟨_, ⟨hnsec, rfl⟩, _, ⟨hsec, rfl⟩, _, ⟨hmin, rfl⟩, _, ⟨hhour, rfl⟩, _, ⟨hmday, rfl⟩,
      _, ⟨hmon, rfl⟩, _, ⟨hyear, rfl⟩, _, ⟨hzone, rfl⟩, _, ⟨hscale, rfl⟩, htype, rfl⟩

/-! ## The date after `mktime` -/

/-- The date that is meant by a day of a month: a day that the month does not have is one of the
next month. -/
def Parts.date (p : Parts) : Date :=
  if p.mday ≤ daysInMonth p.year p.months then ⟨p.year, p.months, p.mday⟩
  else ⟨p.year, p.months + 1, p.mday - daysInMonth p.year p.months⟩

section Normal

variable {p : Parts}

/-- December has 31 days, so the next month is one of the same year. -/
theorem Parts.InRange.date_valid (h : p.InRange) : p.date.Valid := by
  have hmday := h.mday
  have hmonths := h.months
  unfold Parts.date
  split_ifs with hday
  · exact ⟨hmonths.1, hmonths.2, hmday.1, hday⟩
  · have hlast : p.months ≤ 11 := by
      by_contra hnot
      have h12 : p.months = 12 := by omega
      rw [h12] at hday
      exact hday hmday.2
    have hnext : 28 ≤ daysInMonth p.year (p.months + 1) ∧ 28 ≤ daysInMonth p.year p.months := by
      unfold daysInMonth
      constructor <;> split_ifs <;> omega
    refine ⟨?_, ?_, ?_, ?_⟩ <;> dsimp only <;> omega

theorem Parts.InRange.toDays_date (h : p.InRange) :
    toDays p.date = toDays ⟨p.year, p.months, 1⟩ + (p.mday - 1) := by
  have hvalid := h.date_valid
  unfold Parts.date at hvalid ⊢
  split_ifs at hvalid ⊢
  · unfold toDays
    dsimp only
    omega
  · have hmonth : p.months + 1 ≤ 12 := hvalid.2.1
    have hsucc := monthStart_succ p.year h.months.1 (by omega)
    unfold toDays
    dsimp only
    omega

/-- The date and the time of day of the parts. -/
def Parts.clock (p : Parts) : Clock := ⟨p.date, p.hours, p.minutes, p.seconds⟩

theorem Parts.InRange.seconds_stored (h : p.InRange) :
    p.stored.tm.clock.seconds = p.clock.seconds := by
  have hmonths := h.months
  unfold BrokenDown.seconds Clock.seconds Parts.clock Parts.stored
  dsimp only
  have hyear : p.year - 1900 + 1900 + (p.months - 1) / 12 = p.year := by omega
  have hmonth : (p.months - 1) % 12 + 1 = p.months := by omega
  rw [hyear, hmonth, h.toDays_date]

/-- The members after `mktime` are those of the date and the time of day. -/
theorem Parts.InRange.mktime_stored (h : p.InRange) :
    clockOf p.clock.seconds = p.clock ∧
      (mktime p.stored.tm).2.clock = brokenDown p.clock.seconds := by
  have hclock : clockOf p.clock.seconds = p.clock := by
    rw [clockOf_seconds ⟨h.hours, h.minutes, h.seconds⟩]
    show (⟨ofDays (toDays p.date), _, _, _⟩ : Clock) = _
    rw [ofDays_toDays h.date_valid]
    rfl
  refine ⟨hclock, ?_⟩
  have hyear : p.date.year = p.year := by
    unfold Parts.date
    split_ifs <;> rfl
  have hfits : YearFits p.clock.seconds := by
    have hrange := h.year
    have hmember : (brokenDown p.clock.seconds).year = p.year - 1900 := by
      unfold brokenDown
      rw [hclock]
      exact congrArg (· - 1900) hyear
    unfold YearFits
    rw [hmember]
    omega
  unfold mktime gmtime
  rw [h.seconds_stored, if_pos hfits]
  rfl

end Normal

/-- What the functions read from a timestamp. -/
structure ReadParts where
  nanoseconds : Int
  seconds : Int
  minutes : Int
  hours : Int
  date : Date
  deriving DecidableEq, Repr

def readParts (ts : Option SfTimestamp) : ReadParts where
  nanoseconds := snowflakeTimestampGetNanoseconds ts
  seconds := snowflakeTimestampGetSeconds ts
  minutes := snowflakeTimestampGetMinutes ts
  hours := snowflakeTimestampGetHours ts
  date := ⟨snowflakeTimestampGetYear ts, snowflakeTimestampGetMonth ts,
    snowflakeTimestampGetMday ts⟩

/-- A timestamp is made exactly if its parts are in their ranges. Its parts are then those that were
passed, with the date that is meant by the day of the month. -/
theorem timestamp_parts (ts : SfTimestamp) (p : Parts) :
    ((snowflakeTimestampFromParts (some ts) p).1 = .success ↔ p.InRange) ∧
      ((snowflakeTimestampFromParts (some ts) p).1 = .success ∨
        (snowflakeTimestampFromParts (some ts) p).1 = .errorOutOfRange) ∧
      (p.InRange → readParts (snowflakeTimestampFromParts (some ts) p).2 =
        ⟨p.nanoseconds, p.seconds, p.minutes, p.hours, p.date⟩) := by
  unfold snowflakeTimestampFromParts
  dsimp only
  cases hstore : storeParts p with
  | error ts' =>
    have hout : ¬ p.InRange := by
      intro hin
      have hok := storeParts_eq_ok.2 ⟨hin, rfl⟩
      rw [hstore] at hok
      cases hok
    exact ⟨iff_of_false (by simp) hout, .inr rfl, fun hin => absurd hin hout⟩
  | ok ts' =>
    obtain ⟨hin, rfl⟩ := storeParts_eq_ok.1 hstore
    refine ⟨iff_of_true rfl hin, .inl rfl, fun _ => ?_⟩
    obtain ⟨hclock, hmembers⟩ := hin.mktime_stored
    simp only [readParts, snowflakeTimestampGetNanoseconds, snowflakeTimestampGetSeconds,
      snowflakeTimestampGetMinutes, snowflakeTimestampGetHours, snowflakeTimestampGetYear,
      snowflakeTimestampGetMonth, snowflakeTimestampGetMday, readPart, Option.elim_some, hmembers,
      brokenDown, hclock]
    simp [Parts.clock, Parts.stored]

/-- 29 February 2020, 23:59:58. -/
def leapDay : Parts := ⟨7, 58, 59, 23, 29, 2, 2020, 0, 9, .timestampNtz⟩

theorem timestamp_parts_leapDay :
    (snowflakeTimestampFromParts (some zeroTimestamp) leapDay).1 = .success ∧
      readParts (snowflakeTimestampFromParts (some zeroTimestamp) leapDay).2 =
        ⟨7, 58, 59, 23, ⟨2020, 2, 29⟩⟩ := by
  have hin : leapDay.InRange := by constructor <;> decide
  obtain ⟨hstatus, -, hread⟩ := timestamp_parts zeroTimestamp leapDay
  exact ⟨hstatus.2 hin, hread hin⟩

/-- There is no 30 February 2019, but a timestamp is made of it: that of 2 March. -/
theorem timestamp_parts_noSuchDay :
    ¬ (⟨2019, 2, 30⟩ : Date).Valid ∧
      (snowflakeTimestampFromParts (some zeroTimestamp)
        ⟨0, 0, 0, 0, 30, 2, 2019, 0, 9, .timestampNtz⟩).1 = .success ∧
      readParts (snowflakeTimestampFromParts (some zeroTimestamp)
        ⟨0, 0, 0, 0, 30, 2, 2019, 0, 9, .timestampNtz⟩).2 = ⟨0, 0, 0, 0, ⟨2019, 3, 2⟩⟩ := by
  decide

end Snowflake
