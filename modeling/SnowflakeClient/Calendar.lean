import Mathlib

/-!
# The Gregorian calendar

Dates of the proleptic Gregorian calendar and days since 1 January 1970, seconds and times of day.

* `toDays` counts the days of the years and months before a date.
* `ofDays` goes the other way. It counts from 1 March, so that the day that a leap year has more is
  the last one, and takes off 400, 100, 4 and single years.
* `toDays_ofDays` and `ofDays_valid`: `ofDays n` is the date of day `n`. `ofDays_toDays`: it is the
  only one.
* `clockOf_seconds`: a time of day is found again from the seconds.
-/

namespace Calendar

/-- A date; months and days are counted from 1. -/
structure Date where
  year : Int
  month : Int
  day : Int
  deriving DecidableEq, Repr

def Leap (year : Int) : Prop := year % 4 = 0 ∧ (year % 100 ≠ 0 ∨ year % 400 = 0)

instance (year : Int) : Decidable (Leap year) := inferInstanceAs (Decidable (_ ∧ _))

def daysInMonth (year month : Int) : Int :=
  if month = 2 then if Leap year then 29 else 28
  else if month = 4 ∨ month = 6 ∨ month = 9 ∨ month = 11 then 30
  else 31

theorem daysInMonth_le (year month : Int) : daysInMonth year month ≤ 31 := by
  rw [daysInMonth]
  split_ifs <;> omega

/-- The date exists. -/
def Date.Valid (date : Date) : Prop :=
  1 ≤ date.month ∧ date.month ≤ 12 ∧ 1 ≤ date.day ∧ date.day ≤ daysInMonth date.year date.month

instance (date : Date) : Decidable date.Valid := inferInstanceAs (Decidable (_ ∧ _))

/-- The day of 1 January. -/
def yearStart (year : Int) : Int :=
  365 * (year - 1) + (year - 1) / 4 - (year - 1) / 100 + (year - 1) / 400 - 719162

/-- The days of a year before a month. -/
def monthStart (year month : Int) : Int :=
  [0, 31, 59, 90, 120, 151, 181, 212, 243, 273, 304, 334].getD (month - 1).toNat 0 +
    if 2 < month ∧ Leap year then 1 else 0

/-- The days from 1 January 1970 to a date. -/
def toDays (date : Date) : Int :=
  yearStart date.year + monthStart date.year date.month + (date.day - 1)

/-! ## Dates of days -/

/-- A day by its year, which begins in March, and the days since 1 March. -/
def marchYear (n : Int) : Int × Int :=
  let era := (n + 719468) / 146097
  let r := (n + 719468) % 146097
  let century := min (r / 36524) 3
  let r := r - 36524 * century
  let quad := r / 1461
  let r := r % 1461
  let single := min (r / 365) 3
  (400 * era + 100 * century + 4 * quad + single, r - 365 * single)

/-- The date of a day. -/
def ofDays (n : Int) : Date :=
  let year := (marchYear n).1
  let day := (marchYear n).2
  let month := (5 * day + 2) / 153
  if month < 10 then ⟨year, month + 3, day - (153 * month + 2) / 5 + 1⟩
  else ⟨year + 1, month - 9, day - (153 * month + 2) / 5 + 1⟩

theorem yearStart_succ (year : Int) :
    yearStart (year + 1) = yearStart year + if Leap year then 366 else 365 := by
  by_cases h : Leap year
  · rw [if_pos h]
    unfold Leap at h
    unfold yearStart
    omega
  · rw [if_neg h]
    unfold Leap at h
    unfold yearStart
    omega

/-- The days of whole eras, centuries, spans of four years and years. -/
theorem yearStart_parts {era century quad single : Int} (hc : 0 ≤ century ∧ century ≤ 3)
    (hq : 0 ≤ quad ∧ quad ≤ 24) (hs : 0 ≤ single ∧ single ≤ 3) :
    yearStart (400 * era + 100 * century + 4 * quad + single + 1) =
      146097 * era + 36524 * century + 1461 * quad + 365 * single - 719162 := by
  unfold yearStart
  have hquads : (400 * era + 100 * century + 4 * quad + single + 1 - 1) / 4 =
      100 * era + 25 * century + quad := by omega
  have hcenturies : (400 * era + 100 * century + 4 * quad + single + 1 - 1) / 100 =
      4 * era + century := by omega
  have heras : (400 * era + 100 * century + 4 * quad + single + 1 - 1) / 400 = era := by omega
  omega

/-- The parts of a day number are in their ranges. The last day of an era is in a fifth century, and
the last one of four years in a fifth year, which is why there are minima. -/
theorem march_parts (r : Int) (h0 : 0 ≤ r) (h1 : r < 146097) :
    ∃ century quad single day, min (r / 36524) 3 = century ∧
      (r - 36524 * century) / 1461 = quad ∧ min ((r - 36524 * century) % 1461 / 365) 3 = single ∧
      (r - 36524 * century) % 1461 - 365 * single = day ∧
      r = 36524 * century + 1461 * quad + 365 * single + day ∧
      (0 ≤ century ∧ century ≤ 3) ∧ (0 ≤ quad ∧ quad ≤ 24) ∧ (0 ≤ single ∧ single ≤ 3) ∧
      0 ≤ day ∧ day ≤ 365 ∧ (day = 365 → single = 3 ∧ (quad = 24 → century = 3)) := by
  obtain ⟨c, hc⟩ : ∃ c, min (r / 36524) 3 = c := ⟨_, rfl⟩
  obtain ⟨s, hs⟩ : ∃ s, r - 36524 * c = s := ⟨_, rfl⟩
  obtain ⟨y, hy⟩ : ∃ y, min (s % 1461 / 365) 3 = y := ⟨_, rfl⟩
  have hc' : 0 ≤ c ∧ c ≤ 3 ∧ 0 ≤ s ∧ s ≤ 36524 ∧ (c < 3 → s < 36524) := by omega
  have hs' := Int.mul_ediv_add_emod s 1461
  have hq : 0 ≤ s / 1461 ∧ s / 1461 ≤ 24 := by omega
  have hy' : 0 ≤ y ∧ y ≤ 3 ∧ 0 ≤ s % 1461 - 365 * y ∧ s % 1461 - 365 * y ≤ 365 ∧
      (s % 1461 - 365 * y = 365 → y = 3) := by omega
  refine ⟨c, s / 1461, y, s % 1461 - 365 * y, hc, by rw [hs], by rw [hs, hy], by rw [hs], by omega,
    by omega, hq, by omega, by omega, by omega, fun hday => ⟨hy'.2.2.2.2 hday, ?_⟩⟩
  omega

/-- 1 January comes 306 days after 1 March. -/
theorem marchYear_spec (n : Int) :
    n = yearStart ((marchYear n).1 + 1) - 306 + (marchYear n).2 ∧ 0 ≤ (marchYear n).2 ∧
      (marchYear n).2 ≤ 365 ∧ ((marchYear n).2 = 365 → Leap ((marchYear n).1 + 1)) := by
  have hn := Int.mul_ediv_add_emod (n + 719468) 146097
  obtain ⟨c, q, y, d, hc, hq, hy, hd, hsum, hc', hq', hy', hd0, hd1, hlast⟩ :=
    march_parts ((n + 719468) % 146097) (Int.emod_nonneg _ (by decide))
      (Int.emod_lt_of_pos _ (by decide))
  have hmarch : marchYear n = (400 * ((n + 719468) / 146097) + 100 * c + 4 * q + y, d) := by
    simp only [marchYear, hc, hq, hy, hd]
  rw [hmarch]
  refine ⟨?_, hd0, hd1, ?_⟩
  · rw [yearStart_parts hc' hq' hy']
    omega
  · intro h365
    obtain ⟨hy3, hcent⟩ := hlast h365
    unfold Leap
    dsimp only
    omega

/-- The date of a day has the number of the day. -/
theorem toDays_ofDays (n : Int) : toDays (ofDays n) = n := by
  obtain ⟨hn, h0, h1, -⟩ := marchYear_spec n
  have hsucc := yearStart_succ (marchYear n).1
  have hmonth : 0 ≤ (5 * (marchYear n).2 + 2) / 153 ∧ (5 * (marchYear n).2 + 2) / 153 ≤ 11 := by
    omega
  rw [ofDays]
  generalize (5 * (marchYear n).2 + 2) / 153 = month at *
  generalize (marchYear n).2 = day at *
  generalize (marchYear n).1 = year at *
  obtain ⟨hm0, hm1⟩ := hmonth
  by_cases hleap : Leap year
  · rw [if_pos hleap] at hsucc
    interval_cases month <;> simp [toDays, monthStart, hleap] <;> omega
  · rw [if_neg hleap] at hsucc
    interval_cases month <;> simp [toDays, monthStart, hleap] <;> omega

theorem ofDays_valid (n : Int) : (ofDays n).Valid := by
  obtain ⟨-, h0, h1, hlast⟩ := marchYear_spec n
  rw [ofDays]
  obtain ⟨month, hmonth⟩ : ∃ month, (5 * (marchYear n).2 + 2) / 153 = month := ⟨_, rfl⟩
  rw [hmonth]
  generalize (marchYear n).2 = day at *
  generalize (marchYear n).1 = year at *
  have hm0 : 0 ≤ month := by omega
  have hm1 : month ≤ 11 := by omega
  by_cases hleap : Leap (year + 1)
  · interval_cases month <;> simp [Date.Valid, daysInMonth, hleap] <;> omega
  · have hday : day ≠ 365 := fun h => hleap (hlast h)
    interval_cases month <;> simp [Date.Valid, daysInMonth, hleap] <;> omega

theorem monthStart_bounds (year month : Int) : 0 ≤ monthStart year month ∧
    monthStart year month ≤ 335 := by
  have htable (i : Nat) :
      0 ≤ [0, 31, 59, 90, 120, 151, 181, 212, 243, 273, 304, 334].getD i (0 : Int) ∧
      [0, 31, 59, 90, 120, 151, 181, 212, 243, 273, 304, 334].getD i (0 : Int) ≤ 334 := by
    rcases Nat.lt_or_ge i 12 with hi | hi
    · interval_cases i <;> decide
    · rw [List.getD_eq_default _ _ hi]
      decide
  have hmonth := htable (month - 1).toNat
  rw [monthStart]
  split_ifs <;> omega

/-- A day is one of the days of its year. -/
theorem ofDays_year (n : Int) :
    yearStart (ofDays n).year ≤ n ∧ n < yearStart (ofDays n).year + 366 := by
  have hn := toDays_ofDays n
  obtain ⟨-, -, hday, hlast⟩ := ofDays_valid n
  have hmonth := monthStart_bounds (ofDays n).year (ofDays n).month
  have hlen := daysInMonth_le (ofDays n).year (ofDays n).month
  rw [toDays] at hn
  omega

/-! ## Days of dates -/

theorem yearStart_mono {year year' : Int} (h : year ≤ year') :
    yearStart year ≤ yearStart year' := by
  induction year', h using Int.leInduction with
  | base => exact le_rfl
  | succ year' _ ih =>
    have hsucc := yearStart_succ year'
    split_ifs at hsucc <;> omega

/-- A month begins where the one before it ends. -/
theorem monthStart_succ (year : Int) {month : Int} (h0 : 1 ≤ month) (h1 : month ≤ 11) :
    monthStart year (month + 1) = monthStart year month + daysInMonth year month := by
  by_cases hleap : Leap year
  · interval_cases month <;> simp [monthStart, daysInMonth, hleap]
  · interval_cases month <;> simp [monthStart, daysInMonth, hleap]

theorem monthStart_le (year : Int) {month month' : Int} (h0 : 1 ≤ month) (h : month < month')
    (h1 : month' ≤ 12) :
    monthStart year month + daysInMonth year month ≤ monthStart year month' := by
  induction month', h using Int.leInduction with
  | base => exact (monthStart_succ year h0 (by omega)).ge
  | succ month' hlt ih =>
    have hsucc := monthStart_succ year (by omega : 1 ≤ month') (by omega)
    have hdays : 28 ≤ daysInMonth year month' := by
      unfold daysInMonth
      split_ifs <;> omega
    have := ih (by omega)
    omega

/-- A date is in its year. -/
theorem Date.Valid.toDays_lt {date : Date} (h : date.Valid) :
    yearStart date.year ≤ toDays date ∧ toDays date < yearStart (date.year + 1) := by
  obtain ⟨hm0, hm1, hd0, hd1⟩ := h
  have hstart := (monthStart_bounds date.year date.month).1
  have hsucc := yearStart_succ date.year
  have hend : monthStart date.year 12 + 31 = if Leap date.year then 366 else 365 := by
    split_ifs with hleap <;> simp [monthStart, hleap]
  have hmonth : monthStart date.year date.month + date.day ≤ monthStart date.year 12 + 31 := by
    rcases eq_or_lt_of_le hm1 with h12 | hlt
    · have := daysInMonth_le date.year date.month
      rw [h12] at this ⊢
      rw [h12] at hd1
      omega
    · have := monthStart_le date.year hm0 hlt le_rfl
      omega
  unfold toDays
  split_ifs at hsucc hend <;> omega

/-- Dates that exist have different days. -/
theorem toDays_inj {date date' : Date} (h : date.Valid) (h' : date'.Valid)
    (heq : toDays date = toDays date') : date = date' := by
  have hyear : date.year = date'.year := by
    obtain ⟨hlo, hhi⟩ := h.toDays_lt
    obtain ⟨hlo', hhi'⟩ := h'.toDays_lt
    by_contra hne
    rcases lt_or_gt_of_ne hne with hlt | hgt
    · have := yearStart_mono (Int.add_one_le_of_lt hlt)
      omega
    · have := yearStart_mono (Int.add_one_le_of_lt hgt)
      omega
  obtain ⟨year, month, day⟩ := date
  obtain ⟨year', month', day'⟩ := date'
  obtain rfl : year = year' := hyear
  obtain ⟨hm0, hm1, hd0, hd1⟩ := h
  obtain ⟨hm0', hm1', hd0', hd1'⟩ := h'
  simp only [toDays] at *
  have hmonth : month = month' := by
    by_contra hne
    rcases lt_or_gt_of_ne hne with hlt | hgt
    · have := monthStart_le year hm0 hlt hm1'
      omega
    · have := monthStart_le year hm0' hgt hm1
      omega
  subst hmonth
  obtain rfl : day = day' := by omega
  rfl

/-- The day of a date has the date. -/
theorem ofDays_toDays {date : Date} (h : date.Valid) : ofDays (toDays date) = date :=
  toDays_inj (ofDays_valid _) h (toDays_ofDays _)

/-! ## Times of day -/

/-- A date and a time of day. -/
structure Clock where
  date : Date
  hour : Int
  minute : Int
  second : Int
  deriving DecidableEq, Repr

/-- The date and the time of day `t` seconds after the beginning of 1970. -/
def clockOf (t : Int) : Clock :=
  ⟨ofDays (t / 86400), t % 86400 / 3600, t % 3600 / 60, t % 60⟩

def Clock.seconds (c : Clock) : Int :=
  86400 * toDays c.date + 3600 * c.hour + 60 * c.minute + c.second

/-- A time of day in its ranges. -/
def Clock.InDay (c : Clock) : Prop :=
  (0 ≤ c.hour ∧ c.hour ≤ 23) ∧ (0 ≤ c.minute ∧ c.minute ≤ 59) ∧ 0 ≤ c.second ∧ c.second ≤ 59

theorem clockOf_seconds {c : Clock} (h : c.InDay) :
    clockOf c.seconds = { c with date := ofDays (toDays c.date) } := by
  obtain ⟨hhour, hminute, hsecond⟩ := h
  obtain ⟨days, hdays⟩ : ∃ days, toDays c.date = days := ⟨_, rfl⟩
  unfold clockOf Clock.seconds
  rw [hdays]
  have hday : (86400 * days + 3600 * c.hour + 60 * c.minute + c.second) / 86400 = days := by omega
  have hhour' : (86400 * days + 3600 * c.hour + 60 * c.minute + c.second) % 86400 / 3600 =
    c.hour := by omega
  have hminute' : (86400 * days + 3600 * c.hour + 60 * c.minute + c.second) % 3600 / 60 =
    c.minute := by omega
  have hsecond' : (86400 * days + 3600 * c.hour + 60 * c.minute + c.second) % 60 = c.second := by
    omega
  rw [hday, hhour', hminute', hsecond']

end Calendar
