import SnowflakeClient.Timestamp.Offset

/-!
# Printed timestamps

What `snowflake_timestamp_to_string` writes fits into the buffer (`printFields_eq`), and reading it
gives the timestamp back, unless its offset is positive and below an hour
(`timestamp_reads_back_iff`).

The reader is not a part of the library: it takes the text apart at its separators, as a person
would.
-/

namespace Snowflake

open CInt Calendar Decimal

/-! ## Reading -/

/-- What a text says: a date, if there is one, a time of day, the digits of a fraction, and an
offset in minutes, if there is one. -/
structure ReadStamp where
  date : Option Date
  hour : Nat
  minute : Nat
  second : Nat
  fraction : List Char
  offset : Option Int
  deriving DecidableEq, Repr

/-- The text after a separator. -/
def expect (c : Char) : List Char → Option (List Char)
  | [] => none
  | d :: text => if d = c then some text else none

def readYear (text : List Char) : Option (Int × List Char) :=
  if text.head? = some '-' then do
    let (n, text) ← readNumber text.tail
    some (-n, text)
  else do
    let (n, text) ← readNumber text
    some (n, text)

def readDate (text : List Char) : Option (Date × List Char) := do
  let (year, text) ← readYear text
  let (month, text) ← readNumber (← expect '-' text)
  let (day, text) ← readNumber (← expect '-' text)
  some (⟨year, month, day⟩, text)

def readClock (text : List Char) : Option ((Nat × Nat × Nat) × List Char) := do
  let (hour, text) ← readNumber text
  let (minute, text) ← readNumber (← expect ':' text)
  let (second, text) ← readNumber (← expect ':' text)
  some ((hour, minute, second), text)

def readFraction (text : List Char) : List Char × List Char :=
  match expect '.' text with
  | some text => (text.takeWhile Char.isDigit, text.dropWhile Char.isDigit)
  | none => ([], text)

/-- The minutes of an offset to the east or to the west. -/
def signedMinutes : Char × Nat × Nat → Option Int
  | (sign, hours, minutes) =>
    if sign = '+' then some (60 * hours + minutes)
    else if sign = '-' then some (-(60 * hours + minutes))
    else none

def readZone (text : List Char) : Option (Option Int) :=
  if text = [] then some none
  else do
    let offset ← readOffset (← expect ' ' text)
    let minutes ← signedMinutes offset
    some (some minutes)

/-- A timestamp, with a date or without. -/
def readTimestamp (hasDate : Bool) (text : List Char) : Option ReadStamp := do
  let (date, text) ←
    if hasDate then do
      let (date, text) ← readDate text
      let text ← expect ' ' text
      some (some date, text)
    else some (none, text)
  let ((hour, minute, second), text) ← readClock text
  let offset ← readZone (readFraction text).2
  some ⟨date, hour, minute, second, (readFraction text).1, offset⟩

/-! ## The pieces -/

theorem expect_cons (c : Char) (text : List Char) : expect c (c :: text) = some text := if_pos rfl

theorem readYear_printYear (yearWidth : Nat) (year : Int) (rest : List Char) :
    readYear (printYear yearWidth year ++ '-' :: rest) = some (year, '-' :: rest) := by
  rw [readYear, printYear]
  by_cases hneg : year < 0
  · rw [if_pos hneg, List.cons_append, if_pos (by rfl), List.tail_cons,
      readNumber_padded (stops_cons _ rfl rest)]
    simp only [Option.bind_eq_bind, Option.bind_some, Option.some.injEq, Prod.mk.injEq, and_true]
    omega
  · have hhead : (padded yearWidth year.natAbs ++ '-' :: rest).head? ≠ some '-' := by
      have hne : padded yearWidth year.natAbs ≠ [] := padded_ne_nil
      obtain ⟨d, ds, hcons⟩ := List.exists_cons_of_ne_nil hne
      have hd : d.isDigit := padded_digit d (by rw [hcons]; simp)
      rw [hcons, List.cons_append, List.head?_cons]
      intro h
      rw [Option.some.inj h] at hd
      exact absurd hd (by decide)
    rw [if_neg hneg, if_neg hhead, readNumber_padded (stops_cons _ rfl rest)]
    simp only [Option.bind_eq_bind, Option.bind_some, Option.some.injEq, Prod.mk.injEq, and_true]
    omega

section Read

variable {yearWidth : Nat} {b : BrokenDown} {rest : List Char}

theorem readDate_printDate (hrest : Stops rest) :
    readDate (printDate yearWidth b ++ rest) =
      some (⟨b.year + 1900, (b.mon + 1).toNat, b.mday.toNat⟩, rest) := by
  rw [printDate, List.append_assoc, List.cons_append, List.append_assoc, List.cons_append]
  simp only [readDate, readYear_printYear, expect_cons, readNumber_padded (stops_cons '-' rfl _),
    readNumber_padded hrest, Option.bind_eq_bind, Option.bind_some]

theorem readClock_printClock (hrest : Stops rest) :
    readClock (printClock b ++ rest) =
      some ((b.hour.toNat, b.min.toNat, b.sec.toNat), rest) := by
  rw [printClock, List.append_assoc, List.cons_append, List.append_assoc, List.cons_append]
  simp only [readClock, expect_cons, readNumber_padded (stops_cons ':' rfl _),
    readNumber_padded hrest, Option.bind_eq_bind, Option.bind_some]

end Read

/-! ## The whole text -/

/-- The fraction of a timestamp, in units of its scale. -/
def units (ts : SfTimestamp) : Nat := (ts.nsec / 10 ^ (9 - ts.scale.toNat)).toNat

def fractionText (ts : SfTimestamp) : List Char :=
  if 0 < ts.scale then '.' :: padded ts.scale.toNat (units ts) else []

def zoneText (ts : SfTimestamp) : List Char :=
  if ts.tsType = .timestampTz then ' ' :: printOffset ts.tzoffset else []

/-- A timestamp whose members are in their ranges. -/
structure StampValid (ts : SfTimestamp) : Prop where
  date : (⟨ts.tm.clock.year + 1900, ts.tm.clock.mon + 1, ts.tm.clock.mday⟩ : Date).Valid
  year : -99999 ≤ ts.tm.clock.year + 1900 ∧ ts.tm.clock.year + 1900 ≤ 99999
  hour : 0 ≤ ts.tm.clock.hour ∧ ts.tm.clock.hour ≤ 23
  minute : 0 ≤ ts.tm.clock.min ∧ ts.tm.clock.min ≤ 59
  second : 0 ≤ ts.tm.clock.sec ∧ ts.tm.clock.sec ≤ 60
  nsec : 0 ≤ ts.nsec ∧ ts.nsec < 10 ^ 9
  scale : 0 ≤ ts.scale ∧ ts.scale ≤ 9
  tzoffset : ts.tsType = .timestampTz → -1440 ≤ ts.tzoffset ∧ ts.tzoffset ≤ 1440

section Text

variable {yearWidth : Nat} {ts : SfTimestamp}

theorem StampValid.units_eq (h : StampValid ts) :
    (units ts : Int) = ts.nsec / 10 ^ (9 - ts.scale.toNat) :=
  Int.toNat_of_nonneg (Int.ediv_nonneg h.nsec.1 (by positivity))

theorem StampValid.units_lt (h : StampValid ts) : units ts < 10 ^ ts.scale.toNat := by
  have hscale : ts.scale.toNat ≤ 9 := by
    have := h.scale
    omega
  have hpow : (10 : Int) ^ ts.scale.toNat * 10 ^ (9 - ts.scale.toNat) = 10 ^ 9 := by
    rw [← pow_add, Nat.add_sub_cancel' hscale]
  have hlt : ts.nsec / 10 ^ (9 - ts.scale.toNat) < 10 ^ ts.scale.toNat :=
    Int.ediv_lt_of_lt_mul (by positivity) (by rw [hpow]; exact h.nsec.2)
  rw [← h.units_eq] at hlt
  exact_mod_cast hlt

theorem length_printOffset {tz : Int} (h0 : -1440 ≤ tz) (h1 : tz ≤ 1440) :
    (printOffset tz).length = 6 := by
  obtain ⟨hsum, hrem⟩ := natAbs_quot_rem tz
  simp only [printOffset, List.length_cons, List.length_append]
  rw [length_padded (by decide) (by omega), length_padded (by decide) (by omega)]

theorem StampValid.length_clock (h : StampValid ts) : (printClock ts.tm.clock).length = 8 := by
  have hhour := h.hour
  have hminute := h.minute
  have hsecond := h.second
  simp only [printClock, List.length_cons, List.length_append]
  rw [length_padded (by decide) (by omega), length_padded (by decide) (by omega),
    length_padded (by decide) (by omega)]

theorem StampValid.length_date (h : StampValid ts) (hwidth : yearWidth ≤ 5) :
    (printDate yearWidth ts.tm.clock).length ≤ 12 := by
  obtain ⟨-, hm1, -, hd1⟩ := h.date
  have hmonth : ts.tm.clock.mon + 1 ≤ 12 := hm1
  have hyear := h.year
  have hdays : ts.tm.clock.mday ≤ 31 := le_trans hd1 (daysInMonth_le _ _)
  have hdigits : (padded yearWidth (ts.tm.clock.year + 1900).natAbs).length ≤ 5 :=
    length_padded_le hwidth (by decide) (by omega)
  have hyear : (printYear yearWidth (ts.tm.clock.year + 1900)).length ≤ 6 := by
    rw [printYear]
    split_ifs
    · rw [List.length_cons]
      omega
    · omega
  simp only [printDate, List.length_cons, List.length_append]
  rw [length_padded (by decide) (by omega), length_padded (by decide) (by omega)]
  omega

/-- The text has less than the bytes that it may take. -/
theorem StampValid.length_lt (h : StampValid ts) (hwidth : yearWidth ≤ 5) :
    (timeText yearWidth ts ++ fractionText ts ++ zoneText ts).length < maxLenFor ts := by
  have htime : (timeText yearWidth ts).length ≤ if ts.tsType = .time then 8 else 21 := by
    have hdate := h.length_date hwidth
    have hclock := h.length_clock
    rw [timeText]
    split_ifs
    · omega
    · rw [List.length_append, List.length_cons]
      omega
  have hfraction : (fractionText ts).length =
      if 0 < ts.scale then 1 + ts.scale.toNat else 0 := by
    rw [fractionText]
    split_ifs with hscale
    · rw [List.length_cons, length_padded (by omega) h.units_lt, Nat.add_comm]
    · rfl
  have hzone : (zoneText ts).length = if ts.tsType = .timestampTz then 7 else 0 := by
    rw [zoneText]
    split_ifs with htz
    · rw [List.length_cons, length_printOffset (h.tzoffset htz).1 (h.tzoffset htz).2]
    · rfl
  rw [List.length_append, List.length_append, maxLenFor, hfraction, hzone]
  omega

/-- A text that fits is appended as it is. -/
theorem snprintf_fits {size maxLen : Nat} {done text : List Char} (hsize : maxLen ≤ size)
    (hmax : maxLen < 2 ^ 64) (hlen : (done ++ text).length < maxLen) :
    snprintf size maxLen text ⟨done, done.length, true⟩ =
      some ⟨done ++ text, (done ++ text).length, true⟩ := by
  rw [List.length_append] at hlen
  have hroom : subU64 maxLen done.length = maxLen - done.length := subU64_of_le (by omega) hmax
  have htake : text.take (maxLen - done.length - 1) = text := List.take_of_length_le (by omega)
  rw [snprintf]
  simp only [hroom, htake, if_neg (by omega : ¬maxLen - done.length = 0),
    if_pos (by omega : done.length + text.length < size), if_true, List.length_append]

theorem StampValid.printPadded_eq (h : StampValid ts) :
    printPadded ts.scale.toNat (ts.nsec.tdiv (10 ^ (9 - ts.scale.toNat))) =
      padded ts.scale.toNat (units ts) := by
  rw [Int.tdiv_eq_ediv_of_nonneg h.nsec.1, ← h.units_eq, printPadded, if_neg (by omega),
    Int.natAbs_natCast]

theorem pow10Int64_of_scale (h0 : 0 ≤ ts.scale) (h1 : ts.scale ≤ 9) :
    pow10Int64 (9 - ts.scale) = some (10 ^ (9 - ts.scale).toNat) := by
  unfold pow10Int64
  rw [if_pos (by omega)]

theorem StampValid.pow10Int64_eq (h : StampValid ts) :
    pow10Int64 (9 - ts.scale) = some (10 ^ (9 - ts.scale.toNat)) := by
  have hscale := h.scale
  have hunit : (9 - ts.scale).toNat = 9 - ts.scale.toNat := by omega
  rw [pow10Int64_of_scale hscale.1 hscale.2, hunit]

theorem maxLenFor_lt (h : ts.scale ≤ 9) : maxLenFor ts < 2 ^ 64 := by
  unfold maxLenFor
  split_ifs <;> omega

theorem StampValid.printFraction_eq (h : StampValid ts) {size : Nat} {done : List Char}
    (hsize : maxLenFor ts ≤ size) (hlen : (done ++ fractionText ts).length < maxLenFor ts) :
    printFraction ts size ⟨done, done.length, true⟩ =
      some ⟨done ++ fractionText ts, (done ++ fractionText ts).length, true⟩ := by
  rw [printFraction]
  by_cases hscale : 0 < ts.scale
  · have htext : fractionText ts = '.' :: padded ts.scale.toNat (units ts) := if_pos hscale
    rw [htext] at hlen ⊢
    rw [if_pos hscale, h.pow10Int64_eq, Option.bind_eq_bind, Option.bind_some, h.printPadded_eq,
      snprintf_fits hsize (maxLenFor_lt h.scale.2) hlen]
  · have htext : fractionText ts = [] := if_neg hscale
    rw [htext, if_neg hscale, List.append_nil]

theorem printZone_of_lt (h : ts.scale ≤ 9) {size : Nat} {done : List Char}
    (hsize : maxLenFor ts ≤ size) (hlen : (done ++ zoneText ts).length < maxLenFor ts) :
    printZone ts size ⟨done, done.length, true⟩ =
      some ⟨done ++ zoneText ts, (done ++ zoneText ts).length, true⟩ := by
  rw [printZone]
  by_cases htz : ts.tsType = .timestampTz
  · have htext : zoneText ts = ' ' :: printOffset ts.tzoffset := if_pos htz
    rw [htext] at hlen ⊢
    rw [if_pos htz, snprintf_fits hsize (maxLenFor_lt h) hlen]
  · have htext : zoneText ts = [] := if_neg htz
    rw [htext, if_neg htz, List.append_nil]

/-- The whole text is in the buffer, and ends there. -/
theorem StampValid.printFields_eq (h : StampValid ts) (hwidth : yearWidth ≤ 5) {size : Nat}
    (hsize : maxLenFor ts ≤ size) :
    printFields yearWidth ts size =
      some ⟨timeText yearWidth ts ++ fractionText ts ++ zoneText ts,
        (timeText yearWidth ts ++ fractionText ts ++ zoneText ts).length, true⟩ := by
  have hlen := h.length_lt hwidth
  have hlen' : (timeText yearWidth ts ++ fractionText ts).length < maxLenFor ts := by
    rw [List.length_append] at hlen
    omega
  have hstart : strftime size (timeText yearWidth ts) =
      ⟨timeText yearWidth ts, (timeText yearWidth ts).length, true⟩ := by
    rw [List.length_append] at hlen'
    exact if_pos (by omega)
  rw [printFields, hstart, h.printFraction_eq hsize hlen', Option.bind_eq_bind, Option.bind_some,
    printZone_of_lt h.scale.2 hsize hlen]

end Text

/-! ## Reading the whole text -/

/-- The minutes that are printed for an offset. -/
def printedMinutes (tz : Int) : Int := if 60 ≤ tz then tz.natAbs else -tz.natAbs

theorem printedMinutes_eq_iff (tz : Int) : printedMinutes tz = tz ↔ ¬UnderAnHour tz := by
  rw [printedMinutes, UnderAnHour]
  split_ifs <;> omega

/-- The reading has the members of the timestamp, and its offset where the type has one. -/
structure Denotes (ts : SfTimestamp) (r : ReadStamp) : Prop where
  date : r.date = if ts.tsType = .time then none
    else some ⟨ts.tm.clock.year + 1900, ts.tm.clock.mon + 1, ts.tm.clock.mday⟩
  hour : (r.hour : Int) = ts.tm.clock.hour
  minute : (r.minute : Int) = ts.tm.clock.min
  second : (r.second : Int) = ts.tm.clock.sec
  digits : (r.fraction.length : Int) = ts.scale
  fraction : (value r.fraction : Int) = ts.nsec / 10 ^ (9 - ts.scale.toNat)
  offset : r.offset = if ts.tsType = .timestampTz then some ts.tzoffset else none

section Whole

variable {yearWidth : Nat} {ts : SfTimestamp}

theorem stops_zoneText (ts : SfTimestamp) : Stops (zoneText ts) := by
  rw [zoneText]
  split_ifs
  · exact stops_cons _ rfl _
  · exact stops_nil

theorem stops_fractionText (ts : SfTimestamp) : Stops (fractionText ts ++ zoneText ts) := by
  rw [fractionText]
  split_ifs
  · exact stops_cons _ rfl _
  · exact stops_zoneText ts

theorem readFraction_eq (ts : SfTimestamp) :
    readFraction (fractionText ts ++ zoneText ts) = ((fractionText ts).tail, zoneText ts) := by
  rw [readFraction, fractionText]
  by_cases hscale : 0 < ts.scale
  · have htake := takeWhile_digits (@padded_digit ts.scale.toNat (units ts)) (stops_zoneText ts)
    have hdrop := dropWhile_digits (@padded_digit ts.scale.toNat (units ts)) (stops_zoneText ts)
    rw [if_pos hscale, List.cons_append, expect_cons, List.tail_cons]
    exact congrArg₂ Prod.mk htake hdrop
  · have hnone : expect '.' (zoneText ts) = none := by
      rw [zoneText]
      split_ifs <;> rfl
    rw [if_neg hscale, List.nil_append, hnone]
    rfl

theorem readZone_eq (ts : SfTimestamp) :
    readZone (zoneText ts) =
      some (if ts.tsType = .timestampTz then some (printedMinutes ts.tzoffset) else none) := by
  rw [zoneText]
  by_cases htz : ts.tsType = .timestampTz
  · obtain ⟨hsum, -⟩ := natAbs_quot_rem ts.tzoffset
    rw [if_pos htz, if_pos htz, readZone, if_neg (List.cons_ne_nil _ _), expect_cons]
    simp only [readOffset_printOffset, Option.bind_eq_bind, Option.bind_some, signedMinutes,
      printedMinutes]
    by_cases hplus : 60 ≤ ts.tzoffset
    · rw [if_pos hplus, if_pos rfl, if_pos hplus, Option.bind_some]
      congr 2
      omega
    · rw [if_neg hplus, if_neg (by decide), if_pos rfl, if_neg hplus, Option.bind_some]
      congr 2
      omega
  · rw [if_neg htz, if_neg htz, readZone, if_pos rfl]

/-- What the text says. -/
def readingOf (ts : SfTimestamp) : ReadStamp where
  date := if ts.tsType = .time then none
    else some ⟨ts.tm.clock.year + 1900, (ts.tm.clock.mon + 1).toNat, ts.tm.clock.mday.toNat⟩
  hour := ts.tm.clock.hour.toNat
  minute := ts.tm.clock.min.toNat
  second := ts.tm.clock.sec.toNat
  fraction := (fractionText ts).tail
  offset := if ts.tsType = .timestampTz then some (printedMinutes ts.tzoffset) else none

theorem readTimestamp_eq (yearWidth : Nat) (ts : SfTimestamp) :
    readTimestamp (ts.tsType ≠ .time) (timeText yearWidth ts ++ fractionText ts ++ zoneText ts) =
      some (readingOf ts) := by
  have hclock := readClock_printClock (b := ts.tm.clock) (stops_fractionText ts)
  rw [List.append_assoc, timeText, readTimestamp]
  by_cases htime : ts.tsType = .time
  · rw [if_pos htime]
    simp [htime, hclock, readFraction_eq, readZone_eq, readingOf]
  · have hdate := @readDate_printDate yearWidth ts.tm.clock _ (stops_cons ' ' rfl
      (printClock ts.tm.clock ++ (fractionText ts ++ zoneText ts)))
    rw [if_neg htime]
    simp [htime, hdate, expect_cons, hclock, readFraction_eq, readZone_eq, readingOf]

theorem StampValid.length_fraction (h : StampValid ts) :
    ((fractionText ts).tail.length : Int) = ts.scale := by
  have hscale := h.scale
  rw [fractionText]
  split_ifs with hpos
  · rw [List.tail_cons, length_padded (by omega) h.units_lt]
    omega
  · rw [List.tail_nil, List.length_nil]
    omega

theorem StampValid.value_fraction (h : StampValid ts) :
    (value (fractionText ts).tail : Int) = ts.nsec / 10 ^ (9 - ts.scale.toNat) := by
  rw [fractionText]
  split_ifs with hpos
  · rw [List.tail_cons, value_padded, h.units_eq]
  · have hscale : ts.scale.toNat = 0 := by omega
    rw [hscale, List.tail_nil, value_nil, Int.ediv_eq_zero_of_lt h.nsec.1 h.nsec.2]
    rfl

/-- The reading is right in everything but the offset. -/
theorem StampValid.denotes_iff (h : StampValid ts) :
    Denotes ts (readingOf ts) ↔ ¬(ts.tsType = .timestampTz ∧ UnderAnHour ts.tzoffset) := by
  constructor
  · rintro hread ⟨htz, hunder⟩
    have hoffset := hread.offset
    rw [readingOf, if_pos htz, if_pos htz] at hoffset
    exact (printedMinutes_eq_iff _).mp (Option.some.inj hoffset) hunder
  · intro hgood
    obtain ⟨hm0, -, hd0, -⟩ := h.date
    have hmonth : 0 ≤ ts.tm.clock.mon + 1 := le_trans (by decide) hm0
    have hday : 0 ≤ ts.tm.clock.mday := le_trans (by decide) hd0
    refine ⟨?_, Int.toNat_of_nonneg h.hour.1, Int.toNat_of_nonneg h.minute.1,
      Int.toNat_of_nonneg h.second.1, h.length_fraction, h.value_fraction, ?_⟩
    · rw [readingOf, Int.toNat_of_nonneg hmonth, Int.toNat_of_nonneg hday]
    · rw [readingOf]
      by_cases htz : ts.tsType = .timestampTz
      · have hhour : ¬UnderAnHour ts.tzoffset := fun hunder => hgood ⟨htz, hunder⟩
        rw [if_pos htz, if_pos htz, (printedMinutes_eq_iff _).mpr hhour]
      · rw [if_neg htz, if_neg htz]

end Whole

/-! ## The function -/

/-- A buffer that is too small, or none, is replaced. -/
theorem StampValid.toString_eq {yearWidth : Nat} {ts : SfTimestamp} (h : StampValid ts)
    (hwidth : yearWidth ≤ 5) (buffer : Option Nat) :
    ∃ size, maxLenFor ts ≤ size ∧ snowflakeTimestampToString yearWidth ts buffer true =
      some (.success, some size, ⟨timeText yearWidth ts ++ fractionText ts ++ zoneText ts,
        (timeText yearWidth ts ++ fractionText ts ++ zoneText ts).length, true⟩) := by
  have hnew := h.printFields_eq hwidth (le_refl (maxLenFor ts))
  cases buffer with
  | none =>
    refine ⟨maxLenFor ts, le_rfl, ?_⟩
    simp only [snowflakeTimestampToString, hnew, Option.bind_eq_bind, Option.bind_some]
  | some size =>
    by_cases hsize : size < maxLenFor ts
    · refine ⟨maxLenFor ts, le_rfl, ?_⟩
      simp only [snowflakeTimestampToString, if_pos hsize, if_true, hnew, Option.bind_eq_bind,
        Option.bind_some]
    · have hold := h.printFields_eq hwidth (Nat.le_of_not_lt hsize)
      refine ⟨size, Nat.le_of_not_lt hsize, ?_⟩
      simp only [snowflakeTimestampToString, if_neg hsize, hold, Option.bind_eq_bind,
        Option.bind_some]

/-- The text fits into the buffer, and reading it gives the timestamp, if and only if the timestamp
is not one with an offset that is positive and below an hour. -/
theorem timestamp_reads_back_iff (yearWidth : Nat) (hwidth : yearWidth ≤ 5) (ts : SfTimestamp)
    (h : StampValid ts) (buffer : Option Nat) :
    (∃ size w, snowflakeTimestampToString yearWidth ts buffer true =
        some (.success, some size, w) ∧ w.terminated = true ∧ w.text.length = w.len ∧
        w.len < size ∧ ∃ r, readTimestamp (ts.tsType ≠ .time) w.text = some r ∧ Denotes ts r) ↔
      ¬(ts.tsType = .timestampTz ∧ UnderAnHour ts.tzoffset) := by
  obtain ⟨size, hsize, hrun⟩ := h.toString_eq hwidth buffer
  have hlen := h.length_lt hwidth
  have hread := readTimestamp_eq yearWidth ts
  rw [← h.denotes_iff]
  constructor
  · rintro ⟨size', w, hrun', -, -, -, r, hr, hdenotes⟩
    rw [hrun] at hrun'
    simp only [Option.some.injEq, Prod.mk.injEq, true_and] at hrun'
    obtain ⟨-, rfl⟩ := hrun'
    rw [hread] at hr
    rwa [Option.some.inj hr]
  · intro hdenotes
    exact ⟨size, _, hrun, rfl, rfl, lt_of_lt_of_le hlen hsize, _, hread, hdenotes⟩

/-- The beginning of 1970, half an hour and half a second after midnight, at an offset. -/
def sampleStamp (tsType : DbType) (tzoffset : Int) : SfTimestamp :=
  ⟨⟨brokenDown 1800, 0, 0⟩, 500000000, tzoffset, 3, tsType⟩

theorem sampleStamp_valid (tsType : DbType) {tzoffset : Int} (h0 : -1440 ≤ tzoffset)
    (h1 : tzoffset ≤ 1440) : StampValid (sampleStamp tsType tzoffset) := by
  refine ⟨?_, ?_, ?_, ?_, ?_, ?_, ?_, fun _ => ⟨h0, h1⟩⟩ <;> simp only [sampleStamp] <;> decide

theorem timestamp_reads_back_west :
    ∃ size w, snowflakeTimestampToString 4 (sampleStamp .timestampTz (-30)) none true =
        some (.success, some size, w) ∧ w.terminated = true ∧ w.text.length = w.len ∧
      w.len < size ∧ ∃ r, readTimestamp (DbType.timestampTz ≠ .time) w.text = some r ∧
        Denotes (sampleStamp .timestampTz (-30)) r :=
  (timestamp_reads_back_iff 4 (by decide) (sampleStamp .timestampTz (-30))
    (sampleStamp_valid _ (by decide) (by decide)) none).mpr fun h => absurd h.2 (by decide)

/-- Half an hour to the east is printed as half an hour to the west. -/
theorem timestamp_half_hour_printed_west :
    StampValid (sampleStamp .timestampTz 30) ∧
      ((snowflakeTimestampToString 4 (sampleStamp .timestampTz 30) none true).bind fun r =>
        readTimestamp true r.2.2.text).map ReadStamp.offset = some (some (-30)) :=
  ⟨sampleStamp_valid _ (by decide) (by decide), by decide⟩

end Snowflake
