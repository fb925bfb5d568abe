import SnowflakeClient.Calendar
import SnowflakeClient.CInt
import SnowflakeClient.Connection.Connect
import SnowflakeClient.Decimal
import SnowflakeClient.Types

/-!
# Timestamps

`snowflake_timestamp_from_epoch_seconds`, `snowflake_timestamp_to_string` and
`snowflake_timestamp_get_epoch_seconds` (`lib/client.c`), with the functions of the C library that
they rest on.

* `gmtime` is exact, and fails for a year that is not an `int`.
* `localtime` adds the offset of the zone. `UTC+hh:mm` is west of UTC and `UTC-hh:mm` east of it, as
  POSIX has it; for other zones the offset is a parameter.
* `mktime` is the one of a process whose zone is UTC.
* `strftime` is the one for members in their ranges. `%Y` is the year in decimal, without padding or
  up to a width that depends on the library.

`none` is a run that is undefined from there on: an overflow of a signed operation, a read outside
of `pow10_int64`, a write outside of the buffer.
-/

namespace Snowflake

open CInt Calendar

/-! ## Broken-down times -/

/-- The members of `struct tm` for the time: months from 0, years from 1900. -/
structure BrokenDown where
  sec : Int
  min : Int
  hour : Int
  mday : Int
  mon : Int
  year : Int
  wday : Int
  yday : Int
  deriving DecidableEq, Repr

/-- `struct tm`. -/
structure Tm where
  clock : BrokenDown
  isdst : Int
  gmtoff : Int
  deriving DecidableEq, Repr

/-- What `memset` leaves. -/
def zeroTm : Tm := ⟨⟨0, 0, 0, 0, 0, 0, 0, 0⟩, 0, 0⟩

/-- The members for the time `t`. -/
def brokenDown (t : Int) : BrokenDown :=
  let c := clockOf t
  { sec := c.second
    min := c.minute
    hour := c.hour
    mday := c.date.day
    mon := c.date.month - 1
    year := c.date.year - 1900
    wday := (t / 86400 + 4) % 7
    yday := t / 86400 - yearStart c.date.year }

/-- A year that is an `int`. -/
def YearFits (t : Int) : Prop :=
  -2 ^ 31 ≤ (brokenDown t).year ∧ (brokenDown t).year < 2 ^ 31

instance (t : Int) : Decidable (YearFits t) := inferInstanceAs (Decidable (_ ∧ _))

/-- `gmtime`. -/
def gmtime (t : Int) : Option Tm :=
  if YearFits t then some ⟨brokenDown t, 0, 0⟩ else none

/-- The offsets of the zones, by name and time, in seconds to the east. -/
abbrev Zones := List Char → Int → Int

/-- A sign, hours and minutes, up to the end of the text. -/
def readOffset : List Char → Option (Char × Nat × Nat)
  | [] => none
  | sign :: text => do
    let (hours, text) ← Decimal.readNumber text
    match text with
    | ':' :: text => do
      let (minutes, text) ← Decimal.readNumber text
      if text = [] then some (sign, hours, minutes) else none
    | _ => none

/-- The offset of a zone that is called `UTC+hh:mm` or `UTC-hh:mm`. -/
def posixOffset : List Char → Option Int
  | 'U' :: 'T' :: 'C' :: text => do
    let (sign, hours, minutes) ← readOffset text
    if hours ≤ 24 ∧ minutes ≤ 59 then
      if sign = '+' then some (-(60 * (60 * hours + minutes)))
      else if sign = '-' then some (60 * (60 * hours + minutes))
      else none
    else none
  | _ => none

/-- The offset under the environment's `TZ`. -/
def zoneOffset (zones : Zones) (tz : List Char) (t : Int) : Int :=
  (posixOffset tz).getD (zones tz t)

/-- `localtime` under `TZ`. -/
def localtime (zones : Zones) (tz : List Char) (t : Int) : Option Tm :=
  let east := zoneOffset zones tz t
  if YearFits (t + east) then some ⟨brokenDown (t + east), 0, east⟩ else none

/-- The time that the members stand for; months outside of their range count as years. -/
def BrokenDown.seconds (b : BrokenDown) : Int :=
  86400 * (toDays ⟨b.year + 1900 + b.mon / 12, b.mon % 12 + 1, 1⟩ + (b.mday - 1)) +
    3600 * b.hour + 60 * b.min + b.sec

/-- `mktime` in a process whose zone is UTC. It also puts the members into their ranges. -/
def mktime (tm : Tm) : Int × Tm :=
  (gmtime tm.clock.seconds).elim (-1, tm) fun tm' => (tm.clock.seconds, tm')

/-! ## Texts -/

/-- `strtoll` with base 10. -/
def strtoll (text : List Char) : Int := strtol (String.ofList text)

/-- What follows the first `c`, if there is one: `strchr` and one byte more. -/
def afterFirst (c : Char) (text : List Char) : Option (List Char) :=
  match text.dropWhile (· ≠ c) with
  | [] => none
  | _ :: rest => some rest

/-- `%c%02ld:%02ld` of the sign and of the quotient and the remainder by 60. -/
def printOffset (tzoffset : Int) : List Char :=
  (if 0 < tzoffset.tdiv 60 then '+' else '-') ::
    (Decimal.padded 2 (tzoffset.tdiv 60).natAbs ++
      ':' :: Decimal.padded 2 (tzoffset.tmod 60).natAbs)

/-- `pow10_int64`. -/
def pow10Int64 (i : Int) : Option Int := if 0 ≤ i ∧ i ≤ 9 then some (10 ^ i.toNat) else none

/-! ## The functions -/

/-- `SF_TIMESTAMP`. -/
structure SfTimestamp where
  tm : Tm
  nsec : Int
  tzoffset : Int
  scale : Int
  tsType : DbType
  deriving DecidableEq, Repr

/-- `TIMEZONE_OFFSET_RANGE`. -/
def timezoneOffsetRange : Int := 24 * 60

/-- The numbers in the text: `sec`, `nsec` and `tzoffset`. A date has no decimal point. -/
def parseEpoch (str : List Char) (tsType : DbType) : Option (Int × Int × Int) :=
  if tsType = .date then do
    let sec ← checkI64 (strtoll str * 86400)
    some (sec, 0, 0)
  else do
    let fraction ← afterFirst '.' str
    match afterFirst ' ' fraction with
    | none => some (strtoll str, strtoll fraction, 0)
    | some zone => do
      let tzoffset ← checkI64 (strtoll zone - timezoneOffsetRange)
      some (strtoll str, strtoll fraction, tzoffset)

/-- Before the epoch, the fraction is taken from the second before. -/
def borrow (scale sec nsec : Int) : Option (Int × Int) :=
  if sec < 0 ∧ 0 < nsec then do
    let unit ← pow10Int64 scale
    let nsec ← checkI64 (unit - nsec)
    let sec ← checkI64 (sec - 1)
    some (sec, nsec)
  else
    some (sec, nsec)

/-- The broken-down time for a type. -/
def timeFor (zones : Zones) (timezone : List Char) (tsType : DbType) (sec tzoffset : Int) :
    Option (Option Tm) :=
  match tsType with
  | .timestampNtz => some (gmtime sec)
  | .time => some (gmtime sec)
  | .date => some (gmtime sec)
  | .timestampLtz => do
    let sec ← checkI64 (sec + (← checkI64 (tzoffset * 60 * 2)))
    some (localtime zones timezone sec)
  | .timestampTz => do
    let sec ← checkI64 (sec + (← checkI64 (tzoffset * 60 * 2)))
    some (localtime zones ('U' :: 'T' :: 'C' :: printOffset tzoffset) sec)
  | _ => some none

/-- `snowflake_timestamp_from_epoch_seconds`. -/
def snowflakeTimestampFromEpochSeconds (zones : Zones) (str timezone : List Char) (scale : Int)
    (tsType : DbType) : Option (ValueStatus × SfTimestamp) :=
  let ts : SfTimestamp := ⟨zeroTm, 0, 0, scale, tsType⟩
  if afterFirst '.' str = none ∧ tsType ≠ .date then some (.errorGeneral, ts)
  else do
    let (sec, nsec, tzoffset) ← parseEpoch str tsType
    let (sec, nsec) ← borrow scale sec nsec
    let unit ← pow10Int64 (9 - scale)
    let nsec ← checkI64 (nsec * unit)
    let ts := { ts with
      nsec := toI32 nsec
      tzoffset := if tsType = .timestampTz then toI32 tzoffset else 0 }
    match ← timeFor zones timezone tsType sec tzoffset with
    | none => some (.errorGeneral, ts)
    | some tm => some (.success, { ts with tm := tm })

/-- `snowflake_timestamp_get_epoch_seconds`. -/
def snowflakeTimestampGetEpochSeconds (ts : SfTimestamp) :
    Option (ValueStatus × Int × SfTimestamp) := do
  let (time, tm) := mktime { ts.tm with isdst := -1 }
  let epochTimeLocal := toI32 (toI32 time + tm.gmtoff)
  let epochTime ← checkI32 (epochTimeLocal - ts.tzoffset)
  some (.success, epochTime, { ts with tm := tm })

/-! ## Printing -/

/-- What is in the buffer: the text up to the first NUL, if there is one, and `len`, which counts
what was to be written. -/
structure Written where
  text : List Char
  len : Nat
  terminated : Bool
  deriving DecidableEq, Repr

/-- `strftime` into a buffer of `size` bytes. A text that does not fit leaves it undefined. -/
def strftime (size : Nat) (text : List Char) : Written :=
  if text.length < size then ⟨text, text.length, true⟩ else ⟨[], 0, false⟩

/-- `len += snprintf(&buffer[len], max_len - len, ...)`, in a buffer of `size` bytes. -/
def snprintf (size maxLen : Nat) (text : List Char) (w : Written) : Option Written :=
  let room := subU64 maxLen w.len
  let out := text.take (room - 1)
  if room = 0 then some { w with len := w.len + text.length }
  else if w.len + out.length < size then
    some { text := if w.text.length = w.len then w.text ++ out else w.text
           len := w.len + text.length
           terminated := true }
  else none

/-- `%Y`. -/
def printYear (yearWidth : Nat) (year : Int) : List Char :=
  if year < 0 then '-' :: Decimal.padded yearWidth year.natAbs
  else Decimal.padded yearWidth year.natAbs

/-- `%H:%M:%S`. -/
def printClock (b : BrokenDown) : List Char :=
  Decimal.padded 2 b.hour.toNat ++ ':' :: (Decimal.padded 2 b.min.toNat ++
    ':' :: Decimal.padded 2 b.sec.toNat)

/-- `%Y-%m-%d`. -/
def printDate (yearWidth : Nat) (b : BrokenDown) : List Char :=
  printYear yearWidth (b.year + 1900) ++ '-' :: (Decimal.padded 2 (b.mon + 1).toNat ++
    '-' :: Decimal.padded 2 b.mday.toNat)

/-- `%0<width>ld`. -/
def printPadded (width : Nat) (n : Int) : List Char :=
  if n < 0 then '-' :: Decimal.padded (width - 1) n.natAbs else Decimal.padded width n.natAbs

/-- The bytes that a text of the type and scale may take. -/
def maxLenFor (ts : SfTimestamp) : Nat :=
  1 + (if ts.tsType = .time then 8 else 21) + (if 0 < ts.scale then 1 + ts.scale.toNat else 0) +
    (if ts.tsType = .timestampTz then 7 else 0)

/-- What `strftime` is to write. -/
def timeText (yearWidth : Nat) (ts : SfTimestamp) : List Char :=
  if ts.tsType = .time then printClock ts.tm.clock
  else printDate yearWidth ts.tm.clock ++ ' ' :: printClock ts.tm.clock

def printFraction (ts : SfTimestamp) (size : Nat) (w : Written) : Option Written :=
  if 0 < ts.scale then do
    let unit ← pow10Int64 (9 - ts.scale)
    snprintf size (maxLenFor ts) ('.' :: printPadded ts.scale.toNat (ts.nsec.tdiv unit)) w
  else
    some w

def printZone (ts : SfTimestamp) (size : Nat) (w : Written) : Option Written :=
  if ts.tsType = .timestampTz then
    snprintf size (maxLenFor ts) (' ' :: printOffset ts.tzoffset) w
  else
    some w

/-- The texts that are written one after the other. -/
def printFields (yearWidth : Nat) (ts : SfTimestamp) (size : Nat) : Option Written := do
  let w ← printFraction ts size (strftime size (timeText yearWidth ts))
  printZone ts size w

/-- `snowflake_timestamp_to_string`: the status, the size of the buffer that is left and what is in
it. A buffer that is `none` is `NULL`. -/
def snowflakeTimestampToString (yearWidth : Nat) (ts : SfTimestamp) (buffer : Option Nat)
    (reallocate : Bool) : Option (ValueStatus × Option Nat × Written) :=
  match buffer with
  | none => do
    let w ← printFields yearWidth ts (maxLenFor ts)
    some (.success, some (maxLenFor ts), w)
  | some size =>
    if size < maxLenFor ts then
      if reallocate then do
        let w ← printFields yearWidth ts (maxLenFor ts)
        some (.success, some (maxLenFor ts), w)
      else
        some (.errorBufferTooSmall, some size, ⟨[], 0, false⟩)
    else do
      let w ← printFields yearWidth ts size
      some (.success, some size, w)

end Snowflake
