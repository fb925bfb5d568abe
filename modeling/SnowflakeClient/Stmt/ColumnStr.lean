import SnowflakeClient.Stmt.Description
import SnowflakeClient.Timestamp.Print

/-!
# Columns as text

`snowflake_column_as_str` (`lib/client.c`), with `_snowflake_get_cJSON_column`, and a caller that
calls it again and again with the same buffer.

A buffer is the size of its heap block. A call may be given a block with its capacity, and says in
the end which block there is now, which capacity it has, and how long the text in it is. After each
call the capacity is to be at most the size of the block, and to hold the text with its NUL
(`StrVars.Contract`).

The branch of the times passes a capacity of 0 to `snowflake_timestamp_to_string`, whatever it was
given. The block is then cut to the bytes that a text of the type may take, and the capacity that is
reported is the old one. The contract is kept by the calls that meet a condition on their column and
on the capacity they are given (`column_str_contract_iff`).
-/

namespace Snowflake

open CInt

/-! ## The function -/

/-- The row that a statement is at. `execute` sets the descriptions and their count at once, and the
count is the length of the list here. -/
structure FetchedRow where
  desc : List ColumnDesc
  curRow : Option Json
  timezone : List Char

/-- `_snowflake_get_cJSON_column`, with the description of the column. -/
def FetchedRow.getColumn (r : FetchedRow) (idx : Int) : Except ValueStatus (ColumnDesc × Json) :=
  if r.desc.length < idx ∨ idx ≤ 0 then .error .errorOutOfBounds
  else
    match r.desc[(idx - 1).toNat]?, (r.curRow.elim [] Json.child)[(idx - 1).toNat]? with
    | some desc, some column => .ok (desc, column)
    | _, _ => .error .errorMissingColumnInRow

/-- What a conversion leaves in `value`, `max_value_size` and `value_len`, the text in the block, if
there is one, and the code in the statement's error. -/
structure Converted where
  value : Option Nat
  maxValueSize : Nat
  valueLen : Nat
  text : Option String
  error : ValueStatus
  deriving DecidableEq, Repr

/-- A conversion that failed. The status of the call is still the one of the lookup, a success. -/
def Converted.failed (value : Option Nat) : Converted :=
  ⟨value, 0, 0, none, .errorConversionFailure⟩

/-- A block and a capacity for `needed` bytes: the old ones, or those of `realloc` or `calloc`. -/
def makeRoom (value : Option Nat) (initValueLen needed : Nat) : Option Nat × Nat :=
  if initValueLen < needed then (some needed, needed) else (value, initValueLen)

/-- A write of `n` bytes. -/
def put (value : Option Nat) (n : Nat) : Run Empty Unit :=
  if value.any (n ≤ ·) then .returned () else .outside

/-- The branches that copy a text: of a value that is `NULL`, of a boolean, and the default. -/
def copyText (value : Option Nat) (initValueLen : Nat) (text : String) : Run Empty Converted := do
  let room := makeRoom value initValueLen (text.utf8ByteSize + 1)
  put room.1 (text.utf8ByteSize + 1)
  .returned ⟨room.1, room.2, text.utf8ByteSize, some text, .success⟩

/-- `DATE_STRING_MAX_SIZE`. -/
def dateStringMaxSize : Nat := 12

/-- The branch of a date. -/
def dateText (yearWidth : Nat) (value : Option Nat) (initValueLen : Nat) (str : String) :
    Run Empty Converted := do
  let sec ← Run.ofRead (checkI64 (strtol str * 86400))
  match gmtime sec with
  | none => .returned (.failed none)
  | some tm =>
    let room := makeRoom value initValueLen (dateStringMaxSize + 1)
    -- a date that does not fit may be written in part
    put room.1 (dateStringMaxSize + 1)
    let w := strftime (dateStringMaxSize + 1) (printDate yearWidth tm.clock)
    .returned ⟨room.1, room.2, w.len,
      if w.terminated then some (String.ofList w.text) else none, .success⟩

/-- The branch of the times and timestamps. -/
def stampText (zones : Zones) (yearWidth : Nat) (timezone : List Char) (desc : ColumnDesc)
    (value : Option Nat) (initValueLen : Nat) (str : String) : Run Empty Converted := do
  let r ← Run.ofRead (snowflakeTimestampFromEpochSeconds zones str.toList timezone
    (toI32 desc.scale) desc.type)
  if r.1 ≠ .success then .returned (.failed none)
  else
    -- the size that is passed is `max_value_size`, which is 0 here
    let p ← Run.ofRead (snowflakeTimestampToString yearWidth r.2 (value.map fun _ => 0) true)
    if p.1 ≠ .success then .returned (.failed (if value.isSome then p.2.1 else none))
    else
      .returned ⟨p.2.1, if initValueLen < p.2.2.len + 1 then p.2.2.len + 1 else initValueLen,
        p.2.2.len, if p.2.2.terminated then some (String.ofList p.2.2.text) else none, .success⟩

/-- The conversion of a column. -/
def convertColumn (zones : Zones) (yearWidth : Nat) (timezone : List Char) (desc : ColumnDesc)
    (column : Json) (value : Option Nat) (initValueLen : Nat) : Run Empty Converted :=
  match column with
  | .null => copyText value initValueLen ""
  | column => do
    let str ← Run.ofRead column.valuestring
    match desc.type with
    | .boolean => copyText value initValueLen (if str = "0" then "" else "1")
    | .date => dateText yearWidth value initValueLen str
    | .time | .timestampNtz | .timestampLtz | .timestampTz =>
      stampText zones yearWidth timezone desc value initValueLen str
    | _ => copyText value initValueLen str

/-- The buffer that the caller passed in and its capacity: there is none unless both are given. -/
def passedIn (value maxValueSize : Option Nat) : Option Nat × Nat :=
  match value, maxValueSize with
  | some size, some (n + 1) => (some size, n + 1)
  | _, _ => (none, 0)

/-- `snowflake_column_as_str`. After an error in the lookup the variables of the caller are as they
were. -/
def columnAsStr (zones : Zones) (yearWidth : Nat) (r : FetchedRow) (idx : Int)
    (value maxValueSize : Option Nat) : Run Empty (Except ValueStatus Converted) :=
  match r.getColumn idx with
  | .error status => .returned (.error status)
  | .ok (desc, column) => do
    let buffer := passedIn value maxValueSize
    let c ← convertColumn zones yearWidth r.timezone desc column buffer.1 buffer.2
    .returned (.ok c)

/-! ## The caller -/

/-- The variables behind `value_ptr`, `max_value_size_ptr` and `value_len_ptr`. -/
structure StrVars where
  value : Option Nat
  maxValueSize : Nat
  valueLen : Nat
  deriving DecidableEq, Repr

/-- A call: for a column of a row, with the buffer of the last call or with another block, of the
caller's own, and its size. -/
structure StrCall where
  row : FetchedRow
  idx : Int
  own : Option Nat

def StrVars.passing (v : StrVars) (call : StrCall) : StrVars :=
  match call.own with
  | none => v
  | some size => { v with value := some size, maxValueSize := size }

def StrVars.store (v : StrVars) : Except ValueStatus Converted → StrVars
  | .error _ => v
  | .ok c => ⟨c.value, c.maxValueSize, c.valueLen⟩

def strCall (zones : Zones) (yearWidth : Nat) (v : StrVars) (call : StrCall) :
    Run Empty StrVars := do
  let v := v.passing call
  let r ← columnAsStr zones yearWidth call.row call.idx v.value (some v.maxValueSize)
  .returned (v.store r)

/-- The capacity is at most the size of the block, and the text with its NUL is within it. -/
def StrVars.Contract (v : StrVars) : Prop :=
  ∀ size, v.value = some size → v.maxValueSize ≤ size ∧ v.valueLen + 1 ≤ v.maxValueSize

/-- Every call of a history returns, and the contract holds after it. -/
def ContractKept (zones : Zones) (yearWidth : Nat) : StrVars → List StrCall → Prop
  | _, [] => True
  | v, call :: calls => ∃ v', strCall zones yearWidth v call = .returned v' ∧ v'.Contract ∧
      ContractKept zones yearWidth v' calls

/-! ## The text of a timestamp -/

section Stamp

variable {yearWidth : Nat} {ts : SfTimestamp}

/-- What `strftime` writes: nothing, if the text does not fit. -/
def timeLen (yearWidth : Nat) (ts : SfTimestamp) : Nat :=
  if (timeText yearWidth ts).length < maxLenFor ts then (timeText yearWidth ts).length else 0

def fractionLen (ts : SfTimestamp) : Nat :=
  if 0 < ts.scale then
    (printPadded ts.scale.toNat (ts.nsec.tdiv (10 ^ (9 - ts.scale).toNat))).length + 1
  else 0

def zoneLen (ts : SfTimestamp) : Nat :=
  if ts.tsType = .timestampTz then (printOffset ts.tzoffset).length + 1 else 0

/-- The text of a timestamp, with its NUL, is within the bytes that are set aside for it. -/
def TextFits (yearWidth : Nat) (ts : SfTimestamp) : Prop :=
  timeLen yearWidth ts + fractionLen ts + zoneLen ts < maxLenFor ts

instance (yearWidth : Nat) (ts : SfTimestamp) : Decidable (TextFits yearWidth ts) :=
  inferInstanceAs (Decidable (_ < _))

/-- `len` counts what was to be written. -/
theorem snprintf_len {size maxLen : Nat} {text : List Char} {w w' : Written}
    (h : snprintf size maxLen text w = some w') : w'.len = w.len + text.length := by
  unfold snprintf at h
  dsimp only at h
  split_ifs at h <;> rw [← Option.some.inj h]

theorem snprintf_inside {size maxLen : Nat} {text : List Char} {w : Written} (hsize : maxLen ≤ size)
    (hmax : maxLen < 2 ^ 64) (h : w.len + text.length < maxLen) :
    ∃ w', snprintf size maxLen text w = some w' := by
  have hroom : subU64 maxLen w.len = maxLen - w.len := subU64_of_le (by omega) hmax
  have hout : (text.take (maxLen - w.len - 1)).length ≤ text.length := List.length_take_le' _ _
  unfold snprintf
  dsimp only
  rw [hroom, if_neg (by omega), if_pos (by omega)]
  exact ⟨_, rfl⟩

theorem strftime_len (size : Nat) (text : List Char) :
    (strftime size text).len = if text.length < size then text.length else 0 := by
  unfold strftime
  split_ifs <;> rfl

theorem printFraction_len (h0 : 0 ≤ ts.scale) (h1 : ts.scale ≤ 9) {size : Nat} {w w' : Written}
    (h : printFraction ts size w = some w') : w'.len = w.len + fractionLen ts := by
  unfold printFraction at h
  unfold fractionLen
  split_ifs at h ⊢
  · rw [pow10Int64_of_scale h0 h1, Option.bind_eq_bind, Option.bind_some] at h
    exact snprintf_len h
  · rw [← Option.some.inj h, Nat.add_zero]

theorem printZone_len {size : Nat} {w w' : Written} (h : printZone ts size w = some w') :
    w'.len = w.len + zoneLen ts := by
  unfold printZone at h
  unfold zoneLen
  split_ifs at h ⊢
  · exact snprintf_len h
  · rw [← Option.some.inj h, Nat.add_zero]

theorem printFields_len (h0 : 0 ≤ ts.scale) (h1 : ts.scale ≤ 9) {w : Written}
    (h : printFields yearWidth ts (maxLenFor ts) = some w) :
    w.len = timeLen yearWidth ts + fractionLen ts + zoneLen ts := by
  unfold printFields at h
  obtain ⟨w', hfraction, hzone⟩ := Option.bind_eq_some_iff.1 h
  rw [printZone_len hzone, printFraction_len h0 h1 hfraction, strftime_len]
  rfl

/-- A text that fits is written. -/
theorem printFields_of_fits (h0 : 0 ≤ ts.scale) (h1 : ts.scale ≤ 9) (h : TextFits yearWidth ts) :
    ∃ w, printFields yearWidth ts (maxLenFor ts) = some w := by
  have hmax := maxLenFor_lt h1
  have htime : (strftime (maxLenFor ts) (timeText yearWidth ts)).len = timeLen yearWidth ts :=
    strftime_len _ _
  unfold TextFits at h
  obtain ⟨w, hw⟩ : ∃ w, printFraction ts (maxLenFor ts)
      (strftime (maxLenFor ts) (timeText yearWidth ts)) = some w := by
    unfold printFraction
    unfold fractionLen at h
    split_ifs at h ⊢
    · rw [pow10Int64_of_scale h0 h1, Option.bind_eq_bind, Option.bind_some]
      apply snprintf_inside le_rfl hmax
      rw [htime, List.length_cons]
      omega
    · exact ⟨_, rfl⟩
  have hlen := printFraction_len h0 h1 hw
  obtain ⟨w', hw'⟩ : ∃ w', printZone ts (maxLenFor ts) w = some w' := by
    unfold printZone
    unfold zoneLen at h
    split_ifs at h ⊢
    · apply snprintf_inside le_rfl hmax
      rw [hlen, htime, List.length_cons]
      omega
    · exact ⟨_, rfl⟩
  refine ⟨w', ?_⟩
  unfold printFields
  rw [hw, Option.bind_eq_bind, Option.bind_some, hw']

/-- The members of a timestamp that are in their ranges make a text that fits. -/
theorem StampValid.textFits (h : StampValid ts) (hwidth : yearWidth ≤ 5) :
    TextFits yearWidth ts := by
  have hlen := printFields_len h.scale.1 h.scale.2 (h.printFields_eq hwidth le_rfl)
  unfold TextFits
  rw [← hlen]
  exact h.length_lt hwidth

end Stamp

/-! ## The branches -/

/-- A conversion returns, and what it leaves keeps the contract. -/
def Meets (r : Run Empty Converted) : Prop :=
  ∃ c, r = .returned c ∧ (⟨c.value, c.maxValueSize, c.valueLen⟩ : StrVars).Contract

section Branches

variable {zones : Zones} {yearWidth : Nat} {timezone : List Char} {desc : ColumnDesc}
  {value : Option Nat} {initValueLen : Nat}

/-- The capacity of the buffer is not more than the block has. -/
def Backed (value : Option Nat) (initValueLen : Nat) : Prop :=
  0 < initValueLen → ∃ size, value = some size ∧ initValueLen ≤ size

theorem meets_failed : Meets (.returned (.failed none)) :=
  ⟨_, rfl, fun _ hsize => absurd hsize (by simp [Converted.failed])⟩

theorem makeRoom_spec (h : Backed value initValueLen) (needed : Nat) (hpos : 0 < needed) :
    ∃ size, (makeRoom value initValueLen needed).1 = some size ∧
      (makeRoom value initValueLen needed).2 ≤ size ∧
      needed ≤ (makeRoom value initValueLen needed).2 := by
  unfold makeRoom
  split_ifs with hlt
  · exact ⟨needed, rfl, le_rfl, le_rfl⟩
  · obtain ⟨size, hvalue, hsize⟩ := h (by omega)
    exact ⟨size, hvalue, hsize, by omega⟩

theorem put_some {size n : Nat} (h : n ≤ size) : put (some size) n = .returned () := by
  unfold put
  rw [if_pos (by simpa using h)]

theorem copyText_meets (h : Backed value initValueLen) (text : String) :
    Meets (copyText value initValueLen text) := by
  obtain ⟨size, hvalue, hsize, hneeded⟩ := makeRoom_spec h (text.utf8ByteSize + 1) (by omega)
  unfold copyText
  dsimp only
  rw [hvalue, put_some (by omega), Run.returned_bind]
  refine ⟨_, rfl, ?_⟩
  rintro _ ⟨⟩
  exact ⟨hsize, hneeded⟩

theorem strftime_len_le {size : Nat} (text : List Char) :
    (strftime (size + 1) text).len ≤ size := by
  rw [strftime_len]
  split_ifs <;> omega

/-- A date keeps the contract unless its seconds overflow. -/
theorem dateText_meets_iff (h : Backed value initValueLen) (str : String) :
    Meets (dateText yearWidth value initValueLen str) ↔
      (checkI64 (strtol str * 86400)).isSome := by
  obtain ⟨size, hvalue, hsize, hneeded⟩ := makeRoom_spec h (dateStringMaxSize + 1) (by omega)
  unfold dateText
  cases checkI64 (strtol str * 86400) with
  | none => simp [Meets]
  | some sec =>
    rw [Run.ofRead_some, Run.returned_bind]
    refine iff_of_true ?_ rfl
    cases gmtime sec with
    | none => exact meets_failed
    | some tm =>
      dsimp only
      rw [hvalue, put_some (by omega), Run.returned_bind]
      refine ⟨_, rfl, ?_⟩
      rintro _ ⟨⟩
      have hlen : (strftime (dateStringMaxSize + 1) (printDate yearWidth tm.clock)).len ≤
          dateStringMaxSize := strftime_len_le _
      refine ⟨hsize, ?_⟩
      dsimp only
      omega

/-- A capacity of 0 makes `snowflake_timestamp_to_string` take a block of its own size. -/
theorem toString_resized (yearWidth : Nat) (ts : SfTimestamp) (value : Option Nat) :
    snowflakeTimestampToString yearWidth ts (value.map fun _ => 0) true =
      (printFields yearWidth ts (maxLenFor ts)).bind fun w =>
        some (.success, some (maxLenFor ts), w) := by
  have hpos : 0 < maxLenFor ts := by
    unfold maxLenFor
    omega
  cases value with
  | none => rfl
  | some size =>
    rw [Option.map_some]
    unfold snowflakeTimestampToString
    dsimp only
    rw [if_pos hpos, if_pos rfl]
    rfl

theorem fromEpoch_scale {str : List Char} {scale : Int} {tsType : DbType} {ts : SfTimestamp}
    (h : snowflakeTimestampFromEpochSeconds zones str timezone scale tsType =
      some (.success, ts)) : 0 ≤ ts.scale ∧ ts.scale ≤ 9 := by
  unfold snowflakeTimestampFromEpochSeconds at h
  dsimp only at h
  by_cases hpoint : afterFirst '.' str = none ∧ tsType ≠ .date
  · rw [if_pos hpoint] at h
    cases h
  rw [if_neg hpoint] at h
  obtain ⟨⟨sec, nsec, tz⟩, -, h⟩ := Option.bind_eq_some_iff.1 h
  obtain ⟨⟨sec', nsec'⟩, -, h⟩ := Option.bind_eq_some_iff.1 h
  obtain ⟨unit, hunit, h⟩ := Option.bind_eq_some_iff.1 h
  obtain ⟨n, -, h⟩ := Option.bind_eq_some_iff.1 h
  obtain ⟨tm, -, h⟩ := Option.bind_eq_some_iff.1 h
  have hscale : 0 ≤ scale ∧ scale ≤ 9 := by
    unfold pow10Int64 at hunit
    split_ifs at hunit
    omega
  cases tm with
  | none => cases h
  | some tm =>
    cases h
    exact hscale

/-- What is printed of a timestamp, without the calls around it. -/
theorem stampText_success {str : String} {ts : SfTimestamp}
    (hepoch : snowflakeTimestampFromEpochSeconds zones str.toList timezone (toI32 desc.scale)
      desc.type = some (.success, ts)) :
    stampText zones yearWidth timezone desc value initValueLen str =
      Run.ofRead (printFields yearWidth ts (maxLenFor ts)) >>= fun w =>
        .returned ⟨some (maxLenFor ts),
          if initValueLen < w.len + 1 then w.len + 1 else initValueLen, w.len,
          if w.terminated then some (String.ofList w.text) else none, .success⟩ := by
  unfold stampText
  rw [hepoch, Run.ofRead_some, Run.returned_bind, if_neg (by simp), toString_resized]
  cases printFields yearWidth ts (maxLenFor ts) with
  | none => rfl
  | some w => rfl

/-- What a time or timestamp has to meet: the conversion is defined, and if there is a timestamp,
its text and the capacity that was passed in are within the bytes that are set aside. -/
def StampMeets (yearWidth initValueLen : Nat) : Option (ValueStatus × SfTimestamp) → Prop
  | none => False
  | some (status, ts) =>
    status = .success → initValueLen ≤ maxLenFor ts ∧ TextFits yearWidth ts

/-- For a timestamp whose members are in their ranges, the capacity is all that matters. -/
theorem stampMeets_valid_iff {ts : SfTimestamp} (h : StampValid ts) (hwidth : yearWidth ≤ 5) :
    StampMeets yearWidth initValueLen (some (.success, ts)) ↔ initValueLen ≤ maxLenFor ts := by
  unfold StampMeets
  constructor
  · exact fun hmeets => (hmeets rfl).1
  · exact fun hinit _ => ⟨hinit, h.textFits hwidth⟩

theorem stampText_meets_iff (str : String) :
    Meets (stampText zones yearWidth timezone desc value initValueLen str) ↔
      StampMeets yearWidth initValueLen (snowflakeTimestampFromEpochSeconds zones str.toList
        timezone (toI32 desc.scale) desc.type) := by
  cases hepoch : snowflakeTimestampFromEpochSeconds zones str.toList timezone (toI32 desc.scale)
    desc.type with
  | none => simp [stampText, Meets, StampMeets, hepoch]
  | some r =>
    obtain ⟨status, ts⟩ := r
    by_cases hstatus : status = .success
    · subst hstatus
      obtain ⟨h0, h1⟩ := fromEpoch_scale hepoch
      rw [stampText_success hepoch]
      cases hprint : printFields yearWidth ts (maxLenFor ts) with
      | none =>
        -- a write outside of the block: the text is not one that fits
        refine iff_of_false (by simp [Meets]) fun hmeets => ?_
        obtain ⟨w, hw⟩ := printFields_of_fits h0 h1 (hmeets rfl).2
        rw [hprint] at hw
        cases hw
      | some w =>
        have hlen := printFields_len h0 h1 hprint
        rw [Run.ofRead_some, Run.returned_bind]
        unfold StampMeets TextFits
        constructor
        · rintro ⟨c, hc, hcontract⟩ -
          cases hc
          obtain ⟨hsize, -⟩ := hcontract _ rfl
          dsimp only at hsize
          split_ifs at hsize <;> omega
        · intro hmeets
          obtain ⟨hinit, hfits⟩ := hmeets rfl
          refine ⟨_, rfl, ?_⟩
          rintro _ ⟨⟩
          dsimp only
          split_ifs <;> omega
    · unfold stampText
      rw [hepoch, Run.ofRead_some, Run.returned_bind, if_pos hstatus]
      exact iff_of_true meets_failed fun h => absurd h hstatus

/-- What a column has to meet for the capacity that is passed in. -/
def ColumnMeets (zones : Zones) (yearWidth : Nat) (timezone : List Char) (desc : ColumnDesc)
    (initValueLen : Nat) : Json → Prop
  | .null => True
  | .str str =>
    match desc.type with
    | .date => (checkI64 (strtol str * 86400)).isSome
    | .time | .timestampNtz | .timestampLtz | .timestampTz =>
      StampMeets yearWidth initValueLen (snowflakeTimestampFromEpochSeconds zones str.toList
        timezone (toI32 desc.scale) desc.type)
    | _ => True
  | _ => False

theorem convertColumn_meets_iff (h : Backed value initValueLen) (column : Json) :
    Meets (convertColumn zones yearWidth timezone desc column value initValueLen) ↔
      ColumnMeets zones yearWidth timezone desc initValueLen column := by
  cases column with
  | null => exact iff_of_true (copyText_meets h _) trivial
  | str str =>
    unfold convertColumn ColumnMeets
    dsimp only [Json.valuestring]
    rw [Run.ofRead_some, Run.returned_bind]
    have hstamp := @stampText_meets_iff zones yearWidth timezone desc value initValueLen str
    cases htype : desc.type with
    | date => exact dateText_meets_iff h str
    | time | timestampNtz | timestampLtz | timestampTz =>
      rw [htype] at hstamp
      exact hstamp
    | _ => exact iff_of_true (copyText_meets h _) trivial
  | _ => simp [convertColumn, ColumnMeets, Meets, Json.valuestring]

end Branches

/-! ## Calls -/

section Calls

variable (zones : Zones) (yearWidth : Nat)

/-- What a call has to meet. A lookup that fails reports nothing, and the variables have to be right
as they are. -/
def CallMeets (v : StrVars) (call : StrCall) : Prop :=
  match call.row.getColumn call.idx with
  | .error _ => (v.passing call).Contract
  | .ok (desc, column) =>
    ColumnMeets zones yearWidth call.row.timezone desc
      (passedIn (v.passing call).value (some (v.passing call).maxValueSize)).2 column

/-- Every call of a history meets it. -/
def CallsMeet : StrVars → List StrCall → Prop
  | _, [] => True
  | v, call :: calls => CallMeets zones yearWidth v call ∧
      ∀ v', strCall zones yearWidth v call = .returned v' → CallsMeet v' calls

variable {zones yearWidth} {v : StrVars}

theorem backed_passing (h : v.Contract) (call : StrCall) :
    Backed (passedIn (v.passing call).value (some (v.passing call).maxValueSize)).1
      (passedIn (v.passing call).value (some (v.passing call).maxValueSize)).2 := by
  have hbacked : ∀ size, (v.passing call).value = some size →
      (v.passing call).maxValueSize ≤ size := by
    unfold StrVars.passing
    cases call.own with
    | none => exact fun size hsize => (h size hsize).1
    | some own =>
      rintro _ ⟨⟩
      exact le_rfl
  unfold passedIn
  split
  next size n hsize hn =>
    intro _
    refine ⟨size, rfl, ?_⟩
    have hcapacity : (v.passing call).maxValueSize = n + 1 := Option.some.inj hn
    show n + 1 ≤ size
    rw [← hcapacity]
    exact hbacked size hsize
  next => exact fun hpos => absurd hpos (lt_irrefl 0)

/-- The step. -/
theorem strCall_contract_iff (h : v.Contract) (call : StrCall) :
    (∃ v', strCall zones yearWidth v call = .returned v' ∧ v'.Contract) ↔
      CallMeets zones yearWidth v call := by
  unfold strCall columnAsStr CallMeets
  dsimp only
  cases call.row.getColumn call.idx with
  | error status =>
    dsimp only
    rw [Run.returned_bind]
    constructor
    · rintro ⟨v', hrun, hcontract⟩
      cases hrun
      exact hcontract
    · exact fun hcontract => ⟨_, rfl, hcontract⟩
  | ok column =>
    dsimp only
    rw [← convertColumn_meets_iff (backed_passing h call)]
    constructor
    · rintro ⟨v', hrun, hcontract⟩
      obtain ⟨r, hr, hstore⟩ := Run.bind_eq_returned.1 hrun
      obtain ⟨c, hc, hok⟩ := Run.bind_eq_returned.1 hr
      cases hok
      cases hstore
      exact ⟨c, hc, hcontract⟩
    · rintro ⟨c, hc, hcontract⟩
      rw [hc]
      exact ⟨_, rfl, hcontract⟩

theorem contractKept_iff (h : v.Contract) (calls : List StrCall) :
    ContractKept zones yearWidth v calls ↔ CallsMeet zones yearWidth v calls := by
  induction calls generalizing v with
  | nil => exact Iff.rfl
  | cons call calls ih =>
    have hstep : (∃ v', strCall zones yearWidth v call = .returned v' ∧ v'.Contract) ↔
        CallMeets zones yearWidth v call := strCall_contract_iff h call
    constructor
    · rintro ⟨v', hrun, hcontract, hrest⟩
      refine ⟨hstep.1 ⟨v', hrun, hcontract⟩, fun v'' hrun' => ?_⟩
      rw [hrun] at hrun'
      cases hrun'
      exact (ih hcontract).1 hrest
    · rintro ⟨hmeets, hrest⟩
      obtain ⟨v', hrun, hcontract⟩ := hstep.2 hmeets
      exact ⟨v', hrun, hcontract, (ih hcontract).2 (hrest v' hrun)⟩

end Calls

/-- In a history of calls that begins without a buffer, the contract holds after every call if and
only if every call meets its condition. -/
theorem column_str_contract_iff (zones : Zones) (yearWidth maxValueSize valueLen : Nat)
    (calls : List StrCall) :
    ContractKept zones yearWidth ⟨none, maxValueSize, valueLen⟩ calls ↔
      CallsMeet zones yearWidth ⟨none, maxValueSize, valueLen⟩ calls := by
  apply contractKept_iff
  rintro _ ⟨⟩

/-- A row with one column. -/
def oneColumn (type : DbType) (scale : Int) (text : String) : FetchedRow where
  desc := [⟨none, 1, type, 0, 0, 0, scale, true, snowflakeToCType type 0 scale⟩]
  curRow := some (.arr [.str text])
  timezone := []

/-- A time is printed into a block of 100 bytes, which is cut to 19 while the capacity stays 100.
The next text of 20 bytes is then written over the end of the block. -/
theorem column_str_overruns :
    strCall (fun _ _ => 0) 4 ⟨none, 0, 0⟩ ⟨oneColumn .time 9 "0.000000000", 1, some 100⟩ =
      .returned ⟨some 19, 100, 18⟩ ∧
    strCall (fun _ _ => 0) 4 ⟨some 19, 100, 18⟩
      ⟨oneColumn .text 0 "abcdefghijklmnopqrst", 1, none⟩ = .outside := by
  constructor
  · decide
  · decide

end Snowflake
