import SnowflakeClient.Stmt.ColumnStr

/-!
# What the status of a column's text says

`snowflake_column_as_str` (`lib/client.c`) returns the status of the lookup of the column. The
branches of the dates and of the times go to the end of the function when a conversion fails, with
no other status, and with `NULL` for the caller's buffer.

`column_str_reports_iff`: a call reports what it did, exactly if it had nothing but a success to
report: its conversion is defined and yields a text that fits into the bytes set aside for it.
-/

namespace Snowflake

open CInt

/-- What `value_ptr` and `max_value_size_ptr` point to: a block, and the capacity that the caller
says it has. -/
structure StrArgs where
  value : Option Nat
  maxValueSize : Option Nat
  backed : ∀ size n, value = some size → maxValueSize = some n → n ≤ size

/-! ## The conversion of a column -/

/-- What `snprintf` is to write for the fraction. -/
def fractionString (ts : SfTimestamp) : List Char :=
  if 0 < ts.scale then
    '.' :: printPadded ts.scale.toNat (ts.nsec.tdiv (10 ^ (9 - ts.scale).toNat))
  else []

/-- The text of a timestamp, of any length. -/
def stampString (yearWidth : Nat) (ts : SfTimestamp) : List Char :=
  timeText yearWidth ts ++ fractionString ts ++ zoneText ts

/-- The text of a date: `some none` if there is no date, `none` if its seconds overflow. -/
def dateConversion (yearWidth : Nat) (str : String) : Option (Option String) :=
  (checkI64 (strtol str * 86400)).map fun sec =>
    (gmtime sec).map fun tm => String.ofList (printDate yearWidth tm.clock)

/-- The text of a time or timestamp: `some none` if there is no timestamp. -/
def stampConversion (yearWidth : Nat) (stamp : Option (ValueStatus × SfTimestamp)) :
    Option (Option String) :=
  stamp.map fun r =>
    if r.1 = .success then some (String.ofList (stampString yearWidth r.2)) else none

/-- The text of a column. -/
def conversion (zones : Zones) (yearWidth : Nat) (timezone : List Char) (desc : ColumnDesc) :
    Json → Option (Option String)
  | .null => some (some "")
  | .str str =>
    match desc.type with
    | .boolean => some (some (if str = "0" then "" else "1"))
    | .date => dateConversion yearWidth str
    | .time | .timestampNtz | .timestampLtz | .timestampTz =>
      stampConversion yearWidth (snowflakeTimestampFromEpochSeconds zones str.toList timezone
        (toI32 desc.scale) desc.type)
    | _ => some (some str)
  | _ => none

/-- The text of a column of a row, if there is such a column. -/
def FetchedRow.conversion (zones : Zones) (yearWidth : Nat) (r : FetchedRow) (idx : Int) :
    Option (Option String) :=
  match r.getColumn idx with
  | .error _ => none
  | .ok (desc, column) => Snowflake.conversion zones yearWidth r.timezone desc column

/-! ## What is reported -/

/-- The status that is returned: that of the lookup, which the conversions leave alone. -/
def returnedStatus : Except ValueStatus Converted → ValueStatus
  | .error status => status
  | .ok _ => .success

/-- `*value_ptr` after the call. -/
def StrArgs.valueAfter (args : StrArgs) : Except ValueStatus Converted → Option Nat
  | .error _ => args.value
  | .ok c => c.value

/-- `*max_value_size_ptr` after the call. -/
def StrArgs.maxValueSizeAfter (args : StrArgs) : Except ValueStatus Converted → Option Nat
  | .error _ => args.maxValueSize
  | .ok c => args.maxValueSize.map fun _ => c.maxValueSize

/-- A success comes with the text of the column; a conversion that fails comes with another status
and leaves the caller's buffer and capacity alone. -/
structure Reports (args : StrArgs) (conversion : Option (Option String))
    (result : Except ValueStatus Converted) : Prop where
  success : returnedStatus result = .success →
    ∃ c text, result = .ok c ∧ c.value.isSome ∧ conversion = some (some text) ∧
      c.text = some text
  failure : conversion = some none → returnedStatus result ≠ .success ∧
    args.valueAfter result = args.value ∧ args.maxValueSizeAfter result = args.maxValueSize

/-- A conversion leaves the text in a block. -/
def Yields (run : Run Empty Converted) (conversion : Option (Option String)) : Prop :=
  ∃ c text, run = .returned c ∧ c.value.isSome ∧ conversion = some (some text) ∧
    c.text = some text

/-- Since a conversion never changes the status, all that it can do is to succeed. -/
theorem reports_ok_iff {args : StrArgs} {conversion : Option (Option String)}
    {run : Run Empty Converted} :
    (∃ result, run >>= (fun c => .returned (.ok c)) = .returned result ∧
      Reports args conversion result) ↔ Yields run conversion := by
  constructor
  · rintro ⟨result, hrun, hreports⟩
    obtain ⟨c, hc, hok⟩ := Run.bind_eq_returned.1 hrun
    cases hok
    obtain ⟨c', text, hsame, hvalue, hconv, htext⟩ := hreports.success rfl
    cases hsame
    exact ⟨c, text, hc, hvalue, hconv, htext⟩
  · rintro ⟨c, text, hc, hvalue, hconv, htext⟩
    refine ⟨.ok c, by rw [hc, Run.returned_bind], fun _ => ⟨c, text, rfl, hvalue, hconv, htext⟩, ?_⟩
    intro hnone
    rw [hconv] at hnone
    cases hnone

/-! ## The branches -/

section Branches

variable {zones : Zones} {yearWidth : Nat} {timezone : List Char} {desc : ColumnDesc}
  {value : Option Nat} {initValueLen : Nat} {ts : SfTimestamp}

theorem copyText_yields (h : Backed value initValueLen) (text : String) :
    Yields (copyText value initValueLen text) (some (some text)) := by
  obtain ⟨size, hvalue, hsize, hneeded⟩ := makeRoom_spec h (text.utf8ByteSize + 1) (by omega)
  unfold copyText
  dsimp only
  rw [hvalue, put_some (by omega), Run.returned_bind]
  exact ⟨_, text, rfl, rfl, rfl, rfl⟩

/-- The date exists, and its text is within the bytes that are set aside. -/
def DateConverts (yearWidth : Nat) (str : String) : Prop :=
  ∃ sec tm, checkI64 (strtol str * 86400) = some sec ∧ gmtime sec = some tm ∧
    (printDate yearWidth tm.clock).length ≤ dateStringMaxSize

theorem dateText_yields_iff (h : Backed value initValueLen) (str : String) :
    Yields (dateText yearWidth value initValueLen str) (dateConversion yearWidth str) ↔
      DateConverts yearWidth str := by
  obtain ⟨size, hvalue, hsize, hneeded⟩ := makeRoom_spec h (dateStringMaxSize + 1) (by omega)
  unfold dateText dateConversion DateConverts
  cases checkI64 (strtol str * 86400) with
  | none => simp [Yields]
  | some sec =>
    rw [Run.ofRead_some, Run.returned_bind]
    cases hgmtime : gmtime sec with
    | none => simp [Yields, hgmtime]
    | some tm =>
      dsimp only
      rw [hvalue, put_some (by omega), Run.returned_bind]
      by_cases hfits : (printDate yearWidth tm.clock).length ≤ dateStringMaxSize
      · rw [strftime, if_pos (by omega)]
        exact iff_of_true ⟨_, _, rfl, rfl, by rw [Option.map_some, hgmtime, Option.map_some], rfl⟩
          ⟨sec, tm, rfl, hgmtime, hfits⟩
      · rw [strftime, if_neg (by omega)]
        refine iff_of_false ?_ ?_
        · rintro ⟨c, text, hc, -, -, htext⟩
          cases hc
          cases htext
        · rintro ⟨sec', tm', hsec, htm, hfits'⟩
          cases hsec
          rw [hgmtime] at htm
          cases htm
          exact hfits hfits'

/-! ### The text of a timestamp -/

theorem printFraction_of_lt (h0 : 0 ≤ ts.scale) (h1 : ts.scale ≤ 9) {done : List Char}
    (h : (done ++ fractionString ts).length < maxLenFor ts) :
    printFraction ts (maxLenFor ts) ⟨done, done.length, true⟩ =
      some ⟨done ++ fractionString ts, (done ++ fractionString ts).length, true⟩ := by
  unfold printFraction
  unfold fractionString at h ⊢
  by_cases hscale : 0 < ts.scale
  · rw [if_pos hscale] at h
    rw [if_pos hscale, if_pos hscale, pow10Int64_of_scale h0 h1, Option.bind_eq_bind,
      Option.bind_some, snprintf_fits le_rfl (maxLenFor_lt h1) h]
  · rw [if_neg hscale, if_neg hscale, List.append_nil]

/-- A text that fits is written as it is. -/
theorem printFields_of_lt (h0 : 0 ≤ ts.scale) (h1 : ts.scale ≤ 9)
    (h : (stampString yearWidth ts).length < maxLenFor ts) :
    printFields yearWidth ts (maxLenFor ts) =
      some ⟨stampString yearWidth ts, (stampString yearWidth ts).length, true⟩ := by
  unfold stampString at h ⊢
  have hfraction : (timeText yearWidth ts ++ fractionString ts).length < maxLenFor ts := by
    rw [List.length_append] at h
    omega
  have hstart : strftime (maxLenFor ts) (timeText yearWidth ts) =
      ⟨timeText yearWidth ts, (timeText yearWidth ts).length, true⟩ := by
    rw [List.length_append] at hfraction
    exact if_pos (by omega)
  rw [printFields, hstart, printFraction_of_lt h0 h1 hfraction, Option.bind_eq_bind,
    Option.bind_some, printZone_of_lt h1 le_rfl h]

theorem strftime_text_lt {size : Nat} (hsize : 0 < size) (text : List Char) :
    (strftime size text).text.length < size := by
  unfold strftime
  split_ifs with hfits
  · exact hfits
  · exact hsize

/-- A text with a NUL is shorter than its block. -/
theorem snprintf_text_lt {size maxLen : Nat} {text : List Char} {w w' : Written}
    (h : snprintf size maxLen text w = some w') (hw : w.text.length < size) :
    w'.text.length < size := by
  unfold snprintf at h
  dsimp only at h
  split_ifs at h with hroom hfits hend
  · rw [← Option.some.inj h]
    exact hw
  · rw [← Option.some.inj h]
    dsimp only
    rw [List.length_append, hend]
    exact hfits
  · rw [← Option.some.inj h]
    exact hw

theorem printFields_text_lt {w : Written}
    (h : printFields yearWidth ts (maxLenFor ts) = some w) : w.text.length < maxLenFor ts := by
  have hpos : 0 < maxLenFor ts := by
    unfold maxLenFor
    omega
  unfold printFields at h
  obtain ⟨w', hfraction, hzone⟩ := Option.bind_eq_some_iff.1 h
  have hw' : w'.text.length < maxLenFor ts := by
    unfold printFraction at hfraction
    split_ifs at hfraction
    · obtain ⟨unit, -, hfraction⟩ := Option.bind_eq_some_iff.1 hfraction
      exact snprintf_text_lt hfraction (strftime_text_lt hpos _)
    · rw [← Option.some.inj hfraction]
      exact strftime_text_lt hpos _
  unfold printZone at hzone
  split_ifs at hzone
  · exact snprintf_text_lt hzone hw'
  · rwa [← Option.some.inj hzone]

/-- There is a timestamp, and its text is within the bytes that are set aside. -/
def StampConverts (yearWidth : Nat) (stamp : Option (ValueStatus × SfTimestamp)) : Prop :=
  ∃ ts, stamp = some (.success, ts) ∧ (stampString yearWidth ts).length < maxLenFor ts

theorem stampText_success_yields_iff {str : String} (hepoch : snowflakeTimestampFromEpochSeconds
      zones str.toList timezone (toI32 desc.scale) desc.type = some (.success, ts)) :
    Yields (stampText zones yearWidth timezone desc value initValueLen str)
        (some (some (String.ofList (stampString yearWidth ts)))) ↔
      (stampString yearWidth ts).length < maxLenFor ts := by
  obtain ⟨h0, h1⟩ := fromEpoch_scale hepoch
  rw [stampText_success hepoch]
  constructor
  · rintro ⟨c, text, hc, -, hconv, htext⟩
    obtain ⟨w, hw, hc⟩ := Run.bind_eq_returned.1 hc
    have hprint := Run.ofRead_eq_returned.1 hw
    cases hc
    cases hconv
    dsimp only at htext
    split_ifs at htext
    have hsame : w.text = stampString yearWidth ts :=
      String.ofList_injective (Option.some.inj htext)
    rw [← hsame]
    exact printFields_text_lt hprint
  · intro hfits
    rw [printFields_of_lt h0 h1 hfits, Run.ofRead_some, Run.returned_bind]
    exact ⟨_, _, rfl, rfl, rfl, rfl⟩

theorem stampText_yields_iff (str : String) :
    Yields (stampText zones yearWidth timezone desc value initValueLen str)
      (stampConversion yearWidth (snowflakeTimestampFromEpochSeconds zones str.toList timezone
        (toI32 desc.scale) desc.type)) ↔
      StampConverts yearWidth (snowflakeTimestampFromEpochSeconds zones str.toList timezone
        (toI32 desc.scale) desc.type) := by
  cases hepoch : snowflakeTimestampFromEpochSeconds zones str.toList timezone (toI32 desc.scale)
    desc.type with
  | none => simp [Yields, stampText, stampConversion, StampConverts, hepoch]
  | some r =>
    obtain ⟨status, ts⟩ := r
    by_cases hstatus : status = .success
    · subst hstatus
      rw [stampConversion, Option.map_some, if_pos rfl, stampText_success_yields_iff hepoch]
      simp [StampConverts]
    · rw [stampConversion, Option.map_some, if_neg hstatus]
      refine iff_of_false ?_ ?_
      · rintro ⟨c, text, -, -, hconv, -⟩
        cases hconv
      · rintro ⟨ts', hts, -⟩
        cases hts
        exact hstatus rfl

/-- What a column has to be for its text to be there. -/
def ColumnConverts (zones : Zones) (yearWidth : Nat) (timezone : List Char) (desc : ColumnDesc) :
    Json → Prop
  | .null => True
  | .str str =>
    match desc.type with
    | .date => DateConverts yearWidth str
    | .time | .timestampNtz | .timestampLtz | .timestampTz =>
      StampConverts yearWidth (snowflakeTimestampFromEpochSeconds zones str.toList timezone
        (toI32 desc.scale) desc.type)
    | _ => True
  | _ => False

theorem convertColumn_yields_iff (h : Backed value initValueLen) (column : Json) :
    Yields (convertColumn zones yearWidth timezone desc column value initValueLen)
      (conversion zones yearWidth timezone desc column) ↔
      ColumnConverts zones yearWidth timezone desc column := by
  cases column with
  | null => exact iff_of_true (copyText_yields h _) trivial
  | str str =>
    unfold convertColumn conversion ColumnConverts
    dsimp only [Json.valuestring]
    rw [Run.ofRead_some, Run.returned_bind]
    have hstamp := @stampText_yields_iff zones yearWidth timezone desc value initValueLen str
    cases htype : desc.type with
    | date => exact dateText_yields_iff h str
    | time | timestampNtz | timestampLtz | timestampTz =>
      rw [htype] at hstamp
      exact hstamp
    | _ => exact iff_of_true (copyText_yields h _) trivial
  | _ => simp [convertColumn, conversion, ColumnConverts, Yields, Json.valuestring]

end Branches

/-! ## Calls -/

/-- The lookup never fails with a success. -/
theorem FetchedRow.getColumn_error {r : FetchedRow} {idx : Int} {status : ValueStatus}
    (h : r.getColumn idx = .error status) : status ≠ .success := by
  unfold FetchedRow.getColumn at h
  split_ifs at h
  · cases h
    decide
  · split at h
    · cases h
    · cases h
      decide

theorem StrArgs.backed_passedIn (args : StrArgs) :
    Backed (passedIn args.value args.maxValueSize).1 (passedIn args.value args.maxValueSize).2 := by
  unfold passedIn
  split
  next size n hsize hn => exact fun _ => ⟨size, rfl, args.backed size (n + 1) hsize hn⟩
  next => exact fun hpos => absurd hpos (lt_irrefl 0)

/-- What a call has to meet: the column does not exist, which is reported, or it is converted. -/
def CallConverts (zones : Zones) (yearWidth : Nat) (r : FetchedRow) (idx : Int) : Prop :=
  match r.getColumn idx with
  | .error _ => True
  | .ok (desc, column) => ColumnConverts zones yearWidth r.timezone desc column

/-- A call reports what it did exactly if its column does not exist or is converted to a text that
fits: neither a conversion that fails nor a text that does not fit is reported. -/
theorem column_str_reports_iff (zones : Zones) (yearWidth : Nat) (r : FetchedRow) (idx : Int)
    (args : StrArgs) :
    (∃ result, columnAsStr zones yearWidth r idx args.value args.maxValueSize =
        .returned result ∧ Reports args (r.conversion zones yearWidth idx) result) ↔
      CallConverts zones yearWidth r idx := by
  unfold columnAsStr FetchedRow.conversion CallConverts
  cases hcolumn : r.getColumn idx with
  | error status =>
    refine iff_of_true ⟨_, rfl, fun hsuccess => ?_, fun hnone => ?_⟩ trivial
    · exact absurd hsuccess (FetchedRow.getColumn_error hcolumn)
    · cases hnone
  | ok column =>
    dsimp only
    rw [reports_ok_iff, convertColumn_yields_iff args.backed_passedIn]

/-- A time without a fraction is not converted: the status is a success, and the caller's block of
100 bytes is replaced by `NULL`. -/
theorem column_str_unreported :
    columnAsStr (fun _ _ => 0) 4 (oneColumn .time 9 "12345") 1 (some 100) (some 100) =
        .returned (.ok ⟨none, 0, 0, none, .errorConversionFailure⟩) ∧
      (oneColumn .time 9 "12345").conversion (fun _ _ => 0) 4 1 = some none := by
  decide

end Snowflake
