import SnowflakeClient.CNumeral
import SnowflakeClient.Stmt.ColumnStr

/-!
# Columns as unsigned integers

`snowflake_column_as_uint32` and `snowflake_column_as_uint64` (`lib/client.c`), where `unsigned
long` has 64 bits. Both read the text with `strtoull`, which wraps a negative number around. The one
for 32 bits has to know whether the number was negative, and looks for a `-` in the whole text.

`column_uint_iff`: a number is converted as it should, unless there is a `-` in the text although
the number is not negative: in what follows it, as in `5e-3`, or before a zero. Then a number of 32
bits is refused, and one of the last `2 ^ 32` numbers of 64 bits is taken for a negative one.
-/

namespace Snowflake

open CInt CNumeral

/-! ## The functions -/

def sfUint32Max : Nat := 2 ^ 32 - 1

def sfUint64Max : Nat := 2 ^ 64 - 1

/-- The status of a call, what it stores in `*value_ptr`, and the message in the statement's
error. -/
structure UintResult where
  status : ValueStatus
  value : Option Nat
  msg : String
  deriving DecidableEq, Repr

/-- The message of `_snowflake_get_cJSON_column` with a status. -/
def lookupMsg : ValueStatus → String
  | .errorOutOfBounds => "Column index must be between 1 and snowflake_num_fields()"
  | .errorMissingColumnInRow => "Column is missing from row."
  | _ => ""

/-- What the two functions do not share: the name in their messages, the check of the range, what is
done to the value after it, and the conversion to the type of the result. -/
structure UintKind where
  name : String
  outOfRange : (text : List Char) → Unsigned → Bool
  adjust : (text : List Char) → Nat → Nat
  cast : Nat → Nat

def columnAsUint (kind : UintKind) (r : FetchedRow) (idx : Int) : Run Empty UintResult :=
  match r.getColumn idx with
  | .error status => .returned ⟨status, none, lookupMsg status⟩
  | .ok (_, .null) => .returned ⟨.success, some 0, ""⟩
  | .ok (_, column) => do
    let str ← Run.ofRead column.valuestring
    let text := str.toList
    let read := strtoull text
    if read.endptr = text then
      .returned ⟨.errorConversionFailure, some (kind.cast read.value),
        "Cannot convert value into " ++ kind.name⟩
    else if kind.outOfRange text read then
      .returned ⟨.errorOutOfRange, some (kind.cast read.value),
        "Value out of range for " ++ kind.name⟩
    else .returned ⟨.success, some (kind.cast (kind.adjust text read.value)), ""⟩

/-- `neg`. -/
def hasMinus (text : List Char) : Bool := '-' ∈ text

def uint32Kind : UintKind where
  name := "uint32"
  outOfRange text read :=
    ((read.value = sfUint64Max ∨ read.value = 0) ∧ read.erange) ∨
      (¬ hasMinus text ∧ sfUint32Max < read.value) ∨
      (hasMinus text ∧ read.value < sfUint64Max - sfUint32Max)
  adjust text value :=
    if hasMinus text ∧ sfUint32Max < value then subU64 value (sfUint64Max - sfUint32Max) else value
  cast value := toU32 value

def uint64Kind : UintKind where
  name := "uint64"
  outOfRange _ read := (read.value = sfUint64Max ∨ read.value = 0) ∧ read.erange
  adjust _ value := value
  cast value := value

/-- `snowflake_column_as_uint32`. -/
def columnAsUint32 : FetchedRow → Int → Run Empty UintResult := columnAsUint uint32Kind

/-- `snowflake_column_as_uint64`. -/
def columnAsUint64 : FetchedRow → Int → Run Empty UintResult := columnAsUint uint64Kind

/-! ## What is meant -/

/-- A call stores `value` if the number is in range, and reports that it is not otherwise. -/
def Converts (run : Run Empty UintResult) (inRange : Prop) (value : Nat) : Prop :=
  ∃ result, run = .returned result ∧
    (inRange → result.status = .success ∧ result.value = some value) ∧
    (¬ inRange → result.status = .errorOutOfRange)

section Text

variable {kind : UintKind} {r : FetchedRow} {idx : Int} {desc : ColumnDesc} {n : Numbered}

theorem columnAsUint_text (h : r.getColumn idx = .ok (desc, .str (String.ofList n.text))) :
    columnAsUint kind r idx =
      if kind.outOfRange n.text (strtoull n.text) then
        .returned ⟨.errorOutOfRange, some (kind.cast (strtoull n.text).value),
          "Value out of range for " ++ kind.name⟩
      else .returned
        ⟨.success, some (kind.cast (kind.adjust n.text (strtoull n.text).value)), ""⟩ := by
  have hread : (strtoull n.text).endptr ≠ n.text := by
    rw [strtoull_text]
    split_ifs <;> exact rest_ne_text n
  unfold columnAsUint
  rw [h]
  dsimp only [Json.valuestring]
  rw [Run.ofRead_some, Run.returned_bind, String.toList_ofList, if_neg hread]

/-- The check of the range has to be the right one, and so has the value. -/
theorem converts_iff (h : r.getColumn idx = .ok (desc, .str (String.ofList n.text)))
    (inRange : Prop) (value : Nat) :
    Converts (columnAsUint kind r idx) inRange value ↔
      (kind.outOfRange n.text (strtoull n.text) = true ↔ ¬ inRange) ∧
        (inRange → kind.cast (kind.adjust n.text (strtoull n.text).value) = value) := by
  rw [columnAsUint_text h]
  unfold Converts
  by_cases hout : kind.outOfRange n.text (strtoull n.text) = true
  · rw [if_pos hout]
    constructor
    · rintro ⟨result, hresult, hin, -⟩
      cases hresult
      have hnot : ¬ inRange := fun hrange => by cases (hin hrange).1
      exact ⟨iff_of_true hout hnot, fun hrange => absurd hrange hnot⟩
    · rintro ⟨hiff, -⟩
      exact ⟨_, rfl, fun hrange => absurd hrange (hiff.1 hout), fun _ => rfl⟩
  · rw [if_neg hout]
    constructor
    · rintro ⟨result, hresult, hin, hfail⟩
      cases hresult
      have hrange : inRange := by
        by_contra hnot
        cases hfail hnot
      exact ⟨iff_of_false hout (not_not.2 hrange), fun _ => Option.some.inj (hin hrange).2⟩
    · rintro ⟨hiff, hvalue⟩
      have hrange : inRange := by
        by_contra hnot
        exact hout (hiff.2 hnot)
      exact ⟨_, rfl, fun _ => ⟨rfl, congrArg some (hvalue hrange)⟩, fun hnot => absurd hrange hnot⟩

/-- 64 bits: `|n| < 2 ^ 64`. -/
theorem columnAsUint64_converts (h : r.getColumn idx = .ok (desc, .str (String.ofList n.text))) :
    Converts (columnAsUint64 r idx) (n.value.natAbs < 2 ^ 64) (n.value % 2 ^ 64).toNat := by
  have hcheck (read : Unsigned) : uint64Kind.outOfRange n.text read = true ↔
      (read.value = sfUint64Max ∨ read.value = 0) ∧ read.erange = true := decide_eq_true_iff
  unfold columnAsUint64
  rw [converts_iff h, hcheck, strtoull_text, n.natAbs_value]
  by_cases hlt : n.digits.value < 2 ^ 64
  · rw [if_pos hlt]
    exact ⟨iff_of_false (fun hout => by cases hout.2) (not_not.2 hlt), fun _ => rfl⟩
  · rw [if_neg hlt]
    exact ⟨iff_of_true ⟨.inl rfl, rfl⟩ hlt, fun hin => absurd hin hlt⟩

/-- The number is not negative, but there is a `-` in its text, and the check for 32 bits takes it
for another one. -/
def Misread (n : Numbered) : Prop :=
  '-' ∈ n.text ∧ 0 ≤ n.value ∧
    (n.value < 2 ^ 32 ∨ 2 ^ 64 - 2 ^ 32 ≤ n.value ∧ n.value < 2 ^ 64)

instance (n : Numbered) : Decidable (Misread n) := inferInstanceAs (Decidable (_ ∧ _))

/-- The `-` of a negative number is in its text. -/
theorem minus_mem_text (h : n.value < 0) : '-' ∈ n.text := by
  have hsign : n.sign = .minus := by
    unfold Numbered.value Sign.apply at h
    split at h
    next hsign => exact hsign
    next => omega
  simp [Numbered.text, hsign, Sign.text]

theorem uint32Kind_outOfRange_iff (text : List Char) (read : Unsigned) :
    uint32Kind.outOfRange text read = true ↔
      ((read.value = sfUint64Max ∨ read.value = 0) ∧ read.erange = true) ∨
        ('-' ∉ text ∧ sfUint32Max < read.value) ∨
        ('-' ∈ text ∧ read.value < sfUint64Max - sfUint32Max) := by
  simp [uint32Kind, hasMinus]

theorem uint32Kind_value (text : List Char) (value : Nat) :
    uint32Kind.cast (uint32Kind.adjust text value) = value % 2 ^ 32 := by
  have hcast (m : Nat) : uint32Kind.cast m = m % 2 ^ 32 := by
    show toU32 m = m % 2 ^ 32
    unfold toU32
    omega
  rw [hcast]
  unfold uint32Kind
  dsimp only
  split_ifs
  · unfold subU64 sfUint64Max sfUint32Max
    omega
  · rfl

theorem columnAsUint32_converts_iff
    (h : r.getColumn idx = .ok (desc, .str (String.ofList n.text))) :
    Converts (columnAsUint32 r idx) (-2 ^ 32 ≤ n.value ∧ n.value < 2 ^ 32)
      (n.value % 2 ^ 32).toNat ↔ ¬ Misread n := by
  have habs := n.natAbs_value
  have hneg : n.value < 0 → '-' ∈ n.text := minus_mem_text
  unfold columnAsUint32 Misread
  rw [converts_iff h, uint32Kind_outOfRange_iff, uint32Kind_value, strtoull_text]
  unfold sfUint32Max sfUint64Max
  by_cases hlt : n.digits.value < 2 ^ 64
  · rw [if_pos hlt]
    dsimp only
    obtain ⟨m, hm⟩ : ∃ m, (n.value % 2 ^ 64).toNat = m := ⟨_, rfl⟩
    have hwrap : (m : Int) = if n.value < 0 then n.value + 2 ^ 64 else n.value := by
      split_ifs <;> omega
    rw [hm, and_iff_left (fun _ => by omega)]
    by_cases hminus : '-' ∈ n.text
    · simp only [hminus, Bool.false_eq_true, and_false, not_true_eq_false, false_and, true_and,
        false_or]
      split_ifs at hwrap <;> omega
    · have hpos : ¬ n.value < 0 := mt hneg hminus
      simp only [hminus, Bool.false_eq_true, and_false, not_false_eq_true, false_and, true_and,
        false_or, or_false, iff_true]
      rw [if_neg hpos] at hwrap
      omega
  · rw [if_neg hlt]
    dsimp only
    rw [and_iff_left (fun hin => by omega)]
    exact iff_of_true (iff_of_true (.inl ⟨.inl rfl, rfl⟩) (by omega)) (by omega)

end Text

/-- A text that begins with a number is converted as it should, exactly if the check for 32 bits
does not misread it. -/
theorem column_uint_iff (r : FetchedRow) (idx : Int) (desc : ColumnDesc) (n : Numbered)
    (h : r.getColumn idx = .ok (desc, .str (String.ofList n.text))) :
    (Converts (columnAsUint64 r idx) (n.value.natAbs < 2 ^ 64) (n.value % 2 ^ 64).toNat ∧
      Converts (columnAsUint32 r idx) (-2 ^ 32 ≤ n.value ∧ n.value < 2 ^ 32)
        (n.value % 2 ^ 32).toNat) ↔ ¬ Misread n := by
  rw [columnAsUint32_converts_iff h]
  exact and_iff_right (columnAsUint64_converts h)

/-- The row of `select 10.01`. -/
theorem column_uint_tenPointZeroOne :
    Converts (columnAsUint64 (oneColumn .fixed 2 "10.01") 1) (10 < 2 ^ 64) 10 ∧
      Converts (columnAsUint32 (oneColumn .fixed 2 "10.01") 1) (-2 ^ 32 ≤ (10 : Int) ∧
        (10 : Int) < 2 ^ 32) 10 :=
  (column_uint_iff (oneColumn .fixed 2 "10.01") 1 _
    ⟨[], by simp, .none, .ofNat 10, ".01".toList, Decimal.stops_cons _ (by decide) _⟩
    rfl).2 (by decide)

/-- A fraction of a small number and a negative zero are refused, and a number of 64 bits is taken
for -1. -/
theorem column_uint_misread :
    columnAsUint32 (oneColumn .real 0 "5e-3") 1 =
        .returned ⟨.errorOutOfRange, some 5, "Value out of range for uint32"⟩ ∧
      columnAsUint32 (oneColumn .text 0 "-0") 1 =
        .returned ⟨.errorOutOfRange, some 0, "Value out of range for uint32"⟩ ∧
      columnAsUint32 (oneColumn .text 0 "18446744073709551615e-3") 1 =
        .returned ⟨.success, some 4294967295, ""⟩ := by
  decide

end Snowflake
