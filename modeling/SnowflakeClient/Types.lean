import Mathlib

/-!
# Types of values

The enumerations of `include/snowflake/client.h` for values, and their names and conversions in
`lib/results.c`.
-/

namespace Snowflake

/-- `SF_C_TYPE`. -/
inductive CType where
  | int8
  | uint8
  | int64
  | uint64
  | float64
  | string
  | timestamp
  | boolean
  | binary
  deriving DecidableEq, Repr

/-- `SF_DB_TYPE`. -/
inductive DbType where
  | fixed
  | real
  | text
  | date
  | timestampLtz
  | timestampNtz
  | timestampTz
  | variant
  | object
  | array
  | binary
  | time
  | boolean
  deriving DecidableEq, Repr

/-- `SF_STATUS`: the codes of the functions on values. -/
inductive ValueStatus where
  | success
  | errorGeneral
  | errorConversionFailure
  | errorOutOfBounds
  | errorMissingColumnInRow
  | errorOutOfRange
  | errorNullPointer
  | errorBufferTooSmall
  | errorOther
  deriving DecidableEq, Repr

/-- `c_type_to_snowflake`. -/
def cTypeToSnowflake (cType : CType) (tsmode : DbType) : DbType :=
  match cType with
  | .int8 => .fixed
  | .uint8 => .fixed
  | .int64 => .fixed
  | .uint64 => .fixed
  | .float64 => .real
  | .string => .text
  | .timestamp => tsmode
  | .boolean => .boolean
  | .binary => .binary

/-- `snowflake_type_to_string`. -/
def snowflakeTypeToString : DbType → String
  | .fixed => "FIXED"
  | .real => "REAL"
  | .text => "TEXT"
  | .date => "DATE"
  | .timestampLtz => "TIMESTAMP_LTZ"
  | .timestampNtz => "TIMESTAMP_NTZ"
  | .timestampTz => "TIMESTAMP_TZ"
  | .variant => "VARIANT"
  | .object => "OBJECT"
  | .array => "ARRAY"
  | .binary => "BINARY"
  | .time => "TIME"
  | .boolean => "BOOLEAN"

/-- `string_to_snowflake_type`. -/
def stringToSnowflakeType (string : String) : DbType :=
  if string = "fixed" then .fixed
  else if string = "real" then .real
  else if string = "text" then .text
  else if string = "date" then .date
  else if string = "timestamp_ltz" then .timestampLtz
  else if string = "timestamp_ntz" then .timestampNtz
  else if string = "timestamp_tz" then .timestampTz
  else if string = "variant" then .variant
  else if string = "object" then .object
  else if string = "array" then .array
  else if string = "binary" then .binary
  else if string = "time" then .time
  else if string = "boolean" then .boolean
  else .text

/-- `snowflake_to_c_type`. -/
def snowflakeToCType (type : DbType) (precision scale : Int) : CType :=
  match type with
  | .fixed => if 0 < scale ∨ 19 ≤ precision then .float64 else .int64
  | .real => .float64
  | .timestampLtz | .timestampNtz | .timestampTz => .timestamp
  | .boolean => .boolean
  | .text | .variant | .object | .array => .string
  | .binary => .binary
  | _ => .string

end Snowflake
