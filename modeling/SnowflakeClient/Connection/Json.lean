import Mathlib.Logic.Basic

/-!
# JSON replies

The part of `lib/cJSON.c` that looks things up in a parsed text, and the `json_copy_*` functions of
`lib/connection.c` on top of it. A `NULL` pointer to a `cJSON` is `none`.
-/

namespace Snowflake

/-- A `cJSON` tree. The members of an object stand in the order of the text, and a name may occur
twice. -/
inductive Json where
  | null
  | bool (value : Bool)
  | num (value : Int)
  | str (value : String)
  | arr (items : List Json)
  | obj (members : List (String × Json))

namespace Json

/-- `valuestring`: `NULL` unless the item is a string. -/
def valuestring : Json → Option String
  | str s => some s
  | _ => none

/-- The list at `child`: what `cJSON_GetArraySize` counts and `cJSON_GetArrayItem` indexes. -/
def child : Json → List Json
  | arr items => items
  | obj members => members.map Prod.snd
  | _ => []

/-- `case_insensitive_strcmp` gives 0. -/
def sameName (a b : String) : Bool :=
  a.toList.map Char.toLower == b.toList.map Char.toLower

/-- The first member of an object with the name, in any case. The elements of an array have no
name. -/
def findMember (object : Option Json) (name : String) : Option (String × Json) :=
  match object with
  | some (obj members) => members.find? fun m => sameName name m.1
  | _ => none

/-- `cJSON_GetObjectItem`. -/
def getObjectItem (object : Option Json) (name : String) : Option Json :=
  (findMember object name).map Prod.snd

end Json

/-- `SF_JSON_ERROR`, without `NONE` and `OOM`. -/
inductive JsonError where
  | itemMissing
  | itemWrongType
  | itemNull
  deriving DecidableEq, Repr

/-- `JSON_ERROR_MSG`: the macro puts the quoted text of `item`. -/
def jsonErrorMsg (e : JsonError) (item : String) : String :=
  match e with
  | .itemMissing => "\"" ++ item ++ "\" missing from JSON response"
  | .itemWrongType => "\"" ++ item ++ "\" is wrong type (expected a string)"
  | .itemNull => "\"" ++ item ++ "\" is null"

/-- The default case of `JSON_ERROR_MSG`. -/
def jsonUnknownErrorMsg (item : String) : String :=
  "Received unknown JSON error code trying to find \"" ++ item ++ "\""

variable {α : Type}

/-- What the `json_copy_*` functions share: `get` is their test of the type. -/
def jsonCopy (get : Json → Option α) (data : Option Json) (item : String) : Except JsonError α :=
  match Json.getObjectItem data item with
  | none => .error .itemMissing
  | some .null => .error .itemNull
  | some blob =>
    match get blob with
    | none => .error .itemWrongType
    | some value => .ok value

/-- `json_copy_string`. -/
def jsonCopyString : Option Json → String → Except JsonError String := jsonCopy Json.valuestring

/-- `json_copy_string_no_alloc`: a copy into a buffer of `destSize` bytes, cut if it is too
long. -/
def jsonCopyStringNoAlloc (data : Option Json) (item : String) (destSize : Nat) :
    Except JsonError String :=
  jsonCopy (fun blob => blob.valuestring.map fun s => String.ofList (s.toList.take (destSize - 1)))
    data item

/-- `json_copy_bool`. -/
def jsonCopyBool : Option Json → String → Except JsonError Bool :=
  jsonCopy fun blob => match blob with
    | .bool b => some b
    | _ => none

/-- `json_copy_int`. -/
def jsonCopyInt : Option Json → String → Except JsonError Int :=
  jsonCopy fun blob => match blob with
    | .num n => some n
    | _ => none

/-- `json_detach_array_from_object`. -/
def jsonDetachArrayFromObject : Option Json → String → Except JsonError (List Json) :=
  jsonCopy fun blob => match blob with
    | .arr items => some items
    | _ => none

/-- A copy succeeds if the item is there and has the type. -/
theorem jsonCopy_ok {get : Json → Option α} (hget : get .null = none) {data : Option Json}
    {item : String} {value : α} :
    jsonCopy get data item = .ok value ↔
      ∃ blob, Json.getObjectItem data item = some blob ∧ get blob = some value := by
  unfold jsonCopy
  split
  next hnone => simp [hnone]
  next hnull => simp [hnull, hget]
  next blob hblob hsome =>
    rw [hsome]
    cases hg : get blob with
    | none => simp [hg]
    | some v => simp [hg]

@[simp] theorem Json.valuestring_eq_some {blob : Json} {s : String} :
    blob.valuestring = some s ↔ blob = .str s := by
  cases blob <;> simp [Json.valuestring]

theorem jsonCopyString_ok {data : Option Json} {item s : String} :
    jsonCopyString data item = .ok s ↔ Json.getObjectItem data item = some (.str s) := by
  unfold jsonCopyString
  rw [jsonCopy_ok rfl]
  simp

/-- The text of a query code, as the buffer of `destSize` bytes holds it. -/
theorem jsonCopyStringNoAlloc_str {data : Option Json} {item s : String} (destSize : Nat)
    (h : Json.getObjectItem data item = some (.str s)) :
    jsonCopyStringNoAlloc data item destSize =
      .ok (String.ofList (s.toList.take (destSize - 1))) := by
  unfold jsonCopyStringNoAlloc
  rw [jsonCopy_ok rfl]
  exact ⟨_, h, rfl⟩

end Snowflake
