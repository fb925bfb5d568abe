import SnowflakeClient.Bind.TreeMap
import SnowflakeClient.Types

/-!
# Bind parameters

`snowflake_bind_param` and the bindings that `_snowflake_execute_ex` sends (`lib/client.c`), with
`lib/arraylist.c`, `lib/paramstore.c`, and `value_to_string` and the types of `lib/results.c`.

`none` is a run that does not return, or that is undefined from there on: a write or a read outside
of a block, a `free` of what was not allocated, a text without an end. Blocks have sizes in bytes; a
pointer has eight. `SF_REALLOC` does not fail: `sf_realloc` ends the process.

The store keeps pointers to the inputs. Here it keeps the inputs, as they are when the statement is
executed. A `double` is given by its text under `%f`.
-/

namespace Snowflake

/-! ## Values as texts -/

/-- `c_type`, with what `value` points to and `len`. A buffer is the whole of its block. -/
inductive BoundValue where
  | null (cType : CType)
  | int8 (v : Int)
  | uint8 (v : Nat)
  | int64 (v : Int)
  | uint64 (v : Nat)
  | float64 (printed : List Char)
  | string (buffer : List UInt8) (len : Nat)
  | timestamp
  | boolean (v : Int)
  | binary (buffer : List UInt8) (len : Nat)
  deriving DecidableEq

def BoundValue.cType : BoundValue → CType
  | null c => c
  | int8 _ => .int8
  | uint8 _ => .uint8
  | int64 _ => .int64
  | uint64 _ => .uint64
  | float64 _ => .float64
  | string _ _ => .string
  | timestamp => .timestamp
  | boolean _ => .boolean
  | binary _ _ => .binary

/-- The bytes of an ASCII text. -/
def ascii (text : List Char) : List UInt8 := text.map Char.toUInt8

/-- `%lu`. -/
def printUnsigned (n : Nat) : List UInt8 := ascii (Nat.toDigits 10 n)

/-- `%lld`. -/
def printSigned (n : Int) : List UInt8 :=
  if n < 0 then '-'.toUInt8 :: printUnsigned n.natAbs else printUnsigned n.natAbs

/-- A digit of `_bin2hex`. -/
def hexDigit (n : Nat) : UInt8 :=
  if 9 < n then 'A'.toUInt8 + UInt8.ofNat (n - 10) else '0'.toUInt8 + UInt8.ofNat n

/-- `_bin2hex`. -/
def bin2hex (src : List UInt8) : List UInt8 :=
  src.flatMap fun b => [hexDigit (b.toNat / 16), hexDigit (b.toNat % 16)]

/-- What `strncpy` writes, `n` bytes. It reads up to the first NUL, which has to be in the block. -/
def strncpy (src : List UInt8) (n : Nat) : Option (List UInt8) :=
  let text := src.takeWhile (· ≠ 0)
  if n ≤ text.length then some (text.take n)
  else if text.length < src.length then some (text ++ List.replicate (n - text.length) 0)
  else none

/-- A `char *`: `NULL`, a block on the heap, or a text of the program. -/
inductive CharPtr where
  | null
  | heap (block : List UInt8)
  | literal (text : List UInt8)
  deriving DecidableEq

/-- `value_to_string`. -/
def valueToString : BoundValue → Option CharPtr
  | .null _ => some .null
  | .int8 v => some (.heap (printSigned v ++ [0]))
  | .uint8 v => some (.heap (printUnsigned v ++ [0]))
  | .int64 v => some (.heap (printSigned v ++ [0]))
  | .uint64 v => some (.heap (printUnsigned v ++ [0]))
  | .float64 printed => some (.heap (ascii printed ++ [0]))
  | .boolean v =>
    some (.heap (ascii (if v ≠ 0 then "TRUE".toList else "FALSE".toList) ++ [0, 0]))
  | .binary buffer len =>
    if len ≤ buffer.length then some (.heap (bin2hex (buffer.take len) ++ [0])) else none
  | .string buffer len => do
    let block ← strncpy buffer (len + 1)
    some (.heap block)
  | .timestamp => some (.literal [])

/-- The text of a block, which ends at the first NUL. -/
def textOf (block : List UInt8) : Option (List UInt8) :=
  if 0 ∈ block then some (block.takeWhile (· ≠ 0)) else none

/-! ## The array list -/

/-- `ARRAY_LIST`; `size` is the length of `data`. -/
structure ArrayList (α : Type) where
  data : List (Option α)
  used : Nat

section ArrayList

variable {α : Type}

def sfArrayListInit : ArrayList α := ⟨List.replicate 8 none, 0⟩

/-- The loop of `sf_array_list_grow`, on a `size_t`. -/
def growSize : (fuel newSize minSize : Nat) → Option Nat
  | 0, _, _ => none
  | fuel + 1, newSize, minSize =>
    if newSize < minSize then growSize fuel (newSize * 2 % 2 ^ 64) minSize else some newSize

/-- `sf_array_list_grow`. A size whose bytes are not a `size_t` gets a block that is too small for
what is written to it. -/
def sfArrayListGrow (al : ArrayList α) (minSize : Nat) : Option (ArrayList α) := do
  let newSize ← growSize 65 al.data.length minSize
  if 8 * newSize < 2 ^ 64 then
    some { al with data := al.data ++ List.replicate (newSize - al.data.length) none }
  else
    none

/-- The beginning of `sf_array_list_set` and of `sf_array_list_get`. -/
def growTo (al : ArrayList α) (index : Nat) : Option (ArrayList α) :=
  if al.data.length ≤ index then sfArrayListGrow al ((index + 1) % 2 ^ 64) else some al

/-- `sf_array_list_set`; an item that is `none` is `NULL`. -/
def sfArrayListSet (al : ArrayList α) (item : Option α) (index : Nat) :
    Option (ArrayList α) := do
  let al ← growTo al index
  let old ← al.data[index]?
  let used :=
    if old.isNone && item.isSome then (al.used + 1) % 2 ^ 64
    else if old.isSome && item.isNone then (al.used + 2 ^ 64 - 1) % 2 ^ 64
    else al.used
  some ⟨al.data.set index item, used⟩

/-- `sf_array_list_get`, which may grow the list. -/
def sfArrayListGet (al : ArrayList α) (index : Nat) : Option (Option α × ArrayList α) := do
  let al ← growTo al index
  let item ← al.data[index]?
  some (item, al)

end ArrayList

/-! ## The parameters of a statement -/

/-- `SF_BIND_INPUT`. -/
structure BindInput where
  idx : Nat
  name : Option CString
  value : BoundValue
  deriving DecidableEq

/-- `PARAM_STORE`, with its style. -/
inductive ParamStore where
  | positional (list : ArrayList BindInput)
  | named (treeMap : TreeMap BindInput)

/-- `NamedParams`: the names, the bytes of their block and how many names it is taken to hold. -/
structure NamedParams where
  names : Nat → Option CString
  bytes : Nat
  allocd : Nat

/-- The members of `SF_STMT` for the parameters. -/
structure BoundParams where
  params : Option ParamStore
  nameList : Option NamedParams
  paramsLen : Nat

/-- `_snowflake_stmt_reset`, as `snowflake_prepare` calls it. -/
def noParams : BoundParams := ⟨none, none, 0⟩

/-- `sf_param_store_init` with `_snowflake_get_param_style`. -/
def sfParamStoreInit (input : BindInput) : ParamStore :=
  if input.name.isSome ∧ input.idx = 0 then .named sfTreemapInit else .positional sfArrayListInit

/-- `sf_param_store_set`. -/
def sfParamStoreSet (params : ParamStore) (item : BindInput) (idx : Nat) (name : Option CString) :
    Option (IntRetCode × ParamStore) :=
  match params with
  | .positional list => do
    let list ← sfArrayListSet list (some item) idx
    some (.success, .positional list)
  | .named treeMap => do
    let (retval, treeMap) ← sfTreemapSet treeMap (some item) name
    some (retval, .named treeMap)

/-- `_snowflake_allocate_named_param_list`. -/
def allocateNamedParamList : NamedParams := ⟨fun _ => none, 8 * 8, 8⟩

/-- The block of the names with another size. -/
def NamedParams.realloc (nparams : NamedParams) (bytes : Nat) : NamedParams :=
  { nparams with
    names := fun i => if 8 * i + 8 ≤ bytes then nparams.names i else none
    bytes := bytes }

/-- `_snowflake_add_to_named_param_list`. -/
def addToNamedParamList (nparams : NamedParams) (name : CString) (curSize : Nat) :
    Option NamedParams :=
  let nparams :=
    if curSize = nparams.allocd then
      { nparams.realloc (2 * curSize % 2 ^ 32) with allocd := 2 * curSize % 2 ^ 32 }
    else
      nparams
  if 8 * curSize + 8 ≤ nparams.bytes then
    some { nparams with names := Function.update nparams.names curSize (some name) }
  else
    none

/-- The beginning of `snowflake_bind_param`: the first input decides on the style. -/
def startParams (s : BoundParams) (input : BindInput) : ParamStore × BoundParams :=
  match s.params with
  | some params => (params, s)
  | none =>
    match sfParamStoreInit input with
    | .positional list => (.positional list, s)
    | .named treeMap => (.named treeMap, { s with nameList := some allocateNamedParamList })

/-- `snowflake_bind_param`. -/
def snowflakeBindParam (s : BoundParams) (input : BindInput) :
    Option (ValueStatus × BoundParams) := do
  let (params, s) := startParams s input
  let (retcode, params) ← sfParamStoreSet params input input.idx input.name
  let s := { s with params := some params }
  match retcode with
  | .duplicates => some (.success, s)
  | .error => some (.errorOther, s)
  | _ =>
    match params, input.name, s.nameList with
    | .named _, some name, some nparams => do
      let nparams ← addToNamedParamList nparams name s.paramsLen
      some (.success,
        { s with nameList := some nparams, paramsLen := (s.paramsLen + 1) % 2 ^ 32 })
    | _, _, _ => some (.success, { s with paramsLen := (s.paramsLen + 1) % 2 ^ 32 })

/-- Calls of `snowflake_bind_param`, all of which are successful. -/
def bindAll (inputs : List BindInput) (s : BoundParams) : Option BoundParams :=
  inputs.foldlM (fun s input => (snowflakeBindParam s input).bind fun r =>
    if r.1 = .success then some r.2 else none) s

/-! ## The bindings -/

/-- An item of the bindings. There is no `value` for `NULL`. -/
structure Binding where
  type : String
  value : Option (List UInt8)
  deriving DecidableEq, Repr

/-- The item for an input. The text of the value is freed after it was copied. -/
def makeBinding (input : BindInput) : Option Binding := do
  let type := snowflakeTypeToString (cTypeToSnowflake input.value.cType .timestampNtz)
  match ← valueToString input.value with
  | .null => some ⟨type, none⟩
  | .heap block => do
    let text ← textOf block
    some ⟨type, some text⟩
  | .literal _ => none

/-- The loop of `_snowflake_execute_ex` for positional parameters, from `i` on. -/
def positionalBindings :
    (count i : Nat) → ArrayList BindInput → Option (List (List UInt8 × Binding))
  | 0, _, _ => some []
  | count + 1, i, list => do
    let (input, list) ← sfArrayListGet list (i + 1)
    match input with
    | none => positionalBindings count (i + 1) list
    | some input =>
      let binding ← makeBinding input
      let rest ← positionalBindings count (i + 1) list
      some ((printUnsigned (i + 1), binding) :: rest)

/-- The loop of `_snowflake_execute_ex` for named parameters, from `i` on. -/
def namedBindings (nparams : NamedParams) (treeMap : TreeMap BindInput) :
    (count i : Nat) → Option (List (List UInt8 × Binding))
  | 0, _ => some []
  | count + 1, i => do
    let name ← nparams.names i
    match ← sfTreemapGet treeMap (some name) with
    | none => namedBindings nparams treeMap count (i + 1)
    | some input =>
      let binding ← makeBinding input
      let rest ← namedBindings nparams treeMap count (i + 1)
      some ((name.bytes, binding) :: rest)

/-- The bindings of `_snowflake_execute_ex`; `none` inside is `NULL`. -/
def executeBindings (s : BoundParams) : Option (Option (List (List UInt8 × Binding))) :=
  match s.params, s.nameList with
  | some (.positional list), _ => (positionalBindings s.paramsLen 0 list).map some
  | some (.named treeMap), some nparams => (namedBindings nparams treeMap s.paramsLen 0).map some
  | some (.named _), none => none
  | none, _ => some none

end Snowflake
