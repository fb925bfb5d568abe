import SnowflakeClient.CJson.Parse

/-!
# The printer of `lib/cJSON.c`

The functions write to a `printbuffer`, which grows when `ensure` finds that there is too little
room. A write outside of the buffer, and a read of bytes that were not written, are runs `outside`;
a failure raises.
-/

namespace Snowflake.CJSON

open Run CDouble

/-- `INT_MAX`. -/
def intMax : Nat := 2 ^ 31 - 1

/-- `printbuffer`. Of the hooks, only whether they find memory: `hooks k n` is the answer to the
`k`-th call, for `n` bytes. There were `calls` of them. -/
structure Printbuffer where
  buffer : Block
  length : Nat
  offset : Nat
  depth : Nat
  noalloc : Bool
  format : Bool
  hooks : Nat → Nat → Bool
  calls : Nat

namespace Printbuffer

/-- The end of `ensure`. The buffer is freed if there is no memory, and not used any more. -/
def grow (p : Printbuffer) (newsize : Nat) : Run Unit Printbuffer :=
  if p.hooks p.calls newsize then
    .returned
      { p with
        buffer := Block.realloc (some p.buffer) newsize
        length := newsize
        calls := p.calls + 1 }
  else .raised ()

/-- `ensure`. The pointer that it returns is always the one to `offset`. -/
def ensure (p : Printbuffer) (needed : Nat) : Run Unit Printbuffer :=
  if 0 < p.length ∧ p.length ≤ p.offset then .raised ()
  else if intMax < needed then .raised ()
  else
    let needed := needed + (p.offset + 1)
    if needed ≤ p.length then .returned p
    else if p.noalloc then .raised ()
    else if intMax / 2 < needed then
      if needed ≤ intMax then p.grow intMax else .raised ()
    else p.grow (needed * 2)

/-- A write from `output[pos]` on, for the pointer `output` that `ensure` returned. -/
def put (p : Printbuffer) (pos : Nat) (text : List UInt8) : Run Unit Printbuffer := do
  let buffer ← p.buffer.write (p.offset + pos) text
  .returned { p with buffer := buffer }

/-- `ensure`, the writes of `text`, and the step over its first `advance` bytes. -/
def emit (p : Printbuffer) (needed : Nat) (text : List UInt8) (advance : Nat) :
    Run Unit Printbuffer := do
  let p ← p.ensure needed
  let p ← p.put 0 text
  .returned { p with offset := p.offset + advance }

/-- `update_offset`. -/
def updateOffset (p : Printbuffer) : Run Unit Printbuffer := do
  let length ← p.buffer.strlen p.offset
  .returned { p with offset := p.offset + length }

end Printbuffer

/-! ## Numbers -/

/-- `sprintf` into a buffer of that many bytes. -/
def sprintf (size : Nat) (text : List Char) : Run Unit (List Char) :=
  if text.length < size then .returned text else .outside

/-- `number_buffer`. -/
def numberBuffer : Binary64 → Run Unit (List Char)
  | .finite d => do
    let short ← sprintf 26 (general 15 d).text
    if (strtod short).any fun test => test.1.equal (.finite d) then .returned short
    else sprintf 26 (general 17 d).text
  | _ => sprintf 26 ['n', 'u', 'l', 'l']

/-- `print_number`. -/
def printNumber (d : Binary64) (p : Printbuffer) : Run Unit Printbuffer := do
  let buffer ← numberBuffer d
  if 25 < buffer.length then .raised ()
  else p.emit buffer.length (ascii buffer ++ [0]) buffer.length

/-! ## Strings -/

/-- The escape sequences of two characters. -/
def shortEscape (b : UInt8) : Option UInt8 :=
  [(backslash, backslash), (quote, quote), (0x08, 'b'.toUInt8), (0x0C, 'f'.toUInt8),
    (0x0A, 'n'.toUInt8), (0x0D, 'r'.toUInt8), (0x09, 't'.toUInt8)].lookup b

/-- The text of `"u%04x"`. -/
def unicodeEscape (b : UInt8) : List UInt8 :=
  'u'.toUInt8 :: ([0, 0, b.toNat / 16, b.toNat % 16].map fun d => (Nat.digitChar d).toUInt8)

/-- How many characters a byte adds to `escape_characters`. -/
def escapeCharacters (b : UInt8) : Nat :=
  match shortEscape b with
  | some _ => 1
  | none => if b < 32 then 5 else 0

/-- The body of the second loop of `print_string_ptr`; `pos` is `output_pointer - output`. -/
def copyByte (b : UInt8) (pos : Nat) (p : Printbuffer) : Run Unit (Printbuffer × Nat) := do
  if 31 < b ∧ b ≠ quote ∧ b ≠ backslash then
    let p ← p.put pos [b]
    .returned (p, pos + 1)
  else
    let p ← p.put pos [backslash]
    match shortEscape b with
    | some e =>
      let p ← p.put (pos + 1) [e]
      .returned (p, pos + 2)
    | none =>
      -- `sprintf` puts a `NUL` too, which the next write goes over
      let p ← p.put (pos + 1) (unicodeEscape b ++ [0])
      .returned (p, pos + 6)

def copyString : (input : List UInt8) → (pos : Nat) → Printbuffer → Run Unit Printbuffer
  | [], _, p => .returned p
  | b :: input, pos, p => do
    let (p, pos) ← copyByte b pos p
    copyString input pos p

/-- The loop, or `memcpy` if no characters have to be escaped. -/
def putInput (input : List UInt8) (p : Printbuffer) : Run Unit Printbuffer :=
  if (input.map escapeCharacters).sum = 0 then p.put 1 input else copyString input 1 p

/-- `print_string_ptr`. -/
def printStringPtr (input : CString) (p : Printbuffer) : Run Unit Printbuffer := do
  let outputLength := input.bytes.length + (input.bytes.map escapeCharacters).sum
  let p ← p.ensure (outputLength + 3)
  let p ← p.put 0 [quote]
  let p ← putInput input.bytes p
  let p ← p.put (outputLength + 1) [quote]
  p.put (outputLength + 2) [0]

/-! ## Arrays and objects -/

section Tokens

variable (format : Bool)

/-- What `print_array` puts between two elements. -/
def separator : List UInt8 := ','.toUInt8 :: if format then [' '.toUInt8] else []

def opening : List UInt8 := '{'.toUInt8 :: if format then ['\n'.toUInt8] else []

def colon : List UInt8 := ':'.toUInt8 :: if format then ['\t'.toUInt8] else []

/-- What `print_object` puts after a member. -/
def memberEnd (next : Bool) : List UInt8 :=
  (if next then [','.toUInt8] else []) ++ if format then ['\n'.toUInt8] else []

def tabs (n : Nat) : List UInt8 := List.replicate n '\t'.toUInt8

def closing (depth : Nat) : List UInt8 :=
  (if format then tabs (depth - 1) else []) ++ ['}'.toUInt8]

end Tokens

/-- `print_array`, for the loop over its elements. -/
def printArray (elements : Printbuffer → Run Unit Printbuffer) (p : Printbuffer) :
    Run Unit Printbuffer := do
  let p ← p.emit 1 ['['.toUInt8] 1
  let p ← elements { p with depth := p.depth + 1 }
  let p ← p.emit 2 [']'.toUInt8, 0] 0
  .returned { p with depth := p.depth - 1 }

/-- What the loop of `print_array` does after an element. -/
def printSeparator (next : Bool) (p : Printbuffer) : Run Unit Printbuffer :=
  if next then
    p.emit ((separator p.format).length + 1) (separator p.format ++ [0]) (separator p.format).length
  else .returned p

/-- `print_object`, for the loop over its members. -/
def printObject (members : Printbuffer → Run Unit Printbuffer) (p : Printbuffer) :
    Run Unit Printbuffer := do
  let p ← p.emit ((opening p.format).length + 1) (opening p.format) (opening p.format).length
  let p ← members { p with depth := p.depth + 1 }
  let p ← p.emit (if p.format then p.depth + 1 else 2) (closing p.format p.depth ++ [0]) 0
  .returned { p with depth := p.depth - 1 }

def printTabs (p : Printbuffer) : Run Unit Printbuffer :=
  if p.format then p.emit p.depth (tabs p.depth) p.depth else .returned p

/-- What the loop of `print_object` does before a value. -/
def printKey (name : CString) (p : Printbuffer) : Run Unit Printbuffer := do
  let p ← printTabs p
  let p ← printStringPtr name p
  let p ← p.updateOffset
  p.emit (colon p.format).length (colon p.format) (colon p.format).length

/-- What the loop of `print_object` does after a value. -/
def printMemberEnd (next : Bool) (p : Printbuffer) : Run Unit Printbuffer :=
  p.emit ((memberEnd p.format next).length + 1) (memberEnd p.format next ++ [0])
    (memberEnd p.format next).length

mutual

/-- `print_value`. -/
def printValue : Item → Printbuffer → Run Unit Printbuffer
  | .null, p => p.emit 5 (nullText ++ [0]) 0
  | .bool false, p => p.emit 6 (falseText ++ [0]) 0
  | .bool true, p => p.emit 5 (trueText ++ [0]) 0
  | .number d, p => printNumber d p
  | .raw s, p => p.emit (s.bytes.length + 1) (s.bytes ++ [0]) 0
  | .string s, p => printStringPtr s p
  | .array items, p => printArray (printElements items) p
  | .object members, p => printObject (printMembers members) p

/-- The loop of `print_array`. -/
def printElements : List Item → Printbuffer → Run Unit Printbuffer
  | [], p => .returned p
  | item :: rest, p => do
    let p ← printValue item p
    let p ← p.updateOffset
    let p ← printSeparator (!rest.isEmpty) p
    printElements rest p

/-- The loop of `print_object`. -/
def printMembers : List (CString × Item) → Printbuffer → Run Unit Printbuffer
  | [], p => .returned p
  | (name, item) :: rest, p => do
    let p ← printKey name p
    let p ← printValue item p
    let p ← p.updateOffset
    let p ← printMemberEnd (!rest.isEmpty) p
    printMembers rest p

end

/-- `print`. The buffer has room for 256 bytes, but its `length` is 0 until it is reallocated. -/
def print (item : Item) (format : Bool) (hooks : Nat → Nat → Bool) : Run Unit CString := do
  if hooks 0 256 then
    let p ← printValue item
      { buffer := Block.realloc none 256, length := 0, offset := 0, depth := 0, noalloc := false,
        format, hooks, calls := 1 }
    let p ← p.updateOffset
    if hooks p.calls p.length then (Block.realloc (some p.buffer) p.length).string 0
    else .raised ()
  else .raised ()

/-- `snowflake_cJSON_PrintBuffered`. -/
def printBuffered (item : Item) (prebuffer : Nat) (fmt : Bool) (hooks : Nat → Nat → Bool) :
    Run Unit CString := do
  if hooks 0 prebuffer then
    let p ← printValue item
      { buffer := Block.realloc none prebuffer, length := prebuffer, offset := 0, depth := 0,
        noalloc := false, format := fmt, hooks, calls := 1 }
    p.buffer.string 0
  else .raised ()

/-- `snowflake_cJSON_PrintPreallocated`: what `buf` is afterwards. -/
def printPreallocated (item : Item) (buf : Block) (len : Nat) (fmt : Bool)
    (hooks : Nat → Nat → Bool) : Run Unit Block := do
  let p ← printValue item
    { buffer := buf, length := len, offset := 0, depth := 0, noalloc := true, format := fmt, hooks,
      calls := 0 }
  .returned p.buffer

end Snowflake.CJSON
