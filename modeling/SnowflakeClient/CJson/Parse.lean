import SnowflakeClient.BlockString
import SnowflakeClient.CDouble

/-!
# The parser of `lib/cJSON.c`

A text is parsed where it stands: `content` is the text with its `NUL`, and each function takes the
offset that it starts from. What it returns comes with the offset after it; a failure raises the
offset that the error is reported at. A read outside of `content`, a write outside of a block, and a
loop that does not end are runs `outside`. The allocator may fail at any call: `hooks` says which
calls succeed.

The loops take an amount of `fuel`, which is never used up. `parse_value` calls itself through
`parse_array` and `parse_object`, at most `CJSON_NESTING_LIMIT` times: `levels` counts down what is
left of them.
-/

namespace Snowflake.CJSON

/-- An item of a tree with its children. `valueint` is left out: it is computed from
`valuedouble`. -/
inductive Item where
  | null
  | bool (b : Bool)
  | number (valuedouble : Binary64)
  | string (valuestring : CString)
  | raw (valuestring : CString)
  | array (child : List Item)
  | object (child : List (CString × Item))

/-- A text of the source. -/
abbrev ascii (text : List Char) : List UInt8 := text.map Char.toUInt8

abbrev nullText : List UInt8 := ascii ['n', 'u', 'l', 'l']

abbrev falseText : List UInt8 := ascii ['f', 'a', 'l', 's', 'e']

abbrev trueText : List UInt8 := ascii ['t', 'r', 'u', 'e']

abbrev quote : UInt8 := '"'.toUInt8

abbrev backslash : UInt8 := '\\'.toUInt8

/-- `CJSON_NESTING_LIMIT`. -/
def nestingLimit : Nat := 1000

/-- A call of `hooks->allocate`, by what it is for and the offset that it is made at: a parse makes
no call twice. -/
inductive Allocation where
  | root
  | item (offset : Nat)
  | string (offset size : Nat)
  deriving DecidableEq, Repr

/-- A call of the allocator, which goes to `fail` with `input_buffer->offset` at `position` if there
is no memory. -/
def allocate (hooks : Allocation → Bool) (call : Allocation) (position : Nat) : Run Nat Unit :=
  if hooks call then .returned () else .raised position

section Parser

variable (content : List UInt8) (hooks : Allocation → Bool)

def byteAt (i : Nat) : Run Nat UInt8 := .ofRead content[i]?

/-- `buffer_skip_whitespace`. The `NUL` is skipped too, and then stepped back to. -/
def bufferSkipWhitespace (offset : Nat) : Nat :=
  let skipped := offset + ((content.drop offset).takeWhile (· ≤ 32)).length
  if skipped = content.length then skipped - 1 else skipped

/-- `skip_utf8_bom`. -/
def skipUtf8Bom : Nat :=
  if 4 < content.length ∧ content.take 3 = [0xEF, 0xBB, 0xBF] then 3 else 0

/-! ## Numbers -/

def isNumberByte (b : UInt8) : Bool :=
  (Char.ofUInt8 b).isDigit || b ∈ ascii ['+', '-', 'e', 'E', '.']

/-- `parse_number`: at most 63 bytes are copied to `number_c_string`. -/
def parseNumber (offset : Nat) : Run Nat (Item × Nat) :=
  let numberCString := ((content.drop offset).take 63).takeWhile isNumberByte
  match CDouble.strtod (numberCString.map Char.ofUInt8) with
  | none => .raised offset
  | some (number, rest) =>
    .returned (.number number, offset + (numberCString.length - rest.length))

/-! ## Strings -/

def hexDigit (b : UInt8) : Option Nat :=
  if '0'.toUInt8 ≤ b ∧ b ≤ '9'.toUInt8 then some (b.toNat - '0'.toNat)
  else if 'A'.toUInt8 ≤ b ∧ b ≤ 'F'.toUInt8 then some (10 + b.toNat - 'A'.toNat)
  else if 'a'.toUInt8 ≤ b ∧ b ≤ 'f'.toUInt8 then some (10 + b.toNat - 'a'.toNat)
  else none

/-- The loop of `parse_hex4`, with `k` digits to go. -/
def parseHexDigits (input : Nat) : (k : Nat) → (h : Nat) → Run Nat Nat
  | 0, h => .returned h
  | k + 1, h => do
    match hexDigit (← byteAt content input) with
    | none => .returned 0
    | some d => parseHexDigits (input + 1) k (if 0 < k then (h + d) * 16 else h + d)

/-- `parse_hex4`. -/
def parseHex4 (input : Nat) : Run Nat Nat := parseHexDigits content input 4 0

/-- The loop that puts the last `k` bytes of a code point, from the last one on. -/
def continuationBytes : (k : Nat) → (codepoint : Nat) → (after : List UInt8) → Nat × List UInt8
  | 0, codepoint, after => (codepoint, after)
  | k + 1, codepoint, after =>
    continuationBytes k (codepoint >>> 6) (UInt8.ofNat ((codepoint ||| 0x80) &&& 0xBF) :: after)

/-- The bytes of a code point of `length` bytes. -/
def encodeUtf8 (length : Nat) (firstByteMark codepoint : Nat) : List UInt8 :=
  let (top, after) := continuationBytes (length - 1) codepoint []
  if 1 < length then UInt8.ofNat ((top ||| firstByteMark) &&& 0xFF) :: after
  else UInt8.ofNat (top &&& 0x7F) :: after

/-- The end of `utf16_literal_to_utf8`: the bytes that are put, unless there is no such code
point. -/
def utf8 (codepoint : Nat) : Option (List UInt8) :=
  if codepoint < 0x80 then some (encodeUtf8 1 0 codepoint)
  else if codepoint < 0x800 then some (encodeUtf8 2 0xC0 codepoint)
  else if codepoint < 0x10000 then some (encodeUtf8 3 0xE0 codepoint)
  else if codepoint ≤ 0x10FFFF then some (encodeUtf8 4 0xF0 codepoint)
  else none

/-- The second half of a surrogate pair, as `utf16_literal_to_utf8` reads it. -/
def lowSurrogate (secondSequence inputEnd : Nat) : Run Nat (Option Nat) := do
  if inputEnd - secondSequence < 6 then .returned none
  else if (← byteAt content secondSequence) ≠ backslash then .returned none
  else if (← byteAt content (secondSequence + 1)) ≠ 'u'.toUInt8 then .returned none
  else
    let secondCode ← parseHex4 content (secondSequence + 2)
    if secondCode < 0xDC00 ∨ 0xDFFF < secondCode then .returned none
    else .returned (some secondCode)

/-- `utf16_literal_to_utf8`: the bytes that are put, and `sequence_length`. -/
def utf16LiteralToUtf8 (inputPointer inputEnd : Nat) : Run Nat (Option (List UInt8 × Nat)) := do
  if inputEnd - inputPointer < 6 then .returned none
  else
    let firstCode ← parseHex4 content (inputPointer + 2)
    if 0xDC00 ≤ firstCode ∧ firstCode ≤ 0xDFFF then .returned none
    else if 0xD800 ≤ firstCode ∧ firstCode ≤ 0xDBFF then
      match ← lowSurrogate content (inputPointer + 6) inputEnd with
      | none => .returned none
      | some secondCode =>
        let codepoint := 0x10000 + (((firstCode &&& 0x3FF) <<< 10) ||| (secondCode &&& 0x3FF))
        .returned ((utf8 codepoint).map (·, 12))
    else .returned ((utf8 firstCode).map (·, 6))

/-- The first pass of `parse_string`: the closing quote, and the number of escape sequences before
it. `start` is the offset of the first byte of the string. -/
def scanString (start : Nat) : (fuel inputEnd skipped : Nat) → Run Nat (Nat × Nat)
  | 0, _, _ => .outside
  | fuel + 1, inputEnd, skipped =>
    if inputEnd < content.length then do
      let c ← byteAt content inputEnd
      if c = quote then .returned (inputEnd, skipped)
      else if c = backslash then
        if content.length ≤ inputEnd + 1 then .raised start
        else scanString start fuel (inputEnd + 2) (skipped + 1)
      else scanString start fuel (inputEnd + 1) skipped
    else .raised start

/-- The byte for the character after a backslash, except for `u`. -/
def unescape (c : UInt8) : Option UInt8 :=
  if c = 'b'.toUInt8 then some 0x08
  else if c = 'f'.toUInt8 then some 0x0C
  else if c = 'n'.toUInt8 then some 0x0A
  else if c = 'r'.toUInt8 then some 0x0D
  else if c = 't'.toUInt8 then some 0x09
  else if c = quote ∨ c = backslash ∨ c = '/'.toUInt8 then some c
  else none

/-- The second pass of `parse_string`: `outputPointer` is an offset in `output`. -/
def decodeString (inputEnd : Nat) : (fuel inputPointer : Nat) → (output : Block) →
    (outputPointer : Nat) → Run Nat (Block × Nat)
  | 0, _, _, _ => .outside
  | fuel + 1, inputPointer, output, outputPointer =>
    if inputPointer < inputEnd then do
      let c ← byteAt content inputPointer
      if c ≠ backslash then
        let output ← output.write outputPointer [c]
        decodeString inputEnd fuel (inputPointer + 1) output (outputPointer + 1)
      else
        let escaped ← byteAt content (inputPointer + 1)
        if escaped = 'u'.toUInt8 then
          match ← utf16LiteralToUtf8 content inputPointer inputEnd with
          | none => .raised inputPointer
          | some (bytes, sequenceLength) =>
            let output ← output.write outputPointer bytes
            decodeString inputEnd fuel (inputPointer + sequenceLength) output
              (outputPointer + bytes.length)
        else
          match unescape escaped with
          | none => .raised inputPointer
          | some b =>
            let output ← output.write outputPointer [b]
            decodeString inputEnd fuel (inputPointer + 2) output (outputPointer + 1)
    else .returned (output, outputPointer)

/-- `parse_string`: what is read back as `valuestring` ends at the first `NUL`. -/
def parseString (offset : Nat) : Run Nat (CString × Nat) := do
  if (← byteAt content offset) ≠ quote then .raised (offset + 1)
  else
    let (inputEnd, skipped) ← scanString content (offset + 1) content.length (offset + 1) 0
    let allocationLength := inputEnd - offset - skipped
    allocate hooks (.string offset (allocationLength + 1)) (offset + 1)
    let output := Block.realloc none (allocationLength + 1)
    let (output, outputPointer) ←
      decodeString content inputEnd content.length (offset + 1) output 0
    let output ← output.write outputPointer [0]
    let valuestring ← output.string 0
    .returned (valuestring, inputEnd + 1)

/-! ## Values -/

/-- The loop of `parse_array`, from the byte before the next item on. -/
def parseElements (value : Nat → Run Nat (Item × Nat)) :
    (fuel offset : Nat) → Run Nat (List Item × Nat)
  | 0, _ => .outside
  | fuel + 1, offset => do
    allocate hooks (.item offset) offset
    let (item, offset) ← value (bufferSkipWhitespace content (offset + 1))
    let offset := bufferSkipWhitespace content offset
    if content[offset]? = some ','.toUInt8 then
      let (items, offset) ← parseElements value fuel offset
      .returned (item :: items, offset)
    else .returned ([item], offset)

/-- `parse_array`. There is no `value` where the nesting is too deep. -/
def parseArray (value : Option (Nat → Run Nat (Item × Nat))) (offset : Nat) :
    Run Nat (Item × Nat) :=
  match value with
  | none => .raised offset
  | some value => do
    if (← byteAt content offset) ≠ '['.toUInt8 then .raised offset
    else
      let offset := bufferSkipWhitespace content (offset + 1)
      if content[offset]? = some ']'.toUInt8 then .returned (.array [], offset + 1)
      else if content.length ≤ offset then .raised (offset - 1)
      else
        let (items, offset) ← parseElements content hooks value content.length (offset - 1)
        if content[offset]? = some ']'.toUInt8 then .returned (.array items, offset + 1)
        else .raised offset

/-- One round of the loop of `parse_object`, up to the value. -/
def parseName (offset : Nat) : Run Nat (CString × Nat) := do
  let (name, offset) ← parseString content hooks (bufferSkipWhitespace content (offset + 1))
  let offset := bufferSkipWhitespace content offset
  if content[offset]? = some ':'.toUInt8 then .returned (name, offset) else .raised offset

/-- The loop of `parse_object`. -/
def parseMembers (value : Nat → Run Nat (Item × Nat)) :
    (fuel offset : Nat) → Run Nat (List (CString × Item) × Nat)
  | 0, _ => .outside
  | fuel + 1, offset => do
    allocate hooks (.item offset) offset
    let (name, offset) ← parseName content hooks offset
    let (item, offset) ← value (bufferSkipWhitespace content (offset + 1))
    let offset := bufferSkipWhitespace content offset
    if content[offset]? = some ','.toUInt8 then
      let (members, offset) ← parseMembers value fuel offset
      .returned ((name, item) :: members, offset)
    else .returned ([(name, item)], offset)

/-- `parse_object`. -/
def parseObject (value : Option (Nat → Run Nat (Item × Nat))) (offset : Nat) :
    Run Nat (Item × Nat) :=
  match value with
  | none => .raised offset
  | some value =>
    if content[offset]? ≠ some '{'.toUInt8 then .raised offset
    else
      let offset := bufferSkipWhitespace content (offset + 1)
      if content[offset]? = some '}'.toUInt8 then .returned (.object [], offset + 1)
      else if content.length ≤ offset then .raised (offset - 1)
      else do
        let (members, offset) ← parseMembers content hooks value content.length (offset - 1)
        if content[offset]? = some '}'.toUInt8 then .returned (.object members, offset + 1)
        else .raised offset

/-- `can_read` and `strncmp` for a literal. -/
def startsWith (text : List UInt8) (offset : Nat) : Bool :=
  (content.drop offset).take text.length == text

/-- `parse_value` for what is no literal name: `c` is the byte at `offset`. -/
def parseOther (value : Option (Nat → Run Nat (Item × Nat))) (offset : Nat) (c : UInt8) :
    Run Nat (Item × Nat) :=
  if c = quote then do
    let (valuestring, offset) ← parseString content hooks offset
    .returned (.string valuestring, offset)
  else if c = '-'.toUInt8 ∨ (Char.ofUInt8 c).isDigit then parseNumber content offset
  else if c = '['.toUInt8 then parseArray content hooks value offset
  else if c = '{'.toUInt8 then parseObject content hooks value offset
  else .raised offset

/-- `parse_value`, where `value` parses what is one level deeper. -/
def parseValueWith (value : Option (Nat → Run Nat (Item × Nat))) (offset : Nat) :
    Run Nat (Item × Nat) :=
  if startsWith content nullText offset then .returned (.null, offset + 4)
  else if startsWith content falseText offset then .returned (.bool false, offset + 5)
  else if startsWith content trueText offset then .returned (.bool true, offset + 4)
  else
    match content[offset]? with
    | none => .raised offset
    | some c => parseOther content hooks value offset c

/-- `parse_value` with `levels` left of the nesting limit. -/
def parseValue : (levels : Nat) → (offset : Nat) → Run Nat (Item × Nat)
  | 0 => parseValueWith content hooks none
  | levels + 1 => parseValueWith content hooks (some (parseValue levels))

/-- The check for `require_null_terminated`. -/
def checkEnd (requireNullTerminated : Bool) (offset : Nat) : Run Nat Nat :=
  if requireNullTerminated then
    let offset := bufferSkipWhitespace content offset
    if content[offset]? = some 0 then .returned offset else .raised offset
  else .returned offset

/-- The part of `snowflake_cJSON_ParseWithOpts` that may go to `fail`. -/
def parseRoot (requireNullTerminated : Bool) : Run Nat (Item × Nat) := do
  allocate hooks .root 0
  let (item, offset) ← parseValue content hooks nestingLimit
    (bufferSkipWhitespace content (skipUtf8Bom content))
  let offset ← checkEnd content requireNullTerminated offset
  .returned (item, offset)

end Parser

/-- `snowflake_cJSON_ParseWithOpts`, for a text that is not `NULL`: the item and
`*return_parse_end`, or the position of `global_error`. -/
def parseWithOpts (value : CString) (requireNullTerminated : Bool) (hooks : Allocation → Bool) :
    Run Nat (Item × Nat) :=
  let content := value.bytes ++ [0]
  match parseRoot content hooks requireNullTerminated with
  | .raised offset => .raised (if offset < content.length then offset else content.length - 1)
  | other => other

/-- `snowflake_cJSON_Parse`. -/
def parse (value : CString) (hooks : Allocation → Bool) : Run Nat (Item × Nat) :=
  parseWithOpts value false hooks

end Snowflake.CJSON
