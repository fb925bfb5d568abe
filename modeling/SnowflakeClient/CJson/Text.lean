import SnowflakeClient.CJson.ParseSafe

/-!
# What the parser accepts

`JsonText levels text item`: the text is a JSON text for the item, with at most `levels` arrays and
objects inside of each other. A string stands for the bytes of its characters in UTF-8, it has no
`NUL`, and its `\u` escapes for surrogates come in pairs; a number stands for the nearest `double`,
and has at most 63 characters.

`parse_jsonText`: the parser accepts each of these texts, in whatever way it is written, and builds
the item, unless an allocation fails.
-/

namespace Snowflake.CJSON

open Run CDouble

/-! ## The grammar -/

/-- White space. -/
def Blank (text : List UInt8) : Prop :=
  ∀ b ∈ text, b ∈ ascii [' ', '\t', '\n', '\r']

/-- The characters that may follow a backslash, except for `u`, and the bytes that they stand
for. -/
def escapes : List (UInt8 × UInt8) :=
  [(quote, quote), (backslash, backslash), ('/'.toUInt8, '/'.toUInt8), ('b'.toUInt8, 0x08),
    ('f'.toUInt8, 0x0C), ('n'.toUInt8, 0x0A), ('r'.toUInt8, 0x0D), ('t'.toUInt8, 0x09)]

/-- Four hexadecimal digits, in any case. -/
inductive Hex4 : List UInt8 → Nat → Prop where
  | digits {a b c d : UInt8} {va vb vc vd : Nat} (ha : hexDigit a = some va)
      (hb : hexDigit b = some vb) (hc : hexDigit c = some vc) (hd : hexDigit d = some vd) :
      Hex4 [a, b, c, d] (((va * 16 + vb) * 16 + vc) * 16 + vd)

/-- The characters of a string between its quotes, and the bytes that they stand for. -/
inductive Chars : List UInt8 → List UInt8 → Prop where
  | nil : Chars [] []
  | plain {b : UInt8} {text bytes : List UInt8} (hb : 32 ≤ b) (hquote : b ≠ quote)
      (hback : b ≠ backslash) (h : Chars text bytes) : Chars (b :: text) (b :: bytes)
  | escape {e b : UInt8} {text bytes : List UInt8} (he : (e, b) ∈ escapes) (h : Chars text bytes) :
      Chars (backslash :: e :: text) (b :: bytes)
  | unicode (c : Char) {digits text bytes : List UInt8} (hdigits : Hex4 digits c.toNat)
      (h : Chars text bytes) :
      Chars (backslash :: 'u'.toUInt8 :: digits ++ text) (String.utf8EncodeChar c ++ bytes)
  | pair (c : Char) {high low text bytes : List UInt8} (hc : 0x10000 ≤ c.toNat)
      (hhigh : Hex4 high (0xD800 + (c.toNat - 0x10000) / 1024))
      (hlow : Hex4 low (0xDC00 + (c.toNat - 0x10000) % 1024)) (h : Chars text bytes) :
      Chars (backslash :: 'u'.toUInt8 :: high ++ (backslash :: 'u'.toUInt8 :: low ++ text))
        (String.utf8EncodeChar c ++ bytes)

/-- A number in a JSON text: a digit before the point, and no sign but a minus. -/
structure IsNumber (l : Literal) : Prop where
  sign : l.sign ≠ .plus
  int : l.int.chars ≠ []
  length : l.text.length ≤ 63

def stringText (text : List UInt8) : List UInt8 := quote :: text ++ [quote]

/-- A value that is neither an array nor an object. -/
inductive Scalar : List UInt8 → Item → Prop where
  | null : Scalar nullText .null
  | false : Scalar falseText (.bool false)
  | true : Scalar trueText (.bool true)
  | number {l : Literal} (h : IsNumber l) :
      Scalar (l.text.map Char.toUInt8) (.number (.ofRat l.negative l.abs))
  | string {text : List UInt8} {s : CString} (h : Chars text s.bytes) :
      Scalar (stringText text) (.string s)

section Nested

variable (V : List UInt8 → Item → Prop)

/-- Values with commas between them. -/
inductive Elements : List UInt8 → List Item → Prop where
  | one {before text after : List UInt8} {item : Item} (hbefore : Blank before) (h : V text item)
      (hafter : Blank after) : Elements (before ++ (text ++ after)) [item]
  | cons {before text after rest : List UInt8} {item : Item} {items : List Item}
      (hbefore : Blank before) (h : V text item) (hafter : Blank after)
      (hrest : Elements rest items) :
      Elements (before ++ (text ++ (after ++ ','.toUInt8 :: rest))) (item :: items)

/-- A name, up to the colon. -/
inductive Name : List UInt8 → CString → Prop where
  | mk {before text after : List UInt8} {name : CString} (hbefore : Blank before)
      (h : Chars text name.bytes) (hafter : Blank after) :
      Name (before ++ (stringText text ++ (after ++ [':'.toUInt8]))) name

/-- Names with values, and commas between them. -/
inductive Members : List UInt8 → List (CString × Item) → Prop where
  | one {label before text after : List UInt8} {name : CString} {item : Item}
      (hname : Name label name) (hbefore : Blank before) (h : V text item) (hafter : Blank after) :
      Members (label ++ (before ++ (text ++ after))) [(name, item)]
  | cons {label before text after rest : List UInt8} {name : CString} {item : Item}
      {members : List (CString × Item)} (hname : Name label name) (hbefore : Blank before)
      (h : V text item) (hafter : Blank after) (hrest : Members rest members) :
      Members (label ++ (before ++ (text ++ (after ++ ','.toUInt8 :: rest))))
        ((name, item) :: members)

/-- An array or an object. -/
inductive Nested : List UInt8 → Item → Prop where
  | emptyArray {blank : List UInt8} (h : Blank blank) :
      Nested ('['.toUInt8 :: blank ++ [']'.toUInt8]) (.array [])
  | array {body : List UInt8} {items : List Item} (h : Elements V body items) :
      Nested ('['.toUInt8 :: body ++ [']'.toUInt8]) (.array items)
  | emptyObject {blank : List UInt8} (h : Blank blank) :
      Nested ('{'.toUInt8 :: blank ++ ['}'.toUInt8]) (.object [])
  | object {body : List UInt8} {members : List (CString × Item)} (h : Members V body members) :
      Nested ('{'.toUInt8 :: body ++ ['}'.toUInt8]) (.object members)

end Nested

/-- A value with at most `levels` arrays and objects inside of each other. -/
def Value : (levels : Nat) → List UInt8 → Item → Prop
  | 0, text, item => Scalar text item
  | levels + 1, text, item => Scalar text item ∨ Nested (Value levels) text item

/-- A value with white space around it. -/
def JsonText (levels : Nat) (text : List UInt8) (item : Item) : Prop :=
  ∃ before value after, text = before ++ (value ++ after) ∧ Blank before ∧ Blank after ∧
    Value levels value item

/-! ## Strings -/

section Utf8

theorem continuationByte (v : Nat) :
    UInt8.ofNat ((v ||| 0x80) &&& 0xBF) = UInt8.ofNat (v % 64 + 128) := by
  have hbyte : ∀ r < 256, (r ||| 0x80) &&& 0xBF = r % 64 + 128 := by decide +kernel
  have hmod : (v ||| 0x80) &&& 0xBF = ((v % 256) ||| 0x80) &&& 0xBF := by
    have hle : (v ||| 0x80) &&& 0xBF ≤ 0xBF := Nat.and_le_right
    rw [← Nat.mod_eq_of_lt (show (v ||| 0x80) &&& 0xBF < 2 ^ 8 by omega), Nat.and_mod_two_pow,
      Nat.or_mod_two_pow]
  rw [hmod, hbyte _ (Nat.mod_lt _ (by norm_num)), Nat.mod_mod_of_dvd _ (by norm_num)]

theorem shiftRight_six (v : Nat) : v >>> 6 = v / 64 := Nat.shiftRight_eq_div_pow v 6

variable {v : Nat}

theorem encodeUtf8_one (hv : v < 0x80) : encodeUtf8 1 0 v = [UInt8.ofNat v] := by
  have hmark : ∀ v < 128, v &&& 0x7F = v := by decide +kernel
  have hunfold : encodeUtf8 1 0 v = [UInt8.ofNat (v &&& 0x7F)] := rfl
  rw [hunfold, hmark v hv]

theorem encodeUtf8_two (hv : v < 0x800) :
    encodeUtf8 2 0xC0 v = [UInt8.ofNat (v / 64 % 32 + 192), UInt8.ofNat (v % 64 + 128)] := by
  have hmark : ∀ v < 32, (v ||| 0xC0) &&& 0xFF = v + 192 := by decide
  have hunfold : encodeUtf8 2 0xC0 v = [UInt8.ofNat ((v >>> 6 ||| 0xC0) &&& 0xFF),
    UInt8.ofNat ((v ||| 0x80) &&& 0xBF)] := rfl
  rw [hunfold, continuationByte, shiftRight_six, hmark _ (by omega),
    Nat.mod_eq_of_lt (show v / 64 < 32 by omega)]

theorem encodeUtf8_three (hv : v < 0x10000) :
    encodeUtf8 3 0xE0 v = [UInt8.ofNat (v / 4096 % 16 + 224), UInt8.ofNat (v / 64 % 64 + 128),
      UInt8.ofNat (v % 64 + 128)] := by
  have hmark : ∀ v < 16, (v ||| 0xE0) &&& 0xFF = v + 224 := by decide
  have hunfold : encodeUtf8 3 0xE0 v = [UInt8.ofNat ((v >>> 6 >>> 6 ||| 0xE0) &&& 0xFF),
    UInt8.ofNat ((v >>> 6 ||| 0x80) &&& 0xBF), UInt8.ofNat ((v ||| 0x80) &&& 0xBF)] := rfl
  rw [hunfold, continuationByte, continuationByte, shiftRight_six, shiftRight_six,
    Nat.div_div_eq_div_mul, hmark _ (by omega), Nat.mod_eq_of_lt (show v / 4096 < 16 by omega)]

theorem encodeUtf8_four (hv : v < 0x110000) :
    encodeUtf8 4 0xF0 v = [UInt8.ofNat (v / 262144 % 8 + 240), UInt8.ofNat (v / 4096 % 64 + 128),
      UInt8.ofNat (v / 64 % 64 + 128), UInt8.ofNat (v % 64 + 128)] := by
  have hmark : ∀ v < 8, (v ||| 0xF0) &&& 0xFF = v + 240 := by decide
  have hunfold : encodeUtf8 4 0xF0 v = [UInt8.ofNat ((v >>> 6 >>> 6 >>> 6 ||| 0xF0) &&& 0xFF),
    UInt8.ofNat ((v >>> 6 >>> 6 ||| 0x80) &&& 0xBF), UInt8.ofNat ((v >>> 6 ||| 0x80) &&& 0xBF),
    UInt8.ofNat ((v ||| 0x80) &&& 0xBF)] := rfl
  rw [hunfold, continuationByte, continuationByte, continuationByte, shiftRight_six, shiftRight_six,
    shiftRight_six, show v / 64 / 64 = v / 4096 by omega,
    show v / 4096 / 64 = v / 262144 by omega, hmark _ (by omega),
    Nat.mod_eq_of_lt (show v / 262144 < 8 by omega)]

/-- The bytes that the parser puts are the UTF-8 encoding of the character. -/
theorem utf8_toNat (c : Char) : utf8 c.toNat = some (String.utf8EncodeChar c) := by
  have hvalid : c.toNat < 0xD800 ∨ (0xDFFF < c.toNat ∧ c.toNat < 0x110000) := c.valid
  have hval : c.val.toNat = c.toNat := rfl
  unfold utf8 String.utf8EncodeChar
  rw [hval]
  dsimp only
  by_cases h1 : c.toNat < 0x80
  · rw [if_pos h1, encodeUtf8_one h1, if_pos (show c.toNat ≤ 127 by omega)]
  rw [if_neg h1, if_neg (show ¬ c.toNat ≤ 127 by omega)]
  by_cases h2 : c.toNat < 0x800
  · rw [if_pos h2, encodeUtf8_two h2, if_pos (show c.toNat ≤ 2047 by omega)]
  rw [if_neg h2, if_neg (show ¬ c.toNat ≤ 2047 by omega)]
  by_cases h3 : c.toNat < 0x10000
  · rw [if_pos h3, encodeUtf8_three h3, if_pos (show c.toNat ≤ 65535 by omega)]
  rw [if_neg h3, if_neg (show ¬ c.toNat ≤ 65535 by omega), if_pos (by omega),
    encodeUtf8_four (by omega)]

end Utf8

theorem Hex4.hex4_eq {a b c d : UInt8} {v : Nat} (h : Hex4 [a, b, c, d] v) : hex4 a b c d = v := by
  cases h with
  | digits ha hb hc hd => simp only [hex4, ha, hb, hc, hd]

theorem Hex4.exists_digits {digits : List UInt8} {v : Nat} (h : Hex4 digits v) :
    ∃ a b c d, digits = [a, b, c, d] ∧ backslash ∉ digits ∧ quote ∉ digits := by
  have hback : hexDigit backslash = none := by decide
  have hquote : hexDigit quote = none := by decide
  cases h with
  | @digits a b c d va vb vc vd ha hb hc hd =>
    refine ⟨a, b, c, d, rfl, ?_, ?_⟩
    all_goals
      intro hmem
      simp only [List.mem_cons, List.not_mem_nil, or_false] at hmem
      rcases hmem with rfl | rfl | rfl | rfl <;> simp_all

theorem Hex4.lt {digits : List UInt8} {v : Nat} (h : Hex4 digits v) : v < 0x10000 := by
  cases h with
  | digits ha hb hc hd =>
    have := hexDigit_lt ha
    have := hexDigit_lt hb
    have := hexDigit_lt hc
    have := hexDigit_lt hd
    omega

theorem Scanned.append {front rest : List UInt8} {k : Nat} (hquote : quote ∉ front)
    (hback : backslash ∉ front) (h : Scanned rest k) : Scanned (front ++ rest) k := by
  induction front with
  | nil => exact h
  | cons c front ih =>
    rw [List.mem_cons, not_or] at hquote hback
    exact .plain (Ne.symm hquote.1) (Ne.symm hback.1) (ih hquote.2 hback.2)

/-- One literal, as the first pass sees it. -/
theorem Hex4.scanned {digits : List UInt8} {v : Nat} (h : Hex4 digits v) (rest : List UInt8) :
    tokens (backslash :: 'u'.toUInt8 :: digits ++ rest) = 5 + tokens rest ∧
      ∀ k, Scanned rest k → Scanned (backslash :: 'u'.toUInt8 :: digits ++ rest) (k + 1) := by
  obtain ⟨a, b, c, d, hdigits, hback, hquote⟩ := h.exists_digits
  have hlen : digits.length = 4 := by rw [hdigits]; rfl
  constructor
  · rw [List.cons_append, List.cons_append, tokens_escape, tokens_append_of_notMem hback, hlen]
    omega
  · exact fun k hk => .escape _ (hk.append hquote hback)

/-- What the first pass sees of the characters. There are no more bytes than tokens. -/
theorem Chars.scanned {text bytes : List UInt8} (h : Chars text bytes) :
    (∃ k, Scanned text k) ∧ bytes.length ≤ tokens text := by
  induction h with
  | nil => exact ⟨⟨0, .nil⟩, le_rfl⟩
  | plain hb hquote hback h ih =>
    obtain ⟨⟨k, hk⟩, hle⟩ := ih
    refine ⟨⟨k, .plain hquote hback hk⟩, ?_⟩
    rw [tokens_cons_of_ne hback, List.length_cons]
    omega
  | escape he h ih =>
    obtain ⟨⟨k, hk⟩, hle⟩ := ih
    refine ⟨⟨k + 1, .escape _ hk⟩, ?_⟩
    rw [tokens_escape, List.length_cons]
    omega
  | @unicode c digits text bytes hdigits h ih =>
    obtain ⟨⟨k, hk⟩, hle⟩ := ih
    obtain ⟨htokens, hscanned⟩ := hdigits.scanned text
    have hlen := (utf8_length (utf8_toNat c)).2.1 hdigits.lt
    refine ⟨⟨k + 1, hscanned k hk⟩, ?_⟩
    rw [htokens, List.length_append]
    omega
  | @pair c high low text bytes hc hhigh hlow h ih =>
    obtain ⟨⟨k, hk⟩, hle⟩ := ih
    obtain ⟨htokens, hscanned⟩ := hlow.scanned text
    obtain ⟨htokens', hscanned'⟩ := hhigh.scanned (backslash :: 'u'.toUInt8 :: low ++ text)
    have hlen := (utf8_length (utf8_toNat c)).1
    refine ⟨⟨k + 2, hscanned' _ (hscanned k hk)⟩, ?_⟩
    rw [htokens', htokens, List.length_append]
    omega

section Content

variable {content : List UInt8}

/-- The first pass finds the closing quote. -/
theorem scanString_eq (start : Nat) {body rest : List UInt8} {k : Nat} (hbody : Scanned body k)
    {fuel inputEnd : Nat} (skipped : Nat) (hdrop : content.drop inputEnd = body ++ quote :: rest)
    (hfuel : body.length < fuel) :
    scanString content start fuel inputEnd skipped =
      .returned (inputEnd + body.length, skipped + k) := by
  induction hbody generalizing fuel inputEnd skipped with
  | nil =>
    obtain ⟨fuel, rfl⟩ := Nat.exists_eq_succ_of_ne_zero (Nat.ne_of_gt hfuel)
    rw [scanString, if_pos (lt_length_of_drop hdrop), byteAt_of_drop_cons hdrop, returned_bind,
      if_pos rfl]
    rfl
  | @plain c body k hquote hc h ih =>
    rw [List.length_cons] at hfuel ⊢
    obtain ⟨fuel, rfl⟩ := Nat.exists_eq_succ_of_ne_zero (show fuel ≠ 0 by omega)
    have hnext : content.drop (inputEnd + 1) = body ++ quote :: rest :=
      drop_add_of_drop [c] rfl hdrop
    rw [scanString, if_pos (lt_length_of_drop hdrop), byteAt_of_drop_cons hdrop, returned_bind,
      if_neg hquote, if_neg hc, ih skipped hnext (by omega)]
    congr 2
    omega
  | @escape c body k h ih =>
    rw [List.length_cons, List.length_cons] at hfuel ⊢
    obtain ⟨fuel, rfl⟩ := Nat.exists_eq_succ_of_ne_zero (show fuel ≠ 0 by omega)
    have hnext : content.drop (inputEnd + 2) = body ++ quote :: rest :=
      drop_add_of_drop [backslash, c] rfl hdrop
    have hshort : ¬ content.length ≤ inputEnd + 1 := by
      have hlen := congrArg List.length hdrop
      simp only [List.length_drop, List.length_append, List.length_cons] at hlen
      omega
    rw [scanString, if_pos (lt_length_of_drop hdrop), byteAt_of_drop_cons hdrop, returned_bind,
      if_neg (by decide), if_pos rfl, if_neg hshort, ih (skipped + 1) hnext (by omega)]
    congr 2 <;> omega

theorem Hex4.parseHex4_eq {digits rest : List UInt8} {v i : Nat} (h : Hex4 digits v)
    (hdrop : content.drop i = digits ++ rest) : parseHex4 content i = .returned v := by
  cases h with
  | digits ha hb hc hd =>
    rw [CJSON.parseHex4_eq hdrop, (Hex4.digits ha hb hc hd).hex4_eq]

theorem Hex4.length {digits : List UInt8} {v : Nat} (h : Hex4 digits v) : digits.length = 4 := by
  cases h with
  | digits => rfl

/-- A literal for a character. -/
theorem utf16LiteralToUtf8_unicode {c : Char} {digits rest : List UInt8}
    (hdigits : Hex4 digits c.toNat) {inputPointer inputEnd : Nat}
    (hdrop : content.drop inputPointer = backslash :: 'u'.toUInt8 :: digits ++ rest)
    (hend : inputPointer + 6 ≤ inputEnd) :
    utf16LiteralToUtf8 content inputPointer inputEnd =
      .returned (some (String.utf8EncodeChar c, 6)) := by
  have hvalid : c.toNat < 0xD800 ∨ (0xDFFF < c.toNat ∧ c.toNat < 0x110000) := c.valid
  have hcode : parseHex4 content (inputPointer + 2) = .returned c.toNat :=
    hdigits.parseHex4_eq (drop_add_of_drop [backslash, 'u'.toUInt8] rfl hdrop)
  unfold utf16LiteralToUtf8
  rw [if_neg (by omega), hcode, returned_bind, if_neg (by omega), if_neg (by omega), utf8_toNat]
  rfl

theorem lowSurrogate_eq {digits rest : List UInt8} {v : Nat} (hdigits : Hex4 digits v)
    (hv : 0xDC00 ≤ v ∧ v ≤ 0xDFFF) {i inputEnd : Nat}
    (hdrop : content.drop i = backslash :: 'u'.toUInt8 :: digits ++ rest)
    (hend : i + 6 ≤ inputEnd) : lowSurrogate content i inputEnd = .returned (some v) := by
  have hbyte : byteAt content (i + 1) = .returned 'u'.toUInt8 :=
    byteAt_of_drop [backslash] rfl hdrop
  have hcode : parseHex4 content (i + 2) = .returned v :=
    hdigits.parseHex4_eq (drop_add_of_drop [backslash, 'u'.toUInt8] rfl hdrop)
  unfold lowSurrogate
  rw [if_neg (by omega), byteAt_of_drop_cons hdrop, returned_bind, if_neg (by simp), hbyte,
    returned_bind, if_neg (by simp), hcode, returned_bind, if_neg (by omega)]

/-- The halves of a surrogate pair, put together. -/
theorem surrogates (n : Nat) (hn : n < 0x100000) :
    ((0xD800 + n / 1024) &&& 0x3FF) <<< 10 ||| ((0xDC00 + n % 1024) &&& 0x3FF) = n := by
  have hmask : ∀ x, x &&& 0x3FF = x % 1024 := fun x => Nat.and_two_pow_sub_one_eq_mod x 10
  have hlow : (0xDC00 + n % 1024) % 1024 < 2 ^ 10 := Nat.mod_lt _ (by norm_num)
  rw [hmask, hmask, ← Nat.shiftLeft_add_eq_or_of_lt hlow, Nat.shiftLeft_eq]
  omega

theorem utf16LiteralToUtf8_pair {c : Char} (hc : 0x10000 ≤ c.toNat) {high low rest : List UInt8}
    (hhigh : Hex4 high (0xD800 + (c.toNat - 0x10000) / 1024))
    (hlow : Hex4 low (0xDC00 + (c.toNat - 0x10000) % 1024)) {inputPointer inputEnd : Nat}
    (hdrop : content.drop inputPointer =
      backslash :: 'u'.toUInt8 :: high ++ (backslash :: 'u'.toUInt8 :: low ++ rest))
    (hend : inputPointer + 12 ≤ inputEnd) :
    utf16LiteralToUtf8 content inputPointer inputEnd =
      .returned (some (String.utf8EncodeChar c, 12)) := by
  have hvalid : c.toNat < 0xD800 ∨ (0xDFFF < c.toNat ∧ c.toNat < 0x110000) := c.valid
  have hcode : parseHex4 content (inputPointer + 2) =
      .returned (0xD800 + (c.toNat - 0x10000) / 1024) :=
    hhigh.parseHex4_eq (drop_add_of_drop [backslash, 'u'.toUInt8] rfl hdrop)
  have hsecond : content.drop (inputPointer + 6) = backslash :: 'u'.toUInt8 :: low ++ rest :=
    drop_add_of_drop (backslash :: 'u'.toUInt8 :: high) (by simp [hhigh.length]) hdrop
  have hpair := surrogates (c.toNat - 0x10000) (by omega)
  unfold utf16LiteralToUtf8
  rw [if_neg (by omega), hcode, returned_bind, if_neg (by omega), if_pos (by omega),
    lowSurrogate_eq hlow (by omega) hsecond (by omega), returned_bind]
  dsimp only
  rw [hpair, show 0x10000 + (c.toNat - 0x10000) = c.toNat by omega, utf8_toNat]
  rfl

theorem unescape_of_mem {e b : UInt8} (h : (e, b) ∈ escapes) :
    e ≠ 'u'.toUInt8 ∧ unescape e = some b := by
  simp only [escapes, List.mem_cons, List.not_mem_nil, or_false, Prod.mk.injEq] at h
  rcases h with h | h | h | h | h | h | h | h <;> obtain ⟨rfl, rfl⟩ := h <;> decide

section Steps

variable {rest done : List UInt8} {free : List (Option UInt8)}
  {inputPointer inputEnd fuel outputPointer : Nat} (hend : inputPointer < inputEnd)
  (hdone : done.length = outputPointer)

include hend hdone

theorem decodeString_plain {c : UInt8} (hc : c ≠ backslash)
    (hdrop : content.drop inputPointer = c :: rest) (hfree : [c].length ≤ free.length) :
    decodeString content inputEnd (fuel + 1) inputPointer ⟨done.map some ++ free⟩ outputPointer =
      decodeString content inputEnd fuel (inputPointer + 1)
        ⟨(done ++ [c]).map some ++ free.drop 1⟩ (outputPointer + 1) := by
  rw [decodeString, if_pos hend, byteAt_of_drop_cons hdrop, returned_bind, if_pos hc,
    Block.write_map_append hdone hfree, returned_bind]
  rfl

theorem decodeString_escape {e b : UInt8} (he : (e, b) ∈ escapes)
    (hdrop : content.drop inputPointer = backslash :: e :: rest)
    (hfree : [b].length ≤ free.length) :
    decodeString content inputEnd (fuel + 1) inputPointer ⟨done.map some ++ free⟩ outputPointer =
      decodeString content inputEnd fuel (inputPointer + 2)
        ⟨(done ++ [b]).map some ++ free.drop 1⟩ (outputPointer + 1) := by
  have hbyte : byteAt content (inputPointer + 1) = .returned e :=
    byteAt_of_drop [backslash] rfl hdrop
  obtain ⟨hu, hb⟩ := unescape_of_mem he
  rw [decodeString, if_pos hend, byteAt_of_drop_cons hdrop, returned_bind, if_neg (by simp), hbyte,
    returned_bind, if_neg hu, hb]
  dsimp only
  rw [Block.write_map_append hdone hfree, returned_bind]
  rfl

theorem decodeString_literal {bytes : List UInt8} {n : Nat}
    (hliteral : utf16LiteralToUtf8 content inputPointer inputEnd = .returned (some (bytes, n)))
    (hdrop : content.drop inputPointer = backslash :: 'u'.toUInt8 :: rest)
    (hfree : bytes.length ≤ free.length) :
    decodeString content inputEnd (fuel + 1) inputPointer ⟨done.map some ++ free⟩ outputPointer =
      decodeString content inputEnd fuel (inputPointer + n)
        ⟨(done ++ bytes).map some ++ free.drop bytes.length⟩ (outputPointer + bytes.length) := by
  have hbyte : byteAt content (inputPointer + 1) = .returned 'u'.toUInt8 :=
    byteAt_of_drop [backslash] rfl hdrop
  rw [decodeString, if_pos hend, byteAt_of_drop_cons hdrop, returned_bind, if_neg (by simp), hbyte,
    returned_bind, if_pos rfl, hliteral, returned_bind]
  dsimp only
  rw [Block.write_map_append hdone hfree, returned_bind]

end Steps

theorem put_append (done front back : List UInt8) (free : List (Option UInt8))
    (outputPointer : Nat) :
    ((⟨(done ++ front ++ back).map some ++ (free.drop front.length).drop back.length⟩ : Block),
        outputPointer + front.length + back.length) =
      (⟨(done ++ (front ++ back)).map some ++ free.drop (front ++ back).length⟩,
        outputPointer + (front ++ back).length) := by
  rw [List.append_assoc, List.drop_drop, List.length_append, Nat.add_assoc]

/-- The second pass puts the bytes of the characters. -/
theorem decodeString_eq {text bytes rest : List UInt8} (h : Chars text bytes)
    {inputPointer inputEnd fuel : Nat} (hdrop : content.drop inputPointer = text ++ quote :: rest)
    (hend : inputEnd = inputPointer + text.length) (hfuel : text.length < fuel)
    (done : List UInt8) {free : List (Option UInt8)} {outputPointer : Nat}
    (hdone : done.length = outputPointer) (hfree : bytes.length ≤ free.length) :
    decodeString content inputEnd fuel inputPointer ⟨done.map some ++ free⟩ outputPointer =
      .returned (⟨(done ++ bytes).map some ++ free.drop bytes.length⟩,
        outputPointer + bytes.length) := by
  induction h generalizing inputPointer fuel done free outputPointer with
  | nil =>
    rw [decodeString_done (by simp [hend]) (by omega)]
    simp
  | @plain b text bytes hb hquote hback h ih =>
    rw [List.length_cons] at hend hfuel hfree
    obtain ⟨fuel, rfl⟩ := Nat.exists_eq_succ_of_ne_zero (show fuel ≠ 0 by omega)
    have hnext : content.drop (inputPointer + 1) = text ++ quote :: rest :=
      drop_add_of_drop [b] rfl hdrop
    rw [decodeString_plain (by omega) hdone hback hdrop (by simp; omega),
      ih hnext (by omega) (by omega) _ (by simp [hdone]) (by rw [List.length_drop]; omega)]
    exact congrArg Run.returned (put_append done [b] bytes free outputPointer)
  | @escape e b text bytes he h ih =>
    rw [List.length_cons, List.length_cons] at hend hfuel
    rw [List.length_cons] at hfree
    obtain ⟨fuel, rfl⟩ := Nat.exists_eq_succ_of_ne_zero (show fuel ≠ 0 by omega)
    have hnext : content.drop (inputPointer + 2) = text ++ quote :: rest :=
      drop_add_of_drop [backslash, e] rfl hdrop
    rw [decodeString_escape (by omega) hdone he hdrop (by simp; omega),
      ih hnext (by omega) (by omega) _ (by simp [hdone]) (by rw [List.length_drop]; omega)]
    exact congrArg Run.returned (put_append done [b] bytes free outputPointer)
  | @unicode c digits text bytes hdigits h ih =>
    have hlen := hdigits.length
    rw [List.length_append] at hfree
    simp only [List.length_append, List.length_cons, hlen] at hend hfuel
    rw [List.append_assoc] at hdrop
    obtain ⟨fuel, rfl⟩ := Nat.exists_eq_succ_of_ne_zero (show fuel ≠ 0 by omega)
    have hnext : content.drop (inputPointer + 6) = text ++ quote :: rest :=
      drop_add_of_drop (backslash :: 'u'.toUInt8 :: digits) (by simp [hlen]) hdrop
    rw [decodeString_literal (by omega) hdone
        (utf16LiteralToUtf8_unicode hdigits hdrop (by omega)) hdrop (by omega),
      ih hnext (by omega) (by omega) _ (by simp [hdone]) (by rw [List.length_drop]; omega)]
    exact congrArg Run.returned (put_append done _ bytes free outputPointer)
  | @pair c high low text bytes hc hhigh hlow h ih =>
    have hlen := hhigh.length
    have hlen' := hlow.length
    rw [List.length_append] at hfree
    simp only [List.length_append, List.length_cons, hlen, hlen'] at hend hfuel
    rw [List.append_assoc, List.append_assoc] at hdrop
    have hsecond : content.drop (inputPointer + 6) =
        backslash :: 'u'.toUInt8 :: low ++ (text ++ quote :: rest) :=
      drop_add_of_drop (backslash :: 'u'.toUInt8 :: high) (by simp [hlen]) hdrop
    have hnext : content.drop (inputPointer + 12) = text ++ quote :: rest :=
      drop_add_of_drop (i := inputPointer + 6) (k := 6) (backslash :: 'u'.toUInt8 :: low)
        (by simp [hlen']) hsecond
    obtain ⟨fuel, rfl⟩ := Nat.exists_eq_succ_of_ne_zero (show fuel ≠ 0 by omega)
    rw [decodeString_literal (by omega) hdone
        (utf16LiteralToUtf8_pair hc hhigh hlow hdrop (by omega)) hdrop (by omega),
      ih hnext (by omega) (by omega) _ (by simp [hdone]) (by rw [List.length_drop]; omega)]
    exact congrArg Run.returned (put_append done _ bytes free outputPointer)

/-- A string of the grammar is parsed to its bytes. -/
theorem parseString_eq {text rest : List UInt8} {s : CString} (h : Chars text s.bytes)
    {offset : Nat} (hdrop : content.drop offset = stringText text ++ rest) :
    parseString content allocated offset = .returned (s, offset + (stringText text).length) := by
  obtain ⟨⟨k, hscanned⟩, hle⟩ := h.scanned
  have htokens := hscanned.tokens
  have hdrop' : content.drop offset = quote :: (text ++ quote :: rest) := by
    rw [hdrop, stringText]
    simp
  have hbody : content.drop (offset + 1) = text ++ quote :: rest :=
    drop_add_of_drop [quote] rfl hdrop'
  have hlen := congrArg List.length hbody
  simp only [List.length_drop, List.length_append, List.length_cons] at hlen
  -- the block has room for the bytes and the `NUL`
  obtain ⟨size, hsize⟩ : ∃ size, size = offset + 1 + text.length - offset - (0 + k) + 1 := ⟨_, rfl⟩
  have hroom : s.bytes.length < (List.replicate size (none : Option UInt8)).length := by
    rw [List.length_replicate]
    omega
  have hdecode : decodeString content (offset + 1 + text.length) content.length (offset + 1)
      ⟨List.replicate size none⟩ 0 =
        .returned (⟨s.bytes.map some ++ (List.replicate size none).drop s.bytes.length⟩,
          0 + s.bytes.length) :=
    decodeString_eq h hbody rfl (by omega) [] rfl hroom.le
  rw [parseString, byteAt_of_drop_cons hdrop', returned_bind, if_neg (by simp),
    scanString_eq (offset + 1) hscanned 0 hbody (by omega), returned_bind]
  dsimp only
  rw [allocate_allocated, returned_bind, ← hsize, Block.realloc_none, hdecode, returned_bind]
  dsimp only
  rw [Block.write_map_append (Nat.zero_add _).symm
    (by rw [List.length_drop, List.length_singleton]; omega), returned_bind, Block.string,
    List.drop_zero, List.map_append, List.append_assoc]
  rw [show [(0 : UInt8)].map some ++ _ = some 0 :: _ from rfl, Block.stringOf_append,
    CString.ofBytes_bytes, returned_bind]
  congr 2
  simp only [stringText, List.length_append, List.length_cons, List.length_nil]
  omega

end Content

/-! ## Numbers -/

def IsNumberChar (c : Char) : Prop := c.isDigit ∨ c ∈ ['+', '-', 'e', 'E', '.']

theorem ofUInt8_toUInt8 {c : Char} (h : c.toNat < 256) : Char.ofUInt8 c.toUInt8 = c := by
  rw [← Char.toNat_inj]
  have hbyte : (Char.ofUInt8 c.toUInt8).toNat = c.toNat % 256 :=
    (UInt8.toNat_toUInt32 _).trans (UInt32.toNat_toUInt8 _)
  rw [hbyte, Nat.mod_eq_of_lt h]

theorem IsNumberChar.byte {c : Char} (h : IsNumberChar c) :
    Char.ofUInt8 c.toUInt8 = c ∧ isNumberByte c.toUInt8 := by
  have hlt : c.toNat < 256 := by
    rcases h with h | h
    · have hnine : c.toNat ≤ 57 := (Char.isDigit_iff_toNat.mp h).2
      omega
    · have hall : ∀ c ∈ ['+', '-', 'e', 'E', '.'], c.toNat < 256 := by simp
      exact hall c h
  have hchar := ofUInt8_toUInt8 hlt
  refine ⟨hchar, ?_⟩
  rcases h with h | h
  · rw [isNumberByte, hchar, h, Bool.true_or]
  · have hmem : c.toUInt8 ∈ ascii ['+', '-', 'e', 'E', '.'] := List.mem_map_of_mem h
    rw [isNumberByte, decide_eq_true hmem, Bool.or_true]

theorem isNumberChar_sign {s : CNumeral.Sign} : ∀ c ∈ s.text, IsNumberChar c := by
  cases s <;> simp [CNumeral.Sign.text, IsNumberChar]

theorem isNumberChar_digits (d : Decimal.Digits) : ∀ c ∈ d.chars, IsNumberChar c :=
  fun c hc => .inl (d.digit c hc)

theorem isNumberChar_text (l : Literal) : ∀ c ∈ l.text, IsNumberChar c := by
  intro c hc
  simp only [Literal.text, List.mem_append] at hc
  rcases hc with hc | hc | hc | hc
  · exact isNumberChar_sign c hc
  · exact isNumberChar_digits l.int c hc
  · unfold Literal.fracText at hc
    cases hfrac : l.frac with
    | none => simp [hfrac] at hc
    | some f =>
      rw [hfrac, Option.map_some, Option.getD_some, List.mem_cons] at hc
      rcases hc with rfl | hc
      · exact .inr (by decide)
      · exact isNumberChar_digits f c hc
  · unfold Literal.exponentText at hc
    cases hexp : l.exponent with
    | none => simp [hexp] at hc
    | some e =>
      rw [hexp, Option.map_some, Option.getD_some, Exponent.text, List.mem_cons,
        List.mem_append] at hc
      rcases hc with rfl | hc | hc
      · cases e.upper <;> exact .inr (by decide)
      · exact isNumberChar_sign c hc
      · exact isNumberChar_digits e.digits.toDigits c hc

/-- What may follow a value: no byte that a number could go on with. -/
def Follows (rest : List UInt8) : Prop := ∀ b ∈ rest.head?, isNumberByte b = false

theorem Follows.takeWhile_take {rest : List UInt8} (h : Follows rest) (n : Nat) :
    (rest.take n).takeWhile isNumberByte = [] := by
  cases rest with
  | nil => simp
  | cons b rest =>
    cases n with
    | zero => rfl
    | succ n =>
      have hb : isNumberByte b = false := h b rfl
      rw [List.take_succ_cons, List.takeWhile_cons_of_neg (by simp [hb])]

theorem parseNumber_eq {content : List UInt8} {l : Literal} (hlen : l.text.length ≤ 63)
    {rest : List UInt8} {offset : Nat}
    (hdrop : content.drop offset = l.text.map Char.toUInt8 ++ rest) (hrest : Follows rest) :
    parseNumber content offset =
      .returned (.number (.ofRat l.negative l.abs), offset + (l.text.map Char.toUInt8).length) := by
  have hbytes : ((content.drop offset).take 63).takeWhile isNumberByte =
      l.text.map Char.toUInt8 := by
    rw [hdrop, List.take_append, List.take_of_length_le (by simpa using hlen),
      List.takeWhile_append_of_pos]
    · rw [hrest.takeWhile_take, List.append_nil]
    · intro b hb
      obtain ⟨c, hc, rfl⟩ := List.mem_map.mp hb
      exact (isNumberChar_text l c hc).byte.2
  have hchars : (l.text.map Char.toUInt8).map Char.ofUInt8 = l.text := by
    rw [List.map_map]
    exact (List.map_congr_left fun c hc => (isNumberChar_text l c hc).byte.1).trans (List.map_id _)
  unfold parseNumber
  dsimp only
  rw [hbytes, hchars, strtod_text]
  rfl

/-! ## Values -/

/-- The first byte of a value. -/
def IsStart (b : UInt8) : Prop :=
  (Char.ofUInt8 b).isDigit ∨ b ∈ ascii ['n', 'f', 't', '"', '-', '[', '{']

def Starts (text : List UInt8) : Prop := ∃ b rest, text = b :: rest ∧ IsStart b

/-- The first byte of a value is no white space, and neither closes an array nor begins a mark of
the byte order. -/
theorem IsStart.spec {b : UInt8} (h : IsStart b) : 32 < b ∧ b ≠ ']'.toUInt8 ∧ b ≠ 0xEF := by
  rcases h with h | h
  · have hdigit : 48 ≤ b.toNat ∧ b.toNat ≤ 57 := Char.isDigit_iff_toNat.mp h
    have hlt : (32 : UInt8) < b := by
      rw [UInt8.lt_iff_toNat_lt]
      exact lt_of_lt_of_le (by decide) hdigit.1
    refine ⟨hlt, ?_, ?_⟩
    all_goals
      rintro rfl
      exact absurd hdigit (by decide)
  · have hall : ∀ b ∈ ascii ['n', 'f', 't', '"', '-', '[', '{'],
        32 < b ∧ b ≠ ']'.toUInt8 ∧ b ≠ 0xEF := by simp [Char.toUInt8]
    exact hall b h

theorem IsNumber.exists_start {l : Literal} (h : IsNumber l) :
    ∃ c rest, l.text = c :: rest ∧ (c.isDigit ∨ c = '-') := by
  obtain ⟨c, rest, hint⟩ := List.exists_cons_of_ne_nil h.int
  have hc : c.isDigit := l.int.digit c (by simp [hint])
  rw [Literal.text, hint]
  cases hsign : l.sign with
  | none => exact ⟨c, _, rfl, .inl hc⟩
  | plus => exact absurd hsign h.sign
  | minus => exact ⟨'-', _, rfl, .inr rfl⟩

theorem Scalar.starts {text : List UInt8} {item : Item} (h : Scalar text item) : Starts text := by
  cases h with
  | null => exact ⟨_, _, rfl, .inr (by simp)⟩
  | false => exact ⟨_, _, rfl, .inr (by simp)⟩
  | true => exact ⟨_, _, rfl, .inr (by simp)⟩
  | string h => exact ⟨_, _, rfl, .inr (by simp)⟩
  | @number l h =>
    obtain ⟨c, rest, htext, hc⟩ := h.exists_start
    refine ⟨c.toUInt8, rest.map Char.toUInt8, by rw [htext, List.map_cons], ?_⟩
    rcases hc with hc | rfl
    · left
      rwa [(IsNumberChar.byte (.inl hc)).1]
    · exact .inr (by simp)

theorem Nested.starts {V : List UInt8 → Item → Prop} {text : List UInt8} {item : Item}
    (h : Nested V text item) : Starts text := by
  cases h <;> exact ⟨_, _, rfl, .inr (by simp)⟩

theorem Value.starts {levels : Nat} {text : List UInt8} {item : Item} (h : Value levels text item) :
    Starts text := by
  cases levels with
  | zero => exact Scalar.starts h
  | succ levels => exact h.elim Scalar.starts Nested.starts

section Content

variable {content : List UInt8} {offset : Nat}

theorem bufferSkipWhitespace_eq {blank rest : List UInt8} {b : UInt8} (hblank : Blank blank)
    (hb : 32 < b) (hdrop : content.drop offset = blank ++ b :: rest) :
    bufferSkipWhitespace content offset = offset + blank.length := by
  have hall : ∀ b ∈ ascii [' ', '\t', '\n', '\r'], b ≤ 32 := by simp [Char.toUInt8]
  have hskip : (content.drop offset).takeWhile (· ≤ 32) = blank := by
    rw [hdrop, List.takeWhile_append_of_pos, List.takeWhile_cons_of_neg, List.append_nil]
    · simpa using hb
    · intro b hb
      simpa using hall b (hblank b hb)
  have hlt := lt_length_of_drop (drop_add_of_drop blank rfl hdrop)
  unfold bufferSkipWhitespace
  dsimp only
  rw [hskip, if_neg (by omega)]

theorem startsWith_append {word rest : List UInt8} (hdrop : content.drop offset = word ++ rest) :
    startsWith content word offset = true := by
  rw [startsWith, hdrop, List.take_left, beq_self_eq_true]

theorem not_startsWith {word rest : List UInt8} {b c : UInt8}
    (hdrop : content.drop offset = c :: rest) (hword : word.head? = some b) (hne : c ≠ b) :
    ¬ startsWith content word offset = true := by
  obtain ⟨tail, rfl⟩ := List.head?_eq_some_iff.mp hword
  rw [startsWith, hdrop, List.length_cons, List.take_succ_cons, beq_iff_eq]
  exact fun h => hne (List.cons.inj h).1

theorem getElem?_of_drop {c : UInt8} {rest : List UInt8} (hdrop : content.drop offset = c :: rest) :
    content[offset]? = some c := by
  rw [← Nat.add_zero offset, ← List.getElem?_drop, hdrop]
  rfl

variable {hooks : Allocation → Bool} {value : Option (Nat → Run Nat (Item × Nat))}

theorem parseValueWith_other {c : UInt8} {rest : List UInt8}
    (hdrop : content.drop offset = c :: rest) (hn : c ≠ 'n'.toUInt8) (hf : c ≠ 'f'.toUInt8)
    (ht : c ≠ 't'.toUInt8) :
    parseValueWith content hooks value offset = parseOther content hooks value offset c := by
  unfold parseValueWith
  rw [if_neg (not_startsWith hdrop rfl hn), if_neg (not_startsWith hdrop rfl hf),
    if_neg (not_startsWith hdrop rfl ht), getElem?_of_drop hdrop]

theorem parseValueWith_scalar {text rest : List UInt8} {item : Item} (h : Scalar text item)
    (hdrop : content.drop offset = text ++ rest) (hrest : Follows rest) :
    parseValueWith content allocated value offset = .returned (item, offset + text.length) := by
  cases h with
  | null => rw [parseValueWith, if_pos (startsWith_append hdrop)]; rfl
  | false =>
    rw [parseValueWith, if_neg (not_startsWith hdrop rfl (by decide)),
      if_pos (startsWith_append hdrop)]
    rfl
  | true =>
    rw [parseValueWith, if_neg (not_startsWith hdrop rfl (by decide)),
      if_neg (not_startsWith hdrop rfl (by decide)),
      if_pos (startsWith_append hdrop)]
    rfl
  | string h =>
    rw [parseValueWith_other hdrop (by decide) (by decide) (by decide), parseOther, if_pos rfl,
      parseString_eq h hdrop, returned_bind]
  | @number l h =>
    obtain ⟨c, tail, htext, hc⟩ := h.exists_start
    have hdrop' := hdrop
    rw [htext, List.map_cons, List.cons_append] at hdrop'
    have hbyte : c.toUInt8 = '-'.toUInt8 ∨ (Char.ofUInt8 c.toUInt8).isDigit := by
      rcases hc with hc | rfl
      · exact .inr (by rwa [(IsNumberChar.byte (.inl hc)).1])
      · exact .inl rfl
    have hne : ∀ b, b ≠ '-'.toUInt8 → (Char.ofUInt8 b).isDigit = false → c.toUInt8 ≠ b := by
      rintro b hminus hdigit rfl
      rcases hbyte with h | h
      · exact hminus h
      · rw [hdigit] at h
        cases h
    rw [parseValueWith_other hdrop' (hne _ (by decide) (by decide)) (hne _ (by decide) (by decide))
      (hne _ (by decide) (by decide)), parseOther, if_neg (hne _ (by decide) (by decide)),
      if_pos hbyte, parseNumber_eq h.length hdrop hrest]

/-- What is one level deeper is parsed as the grammar says. -/
def Parses (content : List UInt8) (V : List UInt8 → Item → Prop)
    (value : Nat → Run Nat (Item × Nat)) : Prop :=
  ∀ offset text rest item, V text item → content.drop offset = text ++ rest → Follows rest →
    value offset = .returned (item, offset + text.length)

section Loops

variable {V : List UInt8 → Item → Prop} {value : Nat → Run Nat (Item × Nat)}
  (hstarts : ∀ text item, V text item → Starts text) (hvalue : Parses content V value)

theorem blank_nil : Blank [] := fun _ hb => absurd hb List.not_mem_nil

theorem follows_of_blank {blank rest : List UInt8} {b : UInt8} (hblank : Blank blank)
    (hb : isNumberByte b = false) : Follows (blank ++ b :: rest) := by
  have hall : ∀ b ∈ ascii [' ', '\t', '\n', '\r'], isNumberByte b = false := by
    intro b hb
    simp only [ascii, List.map_cons, List.map_nil, List.mem_cons, List.not_mem_nil, or_false] at hb
    rcases hb with rfl | rfl | rfl | rfl <;> decide
  cases blank with
  | nil =>
    intro c hc
    cases hc
    exact hb
  | cons c blank =>
    intro d hd
    cases hd
    exact hall c (hblank c List.mem_cons_self)

include hstarts hvalue

/-- A value with white space around it, and the byte after it. -/
theorem value_eq {before text after : List UInt8} (rest : List UInt8) {item : Item} {b : UInt8}
    (hbefore : Blank before) (h : V text item) (hafter : Blank after) (hb : 32 < b)
    (hnumber : isNumberByte b = false)
    (hdrop : content.drop offset = before ++ (text ++ (after ++ b :: rest))) :
    ∃ next, value (bufferSkipWhitespace content offset) = .returned (item, next) ∧
      bufferSkipWhitespace content next = offset + (before ++ (text ++ after)).length ∧
      content.drop (offset + (before ++ (text ++ after)).length) = b :: rest := by
  obtain ⟨c, tail, htext, hc⟩ := hstarts text item h
  have hskip : bufferSkipWhitespace content offset = offset + before.length :=
    bufferSkipWhitespace_eq hbefore hc.spec.1 (by rw [hdrop, htext]; rfl)
  have hat := drop_add_of_drop before rfl hdrop
  have hafter' := drop_add_of_drop text rfl hat
  refine ⟨offset + before.length + text.length, ?_, ?_, ?_⟩
  · rw [hskip]
    exact hvalue _ text _ item h hat (follows_of_blank hafter hnumber)
  · rw [bufferSkipWhitespace_eq hafter hb hafter']
    simp only [List.length_append]
    omega
  · have hnext := drop_add_of_drop after rfl hafter'
    rw [← hnext]
    congr 1
    simp only [List.length_append]
    omega

/-- The loop of `parse_array`, up to the closing bracket. -/
theorem parseElements_eq {body rest : List UInt8} {items : List Item} (h : Elements V body items)
    {fuel : Nat} (hdrop : content.drop (offset + 1) = body ++ ']'.toUInt8 :: rest)
    (hfuel : body.length ≤ fuel) :
    parseElements content allocated value fuel offset =
      .returned (items, offset + 1 + body.length) := by
  induction h generalizing fuel offset with
  | @one before text after item hbefore h hafter =>
    obtain ⟨next, hitem, hskip, hnext⟩ := value_eq hstarts hvalue rest hbefore h hafter
      (b := ']'.toUInt8) (by decide) (by decide) (by rw [hdrop]; simp)
    obtain ⟨c, tail, htext, hc⟩ := hstarts text item h
    obtain ⟨fuel, rfl⟩ := Nat.exists_eq_succ_of_ne_zero (n := fuel) (by
      rintro rfl
      simp [htext] at hfuel)
    rw [parseElements, allocate_allocated, returned_bind, hitem, returned_bind]
    dsimp only
    rw [hskip, getElem?_of_drop hnext, if_neg (by decide)]
  | @cons before text after more item items hbefore h hafter hmore ih =>
    obtain ⟨next, hitem, hskip, hnext⟩ := value_eq hstarts hvalue
      (more ++ ']'.toUInt8 :: rest) hbefore h hafter (b := ','.toUInt8) (by decide) (by decide)
      (by rw [hdrop]; simp)
    obtain ⟨fuel, rfl⟩ := Nat.exists_eq_succ_of_ne_zero (n := fuel) (by
      rintro rfl
      simp at hfuel)
    have hmore' : content.drop (offset + 1 + (before ++ (text ++ after)).length + 1) =
        more ++ ']'.toUInt8 :: rest := drop_add_of_drop [','.toUInt8] rfl hnext
    simp only [List.length_append, List.length_cons] at hfuel
    rw [parseElements, allocate_allocated, returned_bind, hitem, returned_bind]
    dsimp only
    rw [hskip, getElem?_of_drop hnext, if_pos rfl, ih hmore' (by omega), returned_bind]
    congr 2
    simp only [List.length_append, List.length_cons]
    omega

omit hvalue in
/-- The white space before the first item does not matter. -/
theorem Elements.exists_start {body : List UInt8} {items : List Item} (h : Elements V body items) :
    ∃ blank c tail, body = blank ++ c :: tail ∧ Blank blank ∧ IsStart c ∧
      Elements V (c :: tail) items := by
  cases h with
  | @one before text after item hbefore h hafter =>
    obtain ⟨c, tail, rfl, hc⟩ := hstarts text item h
    exact ⟨before, c, tail ++ after, rfl, hbefore, hc,
      .one blank_nil h hafter⟩
  | @cons before text after rest item items hbefore h hafter hrest =>
    obtain ⟨c, tail, rfl, hc⟩ := hstarts text item h
    exact ⟨before, c, tail ++ (after ++ ','.toUInt8 :: rest), rfl, hbefore, hc,
      .cons blank_nil h hafter hrest⟩

theorem parseArray_eq {body rest : List UInt8} {items : List Item} (h : Elements V body items)
    (hdrop : content.drop offset = '['.toUInt8 :: body ++ [']'.toUInt8] ++ rest) :
    parseArray content allocated (some value) offset =
      .returned (.array items, offset + ('['.toUInt8 :: body ++ [']'.toUInt8]).length) := by
  obtain ⟨blank, c, tail, rfl, hblank, hc, hbody⟩ := h.exists_start hstarts
  have hdrop' : content.drop offset =
      '['.toUInt8 :: (blank ++ c :: (tail ++ ']'.toUInt8 :: rest)) := by
    rw [hdrop]
    simp
  have hinner : content.drop (offset + 1) = blank ++ c :: (tail ++ ']'.toUInt8 :: rest) :=
    drop_add_of_drop ['['.toUInt8] rfl hdrop'
  have hfirst := drop_add_of_drop blank rfl hinner
  have helements : content.drop (offset + blank.length + 1) =
      c :: tail ++ ']'.toUInt8 :: rest := by
    rw [List.cons_append, ← hfirst, Nat.add_right_comm]
  have hclose := drop_add_of_drop (c :: tail) rfl helements
  have hlen := congrArg List.length hdrop'
  simp only [List.length_drop, List.length_append, List.length_cons] at hlen
  rw [parseArray, byteAt_of_drop_cons hdrop', returned_bind, if_neg (by simp)]
  dsimp only
  rw [bufferSkipWhitespace_eq hblank hc.spec.1 hinner, getElem?_of_drop hfirst,
    if_neg (by simpa using hc.spec.2.1), if_neg (by omega),
    show offset + 1 + blank.length - 1 = offset + blank.length by omega,
    parseElements_eq hstarts hvalue hbody helements (by simp; omega), returned_bind]
  dsimp only
  rw [getElem?_of_drop hclose, if_pos rfl]
  congr 2
  simp only [List.length_append, List.length_cons, List.length_nil]
  omega

omit hstarts hvalue in
/-- A name with white space around it. -/
theorem parseName_eq {label rest : List UInt8} {name : CString} (h : Name label name)
    (hdrop : content.drop (offset + 1) = label ++ rest) :
    parseName content allocated offset = .returned (name, offset + label.length) := by
  cases h with
  | @mk before text after name hbefore h hafter =>
    have hdrop' : content.drop (offset + 1) =
        before ++ (stringText text ++ (after ++ ':'.toUInt8 :: rest)) := by
      rw [hdrop]
      simp
    have hskip : bufferSkipWhitespace content (offset + 1) = offset + 1 + before.length :=
      bufferSkipWhitespace_eq hbefore (show 32 < quote by decide) hdrop'
    have hat := drop_add_of_drop before rfl hdrop'
    have hafter' := drop_add_of_drop (stringText text) rfl hat
    have hcolon := drop_add_of_drop after rfl hafter'
    rw [parseName, hskip, parseString_eq h hat, returned_bind]
    dsimp only
    rw [bufferSkipWhitespace_eq hafter (by decide) hafter', getElem?_of_drop hcolon, if_pos rfl]
    congr 2
    simp only [List.length_append, List.length_cons, List.length_nil]
    omega

/-- The loop of `parse_object`, up to the closing brace. -/
theorem parseMembers_eq {body rest : List UInt8} {members : List (CString × Item)}
    (h : Members V body members) {fuel : Nat}
    (hdrop : content.drop (offset + 1) = body ++ '}'.toUInt8 :: rest)
    (hfuel : body.length ≤ fuel) :
    parseMembers content allocated value fuel offset =
      .returned (members, offset + 1 + body.length) := by
  induction h generalizing fuel offset with
  | @one label before text after name item hname hbefore h hafter =>
    have hdrop' : content.drop (offset + 1) =
        label ++ (before ++ (text ++ (after ++ '}'.toUInt8 :: rest))) := by
      rw [hdrop]
      simp
    have hat : content.drop (offset + label.length + 1) =
        before ++ (text ++ (after ++ '}'.toUInt8 :: rest)) := by
      rw [← drop_add_of_drop label rfl hdrop', Nat.add_right_comm]
    obtain ⟨next, hitem, hskip, hnext⟩ :=
      value_eq hstarts hvalue rest hbefore h hafter (by decide) (by decide) hat
    obtain ⟨c, tail, htext, hc⟩ := hstarts text item h
    obtain ⟨fuel, rfl⟩ := Nat.exists_eq_succ_of_ne_zero (n := fuel) (by
      rintro rfl
      simp [htext] at hfuel)
    rw [parseMembers, allocate_allocated, returned_bind, parseName_eq hname hdrop', returned_bind]
    dsimp only
    rw [hitem, returned_bind]
    dsimp only
    rw [hskip, getElem?_of_drop hnext, if_neg (by decide)]
    congr 2
    simp only [List.length_append]
    omega
  | @cons label before text after more name item members hname hbefore h hafter hmore ih =>
    have hdrop' : content.drop (offset + 1) = label ++ (before ++ (text ++
        (after ++ ','.toUInt8 :: (more ++ '}'.toUInt8 :: rest)))) := by
      rw [hdrop]
      simp
    have hat : content.drop (offset + label.length + 1) =
        before ++ (text ++ (after ++ ','.toUInt8 :: (more ++ '}'.toUInt8 :: rest))) := by
      rw [← drop_add_of_drop label rfl hdrop', Nat.add_right_comm]
    obtain ⟨next, hitem, hskip, hnext⟩ :=
      value_eq hstarts hvalue _ hbefore h hafter (by decide) (by decide) hat
    have hmore' : content.drop (offset + label.length + 1 +
        (before ++ (text ++ after)).length + 1) = more ++ '}'.toUInt8 :: rest :=
      drop_add_of_drop [','.toUInt8] rfl hnext
    simp only [List.length_append, List.length_cons] at hfuel
    obtain ⟨fuel, rfl⟩ := Nat.exists_eq_succ_of_ne_zero (show fuel ≠ 0 by omega)
    rw [parseMembers, allocate_allocated, returned_bind, parseName_eq hname hdrop', returned_bind]
    dsimp only
    rw [hitem, returned_bind]
    dsimp only
    rw [hskip, getElem?_of_drop hnext, if_pos rfl, ih hmore' (by omega), returned_bind]
    congr 2
    simp only [List.length_append, List.length_cons]
    omega

omit hstarts hvalue in
theorem Members.exists_start {body : List UInt8} {members : List (CString × Item)}
    (h : Members V body members) :
    ∃ blank tail, body = blank ++ quote :: tail ∧ Blank blank ∧
      Members V (quote :: tail) members := by
  cases h with
  | one hname hbefore h hafter =>
    cases hname with
    | @mk before text after name hbefore' hchars hafter' =>
      refine ⟨before, _, ?_, hbefore', .one (.mk blank_nil hchars hafter') hbefore h hafter⟩
      rw [List.append_assoc]
      rfl
  | cons hname hbefore h hafter hrest =>
    cases hname with
    | @mk before text after name hbefore' hchars hafter' =>
      refine ⟨before, _, ?_, hbefore', .cons (.mk blank_nil hchars hafter') hbefore h hafter hrest⟩
      rw [List.append_assoc]
      rfl

theorem parseObject_eq {body rest : List UInt8} {members : List (CString × Item)}
    (h : Members V body members)
    (hdrop : content.drop offset = '{'.toUInt8 :: body ++ ['}'.toUInt8] ++ rest) :
    parseObject content allocated (some value) offset =
      .returned (.object members, offset + ('{'.toUInt8 :: body ++ ['}'.toUInt8]).length) := by
  obtain ⟨blank, tail, rfl, hblank, hbody⟩ := h.exists_start
  have hdrop' : content.drop offset =
      '{'.toUInt8 :: (blank ++ quote :: (tail ++ '}'.toUInt8 :: rest)) := by
    rw [hdrop]
    simp
  have hinner : content.drop (offset + 1) = blank ++ quote :: (tail ++ '}'.toUInt8 :: rest) :=
    drop_add_of_drop ['{'.toUInt8] rfl hdrop'
  have hfirst := drop_add_of_drop blank rfl hinner
  have hmembers : content.drop (offset + blank.length + 1) =
      quote :: tail ++ '}'.toUInt8 :: rest := by
    rw [List.cons_append, ← hfirst, Nat.add_right_comm]
  have hclose := drop_add_of_drop (quote :: tail) rfl hmembers
  have hlen := congrArg List.length hdrop'
  simp only [List.length_drop, List.length_append, List.length_cons] at hlen
  rw [parseObject, getElem?_of_drop hdrop', if_neg (by simp)]
  dsimp only
  rw [bufferSkipWhitespace_eq hblank (by decide) hinner, getElem?_of_drop hfirst,
    if_neg (by decide), if_neg (by omega),
    show offset + 1 + blank.length - 1 = offset + blank.length by omega,
    parseMembers_eq hstarts hvalue hbody hmembers (by simp; omega), returned_bind]
  dsimp only
  rw [getElem?_of_drop hclose, if_pos rfl]
  congr 2
  simp only [List.length_append, List.length_cons, List.length_nil]
  omega

end Loops

theorem parseObject_empty {blank rest : List UInt8} (hblank : Blank blank)
    (value : Nat → Run Nat (Item × Nat))
    (hdrop : content.drop offset = '{'.toUInt8 :: blank ++ ['}'.toUInt8] ++ rest) :
    parseObject content allocated (some value) offset =
      .returned (.object [], offset + ('{'.toUInt8 :: blank ++ ['}'.toUInt8]).length) := by
  have hdrop' : content.drop offset = '{'.toUInt8 :: (blank ++ '}'.toUInt8 :: rest) := by
    rw [hdrop]
    simp
  have hinner : content.drop (offset + 1) = blank ++ '}'.toUInt8 :: rest :=
    drop_add_of_drop ['{'.toUInt8] rfl hdrop'
  rw [parseObject, getElem?_of_drop hdrop', if_neg (by simp)]
  dsimp only
  rw [bufferSkipWhitespace_eq hblank (by decide) hinner,
    getElem?_of_drop (drop_add_of_drop blank rfl hinner), if_pos rfl]
  congr 2
  simp only [List.length_append, List.length_cons, List.length_nil]
  omega

theorem parseArray_empty {blank rest : List UInt8} (hblank : Blank blank)
    (value : Nat → Run Nat (Item × Nat))
    (hdrop : content.drop offset = '['.toUInt8 :: blank ++ [']'.toUInt8] ++ rest) :
    parseArray content allocated (some value) offset =
      .returned (.array [], offset + ('['.toUInt8 :: blank ++ [']'.toUInt8]).length) := by
  have hdrop' : content.drop offset = '['.toUInt8 :: (blank ++ ']'.toUInt8 :: rest) := by
    rw [hdrop]
    simp
  have hinner : content.drop (offset + 1) = blank ++ ']'.toUInt8 :: rest :=
    drop_add_of_drop ['['.toUInt8] rfl hdrop'
  rw [parseArray, byteAt_of_drop_cons hdrop', returned_bind, if_neg (by simp)]
  dsimp only
  rw [bufferSkipWhitespace_eq hblank (by decide) hinner,
    getElem?_of_drop (drop_add_of_drop blank rfl hinner), if_pos rfl]
  congr 2
  simp only [List.length_append, List.length_cons, List.length_nil]
  omega

theorem parseValueWith_nested {V : List UInt8 → Item → Prop} {value : Nat → Run Nat (Item × Nat)}
    (hstarts : ∀ text item, V text item → Starts text) (hvalue : Parses content V value)
    {text rest : List UInt8} {item : Item} (h : Nested V text item)
    (hdrop : content.drop offset = text ++ rest) :
    parseValueWith content allocated (some value) offset =
      .returned (item, offset + text.length) := by
  cases h with
  | emptyArray h =>
    rw [parseValueWith_other hdrop (by decide) (by decide) (by decide), parseOther,
      if_neg (by decide), if_neg (by decide), if_pos rfl, parseArray_empty h value hdrop]
  | array h =>
    rw [parseValueWith_other hdrop (by decide) (by decide) (by decide), parseOther,
      if_neg (by decide), if_neg (by decide), if_pos rfl, parseArray_eq hstarts hvalue h hdrop]
  | emptyObject h =>
    rw [parseValueWith_other hdrop (by decide) (by decide) (by decide), parseOther,
      if_neg (by decide), if_neg (by decide), if_neg (by decide), if_pos rfl,
      parseObject_empty h value hdrop]
  | object h =>
    rw [parseValueWith_other hdrop (by decide) (by decide) (by decide), parseOther,
      if_neg (by decide), if_neg (by decide), if_neg (by decide), if_pos rfl,
      parseObject_eq hstarts hvalue h hdrop]

theorem parseValue_parses (levels : Nat) :
    Parses content (Value levels) (parseValue content allocated levels) := by
  induction levels with
  | zero =>
    intro offset text rest item h hdrop hrest
    exact parseValueWith_scalar h hdrop hrest
  | succ levels ih =>
    intro offset text rest item h hdrop hrest
    rcases h with h | h
    · exact parseValueWith_scalar h hdrop hrest
    · exact parseValueWith_nested (fun text item => Value.starts) ih h hdrop

end Content

/-! ## Texts -/

theorem skipUtf8Bom_eq {text : List UInt8} {b : UInt8} {rest : List UInt8}
    (htext : text = b :: rest) (hb : b ≠ 0xEF) : skipUtf8Bom text = 0 := by
  rw [skipUtf8Bom, if_neg]
  rintro ⟨-, h⟩
  rw [htext, List.take_succ_cons] at h
  exact hb (List.cons.inj h).1

/-- The white space at the end of a text. The `NUL` counts as white space, and is stepped back
to. -/
theorem bufferSkipWhitespace_end {content after : List UInt8} {offset : Nat} (hafter : Blank after)
    (hdrop : content.drop offset = after ++ [0]) :
    bufferSkipWhitespace content offset = offset + after.length := by
  have hall : ∀ b ∈ ascii [' ', '\t', '\n', '\r'], b ≤ 32 := by simp [Char.toUInt8]
  have hskip : (content.drop offset).takeWhile (· ≤ 32) = after ++ [0] := by
    rw [hdrop, List.takeWhile_eq_self_iff]
    intro b hb
    rcases List.mem_append.mp hb with hb | hb
    · simpa using hall b (hafter b hb)
    · rw [List.mem_singleton.mp hb]
      decide
  have hlen := congrArg List.length hdrop
  rw [List.length_drop, List.length_append, List.length_singleton] at hlen
  unfold bufferSkipWhitespace
  dsimp only
  rw [hskip, List.length_append, List.length_singleton, if_pos (by omega)]
  omega

theorem parseRoot_eq {text : List UInt8} {item : Item} (h : JsonText nestingLimit text item)
    (requireNullTerminated : Bool) :
    ∃ parseEnd, parseRoot (text ++ [0]) allocated requireNullTerminated =
      .returned (item, parseEnd) := by
  obtain ⟨before, value, after, rfl, hbefore, hafter, hvalue⟩ := h
  obtain ⟨c, tail, htext, hc⟩ := Value.starts hvalue
  obtain ⟨content, hcontent⟩ : ∃ content, content = before ++ (value ++ after) ++ [0] := ⟨_, rfl⟩
  rw [← hcontent]
  have hdrop : content.drop 0 = before ++ (value ++ (after ++ [0])) := by
    rw [hcontent]
    simp
  have hat := drop_add_of_drop before rfl hdrop
  have hafter' := drop_add_of_drop value rfl hat
  have hend := drop_add_of_drop after rfl hafter'
  have hbom : skipUtf8Bom content = 0 := by
    cases before with
    | nil => exact skipUtf8Bom_eq (hdrop.trans (by rw [htext]; rfl)) hc.spec.2.2
    | cons b before =>
      have hall : ∀ b ∈ ascii [' ', '\t', '\n', '\r'], b ≠ 0xEF := by simp [Char.toUInt8]
      exact skipUtf8Bom_eq hdrop (hall b (hbefore b List.mem_cons_self))
  have hskip : bufferSkipWhitespace content 0 = 0 + before.length :=
    bufferSkipWhitespace_eq hbefore hc.spec.1 (by rw [hdrop, htext]; rfl)
  have hparse := parseValue_parses nestingLimit _ value _ item hvalue hat
    (follows_of_blank hafter (by decide))
  rw [parseRoot, allocate_allocated, returned_bind, hbom, hskip, hparse, returned_bind]
  dsimp only
  unfold checkEnd
  cases requireNullTerminated with
  | false => exact ⟨_, rfl⟩
  | true =>
    rw [if_pos rfl]
    dsimp only
    rw [bufferSkipWhitespace_end hafter hafter', getElem?_of_drop hend, if_pos rfl]
    exact ⟨_, rfl⟩

/-- The parser accepts every JSON text, unless an allocation fails. -/
theorem parse_jsonText (text : CString) (item : Item) (h : JsonText nestingLimit text.bytes item)
    (requireNullTerminated : Bool) (hooks : Allocation → Bool) :
    Ends (∀ call, hooks call = true) (fun r => r.1 = item)
      (parseWithOpts text requireNullTerminated hooks) := by
  obtain ⟨parseEnd, hroot⟩ := parseRoot_eq h requireNullTerminated
  exact parseWithOpts_ends hroot rfl

/-- The text `[true, "\u00e9"]`. -/
def arrayText : CString :=
  ⟨ascii ['[', 't', 'r', 'u', 'e', ',', ' ', '"', '\\', 'u', '0', '0', 'e', '9', '"', ']'],
    by decide⟩

theorem parse_jsonText_array :
    ∃ parseEnd, parseWithOpts arrayText true allocated =
      .returned (.array [.bool true, .string ⟨[0xC3, 0xA9], by decide⟩], parseEnd) := by
  have hdigits : Hex4 (ascii ['0', '0', 'e', '9']) (((0 * 16 + 0) * 16 + 14) * 16 + 9) :=
    .digits (by decide) (by decide) (by decide) (by decide)
  have hchars : Chars (backslash :: 'u'.toUInt8 :: ascii ['0', '0', 'e', '9'] ++ [])
      (String.utf8EncodeChar (Char.ofNat 0xE9) ++ []) :=
    .unicode _ hdigits .nil
  have hspace : Blank (ascii [' ']) := by simp [Blank]
  have helements : Elements (Value 999)
      ([] ++ (trueText ++ ([] ++ ','.toUInt8 :: (ascii [' '] ++ (stringText
        (backslash :: 'u'.toUInt8 :: ascii ['0', '0', 'e', '9'] ++ []) ++ [])))))
      [.bool true, .string ⟨[0xC3, 0xA9], by decide⟩] :=
    .cons blank_nil (.inl .true) blank_nil (.one hspace (.inl (.string hchars)) blank_nil)
  have htext : JsonText nestingLimit arrayText.bytes
      (.array [.bool true, .string ⟨[0xC3, 0xA9], by decide⟩]) :=
    ⟨[], _, [], rfl, blank_nil, blank_nil, .inr (.array helements)⟩
  obtain ⟨r, hrun, hitem⟩ :=
    (parse_jsonText arrayText _ htext true allocated).exists_returned fun _ => rfl
  exact ⟨r.2, hrun.trans (by rw [← hitem])⟩

end Snowflake.CJSON
