import SnowflakeClient.CJson.Parse

/-!
# The parser stays in its memory

Whatever the text is and whichever allocations fail, `snowflake_cJSON_ParseWithOpts` ends, reads no
byte outside of the text and writes no byte outside of a block that it allocated, and what it
returns ends inside of the text. A failed allocation makes it fail, and never gives another item
(`parseWithOpts_ends`).

The step that is not obvious is the string. The first pass allocates one byte for each byte of the
string, less one for each escape sequence that it sees; the second pass decodes the escape
sequences, and need not see the same ones: in `\u000\"` the first pass takes `\"` for an escape
sequence, and the second pass takes the backslash for the last digit of `\u000\`. `tokens` counts
what the first pass would see from any byte on, and no step of the second pass puts more bytes than
the number of tokens that it takes away (`decodeString_inside`).
-/

namespace Snowflake.CJSON

open Run

/-! ## What the first pass sees -/

/-- The escape sequences and the other bytes that the first pass would see from here on. -/
def tokens : List UInt8 → Nat
  | [] => 0
  | [_] => 1
  | c :: d :: rest => if c = backslash then 1 + tokens rest else 1 + tokens (d :: rest)

theorem tokens_cons_of_ne {c : UInt8} (hc : c ≠ backslash) (rest : List UInt8) :
    tokens (c :: rest) = 1 + tokens rest := by
  cases rest with
  | nil => rfl
  | cons d rest => rw [tokens, if_neg hc]

theorem tokens_escape (d : UInt8) (rest : List UInt8) :
    tokens (backslash :: d :: rest) = 1 + tokens rest := by
  rw [tokens, if_pos rfl]

/-- One more byte is at most one more token, and never one less. -/
theorem tokens_cons (c : UInt8) (rest : List UInt8) :
    tokens rest ≤ tokens (c :: rest) ∧ tokens (c :: rest) ≤ 1 + tokens rest := by
  induction rest generalizing c with
  | nil => simp [tokens]
  | cons d rest ih =>
    have hd := ih d
    by_cases hc : c = backslash
    · rw [hc, tokens_escape]
      omega
    · rw [tokens_cons_of_ne hc]
      omega

theorem tokens_le_append (front rest : List UInt8) : tokens rest ≤ tokens (front ++ rest) := by
  induction front with
  | nil => exact le_rfl
  | cons c front ih => exact ih.trans (tokens_cons c _).1

/-- The bytes of a string as the first pass sees them, with the number of escape sequences. -/
inductive Scanned : List UInt8 → Nat → Prop where
  | nil : Scanned [] 0
  | plain {c : UInt8} {body : List UInt8} {k : Nat} (hquote : c ≠ quote) (hc : c ≠ backslash)
      (h : Scanned body k) : Scanned (c :: body) k
  | escape (c : UInt8) {body : List UInt8} {k : Nat} (h : Scanned body k) :
      Scanned (backslash :: c :: body) (k + 1)

theorem Scanned.tokens {body : List UInt8} {k : Nat} (h : Scanned body k) :
    tokens body + k = body.length := by
  induction h with
  | nil => rfl
  | plain hquote hc h ih =>
    rw [tokens_cons_of_ne hc, List.length_cons]
    omega
  | escape c h ih =>
    rw [tokens_escape, List.length_cons, List.length_cons]
    omega

section Text

variable {content : List UInt8}

theorem byteAt_add (i k : Nat) : byteAt content (i + k) = .ofRead (content.drop i)[k]? := by
  rw [byteAt, List.getElem?_drop]

/-- A byte after the bytes `front`. -/
theorem byteAt_of_drop (front : List UInt8) {i k : Nat} {rest : List UInt8} {c : UInt8}
    (hk : front.length = k) (h : content.drop i = front ++ c :: rest) :
    byteAt content (i + k) = .returned c := by
  rw [byteAt_add, h, ← hk, List.getElem?_append_right le_rfl, Nat.sub_self]
  rfl

theorem byteAt_of_drop_cons {i : Nat} {rest : List UInt8} {c : UInt8}
    (h : content.drop i = c :: rest) : byteAt content i = .returned c :=
  byteAt_of_drop [] rfl h

theorem drop_add_of_drop (front : List UInt8) {i k : Nat} {rest : List UInt8}
    (hk : front.length = k) (h : content.drop i = front ++ rest) : content.drop (i + k) = rest := by
  rw [← List.drop_drop, h, ← hk, List.drop_left]

theorem lt_length_of_drop {i : Nat} {c : UInt8} {rest : List UInt8}
    (h : content.drop i = c :: rest) : i < content.length := by
  by_contra hle
  rw [List.drop_of_length_le (by omega)] at h
  cases h

theorem exists_drop {i : Nat} (h : i < content.length) :
    ∃ c rest, content.drop i = c :: rest :=
  ⟨content[i], content.drop (i + 1), List.drop_eq_getElem_cons h⟩

/-- The first pass finds the end of a string, or fails. -/
theorem scanString_inside (start : Nat) {fuel inputEnd : Nat} (skipped : Nat)
    (hend : inputEnd ≤ content.length) (hfuel : content.length < inputEnd + fuel) :
    Inside (fun r => ∃ body k rest, Scanned body k ∧
        content.drop inputEnd = body ++ quote :: rest ∧
        r = (inputEnd + body.length, skipped + k))
      (scanString content start fuel inputEnd skipped) := by
  induction fuel generalizing inputEnd skipped with
  | zero => omega
  | succ fuel ih =>
    rw [scanString]
    by_cases hlt : inputEnd < content.length
    · obtain ⟨c, rest, hdrop⟩ := exists_drop hlt
      rw [if_pos hlt, byteAt_of_drop_cons hdrop, returned_bind]
      split_ifs with hquote hback hshort
      · subst hquote
        exact ⟨[], 0, rest, .nil, hdrop, rfl⟩
      · trivial
      · subst hback
        obtain ⟨d, rest', hrest⟩ : ∃ d rest', rest = d :: rest' := by
          cases rest with
          | nil =>
            have hlen := congrArg List.length hdrop
            rw [List.length_drop, List.length_singleton] at hlen
            omega
          | cons d rest' => exact ⟨d, rest', rfl⟩
        subst hrest
        refine (ih (skipped + 1) (by omega) (by omega)).imp ?_
        rintro _ ⟨body, k, tail, hbody, htail, rfl⟩
        refine ⟨backslash :: d :: body, k + 1, tail, .escape d hbody, ?_, ?_⟩
        · rw [hdrop, List.cons_append, List.cons_append, ← htail]
          exact congrArg (backslash :: d :: ·) (drop_add_of_drop [backslash, d] rfl hdrop).symm
        · rw [List.length_cons, List.length_cons]
          exact Prod.ext (by dsimp only; omega) (by dsimp only; omega)
      · refine (ih skipped (by omega) (by omega)).imp ?_
        rintro _ ⟨body, k, tail, hbody, htail, rfl⟩
        refine ⟨c :: body, k, tail, .plain hquote hback hbody, ?_, ?_⟩
        · rw [hdrop, List.cons_append, ← htail]
          exact congrArg (c :: ·) (drop_add_of_drop [c] rfl hdrop).symm
        · rw [List.length_cons]
          exact Prod.ext (by dsimp only; omega) rfl
    · rw [if_neg hlt]
      trivial

/-! ## The second pass -/

theorem continuationBytes_length (k codepoint : Nat) (after : List UInt8) :
    (continuationBytes k codepoint after).2.length = k + after.length := by
  induction k generalizing codepoint after with
  | zero => simp [continuationBytes]
  | succ k ih =>
    rw [continuationBytes, ih, List.length_cons]
    omega

theorem encodeUtf8_length {length : Nat} (hpos : 0 < length) (mark codepoint : Nat) :
    (encodeUtf8 length mark codepoint).length = length := by
  have hafter := continuationBytes_length (length - 1) codepoint []
  rw [List.length_nil] at hafter
  unfold encodeUtf8
  split_ifs <;> rw [List.length_cons, hafter] <;> omega

/-- A code point that one UTF-16 literal can give has at most three bytes. -/
theorem utf8_length {codepoint : Nat} {bytes : List UInt8} (h : utf8 codepoint = some bytes) :
    bytes.length ≤ 4 ∧ (codepoint < 0x10000 → bytes.length ≤ 3) ∧
      (codepoint = 0 → bytes.length = 1) := by
  unfold utf8 at h
  split_ifs at h with h1 h2 h3 h4
  all_goals
    cases h
    rw [encodeUtf8_length (by norm_num)]
    omega

/-- The number of four hexadecimal digits, and 0 if one of them is none. -/
def hex4 (a b c d : UInt8) : Nat :=
  match hexDigit a, hexDigit b, hexDigit c, hexDigit d with
  | some a, some b, some c, some d => ((a * 16 + b) * 16 + c) * 16 + d
  | _, _, _, _ => 0

theorem parseHex4_eq {i : Nat} {a b c d : UInt8} {rest : List UInt8}
    (h : content.drop i = a :: b :: c :: d :: rest) :
    parseHex4 content i = .returned (hex4 a b c d) := by
  have ha : byteAt content i = .returned a := byteAt_of_drop_cons h
  have hb : byteAt content (i + 1) = .returned b := byteAt_of_drop [a] rfl h
  have hc : byteAt content (i + 1 + 1) = .returned c := byteAt_of_drop (i := i) [a, b] rfl h
  have hd : byteAt content (i + 1 + 1 + 1) = .returned d := byteAt_of_drop (i := i) [a, b, c] rfl h
  unfold parseHex4 hex4
  cases hdigit : hexDigit a with
  | none => simp [parseHexDigits, ha, hdigit]
  | some va =>
    cases hdigit' : hexDigit b with
    | none => simp [parseHexDigits, ha, hb, hdigit, hdigit']
    | some vb =>
      cases hdigit'' : hexDigit c with
      | none => simp [parseHexDigits, ha, hb, hc, hdigit, hdigit', hdigit'']
      | some vc =>
        cases hdigit''' : hexDigit d with
        | none => simp [parseHexDigits, ha, hb, hc, hd, hdigit, hdigit', hdigit'', hdigit''']
        | some vd => simp [parseHexDigits, ha, hb, hc, hd, hdigit, hdigit', hdigit'', hdigit''']

theorem hexDigit_lt {b : UInt8} {v : Nat} (h : hexDigit b = some v) : v < 16 := by
  unfold hexDigit at h
  simp only [UInt8.le_iff_toNat_le] at h
  have h0 : '0'.toUInt8.toNat = 48 ∧ '9'.toUInt8.toNat = 57 ∧ '0'.toNat = 48 := by decide
  have hA : 'A'.toUInt8.toNat = 65 ∧ 'F'.toUInt8.toNat = 70 ∧ 'A'.toNat = 65 := by decide
  have ha : 'a'.toUInt8.toNat = 97 ∧ 'f'.toUInt8.toNat = 102 ∧ 'a'.toNat = 97 := by decide
  split_ifs at h <;> cases h <;> omega

theorem exists_four (body : List UInt8) (h : 4 ≤ body.length) :
    ∃ a b c d rest, body = a :: b :: c :: d :: rest := by
  rcases body with _ | ⟨a, _ | ⟨b, _ | ⟨c, _ | ⟨d, rest⟩⟩⟩⟩
  case cons.cons.cons.cons => exact ⟨a, b, c, d, rest, rfl⟩
  all_goals simp at h

/-- A number that is not 0 has four digits, none of which is a backslash. -/
theorem hex4_spec (a b c d : UInt8) :
    hex4 a b c d < 0x10000 ∧ (hex4 a b c d ≠ 0 → backslash ∉ [a, b, c, d]) := by
  have hback : hexDigit backslash = none := by decide
  unfold hex4
  split
  next va vb vc vd ha hb hc hd =>
    have := hexDigit_lt ha
    have := hexDigit_lt hb
    have := hexDigit_lt hc
    have := hexDigit_lt hd
    refine ⟨by omega, fun _ hmem => ?_⟩
    simp only [List.mem_cons, List.not_mem_nil, or_false] at hmem
    rcases hmem with rfl | rfl | rfl | rfl <;> simp_all
  next => simp

theorem tokens_append_of_notMem {front : List UInt8} (h : backslash ∉ front) (rest : List UInt8) :
    tokens (front ++ rest) = front.length + tokens rest := by
  induction front with
  | nil => simp
  | cons c front ih =>
    rw [List.mem_cons, not_or] at h
    rw [List.cons_append, tokens_cons_of_ne (Ne.symm h.1), ih h.2, List.length_cons]
    omega

/-- What a UTF-16 literal takes away from the string, and what it puts for it. -/
def Decodes (body : List UInt8) (r : Option (List UInt8 × Nat)) : Prop :=
  ∀ bytes sequenceLength, r = some (bytes, sequenceLength) →
    ∃ front rest, body = front ++ rest ∧ front.length = sequenceLength ∧ 0 < sequenceLength ∧
      bytes.length + tokens rest ≤ tokens body

theorem decodes_none (body : List UInt8) : Decodes body none := by
  intro bytes sequenceLength h
  cases h

theorem decodes_utf8 (front : List UInt8) {body rest : List UInt8} {codepoint n : Nat}
    (hbody : body = front ++ rest) (hlen : front.length = n) (hn : 0 < n)
    (htokens : ∀ bytes, utf8 codepoint = some bytes → bytes.length + tokens rest ≤ tokens body) :
    Decodes body ((utf8 codepoint).map (·, n)) := by
  intro bytes sequenceLength h
  obtain ⟨bytes', hbytes, heq⟩ := Option.map_eq_some_iff.mp h
  cases heq
  exact ⟨front, rest, hbody, hlen, hn, htokens bytes hbytes⟩

/-- The digits of a literal are one token each. -/
theorem tokens_literal {a b c d : UInt8} (h : hex4 a b c d ≠ 0) (rest : List UInt8) :
    tokens (backslash :: 'u'.toUInt8 :: a :: b :: c :: d :: rest) = 5 + tokens rest := by
  have hdigits := tokens_append_of_notMem ((hex4_spec a b c d).2 h) rest
  have hlen : [a, b, c, d].length = 4 := rfl
  rw [tokens_escape]
  rw [hlen] at hdigits
  exact (congrArg (1 + ·) hdigits).trans (by omega)

theorem lowSurrogate_inside {i inputEnd : Nat} {body after : List UInt8}
    (hdrop : content.drop i = body ++ after) (hend : inputEnd = i + body.length) :
    Inside (fun r => ∀ code, r = some code → ∃ a b c d rest, hex4 a b c d ≠ 0 ∧
        body = backslash :: 'u'.toUInt8 :: a :: b :: c :: d :: rest)
      (lowSurrogate content i inputEnd) := by
  have hnone : ∀ code : Nat, (none : Option Nat) = some code →
      ∃ a b c d rest, hex4 a b c d ≠ 0 ∧
        body = backslash :: 'u'.toUInt8 :: a :: b :: c :: d :: rest := by
    intro code h
    cases h
  unfold lowSurrogate
  by_cases hshort : inputEnd - i < 6
  · rw [if_pos hshort]
    exact hnone
  rw [if_neg hshort]
  obtain ⟨x, y, digits, rfl⟩ : ∃ x y digits, body = x :: y :: digits := by
    rcases body with _ | ⟨x, _ | ⟨y, digits⟩⟩
    case cons.cons => exact ⟨x, y, digits, rfl⟩
    all_goals simp at hend; omega
  rw [hend, List.length_cons, List.length_cons] at hshort
  obtain ⟨a, b, c, d, rest, rfl⟩ := exists_four digits (by omega)
  have hbyte : byteAt content (i + 1) = .returned y := byteAt_of_drop [x] rfl hdrop
  have hcode : parseHex4 content (i + 2) = .returned (hex4 a b c d) :=
    parseHex4_eq (drop_add_of_drop [x, y] rfl hdrop)
  rw [byteAt_of_drop_cons hdrop, returned_bind]
  by_cases hx : x ≠ backslash
  · rw [if_pos hx]
    exact hnone
  rw [if_neg hx, hbyte, returned_bind]
  by_cases hy : y ≠ 'u'.toUInt8
  · rw [if_pos hy]
    exact hnone
  rw [if_neg hy, hcode, returned_bind]
  by_cases hrange : hex4 a b c d < 0xDC00 ∨ 0xDFFF < hex4 a b c d
  · rw [if_pos hrange]
    exact hnone
  rw [if_neg hrange]
  intro code _
  rw [not_not] at hx hy
  exact ⟨a, b, c, d, rest, by omega, by rw [hx, hy]⟩

theorem utf16LiteralToUtf8_inside {inputPointer inputEnd : Nat} {body after : List UInt8}
    (hdrop : content.drop inputPointer = backslash :: 'u'.toUInt8 :: body ++ after)
    (hend : inputEnd = inputPointer + (backslash :: 'u'.toUInt8 :: body).length) :
    Inside (Decodes (backslash :: 'u'.toUInt8 :: body))
      (utf16LiteralToUtf8 content inputPointer inputEnd) := by
  unfold utf16LiteralToUtf8
  by_cases hshort : inputEnd - inputPointer < 6
  · rw [if_pos hshort]
    exact decodes_none _
  rw [if_neg hshort]
  rw [hend, List.length_cons, List.length_cons] at hshort
  obtain ⟨a, b, c, d, rest, rfl⟩ := exists_four body (by omega)
  have hlt := (hex4_spec a b c d).1
  have hcode : parseHex4 content (inputPointer + 2) = .returned (hex4 a b c d) :=
    parseHex4_eq (drop_add_of_drop [backslash, 'u'.toUInt8] rfl hdrop)
  rw [hcode, returned_bind]
  by_cases hlow : 0xDC00 ≤ hex4 a b c d ∧ hex4 a b c d ≤ 0xDFFF
  · rw [if_pos hlow]
    exact decodes_none _
  rw [if_neg hlow]
  by_cases hhigh : 0xD800 ≤ hex4 a b c d ∧ hex4 a b c d ≤ 0xDBFF
  · -- two literals, of five tokens each, for at most four bytes
    have hsecond : content.drop (inputPointer + 6) = rest ++ after :=
      drop_add_of_drop [backslash, 'u'.toUInt8, a, b, c, d] rfl hdrop
    rw [if_pos hhigh]
    refine (lowSurrogate_inside hsecond (by simp [hend]; omega)).bind ?_
    rintro (_ | code) hcode
    · exact decodes_none _
    · obtain ⟨a', b', c', d', rest', hne, rfl⟩ := hcode code rfl
      refine decodes_utf8
        [backslash, 'u'.toUInt8, a, b, c, d, backslash, 'u'.toUInt8, a', b', c', d'] rfl rfl
        (by norm_num) ?_
      intro bytes hbytes
      have hfour := (utf8_length hbytes).1
      rw [tokens_literal (by omega), tokens_literal hne]
      omega
  · rw [if_neg hhigh]
    refine decodes_utf8 [backslash, 'u'.toUInt8, a, b, c, d] rfl rfl (by norm_num) ?_
    intro bytes hbytes
    obtain ⟨-, hthree, hone⟩ := utf8_length hbytes
    by_cases hzero : hex4 a b c d = 0
    · -- a byte that is no digit, but perhaps a backslash
      rw [hone hzero, tokens_escape]
      exact Nat.add_le_add_left (tokens_le_append [a, b, c, d] rest) 1
    · have := hthree hlt
      rw [tokens_literal hzero]
      omega

/-- The second pass after the end of the string. The last escape sequence may have taken the closing
quote away. -/
theorem decodeString_done {inputEnd fuel inputPointer : Nat} (h : inputEnd ≤ inputPointer)
    (hfuel : 0 < fuel) (output : Block) (outputPointer : Nat) :
    decodeString content inputEnd fuel inputPointer output outputPointer =
      .returned (output, outputPointer) := by
  cases fuel with
  | zero => omega
  | succ fuel => rw [decodeString, if_neg (by omega)]

/-- A block with `done` written to it, and room for the rest. -/
def Filled (room : Nat) (output : Block) (outputPointer : Nat) : Prop :=
  ∃ (done : List UInt8) (free : List (Option UInt8)), output.bytes = done.map some ++ free ∧
    done.length = outputPointer ∧ room < free.length

theorem Filled.write {room : Nat} {output : Block} {outputPointer : Nat}
    (h : Filled room output outputPointer) (room' : Nat) (bytes : List UInt8)
    (hle : bytes.length + room' ≤ room) :
    Inside (fun output' => Filled room' output' (outputPointer + bytes.length))
      (output.write outputPointer bytes : Run Nat Block) := by
  obtain ⟨done, free, hbytes, hlen, hroom⟩ := h
  obtain ⟨content⟩ := output
  obtain rfl : content = done.map some ++ free := hbytes
  rw [Block.write_map_append hlen (by omega)]
  refine ⟨done ++ bytes, free.drop bytes.length, rfl, ?_, ?_⟩
  · rw [List.length_append, hlen]
  · rw [List.length_drop]
    omega

/-- The second pass puts at most one byte for each token. -/
theorem decodeString_inside {inputEnd fuel inputPointer : Nat} {body after : List UInt8}
    {output : Block} {outputPointer : Nat}
    (hdrop : content.drop inputPointer = body ++ quote :: after)
    (hend : inputEnd = inputPointer + body.length) (hfuel : body.length < fuel)
    (hroom : Filled (tokens body) output outputPointer) :
    Inside (fun r => Filled 0 r.1 r.2)
      (decodeString content inputEnd fuel inputPointer output outputPointer) := by
  induction fuel generalizing inputPointer body output outputPointer with
  | zero => omega
  | succ fuel ih =>
    cases body with
    | nil =>
      rw [decodeString_done (by simp [hend]) (by omega)]
      exact hroom
    | cons c body =>
      rw [List.length_cons] at hend hfuel
      rw [decodeString, if_pos (by omega), byteAt_of_drop_cons hdrop, returned_bind]
      by_cases hc : c ≠ backslash
      · rw [if_pos hc]
        rw [tokens_cons_of_ne hc] at hroom
        have hwrite := hroom.write (tokens body) [c] (by simp)
        exact hwrite.bind fun output' h =>
          ih (drop_add_of_drop [c] rfl hdrop) (by omega) (by omega) h
      rw [if_neg hc]
      rw [not_not] at hc
      subst hc
      cases body with
      | nil =>
        have hbyte : byteAt content (inputPointer + 1) = .returned quote :=
          byteAt_of_drop [backslash] rfl hdrop
        have hunescape : unescape quote = some quote := by decide
        rw [hbyte, returned_bind, if_neg (by decide), hunescape]
        refine (hroom.write 0 [quote] (by simp [tokens])).bind fun output' h => ?_
        rw [decodeString_done (by simp at hend; omega) (by omega)]
        exact h
      | cons e body =>
        have hbyte : byteAt content (inputPointer + 1) = .returned e :=
          byteAt_of_drop [backslash] rfl hdrop
        rw [hbyte, returned_bind]
        by_cases he : e = 'u'.toUInt8
        · subst he
          rw [if_pos rfl]
          refine (utf16LiteralToUtf8_inside hdrop (by simpa using hend)).bind ?_
          rintro (_ | ⟨bytes, sequenceLength⟩) hdecodes
          · trivial
          · obtain ⟨front, rest, hbody, hlen, hpos, htokens⟩ := hdecodes bytes sequenceLength rfl
            have hlength := congrArg List.length hbody
            rw [hbody, List.append_assoc] at hdrop
            simp only [List.length_cons, List.length_append] at hlength hend hfuel
            refine (hroom.write (tokens rest) bytes htokens).bind fun output' h => ?_
            exact ih (drop_add_of_drop front hlen hdrop) (by omega) (by omega) h
        · rw [if_neg he]
          rw [tokens_escape] at hroom
          cases unescape e with
          | none => trivial
          | some b =>
            refine (hroom.write (tokens body) [b] (by simp)).bind fun output' h => ?_
            rw [List.length_cons] at hend hfuel
            exact ih (drop_add_of_drop [backslash, e] rfl hdrop) (by omega) (by omega) h

end Text

/-! ## Values -/

section Nul

variable {text : List UInt8} {offset : Nat}

/-- A byte of the text, which is not the `NUL` after it. -/
theorem lt_of_getElem {c : UInt8} (hc : c ≠ 0) (h : (text ++ [0])[offset]? = some c) :
    offset < text.length := by
  by_contra hle
  rw [List.getElem?_append_right (by omega)] at h
  have hmem := List.mem_of_getElem? h
  exact hc (List.mem_singleton.mp hmem)

theorem lt_of_drop {c : UInt8} (hc : c ≠ 0) {front rest : List UInt8}
    (h : (text ++ [0]).drop offset = front ++ c :: rest) : offset + front.length < text.length := by
  apply lt_of_getElem hc
  rw [← List.getElem?_drop, h, List.getElem?_append_right le_rfl, Nat.sub_self]
  rfl

theorem lt_of_drop_cons {c : UInt8} (hc : c ≠ 0) {rest : List UInt8}
    (h : (text ++ [0]).drop offset = c :: rest) : offset < text.length := by
  have hlt : offset + ([] : List UInt8).length < text.length := lt_of_drop hc h
  simpa using hlt

theorem bufferSkipWhitespace_bounds (h : offset ≤ text.length) :
    offset ≤ bufferSkipWhitespace (text ++ [0]) offset ∧
      bufferSkipWhitespace (text ++ [0]) offset ≤ text.length := by
  have hle := (List.takeWhile_prefix (p := fun b : UInt8 => decide (b ≤ 32))
    (l := (text ++ [0]).drop offset)).length_le
  rw [List.length_drop] at hle
  have hlen : (text ++ [0]).length = text.length + 1 := by simp
  unfold bufferSkipWhitespace
  dsimp only
  split_ifs <;> omega

variable {hooks : Allocation → Bool}

theorem allocate_inside (call : Allocation) (position : Nat) :
    Inside (fun _ => True) (allocate hooks call position) := by
  unfold allocate
  split_ifs <;> trivial

/-- The run returns at an offset further on in the text. -/
def Advances (text : List UInt8) (offset : Nat) {α : Type} (r : α × Nat) : Prop :=
  offset < r.2 ∧ r.2 ≤ text.length

theorem parseString_inside (h : offset ≤ text.length) :
    Inside (Advances text offset) (parseString (text ++ [0]) hooks offset) := by
  have hlen : (text ++ [0]).length = text.length + 1 := by simp
  obtain ⟨c, rest, hdrop⟩ := exists_drop (show offset < (text ++ [0]).length by omega)
  rw [parseString, byteAt_of_drop_cons hdrop, returned_bind]
  split_ifs with hquote
  · trivial
  refine (scanString_inside (offset + 1) 0 (by omega) (by omega)).bind ?_
  rintro _ ⟨body, k, after, hbody, hafter, rfl⟩
  refine (allocate_inside _ _).bind fun _ _ => ?_
  have hend := lt_of_drop (by decide) hafter
  have htokens := hbody.tokens
  have hfilled : Filled (tokens body)
      (Block.realloc none (offset + 1 + body.length - offset - (0 + k) + 1)) 0 := by
    rw [Block.realloc_none]
    refine ⟨[], _, (List.nil_append _).symm, rfl, ?_⟩
    rw [List.length_replicate]
    omega
  refine (decodeString_inside hafter rfl (by omega) hfilled).bind ?_
  rintro ⟨output, outputPointer⟩ ⟨done, free, hbytes, hdone, hroom⟩
  obtain ⟨content⟩ := output
  obtain rfl : content = done.map some ++ free := hbytes
  obtain ⟨x, free, rfl⟩ := List.exists_cons_of_length_pos hroom
  dsimp only at hdone ⊢
  rw [Block.write_map_append hdone (by simp), returned_bind]
  have hstring : (Block.string ⟨(done ++ [0]).map some ++ (x :: free).drop [(0 : UInt8)].length⟩ 0 :
      Run Nat CString) = .returned (CString.ofBytes done) := by
    rw [List.map_append, List.append_assoc]
    exact Block.stringOf_append done free
  rw [hstring, returned_bind]
  exact ⟨by dsimp only; omega, by dsimp only; omega⟩

theorem length_takeWhile_le (text : List UInt8) {p : UInt8 → Bool} (hp : p 0 = false) (n : Nat) :
    (((text ++ [0]).take n).takeWhile p).length ≤ text.length := by
  by_contra hlt
  have hprefix : ((text ++ [0]).take n).takeWhile p <+: text ++ [0] :=
    (List.takeWhile_prefix _).trans (List.take_prefix _ _)
  have hall := hprefix.eq_of_length_le (by rw [List.length_append, List.length_singleton]; omega)
  have hzero : (0 : UInt8) ∈ ((text ++ [0]).take n).takeWhile p := by
    rw [hall]
    simp
  have htrue := List.mem_takeWhile_imp hzero
  rw [hp] at htrue
  cases htrue

theorem parseNumber_inside (h : offset ≤ text.length) :
    Inside (Advances text offset) (parseNumber (text ++ [0]) offset) := by
  have hbytes := length_takeWhile_le (text.drop offset) (p := isNumberByte) (by decide) 63
  rw [List.length_drop, ← List.drop_append_of_le_length h] at hbytes
  unfold parseNumber
  dsimp only
  generalize (((text ++ [0]).drop offset).take 63).takeWhile isNumberByte = bytes at hbytes ⊢
  cases hread : CDouble.strtod (bytes.map Char.ofUInt8) with
  | none => trivial
  | some r =>
    have hrest := CDouble.strtod_rest hread
    rw [List.length_map] at hrest
    exact ⟨by dsimp only; omega, by dsimp only; omega⟩

/-- What is parsed one level deeper stays in the text. -/
def StaysIn (text : List UInt8) (value : Nat → Run Nat (Item × Nat)) : Prop :=
  ∀ offset, offset ≤ text.length → Inside (Advances text offset) (value offset)

variable {value : Nat → Run Nat (Item × Nat)}

theorem parseElements_inside (hvalue : StaysIn text value) {fuel : Nat}
    (hoffset : offset < text.length) (hfuel : text.length ≤ offset + fuel) :
    Inside (Advances text offset) (parseElements (text ++ [0]) hooks value fuel offset) := by
  induction fuel generalizing offset with
  | zero => omega
  | succ fuel ih =>
    have hskip := bufferSkipWhitespace_bounds (show offset + 1 ≤ text.length by omega)
    rw [parseElements]
    refine (allocate_inside _ _).bind fun _ _ => ?_
    refine (hvalue _ hskip.2).bind ?_
    rintro ⟨item, next⟩ ⟨hlt, hle⟩
    dsimp only at hlt hle ⊢
    have hskip' := bufferSkipWhitespace_bounds hle
    split_ifs with hcomma
    · have hbound := lt_of_getElem (by decide) hcomma
      refine (ih hbound (by omega)).bind ?_
      rintro ⟨items, last⟩ ⟨hlt', hle'⟩
      exact ⟨by dsimp only at *; omega, hle'⟩
    · exact ⟨by dsimp only; omega, hskip'.2⟩

theorem parseArray_inside (hvalue : StaysIn text value) (h : offset ≤ text.length) :
    Inside (Advances text offset) (parseArray (text ++ [0]) hooks (some value) offset) := by
  have hlen : (text ++ [0]).length = text.length + 1 := by simp
  obtain ⟨c, rest, hdrop⟩ := exists_drop (show offset < (text ++ [0]).length by omega)
  rw [parseArray, byteAt_of_drop_cons hdrop, returned_bind]
  split_ifs with hbracket
  · trivial
  have hlt : offset < text.length := by
    rw [not_not] at hbracket
    subst hbracket
    exact lt_of_drop_cons (by decide) hdrop
  have hskip := bufferSkipWhitespace_bounds (show offset + 1 ≤ text.length by omega)
  dsimp only
  split_ifs with hclose hend
  · have := lt_of_getElem (by decide) hclose
    exact ⟨by dsimp only; omega, by dsimp only; omega⟩
  · trivial
  · refine (parseElements_inside hvalue (by omega) (by omega)).bind ?_
    rintro ⟨items, last⟩ ⟨hlt', hle'⟩
    dsimp only at hlt' hle' ⊢
    split_ifs with hclose'
    · have := lt_of_getElem (by decide) hclose'
      exact ⟨by dsimp only; omega, by dsimp only; omega⟩
    · trivial

theorem parseName_inside (hoffset : offset < text.length) :
    Inside (fun r : CString × Nat => offset < r.2 ∧ r.2 < text.length)
      (parseName (text ++ [0]) hooks offset) := by
  have hskip := bufferSkipWhitespace_bounds (show offset + 1 ≤ text.length by omega)
  rw [parseName]
  refine (parseString_inside hskip.2).bind ?_
  rintro ⟨name, next⟩ ⟨hlt, hle⟩
  dsimp only at hlt hle ⊢
  have hskip' := bufferSkipWhitespace_bounds hle
  split_ifs with hcolon
  · exact ⟨by dsimp only; omega, lt_of_getElem (by decide) hcolon⟩
  · trivial

theorem parseMembers_inside (hvalue : StaysIn text value) {fuel : Nat}
    (hoffset : offset < text.length) (hfuel : text.length ≤ offset + fuel) :
    Inside (Advances text offset) (parseMembers (text ++ [0]) hooks value fuel offset) := by
  induction fuel generalizing offset with
  | zero => omega
  | succ fuel ih =>
    rw [parseMembers]
    refine (allocate_inside _ _).bind fun _ _ => ?_
    refine (parseName_inside hoffset).bind ?_
    rintro ⟨name, colon⟩ ⟨hlt, hbound⟩
    dsimp only at hlt hbound ⊢
    have hskip := bufferSkipWhitespace_bounds (show colon + 1 ≤ text.length by omega)
    refine (hvalue _ hskip.2).bind ?_
    rintro ⟨item, next⟩ ⟨hlt', hle'⟩
    dsimp only at hlt' hle' ⊢
    have hskip' := bufferSkipWhitespace_bounds hle'
    split_ifs with hcomma
    · have hbound' := lt_of_getElem (by decide) hcomma
      refine (ih hbound' (by omega)).bind ?_
      rintro ⟨members, last⟩ ⟨hlt'', hle''⟩
      exact ⟨by dsimp only at *; omega, hle''⟩
    · exact ⟨by dsimp only; omega, hskip'.2⟩

theorem parseObject_inside (hvalue : StaysIn text value) :
    Inside (Advances text offset) (parseObject (text ++ [0]) hooks (some value) offset) := by
  have hlen : (text ++ [0]).length = text.length + 1 := by simp
  rw [parseObject]
  split_ifs with hbrace
  · trivial
  have hlt := lt_of_getElem (by decide) (not_not.mp hbrace)
  have hskip := bufferSkipWhitespace_bounds (show offset + 1 ≤ text.length by omega)
  dsimp only
  split_ifs with hclose hend
  · have := lt_of_getElem (by decide) hclose
    exact ⟨by dsimp only; omega, by dsimp only; omega⟩
  · trivial
  · refine (parseMembers_inside hvalue (by omega) (by omega)).bind ?_
    rintro ⟨members, last⟩ ⟨hlt', hle'⟩
    dsimp only at hlt' hle' ⊢
    split_ifs with hclose'
    · have := lt_of_getElem (by decide) hclose'
      exact ⟨by dsimp only; omega, by dsimp only; omega⟩
    · trivial

theorem startsWith_bound {word : List UInt8} (hne : word ≠ []) (hnul : 0 ∉ word)
    (h : startsWith (text ++ [0]) word offset) : offset + word.length ≤ text.length := by
  obtain ⟨front, c, rfl⟩ := (List.eq_nil_or_concat' word).resolve_left hne
  have htake := eq_of_beq h
  have hdrop := List.take_append_drop (front ++ [c]).length ((text ++ [0]).drop offset)
  rw [htake, List.append_assoc] at hdrop
  have hc : c ≠ 0 := by
    rintro rfl
    exact hnul (by simp)
  have hlt := lt_of_drop hc hdrop.symm
  rw [List.length_append, List.length_singleton]
  omega

theorem parseValueWith_inside {value : Option (Nat → Run Nat (Item × Nat))}
    (hvalue : ∀ v ∈ value, StaysIn text v) :
    StaysIn text (parseValueWith (text ++ [0]) hooks value) := by
  intro offset h
  rw [parseValueWith]
  split_ifs with hnull hfalse htrue
  · exact ⟨by dsimp only; omega, startsWith_bound (by decide) (by decide) hnull⟩
  · exact ⟨by dsimp only; omega, startsWith_bound (by decide) (by decide) hfalse⟩
  · exact ⟨by dsimp only; omega, startsWith_bound (by decide) (by decide) htrue⟩
  cases hc : (text ++ [0])[offset]? with
  | none => trivial
  | some c =>
    dsimp only [parseOther]
    split_ifs with hquote hnumber harray hobject
    · refine (parseString_inside h).bind ?_
      rintro ⟨valuestring, next⟩ hadvances
      exact hadvances
    · exact parseNumber_inside h
    · cases value with
      | none => trivial
      | some value => exact parseArray_inside (hvalue value rfl) h
    · cases value with
      | none => trivial
      | some value => exact parseObject_inside (hvalue value rfl)
    · trivial

theorem parseValue_inside (levels : Nat) :
    StaysIn text (parseValue (text ++ [0]) hooks levels) := by
  induction levels with
  | zero =>
    apply parseValueWith_inside
    intro v hv
    cases hv
  | succ levels ih =>
    apply parseValueWith_inside
    intro v hv
    cases hv
    exact ih

end Nul

theorem checkEnd_inside {text : List UInt8} {offset : Nat} (requireNullTerminated : Bool)
    (h : offset ≤ text.length) :
    Inside (· ≤ text.length) (checkEnd (text ++ [0]) requireNullTerminated offset) := by
  have hskip := bufferSkipWhitespace_bounds h
  unfold checkEnd
  dsimp only
  split_ifs
  · exact hskip.2
  · trivial
  · exact h

theorem parseRoot_inside (text : List UInt8) (requireNullTerminated : Bool)
    (hooks : Allocation → Bool) :
    Inside (fun r => r.2 ≤ text.length) (parseRoot (text ++ [0]) hooks requireNullTerminated) := by
  have hlen : (text ++ [0]).length = text.length + 1 := by simp
  have hbom : skipUtf8Bom (text ++ [0]) ≤ text.length := by
    unfold skipUtf8Bom
    split_ifs <;> omega
  refine (allocate_inside _ _).bind fun _ _ => ?_
  refine (parseValue_inside nestingLimit _ (bufferSkipWhitespace_bounds hbom).2).bind ?_
  rintro ⟨item, offset⟩ ⟨-, hle⟩
  exact (checkEnd_inside requireNullTerminated hle).bind fun offset' h => h

/-- Every text is parsed inside of its memory, whichever allocations fail. The end of what was
parsed, and the place of an error, are in the text. -/
theorem parse_inside (value : CString) (requireNullTerminated : Bool)
    (hooks : Allocation → Bool) :
    (∃ position, position ≤ value.bytes.length ∧
      parseWithOpts value requireNullTerminated hooks = .raised position) ∨
    ∃ item parseEnd, parseEnd ≤ value.bytes.length ∧
      parseWithOpts value requireNullTerminated hooks = .returned (item, parseEnd) := by
  have hinside := parseRoot_inside value.bytes requireNullTerminated hooks
  unfold parseWithOpts
  dsimp only
  cases hrun : parseRoot (value.bytes ++ [0]) hooks requireNullTerminated with
  | outside => exact ((hrun ▸ hinside).ne_outside rfl).elim
  | raised position =>
    have hlen : (value.bytes ++ [0]).length = value.bytes.length + 1 := by simp
    left
    refine ⟨_, ?_, rfl⟩
    split_ifs <;> omega
  | returned r =>
    rw [hrun] at hinside
    exact .inr ⟨r.1, r.2, hinside, rfl⟩

/-! ## Failing allocations -/

/-- No allocation fails. -/
def allocated : Allocation → Bool := fun _ => true

theorem allocate_allocated (call : Allocation) (position : Nat) :
    allocate allocated call position = .returned () := rfl

section RaisesOr

variable (content : List UInt8) (hooks : Allocation → Bool)

theorem allocate_raisesOr (call : Allocation) (position : Nat) :
    RaisesOr (allocate hooks call position) (allocate allocated call position) := by
  rw [allocate_allocated, allocate]
  split_ifs
  · exact .refl _
  · exact .inl ⟨_, rfl⟩

theorem parseString_raisesOr (offset : Nat) :
    RaisesOr (parseString content hooks offset) (parseString content allocated offset) := by
  unfold parseString
  refine .bind (.refl _) fun c => ?_
  split_ifs
  · exact .refl _
  · exact .bind (.refl _) fun r => .bind (allocate_raisesOr ..) fun _ => .refl _

theorem parseName_raisesOr (offset : Nat) :
    RaisesOr (parseName content hooks offset) (parseName content allocated offset) :=
  .bind (parseString_raisesOr ..) fun _ => .refl _

variable {value value' : Nat → Run Nat (Item × Nat)}
  (hvalue : ∀ offset, RaisesOr (value offset) (value' offset))

include hvalue

theorem parseElements_raisesOr (fuel offset : Nat) :
    RaisesOr (parseElements content hooks value fuel offset)
      (parseElements content allocated value' fuel offset) := by
  induction fuel generalizing offset with
  | zero => exact .refl _
  | succ fuel ih =>
    refine .bind (allocate_raisesOr ..) fun _ => .bind (hvalue _) fun r => ?_
    dsimp only
    split_ifs
    · exact .bind (ih _) fun _ => .refl _
    · exact .refl _

theorem parseMembers_raisesOr (fuel offset : Nat) :
    RaisesOr (parseMembers content hooks value fuel offset)
      (parseMembers content allocated value' fuel offset) := by
  induction fuel generalizing offset with
  | zero => exact .refl _
  | succ fuel ih =>
    refine .bind (allocate_raisesOr ..) fun _ => .bind (parseName_raisesOr ..) fun _ =>
      .bind (hvalue _) fun r => ?_
    dsimp only
    split_ifs
    · exact .bind (ih _) fun _ => .refl _
    · exact .refl _

theorem parseArray_raisesOr (offset : Nat) :
    RaisesOr (parseArray content hooks (some value) offset)
      (parseArray content allocated (some value') offset) := by
  refine .bind (.refl _) fun c => ?_
  dsimp only
  split_ifs
  · exact .refl _
  · exact .refl _
  · exact .refl _
  · exact .bind (parseElements_raisesOr content hooks hvalue ..) fun _ => .refl _

theorem parseObject_raisesOr (offset : Nat) :
    RaisesOr (parseObject content hooks (some value) offset)
      (parseObject content allocated (some value') offset) := by
  unfold parseObject
  dsimp only
  split_ifs
  · exact .refl _
  · exact .refl _
  · exact .refl _
  · exact .bind (parseMembers_raisesOr content hooks hvalue ..) fun _ => .refl _

omit hvalue in
theorem parseValueWith_raisesOr {value value' : Option (Nat → Run Nat (Item × Nat))}
    (hvalue : Option.Rel (fun v v' => ∀ offset, RaisesOr (v offset) (v' offset)) value value')
    (offset : Nat) :
    RaisesOr (parseValueWith content hooks value offset)
      (parseValueWith content allocated value' offset) := by
  unfold parseValueWith
  split_ifs
  · exact .refl _
  · exact .refl _
  · exact .refl _
  cases content[offset]? with
  | none => exact .refl _
  | some c =>
    dsimp only [parseOther]
    split_ifs
    · exact .bind (parseString_raisesOr ..) fun _ => .refl _
    · exact .refl _
    · cases hvalue with
      | none => exact .refl _
      | some hvalue => exact parseArray_raisesOr content hooks hvalue offset
    · cases hvalue with
      | none => exact .refl _
      | some hvalue => exact parseObject_raisesOr content hooks hvalue offset
    · exact .refl _

omit hvalue in
theorem parseValue_raisesOr (levels offset : Nat) :
    RaisesOr (parseValue content hooks levels offset)
      (parseValue content allocated levels offset) := by
  induction levels generalizing offset with
  | zero => exact parseValueWith_raisesOr content hooks .none offset
  | succ levels ih => exact parseValueWith_raisesOr content hooks (.some ih) offset

omit hvalue in
theorem parseRoot_raisesOr (requireNullTerminated : Bool) :
    RaisesOr (parseRoot content hooks requireNullTerminated)
      (parseRoot content allocated requireNullTerminated) :=
  .bind (allocate_raisesOr ..) fun _ => .bind (parseValue_raisesOr ..) fun _ => .refl _

end RaisesOr

/-- A text that is parsed where no allocation fails is refused or parsed to the same item where some
do. -/
theorem parseWithOpts_ends {text : CString} {requireNullTerminated : Bool} {item : Item}
    {parseEnd : Nat} {hooks : Allocation → Bool} {P : Item × Nat → Prop}
    (h : parseRoot (text.bytes ++ [0]) allocated requireNullTerminated = .returned (item, parseEnd))
    (hP : P (item, parseEnd)) :
    Ends (∀ call, hooks call = true) P (parseWithOpts text requireNullTerminated hooks) := by
  unfold parseWithOpts
  dsimp only
  obtain ⟨e, hraised⟩ | hsame := parseRoot_raisesOr (text.bytes ++ [0]) hooks requireNullTerminated
  · rw [hraised, ends_raised]
    intro hall
    obtain rfl : hooks = allocated := funext hall
    rw [h] at hraised
    cases hraised
  · rw [hsame, h]
    exact hP

end Snowflake.CJSON
