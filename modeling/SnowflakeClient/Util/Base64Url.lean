import SnowflakeClient.Run
import SnowflakeClient.Util.Base64Decode

/-!
# Base64 for URLs, without the `=` signs

`Base64::encodeURLNoPadding` and `Base64::decodeURLNoPadding` (`cpp/util/Base64.cpp`). The encoder
scans its buffer from the end and drops the `=` signs it finds there; the decoder puts back as many
as the length asks for.

Both are runs: a read outside of a buffer is `outside`, an exception is `raised` with its message.

* `urlNoPadding_comesBack`: some bytes have a text of digits that decodes to them.
* `urlNoPadding_comesBack_iff`: no bytes have an empty text, and the scan leaves it at the front.
-/

namespace Snowflake
namespace Base64

/-- `while (buffer[len - 1] == '=') len--;`. The index is a `size_t`: for `len = 0` it is not in
any buffer. -/
def stripPadding (buffer : List Char) : (len : Nat) → Option Nat
  | 0 => none
  | len + 1 => do
    if (← buffer[len]?) = '=' then stripPadding buffer len else some (len + 1)

def encodeURLNoPadding (bytes : List UInt8) : Run String (List Char) := do
  let buffer := encodeUrl bytes
  let len ← .ofRead (stripPadding buffer buffer.length)
  .returned (buffer.take len)

/-- The message of the `Base64DecodeException`. -/
def decodeFailed : String := "Decode of base64URL with no padding failed"

/-- The rest of `decodeURLNoPadding`, after the `=` signs are added: `decoded` has the room
`decode_len`, and it is cut to what was decoded. -/
def decodePadded (inText : List UInt8) : Run String (List UInt8) := do
  let (count, dst) ← .ofRead (decodeUrl inText)
  let decoded ← (Buffer.replicate (maxDecodedLength inText.length) 0).write 0 dst
  let decodeLen ← .ofCall decodeFailed count
  .returned (decoded.val.take decodeLen)

def decodeURLNoPadding (text : List UInt8) : Run String (List UInt8) :=
  let padLen := (4 - text.length % 4) % 4
  decodePadded (text ++ List.replicate padLen pad)

/-! ## The encoder -/

/-- The scan goes over the `=` signs, from any of them, down to the last digit. -/
theorem stripPadding_append (body : List Char) (c : Char) (hc : c ≠ '=') (padding k : Nat)
    (hk : k ≤ padding) :
    stripPadding (body ++ c :: List.replicate padding '=') (body.length + 1 + k) =
      some (body.length + 1) := by
  induction k with
  | zero => simp [stripPadding, hc]
  | succ k ih =>
    have hread : (body ++ c :: List.replicate padding '=')[body.length + 1 + k]? = some '=' := by
      rw [List.getElem?_append_right (by omega),
        show body.length + 1 + k - body.length = k + 1 by omega,
        List.getElem?_cons_succ, List.getElem?_replicate, if_pos (by omega)]
    rw [← Nat.add_assoc, stripPadding, hread, ih (by omega)]
    rfl

theorem digit_mem {dictionary : List Char} (hd : Alphabet dictionary) (n shift : Nat) :
    digit dictionary n shift ∈ dictionary := by
  have hlt : n >>> shift &&& 0x3F < dictionary.length := by
    rw [sixBits_eq, hd.length]
    exact Nat.mod_lt _ (by omega)
  rw [digit, List.getD_eq_getElem _ _ hlt]
  exact List.getElem_mem hlt

/-- The text of some bytes: digits, and at most two `=` signs. -/
theorem padded_eq_append {dictionary : List Char} (hd : Alphabet dictionary) {src : List UInt8}
    (hsrc : src ≠ []) :
    ∃ body c padding, padding ≤ 2 ∧
      padded dictionary src = body ++ c :: List.replicate padding '=' ∧
      c ∈ dictionary ∧ ∀ x ∈ body, x ∈ dictionary := by
  have hmem := digit_mem hd
  induction src using encodeGroups.induct with
  | case1 => exact absurd rfl hsrc
  | case2 b1 =>
    exact ⟨[_], _, 2, by omega, rfl, hmem _ _, by simp [hmem]⟩
  | case3 b1 b2 =>
    exact ⟨[_, _], _, 1, by omega, rfl, hmem _ _, by simp [hmem]⟩
  | case4 b1 b2 b3 src ih =>
    by_cases hrest : src = []
    · subst hrest
      exact ⟨[_, _, _], _, 0, by omega, rfl, hmem _ _, by simp [hmem]⟩
    · obtain ⟨body, c, padding, hle, heq, hc, hbody⟩ := ih hrest
      refine ⟨encodeGroup dictionary b1 b2 b3 ++ body, c, padding, hle, ?_, hc, ?_⟩
      · rw [padded, heq, List.append_assoc]
      · intro x hx
        rcases List.mem_append.mp hx with hx | hx
        · simp only [encodeGroup, List.mem_cons, List.not_mem_nil, or_false] at hx
          rcases hx with rfl | rfl | rfl | rfl <;> exact hmem _ _
        · exact hbody x hx

/-- Some bytes have a text of digits, and what the scan drops are the `=` signs. -/
theorem encodeURLNoPadding_eq {bytes : List UInt8} (hbytes : bytes ≠ []) :
    ∃ text padding, encodeURLNoPadding bytes = .returned text ∧ padding ≤ 2 ∧
      encodeUrl bytes = text ++ List.replicate padding '=' ∧ text ≠ [] ∧
      ∀ c ∈ text, c ∈ base64UrlIndex := by
  obtain ⟨body, c, padding, hle, heq, hc, hbody⟩ :=
    padded_eq_append base64UrlIndex_reversible.toAlphabet hbytes
  rw [← encodeHelper_eq_padded, ← encodeUrl] at heq
  have hsplit : encodeUrl bytes = (body ++ [c]) ++ List.replicate padding '=' := by
    rw [heq, List.append_assoc, List.singleton_append]
  have hlen : (encodeUrl bytes).length = body.length + 1 + padding := by
    rw [hsplit, List.length_append, List.length_append, List.length_replicate,
      List.length_singleton]
  have hne : c ≠ '=' := by
    rintro rfl
    exact absurd hc (by decide)
  refine ⟨body ++ [c], padding, ?_, hle, hsplit, by simp, ?_⟩
  · have hstrip := stripPadding_append body c hne padding padding (Nat.le_refl _)
    rw [← heq, ← hlen] at hstrip
    have hfront : (encodeUrl bytes).take (body.length + 1) = body ++ [c] := by
      rw [hsplit]
      exact List.take_left' (by simp)
    simp only [encodeURLNoPadding, hstrip, Run.ofRead_some, Run.returned_bind, hfront]
  · intro x hx
    rcases List.mem_append.mp hx with hx | hx
    · exact hbody x hx
    · rwa [List.mem_singleton.mp hx]

/-! ## The decoder -/

theorem decodePadded_encodeUrl (bytes : List UInt8) :
    decodePadded ((encodeUrl bytes).map Char.toUInt8) = .returned bytes := by
  obtain ⟨-, hdec, hroom, -⟩ := comesBack_of_reversible base64UrlIndex_reversible bytes
  rw [← encodeUrl] at hdec hroom
  have hfits : 0 + bytes.length ≤ maxDecodedLength ((encodeUrl bytes).map Char.toUInt8).length := by
    rwa [Nat.zero_add, List.length_map]
  simp only [decodePadded, decodeUrl, hdec, Run.ofRead_some, Run.returned_bind,
    Buffer.write_of_le _ hfits, Run.ofCall_some, Buffer.set_zero_val, List.take_left]

/-- The decoder puts the `=` signs back, since the length of the whole text is a multiple of
four. -/
theorem decodeURLNoPadding_eq {bytes : List UInt8} {text : List Char} {padding : Nat}
    (hle : padding ≤ 2) (htext : encodeUrl bytes = text ++ List.replicate padding '=') :
    decodeURLNoPadding (text.map Char.toUInt8) = .returned bytes := by
  have hpadLen : (4 - text.length % 4) % 4 = padding := by
    have hlen := length_encodeHelper base64UrlIndex bytes
    rw [← encodeUrl, htext, List.length_append, List.length_replicate, encodedLength] at hlen
    omega
  have hwhole : text.map Char.toUInt8 ++ List.replicate padding pad =
      (encodeUrl bytes).map Char.toUInt8 := by
    rw [htext, List.map_append, List.map_replicate (f := Char.toUInt8), toUInt8_pad]
  rw [decodeURLNoPadding, List.length_map, hpadLen, hwhole, decodePadded_encodeUrl]

theorem urlNoPadding_comesBack {bytes : List UInt8} (hbytes : bytes ≠ []) :
    ∃ text, encodeURLNoPadding bytes = .returned text ∧ text ≠ [] ∧
      (∀ c ∈ text, c ∈ base64UrlIndex) ∧
      decodeURLNoPadding (text.map Char.toUInt8) = .returned bytes := by
  obtain ⟨text, padding, henc, hle, htext, hne, hmem⟩ := encodeURLNoPadding_eq hbytes
  exact ⟨text, henc, hne, hmem, decodeURLNoPadding_eq hle htext⟩

/-- The encoder returns a text without `=` signs that decodes to the bytes, provided there are
any. -/
theorem urlNoPadding_comesBack_iff (v : List UInt8) :
    (∃ text, encodeURLNoPadding v = .returned text ∧ '=' ∉ text ∧
      decodeURLNoPadding (text.map Char.toUInt8) = .returned v) ↔ v ≠ [] := by
  constructor
  · rintro ⟨text, htext, -, -⟩ rfl
    cases htext
  · intro hv
    obtain ⟨text, htext, -, hmem, hdec⟩ := urlNoPadding_comesBack hv
    exact ⟨text, htext, fun h => absurd (hmem '=' h) (by decide), hdec⟩

/-- No bytes: `buffer[len - 1]` with `len = 0`. -/
theorem urlNoPadding_reads_before_buffer :
    stripPadding (encodeUrl []) (encodeUrl []).length = none ∧ encodeURLNoPadding [] = .outside :=
  ⟨rfl, rfl⟩

end Base64
end Snowflake
