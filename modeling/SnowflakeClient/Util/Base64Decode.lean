import SnowflakeClient.Util.Base64

/-!
# Base64 decoding

`Base64::decodeHelper`, both `decodedLength` and `ReverseIndex` (`cpp/util/Base64.cpp`,
`cpp/util/Base64.hpp`). The text that is decoded is a list of bytes, as the code reads it.

`decodeHelper` is written over indices, as the source is: a read outside of `src` is `none`, and
what was written to `dst` is kept when the input is refused. A count `-1` is `none`.

* `decodeHelper_eq`: no read is outside, and the blocks of four are decoded one after the other.
* `encode_decode`: a text that was encoded decodes to its bytes, for both alphabets.
* `decodeHelper_grammar`: what is accepted, and how much is written.
-/

namespace Snowflake
namespace Base64

/-- `BASE64_URL_INDEX`. -/
def base64UrlIndex : List Char :=
  "ABCDEFGHIJKLMNOPQRSTUVWXYZabcdefghijklmnopqrstuvwxyz0123456789-_".toList

def encodeUrl (src : List UInt8) : List Char := encodeHelper base64UrlIndex src

/-- The `=` sign. -/
def pad : UInt8 := '='.toUInt8

theorem toUInt8_pad : '='.toUInt8 = pad := rfl

/-- `decodedLength` of one argument. -/
def maxDecodedLength (srcLength : Nat) : Nat := 3 * (srcLength / 4)

/-- `padBytes` of `decodedLength`. -/
def padBytes (src : List UInt8) : Nat :=
  if src[src.length - 2]? = some pad then 2
  else if src[src.length - 1]? = some pad then 1
  else 0

/-- `decodedLength` of two arguments. -/
def decodedLength (src : List UInt8) : Option Nat :=
  if src.length = 0 then some 0
  else if src.length % 4 = 0 then some (3 * (src.length / 4) - padBytes src)
  else none

/-- `ReverseIndex`: all `0xFF`, then the digits in their order. -/
def reverseIndex (index : List Char) : List Nat :=
  index.zipIdx.foldl (fun data digit => data.set digit.1.toUInt8.toNat digit.2)
    (List.replicate 256 0xFF)

/-- `REV_INDEX[c]`. -/
def sextet (rev : List Nat) (c : UInt8) : Nat := rev.getD c.toNat 0xFF

/-- The byte of `combined` at `shift`, as an assignment to a `char` keeps it. -/
def byteAt (combined shift : Nat) : UInt8 := UInt8.ofNat (combined >>> shift)

/-- The last block with one byte. -/
def oneByte (rev : List Nat) (c1 c2 c4 : UInt8) : Option (List UInt8) :=
  let b1 := sextet rev c1
  let b2 := sextet rev c2
  if b1 = 0xFF ∨ b2 = 0xFF ∨ c4 ≠ pad then
    none
  else
    let combined := b1 <<< 18 ||| b2 <<< 12
    some [byteAt combined 16]

/-- The last block with two bytes. -/
def twoBytes (rev : List Nat) (c1 c2 c3 : UInt8) : Option (List UInt8) :=
  let b1 := sextet rev c1
  let b2 := sextet rev c2
  let b3 := sextet rev c3
  if b1 = 0xFF ∨ b2 = 0xFF ∨ b3 = 0xFF then
    none
  else
    let combined := b1 <<< 18 ||| b2 <<< 12 ||| b3 <<< 6
    some [byteAt combined 16, byteAt combined 8]

/-- A block with three bytes: the body of the loop. -/
def threeBytes (rev : List Nat) (c1 c2 c3 c4 : UInt8) : Option (List UInt8) :=
  let b1 := sextet rev c1
  let b2 := sextet rev c2
  let b3 := sextet rev c3
  let b4 := sextet rev c4
  if b1 = 0xFF ∨ b2 = 0xFF ∨ b3 = 0xFF ∨ b4 = 0xFF then
    none
  else
    let combined := b1 <<< 18 ||| b2 <<< 12 ||| b3 <<< 6 ||| b4
    some [byteAt combined 16, byteAt combined 8, byteAt combined 0]

/-- `return -1`, or the bytes of the last block and `return j`. -/
def finish (dst : List UInt8) : Option (List UInt8) → Option Nat × List UInt8
  | none => (none, dst)
  | some bytes => (some (dst ++ bytes).length, dst ++ bytes)

/-- The loop and what comes after it: the count that is returned, with the bytes that were written.
A last block without `=` goes back into the loop, to `no_padding`. -/
def decodeFrom (rev : List Nat) (src : List UInt8) :
    (fuel i : Nat) → (dst : List UInt8) → Option (Option Nat × List UInt8)
  | 0, _, _ => none
  | fuel + 1, i, dst =>
    if 4 < src.length ∧ i < src.length - 4 then do
      match threeBytes rev (← src[i]?) (← src[i + 1]?) (← src[i + 2]?) (← src[i + 3]?) with
      | none => some (none, dst)
      | some bytes => decodeFrom rev src fuel (i + 4) (dst ++ bytes)
    else if i < src.length then do
      if (← src[i + 2]?) = pad then
        some (finish dst (oneByte rev (← src[i]?) (← src[i + 1]?) (← src[i + 3]?)))
      else if (← src[i + 3]?) = pad then
        some (finish dst (twoBytes rev (← src[i]?) (← src[i + 1]?) (← src[i + 2]?)))
      else
        match threeBytes rev (← src[i]?) (← src[i + 1]?) (← src[i + 2]?) (← src[i + 3]?) with
        | none => some (none, dst)
        | some bytes => decodeFrom rev src fuel (i + 4) (dst ++ bytes)
    else
      some (some dst.length, dst)

/-- `Base64::decodeHelper`. -/
def decodeHelper (rev : List Nat) (src : List UInt8) : Option (Option Nat × List UInt8) :=
  if src.length % 4 ≠ 0 then
    some (none, [])
  else
    decodeFrom rev src (src.length + 1) 0 []

def decode (src : List UInt8) : Option (Option Nat × List UInt8) :=
  decodeHelper (reverseIndex base64Index) src

def decodeUrl (src : List UInt8) : Option (Option Nat × List UInt8) :=
  decodeHelper (reverseIndex base64UrlIndex) src

/-! ## The text, block by block -/

/-- The last block of the text. -/
def lastBlock (rev : List Nat) (c1 c2 c3 c4 : UInt8) : Option (List UInt8) :=
  if c3 = pad then oneByte rev c1 c2 c4
  else if c4 = pad then twoBytes rev c1 c2 c3
  else threeBytes rev c1 c2 c3 c4

/-- The text from a block on, with the bytes written so far. -/
def decodeBlocks (rev : List Nat) : (src dst : List UInt8) → Option Nat × List UInt8
  | [c1, c2, c3, c4], dst => finish dst (lastBlock rev c1 c2 c3 c4)
  | c1 :: c2 :: c3 :: c4 :: src, dst =>
    match threeBytes rev c1 c2 c3 c4 with
    | none => (none, dst)
    | some bytes => decodeBlocks rev src (dst ++ bytes)
  | _, dst => (some dst.length, dst)

@[simp] theorem decodeBlocks_nil (rev : List Nat) (dst : List UInt8) :
    decodeBlocks rev [] dst = (some dst.length, dst) := rfl

@[simp] theorem decodeBlocks_last (rev : List Nat) (c1 c2 c3 c4 : UInt8) (dst : List UInt8) :
    decodeBlocks rev [c1, c2, c3, c4] dst = finish dst (lastBlock rev c1 c2 c3 c4) := rfl

theorem decodeBlocks_cons (rev : List Nat) (c1 c2 c3 c4 : UInt8) {src : List UInt8}
    (hsrc : src ≠ []) (dst : List UInt8) :
    decodeBlocks rev (c1 :: c2 :: c3 :: c4 :: src) dst =
      (threeBytes rev c1 c2 c3 c4).elim (none, dst)
        fun bytes => decodeBlocks rev src (dst ++ bytes) := by
  rw [decodeBlocks]
  · cases threeBytes rev c1 c2 c3 c4 <;> rfl
  · exact hsrc

/-- Induction on the blocks of a text, with the last one apart. -/
@[elab_as_elim]
theorem blocks_induction {motive : List UInt8 → Prop} (nil : motive [])
    (last : ∀ c1 c2 c3 c4, motive [c1, c2, c3, c4])
    (cons : ∀ c1 c2 c3 c4 src, src ≠ [] → src.length % 4 = 0 → motive src →
      motive (c1 :: c2 :: c3 :: c4 :: src))
    (src : List UInt8) (hlen : src.length % 4 = 0) : motive src := by
  induction hn : src.length using Nat.strong_induction_on generalizing src with
  | _ n ih =>
    rcases src with _ | ⟨c1, _ | ⟨c2, _ | ⟨c3, _ | ⟨c4, _ | ⟨c5, src⟩⟩⟩⟩⟩
    · exact nil
    · simp at hlen
    · simp at hlen
    · simp at hlen
    · exact last c1 c2 c3 c4
    · have hrest : (c5 :: src).length % 4 = 0 := by
        simp only [List.length_cons] at hlen ⊢
        omega
      refine cons c1 c2 c3 c4 (c5 :: src) (List.cons_ne_nil c5 src) hrest ?_
      refine ih (c5 :: src).length ?_ (c5 :: src) hrest rfl
      rw [← hn]
      simp only [List.length_cons]
      omega

theorem decodeFrom_eq (rev : List Nat) (src : List UInt8) (hlen : src.length % 4 = 0) :
    ∀ (done dst : List UInt8) (fuel : Nat), src.length < fuel →
      decodeFrom rev (done ++ src) fuel done.length dst = some (decodeBlocks rev src dst) := by
  refine blocks_induction ?nil ?last ?cons src hlen
  case nil =>
    intro done dst fuel hfuel
    cases fuel with
    | zero => omega
    | succ fuel => simp [decodeFrom]
  case last =>
    intro c1 c2 c3 c4 done dst fuel hfuel
    simp only [List.length_cons, List.length_nil] at hfuel
    -- the second round finds the end of the text
    obtain ⟨fuel, rfl⟩ : ∃ k, fuel = k + 2 := ⟨fuel - 2, by omega⟩
    by_cases h3 : c3 = pad
    · simp [decodeFrom, lastBlock, h3]
    by_cases h4 : c4 = pad
    · simp [decodeFrom, lastBlock, h3, h4]
    · cases hblock : threeBytes rev c1 c2 c3 c4 <;>
        simp [decodeFrom, lastBlock, finish, h3, h4, hblock]
  case cons =>
    intro c1 c2 c3 c4 src hsrc hlen ih done dst fuel hfuel
    simp only [List.length_cons] at hfuel
    obtain ⟨fuel, rfl⟩ : ∃ k, fuel = k + 1 := ⟨fuel - 1, by omega⟩
    have hpos := List.length_pos_iff.mpr hsrc
    have hloop : 4 < (done ++ c1 :: c2 :: c3 :: c4 :: src).length ∧
        done.length < (done ++ c1 :: c2 :: c3 :: c4 :: src).length - 4 := by
      simp only [List.length_append, List.length_cons]
      omega
    rw [decodeFrom, if_pos hloop, decodeBlocks_cons rev c1 c2 c3 c4 hsrc]
    cases hblock : threeBytes rev c1 c2 c3 c4 with
    | none => simp [hblock]
    | some bytes =>
      have hnext := ih (done ++ [c1, c2, c3, c4]) (dst ++ bytes) fuel (by omega)
      rw [List.append_assoc, List.length_append] at hnext
      simpa [hblock] using hnext

/-- No read is outside of the text, and the blocks are decoded one after the other. -/
theorem decodeHelper_eq (rev : List Nat) {src : List UInt8} (hlen : src.length % 4 = 0) :
    decodeHelper rev src = some (decodeBlocks rev src []) := by
  rw [decodeHelper, if_neg (not_not_intro hlen)]
  exact decodeFrom_eq rev src hlen [] [] _ (Nat.lt_succ_self _)

/-! ## The reverse index -/

/-- The digits of a dictionary as bytes. -/
def codes (dictionary : List Char) : List UInt8 := dictionary.map Char.toUInt8

theorem codes_cons (x : Char) (dictionary : List Char) :
    codes (x :: dictionary) = x.toUInt8 :: codes dictionary := rfl

/-- A dictionary that can be reversed: no two digits are the same byte, and `=` is none. -/
structure Reversible (dictionary : List Char) : Prop extends Alphabet dictionary where
  codes_nodup : (codes dictionary).Nodup
  pad_notMem : pad ∉ codes dictionary

theorem base64Index_reversible : Reversible base64Index :=
  ⟨base64Index_alphabet, by decide +kernel, by decide +kernel⟩

theorem base64UrlIndex_reversible : Reversible base64UrlIndex :=
  ⟨⟨by decide, by decide⟩, by decide +kernel, by decide +kernel⟩

/-- The table after the digits from the `k`-th on are entered. -/
theorem getD_foldl_set (index : List Char) (hindex : (codes index).Nodup) (c : UInt8) :
    ∀ (k : Nat) (data : List Nat), data.length = 256 →
      ((index.zipIdx k).foldl (fun data digit => data.set digit.1.toUInt8.toNat digit.2) data).getD
          c.toNat 0xFF =
        if c ∈ codes index then k + (codes index).idxOf c else data.getD c.toNat 0xFF := by
  induction index with
  | nil =>
    intro k data hdata
    rfl
  | cons x index ih =>
    intro k data hdata
    rw [codes_cons, List.nodup_cons] at hindex
    rw [List.zipIdx_cons, List.foldl_cons, ih hindex.2 _ _ (by rw [List.length_set, hdata]),
      codes_cons]
    have hx : x.toUInt8.toNat < data.length := by
      rw [hdata]
      exact x.toUInt8.toNat_lt
    by_cases hc : x.toUInt8 = c
    · subst hc
      rw [if_neg hindex.1, if_pos List.mem_cons_self, List.idxOf_cons_self,
        List.getD_eq_getElem?_getD, List.getElem?_set_self hx, Option.getD_some, Nat.add_zero]
    · have hne : x.toUInt8.toNat ≠ c.toNat := fun h => hc (UInt8.toNat_inj.mp h)
      have hset : (data.set x.toUInt8.toNat k).getD c.toNat 0xFF = data.getD c.toNat 0xFF := by
        rw [List.getD_eq_getElem?_getD, List.getElem?_set_ne hne, List.getD_eq_getElem?_getD]
      simp only [hset, List.mem_cons, Ne.symm hc, false_or, List.idxOf_cons_ne _ hc]
      grind

/-! ## The bits of a block -/

theorem padded_ne_nil (dictionary : List Char) {src : List UInt8} (hsrc : src ≠ []) :
    padded dictionary src ≠ [] := by
  intro h
  have hlen := length_encodeHelper dictionary src
  rw [encodeHelper_eq_padded, h, List.length_nil, encodedLength] at hlen
  have hpos := List.length_pos_iff.mpr hsrc
  omega

theorem join_eq {a b c d : Nat} (hb : b < 64) (hc : c < 64) (hd : d < 64) :
    a <<< 18 ||| b <<< 12 ||| c <<< 6 ||| d = a * 262144 + b * 4096 + c * 64 + d := by
  have hlow : c <<< 6 ||| d = c <<< 6 + d := (Nat.shiftLeft_add_eq_or_of_lt (by omega) _).symm
  have hmid : b <<< 12 ||| (c <<< 6 + d) = b <<< 12 + (c <<< 6 + d) := by
    refine (Nat.shiftLeft_add_eq_or_of_lt ?_ _).symm
    rw [Nat.shiftLeft_eq]
    omega
  have hhigh : a <<< 18 ||| (b <<< 12 + (c <<< 6 + d)) = a <<< 18 + (b <<< 12 + (c <<< 6 + d)) := by
    refine (Nat.shiftLeft_add_eq_or_of_lt ?_ _).symm
    rw [Nat.shiftLeft_eq, Nat.shiftLeft_eq]
    omega
  rw [Nat.or_assoc, Nat.or_assoc, hlow, hmid, hhigh, Nat.shiftLeft_eq, Nat.shiftLeft_eq,
    Nat.shiftLeft_eq]
  omega

theorem byteAt_eq {n shift : Nat} {b : UInt8} (h : n / 2 ^ shift % 256 = b.toNat) :
    byteAt n shift = b := by
  rw [byteAt, Nat.shiftRight_eq_div_pow]
  exact UInt8.toNat_inj.mp (by rw [UInt8.toNat_ofNat']; exact h)

/-! ## The grammar -/

/-- Digits, of which the last one or the last two may be `=` signs. -/
def WellFormed (dictionary : List Char) (s : List UInt8) : Prop :=
  ∃ body padding, padding ≤ 2 ∧ s = body ++ List.replicate padding pad ∧
    ∀ c ∈ body, c ∈ codes dictionary

theorem wellFormed_nil (dictionary : List Char) : WellFormed dictionary [] :=
  ⟨[], 0, by omega, rfl, by simp⟩

theorem wellFormed_cons_iff (dictionary : List Char) (c : UInt8) {s : List UInt8}
    (hs : 2 ≤ s.length) :
    WellFormed dictionary (c :: s) ↔ c ∈ codes dictionary ∧ WellFormed dictionary s := by
  constructor
  · rintro ⟨body, padding, hle, heq, hbody⟩
    cases body with
    | nil =>
      -- the `=` signs are not the whole text
      have hlen := congrArg List.length heq
      simp only [List.length_cons, List.nil_append, List.length_replicate] at hlen
      omega
    | cons x body =>
      rw [List.cons_append, List.cons.injEq] at heq
      obtain ⟨rfl, rfl⟩ := heq
      exact ⟨hbody c List.mem_cons_self, body, padding, hle, rfl,
        fun d hmem => hbody d (List.mem_cons_of_mem c hmem)⟩
  · rintro ⟨hc, body, padding, hle, rfl, hbody⟩
    exact ⟨c :: body, padding, hle, rfl, List.forall_mem_cons.mpr ⟨hc, hbody⟩⟩

theorem wellFormed_two_iff (dictionary : List Char) (c d : UInt8) :
    WellFormed dictionary [c, d] ↔
      c ∈ codes dictionary ∧ d ∈ codes dictionary ∨ c ∈ codes dictionary ∧ d = pad ∨
        c = pad ∧ d = pad := by
  constructor
  · rintro ⟨body, padding, hle, heq, hbody⟩
    have hlen := congrArg List.length heq
    simp only [List.length_cons, List.length_nil, List.length_append, List.length_replicate] at hlen
    rcases body with _ | ⟨x, _ | ⟨y, body⟩⟩
    · obtain rfl : padding = 2 := by simpa using hlen.symm
      simp only [List.replicate, List.nil_append, List.cons.injEq, and_true] at heq
      exact .inr (.inr heq)
    · obtain rfl : padding = 1 := by simp only [List.length_cons, List.length_nil] at hlen; omega
      simp only [List.replicate, List.cons_append, List.nil_append, List.cons.injEq,
        and_true] at heq
      obtain ⟨rfl, rfl⟩ := heq
      exact .inr (.inl ⟨hbody c (by simp), rfl⟩)
    · simp only [List.cons_append, List.cons.injEq] at heq
      obtain ⟨rfl, rfl, -⟩ := heq
      exact .inl ⟨hbody c (by simp), hbody d (by simp)⟩
  · rintro (⟨hc, hd⟩ | ⟨hc, rfl⟩ | ⟨rfl, rfl⟩)
    · exact ⟨[c, d], 0, by omega, rfl, by simp [hc, hd]⟩
    · exact ⟨[c], 1, by omega, rfl, by simp [hc]⟩
    · exact ⟨[], 2, by omega, rfl, by simp⟩

/-! ## The number of bytes -/

theorem length_oneByte {rev : List Nat} {c1 c2 c4 : UInt8} {bytes : List UInt8}
    (h : oneByte rev c1 c2 c4 = some bytes) : bytes.length = 1 := by
  simp only [oneByte] at h
  split at h
  · cases h
  · cases h
    rfl

theorem length_twoBytes {rev : List Nat} {c1 c2 c3 : UInt8} {bytes : List UInt8}
    (h : twoBytes rev c1 c2 c3 = some bytes) : bytes.length = 2 := by
  simp only [twoBytes] at h
  split at h
  · cases h
  · cases h
    rfl

theorem length_threeBytes {rev : List Nat} {c1 c2 c3 c4 : UInt8} {bytes : List UInt8}
    (h : threeBytes rev c1 c2 c3 c4 = some bytes) : bytes.length = 3 := by
  simp only [threeBytes] at h
  split at h
  · cases h
  · cases h
    rfl

theorem length_lastBlock {rev : List Nat} {c1 c2 c3 c4 : UInt8} {bytes : List UInt8}
    (h : lastBlock rev c1 c2 c3 c4 = some bytes) :
    decodedLength [c1, c2, c3, c4] = some bytes.length ∧ bytes.length ≤ 3 := by
  simp only [lastBlock] at h
  by_cases h3 : c3 = pad
  · rw [if_pos h3] at h
    simp [decodedLength, padBytes, h3, length_oneByte h]
  rw [if_neg h3] at h
  by_cases h4 : c4 = pad
  · rw [if_pos h4] at h
    simp [decodedLength, padBytes, h3, h4, length_twoBytes h]
  · rw [if_neg h4] at h
    simp [decodedLength, padBytes, h3, h4, length_threeBytes h]

theorem padBytes_le (src : List UInt8) : padBytes src ≤ 2 := by
  unfold padBytes
  split_ifs <;> omega

theorem decodedLength_cons (c1 c2 c3 c4 : UInt8) {src : List UInt8} (hsrc : src ≠ [])
    (hlen : src.length % 4 = 0) :
    decodedLength (c1 :: c2 :: c3 :: c4 :: src) = (decodedLength src).map (3 + ·) := by
  have hpos := List.length_pos_iff.mpr hsrc
  have hlength : (c1 :: c2 :: c3 :: c4 :: src).length = src.length + 4 := rfl
  have hshift : ∀ j, j ≤ src.length →
      (c1 :: c2 :: c3 :: c4 :: src)[src.length + 4 - j]? = src[src.length - j]? := by
    intro j hj
    rw [show src.length + 4 - j = src.length - j + 4 by omega]
    rfl
  have hpad : padBytes (c1 :: c2 :: c3 :: c4 :: src) = padBytes src := by
    rw [padBytes, padBytes, hlength, hshift 1 (by omega), hshift 2 (by omega)]
  have hle := padBytes_le src
  rw [decodedLength, decodedLength, hlength, hpad, if_neg (by omega), if_pos (by omega),
    if_neg (by omega), if_pos hlen, Option.map_some]
  congr 1
  omega

section Reversible

variable {dictionary : List Char} (hd : Reversible dictionary)
include hd

theorem sextet_reverseIndex (c : UInt8) :
    sextet (reverseIndex dictionary) c =
      if c ∈ codes dictionary then (codes dictionary).idxOf c else 0xFF := by
  rw [sextet, reverseIndex, getD_foldl_set dictionary hd.codes_nodup c 0 _ List.length_replicate,
    Nat.zero_add]
  congr 1
  rw [List.getD_eq_getElem?_getD, List.getElem?_replicate]
  split <;> rfl

theorem sextet_lt {c : UInt8} (hc : c ∈ codes dictionary) :
    sextet (reverseIndex dictionary) c < 64 := by
  rw [sextet_reverseIndex hd, if_pos hc]
  have hlt := List.idxOf_lt_length_of_mem hc
  rwa [codes, List.length_map, hd.length] at hlt

theorem sextet_eq_iff (c : UInt8) :
    sextet (reverseIndex dictionary) c = 0xFF ↔ c ∉ codes dictionary := by
  constructor
  · intro h hc
    have hlt := sextet_lt hd hc
    omega
  · intro hc
    rw [sextet_reverseIndex hd, if_neg hc]

/-- The reverse index undoes the dictionary. -/
theorem sextet_digit (n shift : Nat) :
    (digit dictionary n shift).toUInt8 ∈ codes dictionary ∧
      sextet (reverseIndex dictionary) (digit dictionary n shift).toUInt8 = n / 2 ^ shift % 64 := by
  have hlt : n / 2 ^ shift % 64 < (codes dictionary).length := by
    rw [codes, List.length_map, hd.length]
    exact Nat.mod_lt _ (by omega)
  have hcode : (digit dictionary n shift).toUInt8 = (codes dictionary)[n / 2 ^ shift % 64] := by
    have hlt' := hlt
    rw [codes, List.length_map] at hlt'
    simp only [digit, sixBits_eq, List.getD_eq_getElem _ _ hlt', codes, List.getElem_map]
  have hmem : (digit dictionary n shift).toUInt8 ∈ codes dictionary := by
    rw [hcode]
    exact List.getElem_mem hlt
  refine ⟨hmem, ?_⟩
  rw [sextet_reverseIndex hd, if_pos hmem, hcode]
  exact hd.codes_nodup.idxOf_getElem _ hlt

/-! ## The round trip -/

theorem threeBytes_encode (b1 b2 b3 : UInt8) :
    threeBytes (reverseIndex dictionary) (digit dictionary (combined b1 b2 b3) 18).toUInt8
        (digit dictionary (combined b1 b2 b3) 12).toUInt8
        (digit dictionary (combined b1 b2 b3) 6).toUInt8
        (digit dictionary (combined b1 b2 b3) 0).toUInt8 = some [b1, b2, b3] := by
  have h1 := b1.toNat_lt
  have h2 := b2.toNat_lt
  have h3 := b3.toNat_lt
  simp only [threeBytes, (sextet_digit hd _ _).2, combined_eq]
  rw [if_neg (by omega), join_eq (by omega) (by omega) (by omega)]
  rw [byteAt_eq (b := b1) (by omega), byteAt_eq (b := b2) (by omega),
    byteAt_eq (b := b3) (by omega)]

theorem twoBytes_encode (b1 b2 : UInt8) :
    twoBytes (reverseIndex dictionary) (digit dictionary (combined b1 b2 0) 18).toUInt8
        (digit dictionary (combined b1 b2 0) 12).toUInt8
        (digit dictionary (combined b1 b2 0) 6).toUInt8 = some [b1, b2] := by
  have h1 := b1.toNat_lt
  have h2 := b2.toNat_lt
  have hjoin := join_eq (a := (b1.toNat * 65536 + b2.toNat * 256 + 0) / 2 ^ 18 % 64)
    (b := (b1.toNat * 65536 + b2.toNat * 256 + 0) / 2 ^ 12 % 64)
    (c := (b1.toNat * 65536 + b2.toNat * 256 + 0) / 2 ^ 6 % 64) (d := 0)
    (by omega) (by omega) (by omega)
  rw [Nat.or_zero] at hjoin
  simp only [twoBytes, (sextet_digit hd _ _).2, combined_eq, UInt8.toNat_zero]
  rw [if_neg (by omega), hjoin, byteAt_eq (b := b1) (by omega), byteAt_eq (b := b2) (by omega)]

theorem oneByte_encode (b1 : UInt8) :
    oneByte (reverseIndex dictionary) (digit dictionary (combined b1 0 0) 18).toUInt8
        (digit dictionary (combined b1 0 0) 12).toUInt8 pad = some [b1] := by
  have h1 := b1.toNat_lt
  have hjoin := join_eq (a := (b1.toNat * 65536 + 0 * 256 + 0) / 2 ^ 18 % 64)
    (b := (b1.toNat * 65536 + 0 * 256 + 0) / 2 ^ 12 % 64) (c := 0) (d := 0)
    (by omega) (by omega) (by omega)
  rw [Nat.zero_shiftLeft, Nat.or_zero, Nat.or_zero] at hjoin
  simp only [oneByte, (sextet_digit hd _ _).2, combined_eq, UInt8.toNat_zero, ne_eq,
    not_true_eq_false, or_false]
  rw [if_neg (by omega), hjoin, byteAt_eq (b := b1) (by omega)]

theorem digit_ne_pad (n shift : Nat) : (digit dictionary n shift).toUInt8 ≠ pad := by
  intro h
  exact hd.pad_notMem (h ▸ (sextet_digit hd n shift).1)

theorem decodeBlocks_padded (src dst : List UInt8) :
    decodeBlocks (reverseIndex dictionary) ((padded dictionary src).map Char.toUInt8) dst =
      (some (dst ++ src).length, dst ++ src) := by
  induction src using encodeGroups.induct generalizing dst with
  | case1 => simp [padded]
  | case2 b1 =>
    have hone := oneByte_encode hd b1
    simp only [padded, List.map_cons, List.map_nil, decodeBlocks_last, lastBlock, toUInt8_pad]
    rw [if_pos trivial, hone]
    rfl
  | case3 b1 b2 =>
    have htwo := twoBytes_encode hd b1 b2
    simp only [padded, List.map_cons, List.map_nil, decodeBlocks_last, lastBlock, toUInt8_pad]
    rw [if_neg (digit_ne_pad hd _ _), if_pos trivial, htwo]
    rfl
  | case4 b1 b2 b3 src ih =>
    have hthree := threeBytes_encode hd b1 b2 b3
    simp only [padded, encodeGroup, List.cons_append, List.nil_append, List.map_cons]
    by_cases hsrc : src = []
    · subst hsrc
      simp only [padded, List.map_nil, decodeBlocks_last, lastBlock]
      rw [if_neg (digit_ne_pad hd _ _), if_neg (digit_ne_pad hd _ _), hthree]
      rfl
    · have hrest : (padded dictionary src).map Char.toUInt8 ≠ [] := by
        simpa using padded_ne_nil dictionary hsrc
      rw [decodeBlocks_cons _ _ _ _ _ hrest, hthree, Option.elim_some, ih, List.append_assoc]
      rfl

/-! ## What is accepted -/

theorem threeBytes_isSome_iff (c1 c2 c3 c4 : UInt8) :
    (threeBytes (reverseIndex dictionary) c1 c2 c3 c4).isSome ↔
      c1 ∈ codes dictionary ∧ c2 ∈ codes dictionary ∧ c3 ∈ codes dictionary ∧
        c4 ∈ codes dictionary := by
  simp only [threeBytes, sextet_eq_iff hd]
  split <;> simp <;> tauto

theorem lastBlock_isSome_iff (c1 c2 c3 c4 : UInt8) :
    (lastBlock (reverseIndex dictionary) c1 c2 c3 c4).isSome ↔
      c1 ∈ codes dictionary ∧ c2 ∈ codes dictionary ∧ WellFormed dictionary [c3, c4] := by
  have hpad := hd.pad_notMem
  rw [wellFormed_two_iff, lastBlock]
  by_cases h3 : c3 = pad
  · rw [if_pos h3, oneByte]
    simp only [sextet_eq_iff hd, h3]
    split <;> simp [hpad] <;> tauto
  rw [if_neg h3]
  by_cases h4 : c4 = pad
  · rw [if_pos h4, twoBytes]
    simp only [sextet_eq_iff hd, h4]
    split <;> simp [hpad, h3] <;> tauto
  · rw [if_neg h4, threeBytes_isSome_iff hd]
    simp [h3, h4]

theorem decodeBlocks_isSome_iff (src : List UInt8) (hlen : src.length % 4 = 0) :
    ∀ dst, (decodeBlocks (reverseIndex dictionary) src dst).1.isSome ↔
      WellFormed dictionary src := by
  refine blocks_induction ?nil ?last ?cons src hlen
  case nil =>
    intro dst
    simp [wellFormed_nil]
  case last =>
    intro c1 c2 c3 c4 dst
    rw [decodeBlocks_last, wellFormed_cons_iff _ _ (by simp), wellFormed_cons_iff _ _ (by simp),
      ← lastBlock_isSome_iff hd]
    cases lastBlock (reverseIndex dictionary) c1 c2 c3 c4 <;> simp [finish]
  case cons =>
    intro c1 c2 c3 c4 src hsrc hlen ih dst
    have hpos := List.length_pos_iff.mpr hsrc
    have hblock := threeBytes_isSome_iff hd c1 c2 c3 c4
    rw [decodeBlocks_cons _ _ _ _ _ hsrc, wellFormed_cons_iff _ _ (by simp),
      wellFormed_cons_iff _ _ (by simp), wellFormed_cons_iff _ _ (by simp; omega),
      wellFormed_cons_iff _ _ (by omega)]
    cases hthree : threeBytes (reverseIndex dictionary) c1 c2 c3 c4 with
    | none =>
      rw [hthree] at hblock
      simp at hblock ⊢
      tauto
    | some bytes =>
      rw [hthree] at hblock
      rw [Option.elim_some, ih]
      simp at hblock
      tauto

end Reversible

/-- What is returned is what the two-argument `decodedLength` says. -/
theorem decodeBlocks_count (rev : List Nat) (src : List UInt8) (hlen : src.length % 4 = 0) :
    ∀ dst n, (decodeBlocks rev src dst).1 = some n →
      ∃ k, decodedLength src = some k ∧ n = dst.length + k := by
  refine blocks_induction ?nil ?last ?cons src hlen
  case nil =>
    intro dst n h
    cases h
    exact ⟨0, rfl, rfl⟩
  case last =>
    intro c1 c2 c3 c4 dst n h
    rw [decodeBlocks_last] at h
    cases hlast : lastBlock rev c1 c2 c3 c4 with
    | none =>
      rw [hlast] at h
      cases h
    | some bytes =>
      rw [hlast] at h
      cases h
      exact ⟨bytes.length, (length_lastBlock hlast).1, List.length_append⟩
  case cons =>
    intro c1 c2 c3 c4 src hsrc hlen ih dst n h
    rw [decodeBlocks_cons _ _ _ _ _ hsrc] at h
    cases hthree : threeBytes rev c1 c2 c3 c4 with
    | none =>
      rw [hthree] at h
      cases h
    | some bytes =>
      rw [hthree, Option.elim_some] at h
      obtain ⟨k, hk, rfl⟩ := ih (dst ++ bytes) n h
      refine ⟨3 + k, ?_, ?_⟩
      · rw [decodedLength_cons _ _ _ _ hsrc hlen, hk, Option.map_some]
      · rw [List.length_append, length_threeBytes hthree, Nat.add_assoc]

/-- However the run ends, it has not written more than three bytes a block. -/
theorem decodeBlocks_written (rev : List Nat) (src : List UInt8) (hlen : src.length % 4 = 0) :
    ∀ dst, (decodeBlocks rev src dst).2.length ≤ dst.length + 3 * (src.length / 4) := by
  refine blocks_induction ?nil ?last ?cons src hlen
  case nil =>
    intro dst
    exact Nat.le_add_right _ _
  case last =>
    intro c1 c2 c3 c4 dst
    rw [decodeBlocks_last]
    cases hlast : lastBlock rev c1 c2 c3 c4 with
    | none => exact Nat.le_add_right _ _
    | some bytes =>
      have hle := (length_lastBlock hlast).2
      simp only [finish, List.length_append, List.length_cons, List.length_nil]
      omega
  case cons =>
    intro c1 c2 c3 c4 src hsrc hlen ih dst
    rw [decodeBlocks_cons _ _ _ _ _ hsrc]
    cases hthree : threeBytes rev c1 c2 c3 c4 with
    | none => exact Nat.le_add_right _ _
    | some bytes =>
      have hrest := ih (dst ++ bytes)
      rw [List.length_append, length_threeBytes hthree] at hrest
      simp only [Option.elim_some, List.length_cons]
      omega

/-- `s` starts with `n` digits. -/
def StartsWithDigits (dictionary : List Char) (n : Nat) (s : List UInt8) : Prop :=
  n ≤ s.length ∧ ∀ c ∈ s.take n, c ∈ codes dictionary

instance (dictionary : List Char) (n : Nat) (s : List UInt8) :
    Decidable (StartsWithDigits dictionary n s) :=
  inferInstanceAs (Decidable (_ ∧ _))

theorem startsWithDigits_cons (dictionary : List Char) (n : Nat) (c1 c2 c3 c4 : UInt8)
    (s : List UInt8) :
    StartsWithDigits dictionary (n + 4) (c1 :: c2 :: c3 :: c4 :: s) ↔
      (c1 ∈ codes dictionary ∧ c2 ∈ codes dictionary ∧ c3 ∈ codes dictionary ∧
        c4 ∈ codes dictionary) ∧ StartsWithDigits dictionary n s := by
  simp only [StartsWithDigits, List.length_cons, List.take_succ_cons, List.forall_mem_cons,
    Nat.add_assoc, Nat.add_le_add_iff_right, Nat.reduceAdd]
  tauto

theorem le_length_decodeBlocks (rev : List Nat) (src : List UInt8) (hlen : src.length % 4 = 0) :
    ∀ dst, dst.length ≤ (decodeBlocks rev src dst).2.length := by
  refine blocks_induction ?nil ?last ?cons src hlen
  case nil =>
    intro dst
    exact Nat.le_refl _
  case last =>
    intro c1 c2 c3 c4 dst
    rw [decodeBlocks_last]
    cases lastBlock rev c1 c2 c3 c4 with
    | none => exact Nat.le_refl _
    | some bytes => exact (List.length_append ▸ Nat.le_add_right ..)
  case cons =>
    intro c1 c2 c3 c4 src hsrc hlen ih dst
    rw [decodeBlocks_cons _ _ _ _ _ hsrc]
    cases threeBytes rev c1 c2 c3 c4 with
    | none => exact Nat.le_refl _
    | some bytes =>
      have hrest := ih (dst ++ bytes)
      rw [List.length_append] at hrest
      exact Nat.le_of_add_right_le hrest

section Written

variable {dictionary : List Char} (hd : Reversible dictionary)
include hd

theorem finish_lastBlock_le_iff (c1 c2 c3 c4 : UInt8) (dst : List UInt8) :
    (finish dst (lastBlock (reverseIndex dictionary) c1 c2 c3 c4)).2.length ≤ dst.length + 2 ↔
      ¬(c1 ∈ codes dictionary ∧ c2 ∈ codes dictionary ∧ c3 ∈ codes dictionary ∧
        c4 ∈ codes dictionary) := by
  have hpad := hd.pad_notMem
  rw [lastBlock]
  by_cases h3 : c3 = pad
  · rw [if_pos h3]
    have hle : (finish dst (oneByte (reverseIndex dictionary) c1 c2 c4)).2.length ≤
        dst.length + 2 := by
      cases hone : oneByte (reverseIndex dictionary) c1 c2 c4 with
      | none => simp [finish]
      | some bytes => simp [finish, length_oneByte hone]
    exact iff_of_true hle fun h => hpad (h3 ▸ h.2.2.1)
  rw [if_neg h3]
  by_cases h4 : c4 = pad
  · rw [if_pos h4]
    have hle : (finish dst (twoBytes (reverseIndex dictionary) c1 c2 c3)).2.length ≤
        dst.length + 2 := by
      cases htwo : twoBytes (reverseIndex dictionary) c1 c2 c3 with
      | none => simp [finish]
      | some bytes => simp [finish, length_twoBytes htwo]
    exact iff_of_true hle fun h => hpad (h4 ▸ h.2.2.2)
  · rw [if_neg h4, ← threeBytes_isSome_iff hd]
    cases hthree : threeBytes (reverseIndex dictionary) c1 c2 c3 c4 with
    | none => simp [finish]
    | some bytes => simp [finish, length_threeBytes hthree]

/-- More than `3 * k + 2` bytes are written if and only if the first `k + 1` blocks have no `=`
sign and no other character in them. -/
theorem decodeBlocks_written_le_iff (src : List UInt8) (hlen : src.length % 4 = 0) :
    ∀ dst k, (decodeBlocks (reverseIndex dictionary) src dst).2.length ≤
        dst.length + (3 * k + 2) ↔ ¬StartsWithDigits dictionary (4 * k + 4) src := by
  refine blocks_induction ?nil ?last ?cons src hlen
  case nil =>
    intro dst k
    exact iff_of_true (Nat.le_add_right ..) fun h => absurd h.1 (by simp)
  case last =>
    intro c1 c2 c3 c4 dst k
    rw [decodeBlocks_last, startsWithDigits_cons]
    cases k with
    | zero => simpa [StartsWithDigits] using finish_lastBlock_le_iff hd c1 c2 c3 c4 dst
    | succ k =>
      have hle := decodeBlocks_written (reverseIndex dictionary) [c1, c2, c3, c4] (by simp) dst
      rw [decodeBlocks_last] at hle
      simp only [List.length_cons, List.length_nil] at hle
      exact iff_of_true (by omega) fun h => absurd h.2.1 (by simp)
  case cons =>
    intro c1 c2 c3 c4 src hsrc hlen ih dst k
    have hblock := threeBytes_isSome_iff hd c1 c2 c3 c4
    rw [decodeBlocks_cons _ _ _ _ _ hsrc, startsWithDigits_cons, ← hblock]
    cases hthree : threeBytes (reverseIndex dictionary) c1 c2 c3 c4 with
    | none => simp
    | some bytes =>
      rw [Option.elim_some]
      have hbytes := length_threeBytes hthree
      cases k with
      | zero =>
        have hle := le_length_decodeBlocks (reverseIndex dictionary) src hlen (dst ++ bytes)
        rw [List.length_append, hbytes] at hle
        refine iff_of_false (by omega) (not_not_intro ⟨rfl, ?_⟩)
        simp [StartsWithDigits]
      | succ k =>
        have hrest := ih (dst ++ bytes) k
        rw [List.length_append, hbytes] at hrest
        rw [show dst.length + (3 * (k + 1) + 2) = dst.length + 3 + (3 * k + 2) by omega, hrest]
        simp [Nat.mul_add]

end Written

/-! ## Both alphabets -/

/-- `b` comes back from its text, and the sizes are the ones that are announced for it. -/
def ComesBack (encode : List UInt8 → List Char)
    (decode : List UInt8 → Option (Option Nat × List UInt8)) (b : List UInt8) : Prop :=
  (encode b).length = encodedLength b.length ∧
    decode ((encode b).map Char.toUInt8) = some (some b.length, b) ∧
    b.length ≤ maxDecodedLength (encode b).length ∧
    decodedLength ((encode b).map Char.toUInt8) = some b.length

theorem comesBack_of_reversible {dictionary : List Char} (hd : Reversible dictionary)
    (b : List UInt8) :
    ComesBack (encodeHelper dictionary) (decodeHelper (reverseIndex dictionary)) b := by
  have hlen := length_encodeHelper dictionary b
  have hmod : ((encodeHelper dictionary b).map Char.toUInt8).length % 4 = 0 := by
    rw [List.length_map, hlen, encodedLength]
    omega
  have hblocks : decodeBlocks (reverseIndex dictionary)
      ((encodeHelper dictionary b).map Char.toUInt8) [] = (some b.length, b) := by
    rw [encodeHelper_eq_padded, decodeBlocks_padded hd, List.nil_append]
  refine ⟨hlen, ?_, ?_, ?_⟩
  · rw [decodeHelper_eq _ hmod, hblocks]
  · rw [maxDecodedLength, hlen, encodedLength]
    omega
  · obtain ⟨k, hk, hcount⟩ := decodeBlocks_count _ _ hmod [] b.length (by rw [hblocks])
    rw [hk, hcount, List.length_nil, Nat.zero_add]

/-- Every byte string comes back, in the standard and in the URL alphabet. -/
theorem encode_decode (b : List UInt8) :
    ComesBack encode decode b ∧ ComesBack encodeUrl decodeUrl b :=
  ⟨comesBack_of_reversible base64Index_reversible b,
    comesBack_of_reversible base64UrlIndex_reversible b⟩

/-- `decodeHelper` with the reverse index of `dictionary` returns on `s`, without a read outside of
it: it accepts the texts that are well formed, with the count of `decodedLength`, and it writes no
more than three bytes for four. -/
def Decides (dictionary : List Char) (s : List UInt8) : Prop :=
  ∃ count dst, decodeHelper (reverseIndex dictionary) s = some (count, dst) ∧
    (count ≠ none ↔ s.length % 4 = 0 ∧ WellFormed dictionary s) ∧
    (count ≠ none → count = decodedLength s) ∧
    dst.length ≤ 3 * (s.length / 4)

theorem decides_of_reversible {dictionary : List Char} (hd : Reversible dictionary)
    (s : List UInt8) : Decides dictionary s := by
  by_cases hlen : s.length % 4 = 0
  · refine ⟨_, _, decodeHelper_eq _ hlen, ?_, ?_, ?_⟩
    · rw [← decodeBlocks_isSome_iff hd s hlen [], Option.isSome_iff_ne_none]
      exact ⟨fun h => ⟨hlen, h⟩, fun h => h.2⟩
    · intro hcount
      obtain ⟨n, hn⟩ := Option.ne_none_iff_exists'.mp hcount
      obtain ⟨k, hk, rfl⟩ := decodeBlocks_count _ s hlen [] n hn
      rw [hn, hk, List.length_nil, Nat.zero_add]
    · have hle := decodeBlocks_written (reverseIndex dictionary) s hlen []
      rwa [List.length_nil, Nat.zero_add] at hle
  · refine ⟨none, [], if_pos hlen, ?_, ?_, Nat.zero_le _⟩
    · exact ⟨fun h => absurd rfl h, fun h => absurd h.1 hlen⟩
    · intro h
      exact absurd rfl h

/-- Both decoders accept exactly the texts of their grammar. -/
theorem decodeHelper_grammar (s : List UInt8) :
    Decides base64Index s ∧ Decides base64UrlIndex s :=
  ⟨decides_of_reversible base64Index_reversible s,
    decides_of_reversible base64UrlIndex_reversible s⟩

end Base64
end Snowflake
