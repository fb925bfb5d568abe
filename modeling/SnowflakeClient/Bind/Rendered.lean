import SnowflakeClient.Bind.Sent
import SnowflakeClient.Block

/-!
# Strings and binaries as texts

The two branches of `value_to_string` (`lib/results.c`) that take `len` bytes, with the block that
they write to. The sizes are computed in a `size_t`.

A binary is written in hexadecimal, two digits for a byte. A string is copied with one byte more
than its length: the copy has an end only if one of those bytes is a NUL, and where it is none of
the first `len` the byte after them is read.
-/

namespace Snowflake

/-! ## The code -/

/-- The loop of `_bin2hex` from `i` on, for `count` bytes. -/
def bin2hexFrom (src : List UInt8) (dstMaxLen : Nat) :
    (count i dlen : Nat) → Block → Run Empty (Nat × Block)
  | 0, _, dlen, dst => .returned (dlen, dst)
  | count + 1, i, dlen, dst =>
    if dlen < dstMaxLen then do
      let b ← .ofRead src[i]?
      let dst ← dst.write (i * 2) [hexDigit (b.toNat / 16)]
      let dst ← dst.write (i * 2 + 1) [hexDigit (b.toNat % 16)]
      bin2hexFrom src dstMaxLen count (i + 1) (dlen + 2) dst
    else .returned (dlen, dst)

/-- `_bin2hex`, with what it returns and the block it writes to. -/
def bin2hexInto (dst : Block) (src : List UInt8) (dstMaxLen srcLen : Nat) :
    Run Empty (Nat × Block) :=
  if dstMaxLen < srcLen * 2 % 2 ^ 64 then .returned (0, dst)
  else bin2hexFrom src dstMaxLen srcLen 0 0 dst

/-- `value_to_string` for `SF_C_TYPE_BINARY`. -/
def binaryBlock (buffer : List UInt8) (len : Nat) : Run Empty Block := do
  let size := (len * 2 + 1) % 2 ^ 64
  let (_, ret) ← bin2hexInto (.calloc size) buffer (size - 1) len
  ret.write (size - 1) [0]

/-- `value_to_string` for `SF_C_TYPE_STRING`. -/
def stringBlock (buffer : List UInt8) (len : Nat) : Run Empty Block := do
  let size := (len + 1) % 2 ^ 64
  let copy ← .ofRead (strncpy buffer size)
  (Block.calloc size).write 0 copy

/-! ## Hexadecimal texts -/

/-- The value of a digit. -/
def hexValue (c : UInt8) : Option Nat :=
  if '0'.toUInt8 ≤ c ∧ c ≤ '9'.toUInt8 then some (c - '0'.toUInt8).toNat
  else if 'A'.toUInt8 ≤ c ∧ c ≤ 'F'.toUInt8 then some ((c - 'A'.toUInt8).toNat + 10)
  else none

/-- The bytes of a text, one for two digits. -/
def hex2bin : List UInt8 → Option (List UInt8)
  | [] => some []
  | [_] => none
  | high :: low :: rest => do
    let h ← hexValue high
    let l ← hexValue low
    let bytes ← hex2bin rest
    some (UInt8.ofNat (16 * h + l) :: bytes)

theorem hexValue_hexDigit : ∀ n < 16, hexValue (hexDigit n) = some n := by decide

theorem hexDigit_mem : ∀ n < 16, hexDigit n ∈ ascii "0123456789ABCDEF".toList := by decide

theorem halves_lt (b : UInt8) : b.toNat / 16 < 16 ∧ b.toNat % 16 < 16 := by
  have hb := b.toNat_lt
  omega

@[simp] theorem bin2hex_nil : bin2hex [] = [] := rfl

@[simp] theorem bin2hex_cons (b : UInt8) (src : List UInt8) :
    bin2hex (b :: src) = hexDigit (b.toNat / 16) :: hexDigit (b.toNat % 16) :: bin2hex src := rfl

theorem length_bin2hex (src : List UInt8) : (bin2hex src).length = 2 * src.length := by
  induction src with
  | nil => rfl
  | cons b src ih =>
    simp only [bin2hex_cons, List.length_cons, ih]
    omega

theorem mem_bin2hex {src : List UInt8} :
    ∀ c ∈ bin2hex src, c ∈ ascii "0123456789ABCDEF".toList := by
  intro c hc
  obtain ⟨b, -, hc⟩ := List.mem_flatMap.mp hc
  obtain ⟨hhigh, hlow⟩ := halves_lt b
  rcases List.mem_pair.mp hc with rfl | rfl
  · exact hexDigit_mem _ hhigh
  · exact hexDigit_mem _ hlow

theorem hex2bin_bin2hex (src : List UInt8) : hex2bin (bin2hex src) = some src := by
  induction src with
  | nil => rfl
  | cons b src ih =>
    obtain ⟨hhigh, hlow⟩ := halves_lt b
    have hbyte : 16 * (b.toNat / 16) + b.toNat % 16 = b.toNat := Nat.div_add_mod _ _
    rw [bin2hex_cons, hex2bin, hexValue_hexDigit _ hhigh, hexValue_hexDigit _ hlow, ih]
    simp only [Option.bind_eq_bind, Option.bind_some, hbyte, UInt8.ofNat_toNat]

/-! ## The loop -/

/-- The digits of `count` more bytes, after those of the first `i`. -/
theorem bin2hexFrom_eq {src : List UInt8} {dstMaxLen count i : Nat} {front : List UInt8}
    {rest : List (Option UInt8)} (hfront : front.length = 2 * i) (hsrc : i + count ≤ src.length)
    (hmax : 2 * (i + count) ≤ dstMaxLen) (hrest : 2 * count ≤ rest.length) :
    bin2hexFrom src dstMaxLen count i (2 * i) ⟨front.map some ++ rest⟩ =
      .returned (2 * (i + count),
        ⟨(front ++ bin2hex ((src.drop i).take count)).map some ++ rest.drop (2 * count)⟩) := by
  induction count generalizing i front rest with
  | zero => simp [bin2hexFrom]
  | succ count ih =>
    have hi : i < src.length := by omega
    have hdlen : 2 * i < dstMaxLen := by omega
    have hhigh := @Block.write_map_append Empty front [hexDigit (src[i].toNat / 16)] rest (i * 2)
      (by omega) (by rw [List.length_singleton]; omega)
    have hlow := @Block.write_map_append Empty (front ++ [hexDigit (src[i].toNat / 16)])
      [hexDigit (src[i].toNat % 16)] (rest.drop 1) (i * 2 + 1)
      (by rw [List.length_append, List.length_singleton]; omega)
      (by rw [List.length_singleton, List.length_drop]; omega)
    have hcount := @ih (i + 1)
      (front ++ [hexDigit (src[i].toNat / 16)] ++ [hexDigit (src[i].toNat % 16)])
      ((rest.drop 1).drop 1) (by simp only [List.length_append, List.length_singleton]; omega)
      (by omega) (by omega) (by simp only [List.length_drop]; omega)
    rw [bin2hexFrom, if_pos hdlen, List.getElem?_eq_getElem hi, Run.ofRead_some, Run.returned_bind,
      hhigh, Run.returned_bind, List.length_singleton, hlow, Run.returned_bind,
      List.length_singleton, ← Nat.mul_succ, hcount, List.drop_eq_getElem_cons hi,
      List.take_succ_cons, bin2hex_cons, List.drop_drop, List.drop_drop, List.append_assoc,
      List.append_assoc, show 1 + (1 + 2 * count) = 2 * (count + 1) by omega,
      show i + 1 + count = i + (count + 1) by omega]
    rfl

theorem bin2hexFrom_size {src : List UInt8} {dstMaxLen count i dlen : Nat} {dst : Block}
    {result : Nat × Block} (h : bin2hexFrom src dstMaxLen count i dlen dst = .returned result) :
    result.2.size = dst.size := by
  induction count generalizing i dlen dst with
  | zero =>
    cases h
    rfl
  | succ count ih =>
    rw [bin2hexFrom] at h
    by_cases hdlen : dlen < dstMaxLen
    · rw [if_pos hdlen] at h
      obtain ⟨b, -, h⟩ := Run.bind_eq_returned.mp h
      obtain ⟨dst₁, hhigh, h⟩ := Run.bind_eq_returned.mp h
      obtain ⟨dst₂, hlow, h⟩ := Run.bind_eq_returned.mp h
      rw [ih h, Block.size_of_write hlow, Block.size_of_write hhigh]
    · rw [if_neg hdlen] at h
      cases h
      rfl

theorem binaryBlock_size {buffer : List UInt8} {len : Nat} {block : Block}
    (h : binaryBlock buffer len = .returned block) : block.size = (len * 2 + 1) % 2 ^ 64 := by
  obtain ⟨result, hhex, hend⟩ := Run.bind_eq_returned.mp h
  rw [Block.size_of_write hend]
  rw [bin2hexInto] at hhex
  by_cases hmax : (len * 2 + 1) % 2 ^ 64 - 1 < len * 2 % 2 ^ 64
  · rw [if_pos hmax] at hhex
    cases hhex
    exact Block.size_calloc _
  · rw [if_neg hmax] at hhex
    rw [bin2hexFrom_size hhex, Block.size_calloc]

/-- The digits of the first `len` bytes and a NUL, in a block of that size. -/
theorem binaryBlock_eq {buffer : List UInt8} {len : Nat} (hlen : len ≤ buffer.length)
    (hsize : len < 2 ^ 63) :
    binaryBlock buffer len = .returned ⟨(bin2hex (buffer.take len) ++ [0]).map some⟩ := by
  have hmod : (len * 2 + 1) % 2 ^ 64 = len * 2 + 1 := Nat.mod_eq_of_lt (by omega)
  have hmax : ¬len * 2 < len * 2 % 2 ^ 64 := Nat.not_lt.mpr (Nat.mod_le _ _)
  have hloop := @bin2hexFrom_eq buffer (len * 2) len 0 []
    (List.replicate (len * 2 + 1) (some 0)) rfl (by omega) (by omega)
    (by rw [List.length_replicate]; omega)
  have hrest : (List.replicate (len * 2 + 1) (some (0 : UInt8))).drop (2 * len) = [some 0] := by
    rw [List.drop_replicate, show len * 2 + 1 - 2 * len = 1 by omega, List.replicate_one]
  rw [List.map_nil, List.nil_append, List.nil_append, List.drop_zero, Nat.mul_zero, hrest] at hloop
  rw [binaryBlock, hmod, Nat.add_sub_cancel, bin2hexInto, if_neg hmax, Block.calloc, hloop,
    Run.returned_bind]
  dsimp only
  rw [Block.write_map_append]
  · rw [List.length_singleton, List.drop_one, List.tail_cons, List.append_nil]
  · rw [length_bin2hex, List.length_take]
    omega
  · rfl

/-! ## Copies of strings -/

theorem length_strncpy {src copy : List UInt8} {n : Nat} (h : strncpy src n = some copy) :
    copy.length = n := by
  rw [strncpy] at h
  split_ifs at h with hlong hend
  · cases h
    rw [List.length_take]
    omega
  · cases h
    rw [List.length_append, List.length_replicate]
    omega

theorem takeWhile_text {text rest : List UInt8} (htext : 0 ∉ text) :
    (text ++ 0 :: rest).takeWhile (· ≠ 0) = text := by
  have hpos : ∀ b ∈ text, decide (b ≠ 0) = true := fun b hb =>
    decide_eq_true fun h => htext (h ▸ hb)
  rw [List.takeWhile_append_of_pos hpos, List.takeWhile_cons_of_neg (by decide), List.append_nil]

/-- A text that ends before the count. -/
theorem strncpy_of_end {text rest : List UInt8} {n : Nat} (htext : 0 ∉ text)
    (hn : text.length < n) :
    strncpy (text ++ 0 :: rest) n = some (text ++ List.replicate (n - text.length) 0) := by
  rw [strncpy, takeWhile_text htext, if_neg (by omega), if_pos (by simp)]

/-- With nothing but the first `len` bytes to read, the copy of one byte more needs a NUL there. -/
theorem mem_of_strncpy_take {src copy : List UInt8} {len : Nat}
    (h : strncpy (src.take len) (len + 1) = some copy) : 0 ∈ src.take len := by
  obtain ⟨-, hsplit⟩ := text_split (src.take len)
  rw [strncpy] at h
  have hle := (List.takeWhile_sublist (· ≠ (0 : UInt8)) (l := src.take len)).length_le
  have hlen : (src.take len).length ≤ len := List.length_take_le _ _
  split_ifs at h with hlong hend
  · omega
  · rcases hsplit with heq | ⟨rest, heq⟩
    · rw [← heq] at hend
      omega
    · rw [heq]
      simp

/-- A copy fills its block. -/
theorem write_copy {copy : List UInt8} {n : Nat} (h : copy.length = n) :
    ((Block.calloc n).write 0 copy : Run Empty Block) = .returned ⟨copy.map some⟩ := by
  have hwrite := @Block.write_map_append Empty [] copy (List.replicate n (some 0)) 0 rfl
    (by rw [List.length_replicate, h])
  rwa [List.map_nil, List.nil_append, List.nil_append, List.drop_of_length_le
    (by rw [List.length_replicate, h]), List.append_nil] at hwrite

theorem stringBlock_eq_returned_iff {buffer copy : List UInt8} {len : Nat} :
    stringBlock buffer len = .returned ⟨copy.map some⟩ ↔
      strncpy buffer ((len + 1) % 2 ^ 64) = some copy := by
  constructor
  · intro h
    obtain ⟨copy', hcopy, hwrite⟩ := Run.bind_eq_returned.mp h
    rw [Run.ofRead_eq_returned] at hcopy
    rw [write_copy (length_strncpy hcopy), Run.returned.injEq, Block.mk.injEq] at hwrite
    rwa [List.map_injective_iff.mpr (Option.some_injective _) hwrite] at hcopy
  · intro h
    rw [stringBlock, h, Run.ofRead_some, Run.returned_bind, write_copy (length_strncpy h)]

/-! ## What is returned -/

/-- The blocks are those of `valueToString`, for the lengths that objects have. -/
theorem valueToString_eq_binaryBlock {buffer : List UInt8} {len : Nat} (hlen : len ≤ buffer.length)
    (hsize : len < 2 ^ 63) :
    ∃ block, valueToString (.binary buffer len) = some (.heap block) ∧
      binaryBlock buffer len = .returned ⟨block.map some⟩ :=
  ⟨_, if_pos hlen, binaryBlock_eq hlen hsize⟩

theorem valueToString_eq_stringBlock {buffer copy : List UInt8} {len : Nat}
    (hsize : len + 1 < 2 ^ 64) :
    valueToString (.string buffer len) = some (.heap copy) ↔
      stringBlock buffer len = .returned ⟨copy.map some⟩ := by
  rw [stringBlock_eq_returned_iff, Nat.mod_eq_of_lt hsize]
  cases hcopy : strncpy buffer (len + 1) <;> simp [valueToString, hcopy]

/-- What a binary has to be: two digits for each of the first `len` bytes and a NUL. The bytes after
them are not read: they may be any, or none. -/
def BinaryRendered (buffer : List UInt8) (len : Nat) : Prop :=
  ∃ digits : List UInt8,
    (∀ memory, buffer.take len <+: memory →
      binaryBlock memory len = .returned ⟨(digits ++ [0]).map some⟩) ∧
    digits.length = 2 * len ∧ (∀ c ∈ digits, c ∈ ascii "0123456789ABCDEF".toList) ∧
    hex2bin digits = some (buffer.take len)

/-- What a string has to be: a block of `len + 1` bytes with a NUL among them, whose text is that of
the first `len` bytes. The bytes after them are not read. -/
def StringRendered (buffer : List UInt8) (len : Nat) : Prop :=
  ∃ copy : List UInt8,
    (∀ memory, buffer.take len <+: memory →
      stringBlock memory len = .returned ⟨copy.map some⟩) ∧
    copy.length = len + 1 ∧ textOf copy = some ((buffer.take len).takeWhile (· ≠ 0))

theorem binaryRendered_iff {buffer : List UInt8} {len : Nat} (hlen : len ≤ buffer.length) :
    BinaryRendered buffer len ↔ len < 2 ^ 63 := by
  constructor
  · rintro ⟨digits, hrun, hdigits, -⟩
    have hsize := binaryBlock_size (hrun _ List.prefix_rfl)
    have hmod := Nat.mod_lt (len * 2 + 1) (by decide : 0 < 2 ^ 64)
    rw [← hsize] at hmod
    simp only [Block.size, List.length_map, List.length_append, List.length_singleton] at hmod
    omega
  · intro hsize
    refine ⟨bin2hex (buffer.take len), fun memory hmem => ?_, ?_, mem_bin2hex, hex2bin_bin2hex _⟩
    · have hlen' : len ≤ memory.length := by
        have hle := hmem.length_le
        rw [List.length_take] at hle
        omega
      rw [binaryBlock_eq hlen' hsize, List.prefix_iff_eq_take.mp hmem, List.length_take,
        Nat.min_eq_left hlen]
    · rw [length_bin2hex, List.length_take, Nat.min_eq_left hlen]

theorem stringRendered_iff {buffer : List UInt8} {len : Nat} :
    StringRendered buffer len ↔ 0 ∈ buffer.take len ∧ len + 1 < 2 ^ 64 := by
  constructor
  · rintro ⟨copy, hrun, hcopy, -⟩
    have h := stringBlock_eq_returned_iff.mp (hrun _ List.prefix_rfl)
    have hmod := Nat.mod_lt (len + 1) (by decide : 0 < 2 ^ 64)
    rw [← length_strncpy h, hcopy] at hmod
    rw [Nat.mod_eq_of_lt hmod] at h
    exact ⟨mem_of_strncpy_take h, hmod⟩
  · rintro ⟨hnul, hsize⟩
    obtain ⟨htext, hsplit⟩ := text_split (buffer.take len)
    have hlen := List.length_take_le len buffer
    generalize htake : (buffer.take len).takeWhile (· ≠ 0) = text at htext hsplit
    rcases hsplit with heq | ⟨rest, heq⟩
    · exact absurd (heq ▸ hnul) htext
    · have hshort : text.length < len + 1 := by
        rw [heq, List.length_append] at hlen
        omega
      obtain ⟨k, hk⟩ : ∃ k, len + 1 - text.length = k + 1 := ⟨len - text.length, by omega⟩
      refine ⟨text ++ List.replicate (len + 1 - text.length) 0, fun memory hmem => ?_, ?_, ?_⟩
      · obtain ⟨more, rfl⟩ := hmem
        rw [stringBlock_eq_returned_iff, Nat.mod_eq_of_lt hsize, heq, List.append_assoc,
          List.cons_append, strncpy_of_end htext hshort]
      · rw [List.length_append, List.length_replicate]
        omega
      · rw [hk, List.replicate_succ, textOf, if_pos (by simp), takeWhile_text htext, htake]

/-- Of any buffer and any length within it, the binary is as it has to be, and the string is if and
only if it ends within its length. (No object has `2 ^ 63` bytes.) -/
theorem rendered_iff (buffer : List UInt8) (len : Nat) (hlen : len ≤ buffer.length) :
    (BinaryRendered buffer len ↔ len < 2 ^ 63) ∧
      (StringRendered buffer len ↔ 0 ∈ buffer.take len ∧ len + 1 < 2 ^ 64) :=
  ⟨binaryRendered_iff hlen, stringRendered_iff⟩

/-- The text `hi` and its NUL, with the length of both, and with the length of the text. -/
theorem rendered_terminated :
    BinaryRendered (ascii "hi".toList ++ [0]) 3 ∧ StringRendered (ascii "hi".toList ++ [0]) 3 ∧
      BinaryRendered (ascii "hi".toList ++ [0]) 2 ∧
      ¬StringRendered (ascii "hi".toList ++ [0]) 2 := by
  obtain ⟨hbinary, hstring⟩ := rendered_iff (ascii "hi".toList ++ [0]) 3 (by decide)
  obtain ⟨hbinary', hstring'⟩ := rendered_iff (ascii "hi".toList ++ [0]) 2 (by decide)
  have hnul : 0 ∈ (ascii "hi".toList ++ [0]).take 3 := by decide
  have hcut : 0 ∉ (ascii "hi".toList ++ [0]).take 2 := by decide
  exact ⟨hbinary.mpr (by decide), hstring.mpr ⟨hnul, by decide⟩, hbinary'.mpr (by decide),
    fun h => hcut (hstring'.mp h).1⟩

/-- A length that cuts a text: the copy takes the byte after it and has no end, and without such a
byte it reads outside of the buffer. -/
theorem not_stringRendered_cut :
    ¬StringRendered (ascii "abcdef".toList) 3 ∧
      stringBlock (ascii "abcdef".toList) 3 = .returned ⟨(ascii "abcd".toList).map some⟩ ∧
      textOf (ascii "abcd".toList) = none ∧
      stringBlock (ascii "abc".toList) 3 = .outside := by
  refine ⟨fun h => ?_, ?_, by decide, by decide⟩
  · exact absurd (stringRendered_iff.mp h).1 (by decide)
  · rw [stringBlock_eq_returned_iff]
    decide

end Snowflake
