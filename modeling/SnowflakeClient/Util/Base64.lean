import Mathlib

/-!
# Base64 encoding

`Base64::encodeHelper` (`cpp/util/Base64.cpp`): three bytes become four characters, a last group
is filled up with zero bytes, and the `=` signs are written over its last characters afterwards.
A byte string is a list of `UInt8`, a text a list of `Char`.

* `encodeHelper_eq_padded`: the same text, group by group.
* `encode_inj`: the texts of byte strings of one length differ if the byte strings do.
-/

namespace Snowflake
namespace Base64

/-- `BASE64_INDEX`. -/
def base64Index : List Char :=
  "ABCDEFGHIJKLMNOPQRSTUVWXYZabcdefghijklmnopqrstuvwxyz0123456789+/".toList

def encodedLength (srcLength : Nat) : Nat := 4 * ((srcLength + 2) / 3)

/-- `(b1 << 16) | (b2 << 8) | b3`. -/
def combined (b1 b2 b3 : UInt8) : Nat := b1.toNat <<< 16 ||| b2.toNat <<< 8 ||| b3.toNat

/-- The character for the six bits of `n` from `shift` on. -/
def digit (dictionary : List Char) (n shift : Nat) : Char :=
  dictionary.getD (n >>> shift &&& 0x3F) '='

/-- One round of the loop of `encodeHelper`. -/
def encodeGroup (dictionary : List Char) (b1 b2 b3 : UInt8) : List Char :=
  [digit dictionary (combined b1 b2 b3) 18, digit dictionary (combined b1 b2 b3) 12,
    digit dictionary (combined b1 b2 b3) 6, digit dictionary (combined b1 b2 b3) 0]

/-- The loop of `encodeHelper`: a missing byte is 0. -/
def encodeGroups (dictionary : List Char) : List UInt8 → List Char
  | [] => []
  | [b1] => encodeGroup dictionary b1 0 0
  | [b1, b2] => encodeGroup dictionary b1 b2 0
  | b1 :: b2 :: b3 :: src => encodeGroup dictionary b1 b2 b3 ++ encodeGroups dictionary src

/-- `Base64::encodeHelper`: what it writes to `dst`. -/
def encodeHelper (dictionary : List Char) (src : List UInt8) : List Char :=
  let dst := encodeGroups dictionary src
  let j := dst.length
  let dst := if 1 ≤ src.length % 3 then dst.set (j - 1) '=' else dst
  if src.length % 3 = 1 then dst.set (j - 2) '=' else dst

def encode (src : List UInt8) : List Char := encodeHelper base64Index src

/-! ## The text, group by group -/

/-- The text with the `=` signs in their places. -/
def padded (dictionary : List Char) : List UInt8 → List Char
  | [] => []
  | [b1] => [digit dictionary (combined b1 0 0) 18, digit dictionary (combined b1 0 0) 12, '=', '=']
  | [b1, b2] =>
    [digit dictionary (combined b1 b2 0) 18, digit dictionary (combined b1 b2 0) 12,
      digit dictionary (combined b1 b2 0) 6, '=']
  | b1 :: b2 :: b3 :: src => encodeGroup dictionary b1 b2 b3 ++ padded dictionary src

@[simp] theorem length_encodeGroup (dictionary : List Char) (b1 b2 b3 : UInt8) :
    (encodeGroup dictionary b1 b2 b3).length = 4 := rfl

theorem length_encodeGroups (dictionary : List Char) (src : List UInt8) :
    (encodeGroups dictionary src).length = encodedLength src.length := by
  induction src using encodeGroups.induct with
  | case1 => rfl
  | case2 b1 => simp [encodeGroups, encodedLength]
  | case3 b1 b2 => simp [encodeGroups, encodedLength]
  | case4 b1 b2 b3 src ih =>
    simp only [encodeGroups, List.length_append, ih, length_encodeGroup, encodedLength,
      List.length_cons]
    omega

/-- A write `k` places before the end of a text stays in its last part. -/
theorem set_append_end (group dst : List Char) {k : Nat} (hk : k ≤ dst.length) (c : Char) :
    (group ++ dst).set ((group ++ dst).length - k) c = group ++ dst.set (dst.length - k) c := by
  rw [List.length_append, List.set_append_right _ _ (by omega)]
  congr 2
  omega

theorem encodeHelper_cons (dictionary : List Char) (b1 b2 b3 : UInt8) (src : List UInt8) :
    encodeHelper dictionary (b1 :: b2 :: b3 :: src) =
      encodeGroup dictionary b1 b2 b3 ++ encodeHelper dictionary src := by
  have hmod : (b1 :: b2 :: b3 :: src).length % 3 = src.length % 3 := by
    simp only [List.length_cons]
    omega
  have hlen := length_encodeGroups dictionary src
  rw [encodedLength] at hlen
  simp only [encodeHelper, encodeGroups, hmod]
  generalize encodeGroup dictionary b1 b2 b3 = group
  generalize encodeGroups dictionary src = dst at hlen ⊢
  by_cases hpad : 1 ≤ src.length % 3
  · rw [if_pos hpad, if_pos hpad, set_append_end group dst (by omega)]
    by_cases htwo : src.length % 3 = 1
    · have hset := set_append_end group (dst.set (dst.length - 1) '=') (k := 2)
        (by rw [List.length_set]; omega) '='
      rw [List.length_append, List.length_set] at hset
      rw [if_pos htwo, if_pos htwo, List.length_append, hset]
    · rw [if_neg htwo, if_neg htwo]
  · rw [if_neg hpad, if_neg hpad, if_neg (by omega), if_neg (by omega)]

theorem encodeHelper_eq_padded (dictionary : List Char) (src : List UInt8) :
    encodeHelper dictionary src = padded dictionary src := by
  induction src using encodeGroups.induct with
  | case1 => rfl
  | case2 b1 => simp [encodeHelper, encodeGroups, encodeGroup, padded]
  | case3 b1 b2 => simp [encodeHelper, encodeGroups, encodeGroup, padded]
  | case4 b1 b2 b3 src ih => rw [encodeHelper_cons, ih, padded]

theorem length_encodeHelper (dictionary : List Char) (src : List UInt8) :
    (encodeHelper dictionary src).length = encodedLength src.length := by
  simp only [encodeHelper, apply_ite List.length, List.length_set, ite_self, length_encodeGroups]

/-! ## The bytes, back from the text -/

theorem combined_eq (b1 b2 b3 : UInt8) :
    combined b1 b2 b3 = b1.toNat * 65536 + b2.toNat * 256 + b3.toNat := by
  have h1 := b1.toNat_lt
  have h2 := b2.toNat_lt
  have h3 := b3.toNat_lt
  have hlow : b2.toNat <<< 8 ||| b3.toNat = b2.toNat <<< 8 + b3.toNat :=
    (Nat.shiftLeft_add_eq_or_of_lt (by omega) _).symm
  have hhigh : b1.toNat <<< 16 ||| (b2.toNat <<< 8 + b3.toNat) =
      b1.toNat <<< 16 + (b2.toNat <<< 8 + b3.toNat) := by
    refine (Nat.shiftLeft_add_eq_or_of_lt ?_ _).symm
    rw [Nat.shiftLeft_eq]
    omega
  rw [combined, Nat.or_assoc, hlow, hhigh, Nat.shiftLeft_eq, Nat.shiftLeft_eq]
  omega

/-- A group has 24 bits. -/
theorem combined_div_eq (a1 a2 a3 b1 b2 b3 : UInt8) :
    combined a1 a2 a3 / 2 ^ (18 + 6) = combined b1 b2 b3 / 2 ^ (18 + 6) := by
  have hzero : ∀ c1 c2 c3 : UInt8, combined c1 c2 c3 / 2 ^ (18 + 6) = 0 := by
    intro c1 c2 c3
    have h1 := c1.toNat_lt
    have h2 := c2.toNat_lt
    have h3 := c3.toNat_lt
    rw [combined_eq]
    omega
  rw [hzero, hzero]

theorem sixBits_eq (n shift : Nat) : n >>> shift &&& 0x3F = n / 2 ^ shift % 64 := by
  rw [Nat.shiftRight_eq_div_pow]
  exact Nat.and_two_pow_sub_one_eq_mod _ 6

/-- A dictionary that tells the 64 digits apart. -/
structure Alphabet (dictionary : List Char) : Prop where
  length : dictionary.length = 64
  nodup : dictionary.Nodup

theorem base64Index_alphabet : Alphabet base64Index :=
  ⟨by decide, by decide⟩

section Injective

variable {dictionary : List Char} (hd : Alphabet dictionary)
include hd

theorem digit_inj {m n shift : Nat} (h : digit dictionary m shift = digit dictionary n shift) :
    m / 2 ^ shift % 64 = n / 2 ^ shift % 64 := by
  have hm : m / 2 ^ shift % 64 < dictionary.length := by
    rw [hd.length]
    exact Nat.mod_lt _ (by omega)
  have hn : n / 2 ^ shift % 64 < dictionary.length := by
    rw [hd.length]
    exact Nat.mod_lt _ (by omega)
  rw [digit, digit, sixBits_eq, sixBits_eq, List.getD_eq_getElem _ _ hm,
    List.getD_eq_getElem _ _ hn] at h
  exact (List.Nodup.getElem_inj_iff hd.nodup).mp h

/-- The bits from `shift` on are the six at `shift` and the ones above. -/
theorem div_eq_of_digit {m n shift : Nat} (hhigh : m / 2 ^ (shift + 6) = n / 2 ^ (shift + 6))
    (h : digit dictionary m shift = digit dictionary n shift) : m / 2 ^ shift = n / 2 ^ shift := by
  have hlow := digit_inj hd h
  rw [Nat.pow_add, ← Nat.div_div_eq_div_mul, ← Nat.div_div_eq_div_mul] at hhigh
  rw [← Nat.div_add_mod (m / 2 ^ shift) 64, ← Nat.div_add_mod (n / 2 ^ shift) 64, hlow]
  exact congrArg (64 * · + _) hhigh

theorem padded_inj {a b : List UInt8} (hlen : a.length = b.length)
    (h : padded dictionary a = padded dictionary b) : a = b := by
  induction a using encodeGroups.induct generalizing b with
  | case1 => exact (List.length_eq_zero_iff.mp hlen.symm).symm
  | case2 a1 =>
    obtain ⟨b1, rfl⟩ := List.length_eq_one_iff.mp hlen.symm
    simp only [padded, List.cons.injEq, and_true] at h
    obtain ⟨h18, h12⟩ := h
    have h18 := div_eq_of_digit hd (combined_div_eq ..) h18
    have h12 := div_eq_of_digit hd h18 h12
    simp only [combined_eq, UInt8.toNat_zero] at h12
    rw [UInt8.toNat_inj.mp (show a1.toNat = b1.toNat by omega)]
  | case3 a1 a2 =>
    obtain ⟨b1, b2, rfl⟩ := List.length_eq_two.mp hlen.symm
    simp only [padded, List.cons.injEq, and_true] at h
    obtain ⟨h18, h12, h6⟩ := h
    have h18 := div_eq_of_digit hd (combined_div_eq ..) h18
    have h12 := div_eq_of_digit hd h18 h12
    have h6 := div_eq_of_digit hd h12 h6
    simp only [combined_eq, UInt8.toNat_zero] at h6
    have ha2 := a2.toNat_lt
    have hb2 := b2.toNat_lt
    rw [UInt8.toNat_inj.mp (show a1.toNat = b1.toNat by omega),
      UInt8.toNat_inj.mp (show a2.toNat = b2.toNat by omega)]
  | case4 a1 a2 a3 a ih =>
    match b, hlen with
    | b1 :: b2 :: b3 :: b, hlen =>
      simp only [padded, encodeGroup, List.cons_append, List.nil_append, List.cons.injEq] at h
      obtain ⟨h18, h12, h6, h0, hrest⟩ := h
      have h18 := div_eq_of_digit hd (combined_div_eq ..) h18
      have h12 := div_eq_of_digit hd h18 h12
      have h6 := div_eq_of_digit hd h12 h6
      have h0 := div_eq_of_digit hd h6 h0
      simp only [combined_eq, Nat.pow_zero, Nat.div_one] at h0
      have ha2 := a2.toNat_lt
      have hb2 := b2.toNat_lt
      have ha3 := a3.toNat_lt
      have hb3 := b3.toNat_lt
      simp only [List.length_cons, Nat.add_right_cancel_iff] at hlen
      rw [UInt8.toNat_inj.mp (show a1.toNat = b1.toNat by omega),
        UInt8.toNat_inj.mp (show a2.toNat = b2.toNat by omega),
        UInt8.toNat_inj.mp (show a3.toNat = b3.toNat by omega), ih hlen hrest]

/-- The texts of two byte strings of one length are equal only if the byte strings are. -/
theorem encodeHelper_inj {a b : List UInt8} (hlen : a.length = b.length)
    (h : encodeHelper dictionary a = encodeHelper dictionary b) : a = b := by
  rw [encodeHelper_eq_padded, encodeHelper_eq_padded] at h
  exact padded_inj hd hlen h

end Injective

theorem encode_inj {a b : List UInt8} (hlen : a.length = b.length) (h : encode a = encode b) :
    a = b :=
  encodeHelper_inj base64Index_alphabet hlen h

end Base64
end Snowflake
