import Mathlib

/-!
# Decimal texts

Texts of decimal digits, as the `printf` family writes them and as a reader takes them from the
front of a longer text.

* `value`: the number that digits denote.
* `Digits`, `Numeral`: digits, and digits of which there is at least one.
* `padded`: `%0<width>ld` of a number that is not negative.
* `readNumber`: a number from the front of a text.
-/

namespace Decimal

/-- The number that `text` denotes. -/
def value (text : List Char) : Nat := Nat.ofDigitChars 10 text 0

@[simp] theorem value_nil : value [] = 0 := rfl

theorem value_toDigits (n : Nat) : value (Nat.toDigits 10 n) = n := Nat.ofDigitChars_ten_toDigits

theorem value_zeros_append (k : Nat) (text : List Char) :
    value (List.replicate k '0' ++ text) = value text := by
  rw [value, Nat.ofDigitChars_append, Nat.ofDigitChars_replicate_zero, Nat.mul_zero, value]

theorem digit_lt {c : Char} (hc : c.isDigit) : c.toNat - '0'.toNat < 10 := by
  have hle : c.toNat ≤ 57 := (Char.isDigit_iff_toNat.mp hc).2
  have hzero : '0'.toNat = 48 := rfl
  omega

theorem value_lt {text : List Char} (h : ∀ c ∈ text, c.isDigit) :
    value text < 10 ^ text.length := by
  induction text using List.reverseRecOn with
  | nil => decide
  | append_singleton text c ih =>
    have hlt := ih fun d hd => h d (List.mem_append_left _ hd)
    have hc := digit_lt (h c (by simp))
    have hstep : value (text ++ [c]) = 10 * value text + (c.toNat - '0'.toNat) := by
      rw [value, Nat.ofDigitChars_append, Nat.ofDigitChars_cons]
      rfl
    rw [hstep, List.length_append, List.length_singleton, pow_succ]
    omega

/-! ## Digits -/

/-- A text of digits. -/
structure Digits where
  chars : List Char
  digit : ∀ c ∈ chars, c.isDigit

/-- A text of digits that is not empty. -/
structure Numeral extends Digits where
  nonempty : chars ≠ []

def Digits.value (d : Digits) : Nat := Decimal.value d.chars

theorem Digits.value_lt (d : Digits) : d.value < 10 ^ d.chars.length := Decimal.value_lt d.digit

/-- The digits of a number. -/
def Numeral.ofNat (n : Nat) : Numeral :=
  ⟨⟨Nat.toDigits 10 n, fun _ hc => Nat.isDigit_of_mem_toDigits (by decide) (by decide) hc⟩,
    Nat.toDigits_ne_nil⟩

/-! ## Writing -/

/-- The digits of `n`, with zeros before them up to `width`. -/
def padded (width n : Nat) : List Char :=
  List.replicate (width - (Nat.toDigits 10 n).length) '0' ++ Nat.toDigits 10 n

@[simp] theorem value_padded (width n : Nat) : value (padded width n) = n := by
  rw [padded, value_zeros_append, value_toDigits]

theorem padded_digit {width n : Nat} : ∀ c ∈ padded width n, c.isDigit := by
  intro c hc
  rcases List.mem_append.mp hc with hc | hc
  · rw [List.eq_of_mem_replicate hc]
    decide
  · exact Nat.isDigit_of_mem_toDigits (by decide) (by decide) hc

theorem padded_ne_nil {width n : Nat} : padded width n ≠ [] := by
  intro h
  exact Nat.toDigits_ne_nil (List.append_eq_nil_iff.mp h).2

theorem length_padded {width n : Nat} (hwidth : 0 < width) (hn : n < 10 ^ width) :
    (padded width n).length = width := by
  have hlen := (Nat.length_toDigits_le_iff (b := 10) (by decide) hwidth).mpr hn
  rw [padded, List.length_append, List.length_replicate]
  omega

theorem length_padded_le {width n k : Nat} (hwidth : width ≤ k) (hk : 0 < k) (hn : n < 10 ^ k) :
    (padded width n).length ≤ k := by
  have hlen := (Nat.length_toDigits_le_iff (b := 10) (by decide) hk).mpr hn
  rw [padded, List.length_append, List.length_replicate]
  omega

/-! ## Reading -/

/-- A text that does not go on with a digit. -/
def Stops (rest : List Char) : Prop := ∀ c ∈ rest.head?, c.isDigit = false

theorem stops_nil : Stops [] := by
  intro c hc
  cases hc

theorem stops_cons (c : Char) (hc : c.isDigit = false) (rest : List Char) : Stops (c :: rest) := by
  intro d hd
  cases hd
  exact hc

theorem takeWhile_digits {text rest : List Char} (h : ∀ c ∈ text, c.isDigit) (hrest : Stops rest) :
    (text ++ rest).takeWhile Char.isDigit = text := by
  rw [List.takeWhile_append_of_pos h]
  cases rest with
  | nil => simp
  | cons c rest =>
    have hc : c.isDigit = false := hrest c rfl
    simp [hc]

theorem dropWhile_digits {text rest : List Char} (h : ∀ c ∈ text, c.isDigit) (hrest : Stops rest) :
    (text ++ rest).dropWhile Char.isDigit = rest := by
  rw [List.dropWhile_append_of_pos h]
  cases rest with
  | nil => simp
  | cons c rest =>
    have hc : c.isDigit = false := hrest c rfl
    simp [hc]

/-- The digits at the front of a text, and what follows them. There has to be one. -/
def readNumber (text : List Char) : Option (Nat × List Char) :=
  if text.takeWhile Char.isDigit = [] then none
  else some (value (text.takeWhile Char.isDigit), text.dropWhile Char.isDigit)

theorem readNumber_append {text rest : List Char} (h : ∀ c ∈ text, c.isDigit) (hne : text ≠ [])
    (hrest : Stops rest) : readNumber (text ++ rest) = some (value text, rest) := by
  rw [readNumber, takeWhile_digits h hrest, dropWhile_digits h hrest, if_neg hne]

theorem readNumber_padded {width n : Nat} {rest : List Char} (hrest : Stops rest) :
    readNumber (padded width n ++ rest) = some (n, rest) := by
  rw [readNumber_append padded_digit padded_ne_nil hrest, value_padded]

end Decimal
