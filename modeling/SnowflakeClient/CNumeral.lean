import SnowflakeClient.CInt
import SnowflakeClient.Decimal

/-!
# Numbers that C reads from a text

`strtoull` of the C standard with base 10, and `strtoul` where `unsigned long` has 64 bits: white
space, a sign, digits, and whatever follows them. A minus sign negates the number in the type of the
result; a number whose digits are beyond the type gives the largest one and sets `errno`.

* `Numbered`: a text that begins with a number.
* `strtoull_text`: what is read from it.
-/

namespace CNumeral

open CInt

/-- `isspace` of the C locale. -/
def isSpace (c : Char) : Bool := c == ' ' || (decide ('\t' ≤ c) && decide (c ≤ '\r'))

/-- The value, the text that `endptr` points to, and whether `errno` is `ERANGE`. -/
structure Unsigned where
  value : Nat
  endptr : List Char
  erange : Bool
  deriving DecidableEq, Repr

/-- A sign at the front of a text, and what follows it. -/
def readSign : List Char → Bool × List Char
  | '-' :: text => (true, text)
  | '+' :: text => (false, text)
  | text => (false, text)

/-- `strtoull(text, &endptr, 10)`. -/
def strtoull (text : List Char) : Unsigned :=
  let (negative, digits) := readSign (text.dropWhile isSpace)
  match Decimal.readNumber digits with
  | none => ⟨0, text, false⟩
  | some (m, endptr) =>
    if m < 2 ^ 64 then ⟨if negative then subU64 0 m else m, endptr, false⟩
    else ⟨2 ^ 64 - 1, endptr, true⟩

/-! ## Texts that begin with a number -/

inductive Sign where
  | none
  | plus
  | minus
  deriving DecidableEq, Repr

namespace Sign

def text : Sign → List Char
  | none => []
  | plus => ['+']
  | minus => ['-']

/-- The number with the sign. -/
def apply : Sign → Nat → Int
  | minus, m => -m
  | _, m => m

end Sign

/-- White space, a sign, digits, and a text that does not go on with a digit. -/
structure Numbered where
  blanks : List Char
  blank : ∀ c ∈ blanks, isSpace c
  sign : Sign
  digits : Decimal.Numeral
  rest : List Char
  stops : Decimal.Stops rest

namespace Numbered

def text (n : Numbered) : List Char := n.blanks ++ (n.sign.text ++ (n.digits.chars ++ n.rest))

/-- The number that the text begins with. -/
def value (n : Numbered) : Int := n.sign.apply n.digits.value

theorem natAbs_value (n : Numbered) : n.value.natAbs = n.digits.value := by
  unfold value Sign.apply
  cases n.sign <;> simp

end Numbered

/-- A digit is neither white space nor a sign. -/
theorem ne_of_isDigit {c d : Char} (hc : c.isDigit) (hd : d.isDigit = false) : c ≠ d := by
  rintro rfl
  rw [hd] at hc
  cases hc

theorem isSpace_of_isDigit {c : Char} (hc : c.isDigit) : isSpace c = false := by
  have hzero : 48 ≤ c.toNat := (Char.isDigit_iff_toNat.mp hc).1
  have hreturn : ('\r' : Char).toNat = 13 := rfl
  have hne : c ≠ ' ' := ne_of_isDigit hc (by decide)
  have hle : ¬ c ≤ '\r' := by
    intro h
    have h' : c.toNat ≤ ('\r' : Char).toNat := h
    omega
  simp [isSpace, hne, hle]

section Read

variable (n : Numbered)

/-- The first digit. -/
theorem exists_digit : ∃ c rest, n.digits.chars ++ n.rest = c :: rest ∧ c.isDigit := by
  have hdigit := n.digits.digit
  cases hchars : n.digits.chars with
  | nil => exact absurd hchars n.digits.nonempty
  | cons c chars => exact ⟨c, chars ++ n.rest, rfl, hdigit c (by simp [hchars])⟩

theorem dropWhile_blanks :
    n.text.dropWhile isSpace = n.sign.text ++ (n.digits.chars ++ n.rest) := by
  obtain ⟨c, rest, htext, hc⟩ := exists_digit n
  have hspace := isSpace_of_isDigit hc
  rw [Numbered.text, List.dropWhile_append_of_pos n.blank, htext]
  cases n.sign with
  | none => rw [Sign.text, List.nil_append, List.dropWhile_cons_of_neg (by simp [hspace])]
  | plus => exact List.dropWhile_cons_of_neg (by decide)
  | minus => exact List.dropWhile_cons_of_neg (by decide)

theorem readSign_text : readSign (n.sign.text ++ (n.digits.chars ++ n.rest)) =
    (decide (n.sign = .minus), n.digits.chars ++ n.rest) := by
  obtain ⟨c, rest, htext, hc⟩ := exists_digit n
  have hminus : c ≠ '-' := ne_of_isDigit hc (by decide)
  have hplus : c ≠ '+' := ne_of_isDigit hc (by decide)
  rw [htext]
  cases n.sign with
  | none =>
    rw [Sign.text, List.nil_append]
    unfold readSign
    split
    next heq => exact absurd (List.cons.inj heq).1 hminus
    next heq => exact absurd (List.cons.inj heq).1 hplus
    next => rfl
  | plus => rfl
  | minus => rfl

/-- What is read: the number in the type of the result, up to the end of its digits. -/
theorem strtoull_text :
    strtoull n.text =
      if n.digits.value < 2 ^ 64 then ⟨(n.value % 2 ^ 64).toNat, n.rest, false⟩
      else ⟨2 ^ 64 - 1, n.rest, true⟩ := by
  have hread := Decimal.readNumber_append n.digits.digit n.digits.nonempty n.stops
  have hvalue : Decimal.value n.digits.chars = n.digits.value := rfl
  unfold strtoull
  rw [dropWhile_blanks, readSign_text]
  dsimp only
  rw [hread]
  dsimp only
  rw [hvalue]
  split_ifs with hlt hminus
  · have hminus : n.sign = .minus := by simpa using hminus
    have hvalue : n.value = -n.digits.value := by rw [Numbered.value, hminus, Sign.apply]
    congr 1
    rw [hvalue, subU64]
    omega
  · have hplus : n.value = n.digits.value := by
      unfold Numbered.value Sign.apply
      cases hsign : n.sign with
      | minus => simp [hsign] at hminus
      | _ => rfl
    congr 1
    rw [hplus]
    omega
  · rfl

/-- Something was read. -/
theorem rest_ne_text : n.rest ≠ n.text := by
  intro h
  have hlength := congrArg List.length h
  have hpos := List.length_pos_of_ne_nil n.digits.nonempty
  simp only [Numbered.text, List.length_append] at hlength
  omega

end Read

end CNumeral
