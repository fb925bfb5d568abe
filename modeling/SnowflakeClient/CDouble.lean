import SnowflakeClient.Binary64
import SnowflakeClient.CNumeral

/-!
# Texts of numbers of type `double`

`strtod` of the C standard and the conversion `%.<n>g` of `printf`, with a point as the decimal
point. Both are exact: a text is read as the number nearest to it, and a number is printed as the
nearest one with `n` digits.

* `Literal`: a number in a text.
* `strtod_text`: what is read from it.
* `general`: the literal that `%.<n>g` prints.
* `strtod_general`: seventeen digits are enough to read the number back. Half a unit of the
  seventeenth digit is less than `2⁻⁵⁴` of the number, since `2 ^ 53 < 10 ^ 16`.
-/

namespace CDouble

open CNumeral Decimal Binary64

/-! ## Reading -/

/-- A decimal point with digits after it, if there is one. -/
def readFraction : List Char → List Char × List Char
  | '.' :: text => (text.takeWhile Char.isDigit, text.dropWhile Char.isDigit)
  | text => ([], text)

/-- An exponent, if there is one that has digits. -/
def readExponent : List Char → Int × List Char
  | [] => (0, [])
  | c :: text =>
    if c = 'e' ∨ c = 'E' then
      match readNumber (readSign text).2 with
      | some (n, rest) => (if (readSign text).1 then -n else n, rest)
      | none => (0, c :: text)
    else (0, c :: text)

/-- `strtod(text, &endptr)`, for a text that does not go on with `0x`, `inf` or `nan` after the
sign: the number and the text that `endptr` points to, or nothing if there is no number. -/
def strtod (text : List Char) : Option (Binary64 × List Char) :=
  let (negative, body) := readSign (text.dropWhile isSpace)
  let int := body.takeWhile Char.isDigit
  let (frac, after) := readFraction (body.dropWhile Char.isDigit)
  if int = [] ∧ frac = [] then none
  else
    let (exp, rest) := readExponent after
    some (.ofRat negative (value (int ++ frac) * 10 ^ (exp - frac.length)), rest)

theorem length_readSign_le (text : List Char) : (readSign text).2.length ≤ text.length := by
  unfold readSign
  split <;> simp

theorem length_readFraction_le (text : List Char) :
    (readFraction text).1.length + (readFraction text).2.length ≤ text.length := by
  unfold readFraction
  split
  next text =>
    rw [← List.length_append, List.takeWhile_append_dropWhile, List.length_cons]
    omega
  next => simp

theorem length_readNumber_le {text rest : List Char} {n : Nat}
    (h : readNumber text = some (n, rest)) : rest.length ≤ text.length := by
  unfold readNumber at h
  split_ifs at h
  cases h
  exact (List.dropWhile_suffix _).length_le

theorem length_readExponent_le (text : List Char) :
    (readExponent text).2.length ≤ text.length := by
  cases text with
  | nil => simp [readExponent]
  | cons c text =>
    rw [readExponent]
    by_cases hmark : c = 'e' ∨ c = 'E'
    · have hsign := length_readSign_le text
      rw [if_pos hmark]
      cases h : readNumber (readSign text).2 with
      | none => exact le_rfl
      | some r =>
        have hdigits := length_readNumber_le (n := r.1) h
        simp only [List.length_cons]
        omega
    · rw [if_neg hmark]

/-- A number has at least one digit. -/
theorem strtod_rest {text rest : List Char} {x : Binary64} (h : strtod text = some (x, rest)) :
    rest.length < text.length := by
  unfold strtod at h
  have hspace := (List.dropWhile_suffix isSpace (l := text)).length_le
  have hsign := length_readSign_le (text.dropWhile isSpace)
  generalize readSign (text.dropWhile isSpace) = body at h hsign
  have hdigits := congrArg List.length
    (List.takeWhile_append_dropWhile (p := Char.isDigit) (l := body.2))
  have hfraction := length_readFraction_le (body.2.dropWhile Char.isDigit)
  have hexponent := length_readExponent_le (readFraction (body.2.dropWhile Char.isDigit)).2
  rw [List.length_append] at hdigits
  dsimp only at h
  split_ifs at h with hempty
  cases h
  rw [← List.length_eq_zero_iff, ← List.length_eq_zero_iff] at hempty
  omega

/-! ## Literals -/

/-- An exponent at the end of a number. -/
structure Exponent where
  upper : Bool
  sign : Sign
  digits : Numeral

/-- A sign, digits with a decimal point, and an exponent. There has to be a digit on one side of the
point. -/
structure Literal where
  sign : Sign
  int : Digits
  frac : Option Digits
  exponent : Option Exponent
  nonempty : int.chars = [] → ∃ f ∈ frac, f.chars ≠ []

namespace Exponent

def text (e : Exponent) : List Char :=
  (if e.upper then 'E' else 'e') :: (e.sign.text ++ e.digits.chars)

def value (e : Exponent) : Int := e.sign.apply e.digits.value

end Exponent

namespace Literal

variable (l : Literal)

/-- The digits after the point. -/
def fracDigits : List Char := (l.frac.map Digits.chars).getD []

def fracText : List Char := (l.frac.map fun f => '.' :: f.chars).getD []

def exponentText : List Char := (l.exponent.map Exponent.text).getD []

def exponentValue : Int := (l.exponent.map Exponent.value).getD 0

def text : List Char := l.sign.text ++ (l.int.chars ++ (l.fracText ++ l.exponentText))

/-- The absolute value of the number. -/
def abs : ℚ :=
  Decimal.value (l.int.chars ++ l.fracDigits) * 10 ^ (l.exponentValue - l.fracDigits.length)

def negative : Bool := decide (l.sign = .minus)

end Literal

theorem readSign_digits (s : Sign) {c : Char} {text : List Char} (hminus : c ≠ '-')
    (hplus : c ≠ '+') : readSign (s.text ++ c :: text) = (decide (s = .minus), c :: text) := by
  cases s with
  | none =>
    rw [Sign.text, List.nil_append]
    unfold readSign
    split
    next heq => exact absurd (List.cons.inj heq).1 hminus
    next heq => exact absurd (List.cons.inj heq).1 hplus
    next => rfl
  | plus => rfl
  | minus => rfl

theorem readExponent_text (e : Exponent) : readExponent e.text = (e.value, []) := by
  obtain ⟨upper, s, digits⟩ := e
  obtain ⟨c, rest, htext⟩ := List.exists_cons_of_ne_nil digits.nonempty
  have hc : c.isDigit := digits.digit c (by simp [htext])
  have hsign : readSign (s.text ++ digits.chars) = (decide (s = .minus), digits.chars) := by
    rw [htext]
    exact readSign_digits s (ne_of_isDigit hc (by decide)) (ne_of_isDigit hc (by decide))
  have hread : readNumber digits.chars = some (Decimal.value digits.chars, []) := by
    have := readNumber_append digits.digit digits.nonempty stops_nil
    rwa [List.append_nil] at this
  have hmark : ∀ upper : Bool, ((if upper then 'E' else 'e') = 'e' ∨
      (if upper then 'E' else 'e') = 'E') := by decide
  rw [Exponent.text, readExponent, if_pos (hmark upper)]
  dsimp only
  rw [hsign]
  dsimp only
  rw [hread]
  cases s <;> rfl

namespace Literal

variable (l : Literal)

theorem readExponent_exponentText :
    readExponent l.exponentText = (l.exponentValue, []) := by
  unfold exponentText exponentValue
  cases l.exponent with
  | none => rfl
  | some e => exact readExponent_text e

theorem stops_exponentText : Stops l.exponentText := by
  unfold exponentText
  cases l.exponent with
  | none => exact stops_nil
  | some e =>
    apply stops_cons
    cases e.upper <;> decide

theorem exponentText_ne_point (rest : List Char) : l.exponentText ≠ '.' :: rest := by
  unfold exponentText
  cases l.exponent with
  | none => simp
  | some e =>
    intro h
    have hhead := (List.cons.inj h).1
    cases hupper : e.upper <;> simp [hupper] at hhead

theorem readFraction_text :
    readFraction (l.fracText ++ l.exponentText) = (l.fracDigits, l.exponentText) := by
  unfold fracText fracDigits
  cases l.frac with
  | none =>
    rw [Option.map_none, Option.getD_none, List.nil_append]
    unfold readFraction
    split
    next heq => exact absurd heq (l.exponentText_ne_point _)
    next => rfl
  | some f =>
    rw [Option.map_some, Option.getD_some, List.cons_append, readFraction,
      takeWhile_digits f.digit l.stops_exponentText, dropWhile_digits f.digit l.stops_exponentText]
    rfl

theorem stops_fracText : Stops (l.fracText ++ l.exponentText) := by
  unfold fracText
  cases l.frac with
  | none => exact l.stops_exponentText
  | some f => exact stops_cons '.' (by decide) _

/-- The first character after the sign is a digit or the point. -/
theorem exists_cons : ∃ c rest, l.int.chars ++ (l.fracText ++ l.exponentText) = c :: rest ∧
    (c.isDigit ∨ c = '.') := by
  cases hint : l.int.chars with
  | cons c rest => exact ⟨c, _, rfl, .inl (l.int.digit c (by simp [hint]))⟩
  | nil =>
    obtain ⟨f, hf, -⟩ := l.nonempty hint
    refine ⟨'.', f.chars ++ l.exponentText, ?_, .inr rfl⟩
    rw [fracText, Option.mem_def.mp hf]
    rfl

theorem dropWhile_text : l.text.dropWhile isSpace = l.text := by
  obtain ⟨c, rest, htext, hc⟩ := l.exists_cons
  have hspace : isSpace c = false := by
    rcases hc with hc | rfl
    · exact isSpace_of_isDigit hc
    · decide
  rw [text, htext]
  cases l.sign with
  | none => exact List.dropWhile_cons_of_neg (by simp [hspace])
  | plus => exact List.dropWhile_cons_of_neg (by decide)
  | minus => exact List.dropWhile_cons_of_neg (by decide)

theorem readSign_text :
    readSign l.text = (l.negative, l.int.chars ++ (l.fracText ++ l.exponentText)) := by
  obtain ⟨c, rest, htext, hc⟩ := l.exists_cons
  have hne : ∀ d, d.isDigit = false → d ≠ '.' → c ≠ d := by
    rintro d hd hpoint rfl
    rcases hc with hc | hc
    · exact ne_of_isDigit hc hd rfl
    · exact hpoint hc
  rw [text, htext]
  exact readSign_digits _ (hne '-' (by decide) (by decide)) (hne '+' (by decide) (by decide))

end Literal

/-- A literal is read up to its end, as the number nearest to it. -/
theorem strtod_text (l : Literal) : strtod l.text = some (.ofRat l.negative l.abs, []) := by
  have hne : ¬ (l.int.chars = [] ∧ l.fracDigits = []) := by
    rintro ⟨hint, hfrac⟩
    obtain ⟨f, hf, hchars⟩ := l.nonempty hint
    rw [Literal.fracDigits, Option.mem_def.mp hf] at hfrac
    exact hchars hfrac
  unfold strtod
  rw [l.dropWhile_text, l.readSign_text]
  dsimp only
  rw [takeWhile_digits l.int.digit l.stops_fracText, dropWhile_digits l.int.digit l.stops_fracText,
    l.readFraction_text]
  dsimp only
  rw [if_neg hne, l.readExponent_exponentText]
  rfl

/-! ## Printing -/

/-- The unit of the last one of `n` digits. -/
def lastPlace (n : Nat) (q : ℚ) : ℚ := 10 ^ (Int.log 10 q - (n - 1))

/-- The digits of `q` that `%.<n>e` prints, as a number of `n` digits, and the exponent of the first
one. -/
def significant (n : Nat) (q : ℚ) : Nat × Int :=
  if 0 < q then
    let d := roundEven (q / lastPlace n q)
    if d < 10 ^ n then (d, Int.log 10 q) else (10 ^ (n - 1), Int.log 10 q + 1)
  else (0, 0)

/-- The digits without the zeros at their end, if any is left. -/
def trimmed (d : Digits) : Option Digits :=
  if d.chars.rdropWhile (· = '0') = [] then none
  else some ⟨d.chars.rdropWhile (· = '0'), fun c hc =>
    d.digit c ((List.rdropWhile_prefix _ _).subset hc)⟩

def paddedNumeral (width n : Nat) : Numeral := ⟨⟨padded width n, padded_digit⟩, padded_ne_nil⟩

/-- The digits of a number with their first `k + 1` ones before the point. -/
def pointAfter (sign : Sign) (digits : Numeral) (k : Nat) (exponent : Option Exponent) :
    Literal where
  sign
  int := ⟨digits.chars.take (k + 1), fun c hc => digits.digit c (List.mem_of_mem_take hc)⟩
  frac := trimmed ⟨digits.chars.drop (k + 1), fun c hc => digits.digit c (List.mem_of_mem_drop hc)⟩
  exponent
  nonempty h := absurd (by simpa using h) digits.nonempty

/-- The digits of a number after a point and `k` zeros. -/
def pointBefore (sign : Sign) (digits : Numeral) (k : Nat) : Literal where
  sign
  int := ⟨['0'], by simp⟩
  frac := trimmed ⟨List.replicate k '0' ++ digits.chars, by
    intro c hc
    rcases List.mem_append.mp hc with hc | hc
    · rw [List.eq_of_mem_replicate hc]
      decide
    · exact digits.digit c hc⟩
  exponent := none
  nonempty h := absurd h (List.cons_ne_nil _ _)

def signOf (negative : Bool) : Sign := if negative then .minus else .none

/-- A printed exponent always has a sign, and at least two digits. -/
def printedExponent (e : Int) : Exponent :=
  ⟨false, if e < 0 then .minus else .plus, paddedNumeral 2 e.natAbs⟩

/-- The literal with the `n` digits of `d` and the exponent `e` of the first one. The exponent
decides whether it is printed. -/
def layout (n : Nat) (sign : Sign) (d : Nat) (e : Int) : Literal :=
  if -4 ≤ e ∧ e < n then
    if 0 ≤ e then pointAfter sign (paddedNumeral n d) e.toNat none
    else pointBefore sign (paddedNumeral n d) (-e - 1).toNat
  else pointAfter sign (paddedNumeral n d) 0 (some (printedExponent e))

/-- The literal of `%.<n>g`. -/
def general (n : Nat) (x : Finite) : Literal :=
  layout n (signOf x.neg) (significant n x.abs).1 (significant n x.abs).2

/-! ## What is printed -/

theorem value_append (text rest : List Char) :
    value (text ++ rest) = value text * 10 ^ rest.length + value rest := by
  unfold value
  rw [Nat.ofDigitChars_append, Nat.ofDigitChars_eq_ofDigitChars_zero, mul_comm]

theorem value_append_zeros (text : List Char) (k : Nat) :
    value (text ++ List.replicate k '0') = value text * 10 ^ k := by
  have hzeros := value_zeros_append k []
  rw [List.append_nil, value_nil] at hzeros
  rw [value_append, hzeros, List.length_replicate, add_zero]

/-- What is left out at the end. -/
theorem rdropWhile_zeros (text : List Char) :
    ∃ k, text = text.rdropWhile (· = '0') ++ List.replicate k '0' := by
  have hsplit := congrArg List.reverse
    (List.takeWhile_append_dropWhile (p := fun c => decide (c = '0')) (l := text.reverse))
  rw [List.reverse_append, List.reverse_reverse] at hsplit
  refine ⟨(text.reverse.takeWhile fun c => decide (c = '0')).length, ?_⟩
  have hzeros : (text.reverse.takeWhile fun c => decide (c = '0')).reverse =
      List.replicate (text.reverse.takeWhile fun c => decide (c = '0')).length '0' := by
    apply List.eq_replicate_iff.mpr
    refine ⟨List.length_reverse, fun c hc => ?_⟩
    simpa using List.mem_takeWhile_imp (List.mem_reverse.mp hc)
  rw [← hzeros]
  exact hsplit.symm

theorem trimmed_chars (d : Digits) :
    ((trimmed d).map Digits.chars).getD [] = d.chars.rdropWhile (· = '0') := by
  unfold trimmed
  split_ifs with h
  · rw [h]
    rfl
  · rfl

/-- The zeros that are left out do not change the number. -/
theorem Literal.abs_of_trimmed {l : Literal} {f : Digits} (h : l.frac = trimmed f) :
    l.abs = Decimal.value (l.int.chars ++ f.chars) * 10 ^ (l.exponentValue - f.chars.length) := by
  have hdigits : l.fracDigits = f.chars.rdropWhile (· = '0') := by
    rw [fracDigits, h, trimmed_chars]
  obtain ⟨k, hk⟩ := rdropWhile_zeros f.chars
  rw [← hdigits] at hk
  rw [abs, hk, ← List.append_assoc, value_append_zeros, List.length_append, List.length_replicate]
  push_cast
  rw [mul_assoc, ← zpow_natCast, ← zpow_add₀ (by norm_num)]
  congr 2
  ring

theorem abs_pointAfter (sign : Sign) (digits : Numeral) {k : Nat} (exponent : Option Exponent)
    (hk : k < digits.chars.length) :
    (pointAfter sign digits k exponent).abs =
      digits.value * 10 ^ ((exponent.map Exponent.value).getD 0 + k + 1 - digits.chars.length) := by
  have hlen : ((digits.chars.drop (k + 1)).length : Int) = digits.chars.length - (k + 1) := by
    rw [List.length_drop]
    omega
  rw [Literal.abs_of_trimmed rfl]
  dsimp only [pointAfter, Literal.exponentValue]
  rw [List.take_append_drop, hlen]
  congr 2
  ring

theorem abs_pointBefore (sign : Sign) (digits : Numeral) (k : Nat) :
    (pointBefore sign digits k).abs =
      digits.value * 10 ^ (-(k : Int) - digits.chars.length) := by
  have hvalue : value (['0'] ++ (List.replicate k '0' ++ digits.chars)) = digits.value := by
    rw [← List.append_assoc, List.singleton_append, ← List.replicate_succ, value_zeros_append]
    rfl
  rw [Literal.abs_of_trimmed rfl]
  dsimp only [pointBefore, Literal.exponentValue]
  rw [hvalue, List.length_append, List.length_replicate]
  congr 2
  push_cast
  simp
  ring

section Significant

variable {n : Nat} {q : ℚ}

theorem lastPlace_pos (n : Nat) (q : ℚ) : 0 < lastPlace n q := zpow_pos (by norm_num) _

theorem significant_lt (hn : 0 < n) (q : ℚ) : (significant n q).1 < 10 ^ n := by
  unfold significant
  dsimp only
  split_ifs with hq hd
  · exact hd
  · exact Nat.pow_lt_pow_right (by norm_num) (by omega)
  · exact Nat.pow_pos (by norm_num)

theorem significant_of_nonpos (hq : ¬ 0 < q) : significant n q = (0, 0) := by
  rw [significant, if_neg hq]

theorem div_lastPlace_lt (n : Nat) (q : ℚ) : q / lastPlace n q < 10 ^ n := by
  have hlt : q < (10 : ℚ) ^ (Int.log 10 q + 1) := by
    exact_mod_cast Int.lt_zpow_succ_log_self (b := 10) (by norm_num) q
  rw [div_lt_iff₀ (lastPlace_pos n q), lastPlace, ← zpow_natCast, ← zpow_add₀ (by norm_num)]
  refine hlt.trans_le (zpow_le_zpow_right₀ (by norm_num) ?_)
  omega

/-- The first digit is not zero. -/
theorem pow_mul_lastPlace_le (hn : 0 < n) (hq : 0 < q) : 10 ^ (n - 1) * lastPlace n q ≤ q := by
  have hle : (10 : ℚ) ^ Int.log 10 q ≤ q := by
    exact_mod_cast Int.zpow_log_le_self (b := 10) (by norm_num) hq
  rw [lastPlace, ← zpow_natCast, ← zpow_add₀ (by norm_num)]
  have hexp : ((n - 1 : Nat) : Int) + (Int.log 10 q - (n - 1)) = Int.log 10 q := by omega
  rwa [hexp]

/-- The digits, whether they were carried over to the next power of ten or not, are those of the
rounded number. -/
theorem significant_value (hn : 0 < n) (hq : 0 < q) :
    ((significant n q).1 : ℚ) * 10 ^ ((significant n q).2 - (n - 1)) =
      roundEven (q / lastPlace n q) * lastPlace n q := by
  unfold significant
  rw [if_pos hq]
  dsimp only
  split_ifs with hd
  · rfl
  · have hpos := lastPlace_pos n q
    have hle : roundEven (q / lastPlace n q) ≤ 10 ^ n :=
      roundEven_le (by positivity) (by exact_mod_cast (div_lastPlace_lt n q).le)
    have hcarry : roundEven (q / lastPlace n q) = 10 ^ n := by omega
    rw [hcarry, lastPlace]
    push_cast
    rw [← zpow_natCast, ← zpow_natCast, ← zpow_add₀ (by norm_num), ← zpow_add₀ (by norm_num)]
    congr 1
    omega

/-- The rounded number is near to the number. -/
theorem significant_near (hn : 0 < n) (hq : 0 < q) :
    2 * 10 ^ (n - 1) * |(significant n q).1 * 10 ^ ((significant n q).2 - (n - 1)) - q| ≤ q := by
  rw [significant_value hn hq]
  have hpos := lastPlace_pos n q
  have hround := abs_roundEven_sub_le (q := q / lastPlace n q) (by positivity)
  have herror : |roundEven (q / lastPlace n q) * lastPlace n q - q| =
      |roundEven (q / lastPlace n q) - q / lastPlace n q| * lastPlace n q := by
    rw [← abs_of_pos hpos, ← abs_mul, abs_of_pos hpos, sub_mul, div_mul_cancel₀ _ hpos.ne']
  calc 2 * 10 ^ (n - 1) * |roundEven (q / lastPlace n q) * lastPlace n q - q|
      ≤ 2 * 10 ^ (n - 1) * (1 / 2 * lastPlace n q) := by
        rw [herror]
        gcongr
    _ = 10 ^ (n - 1) * lastPlace n q := by ring
    _ ≤ q := pow_mul_lastPlace_le hn hq

end Significant

theorem printedExponent_value (e : Int) : (printedExponent e).value = e := by
  have hdigits : (paddedNumeral 2 e.natAbs).value = e.natAbs := value_padded _ _
  rw [Exponent.value, printedExponent, hdigits]
  split_ifs with h <;> simp only [Sign.apply] <;> omega

theorem layout_sign (n : Nat) (sign : Sign) (d : Nat) (e : Int) :
    (layout n sign d e).sign = sign := by
  unfold layout
  split_ifs <;> rfl

theorem layout_abs {n d : Nat} (hn : 0 < n) (hd : d < 10 ^ n) (sign : Sign) (e : Int) :
    (layout n sign d e).abs = d * 10 ^ (e - (n - 1)) := by
  have hlen : (paddedNumeral n d).chars.length = n := length_padded hn hd
  have hvalue : (paddedNumeral n d).value = d := value_padded _ _
  unfold layout
  split_ifs with hfixed hpos
  · rw [abs_pointAfter _ _ _ (by omega), hvalue, hlen, Option.map_none, Option.getD_none]
    congr 2
    omega
  · rw [abs_pointBefore, hvalue, hlen]
    congr 2
    omega
  · rw [abs_pointAfter _ _ _ (by omega), hvalue, hlen, Option.map_some, Option.getD_some,
      printedExponent_value]
    congr 2
    omega

theorem general_negative (n : Nat) (x : Finite) : (general n x).negative = x.neg := by
  rw [Literal.negative, general, layout_sign]
  cases x.neg <;> decide

/-- Seventeen digits are enough. -/
theorem strtod_general (x : Finite) : strtod (general 17 x).text = some (.finite x, []) := by
  have habs := layout_abs (by norm_num) (significant_lt (n := 17) (by norm_num) x.abs)
    (signOf x.neg) (significant 17 x.abs).2
  rw [strtod_text, general_negative, general, habs]
  rcases x.abs_nonneg.eq_or_lt with hzero | hpos
  · rw [← hzero, significant_of_nonpos (lt_irrefl _), Nat.cast_zero, zero_mul, ofRat_zero,
      ← Finite.abs_eq_zero_iff.mp hzero.symm]
  · have hnear := significant_near (n := 17) (by norm_num) hpos
    rw [ofRat_of_near hpos]
    generalize |_ - x.abs| = error at hnear ⊢
    norm_num at hnear ⊢
    linarith

/-! ## How long it is -/

theorem trimmed_length (d : Digits) :
    (((trimmed d).map fun f => '.' :: f.chars).getD []).length ≤ d.chars.length + 1 := by
  unfold trimmed
  split_ifs with h
  · simp
  · have hle := (List.rdropWhile_prefix (p := fun c => decide (c = '0')) (l := d.chars)).length_le
    simpa using hle

theorem length_signText (s : Sign) : s.text.length ≤ 1 := by
  cases s <;> simp [Sign.text]

theorem length_text (l : Literal) :
    l.text.length ≤ 1 + l.int.chars.length + l.fracText.length + l.exponentText.length := by
  have hsign := length_signText l.sign
  simp only [Literal.text, List.length_append]
  omega

theorem length_printedExponent {e : Int} (he : e.natAbs < 1000) :
    (printedExponent e).text.length ≤ 5 := by
  have hdigits : (paddedNumeral 2 e.natAbs).chars.length ≤ 3 :=
    length_padded_le (by norm_num) (by norm_num) he
  have hsign := length_signText (printedExponent e).sign
  simp only [Exponent.text, List.length_cons, List.length_append]
  have hchars : (printedExponent e).digits = paddedNumeral 2 e.natAbs := rfl
  rw [hchars]
  omega

theorem length_pointAfter (sign : Sign) (digits : Numeral) (k : Nat) (e : Option Exponent) :
    (pointAfter sign digits k e).text.length ≤
      2 + digits.chars.length + ((e.map Exponent.text).getD []).length := by
  have hfrac := trimmed_length ⟨digits.chars.drop (k + 1), fun c hc =>
    digits.digit c (List.mem_of_mem_drop hc)⟩
  have hpos := List.length_pos_of_ne_nil digits.nonempty
  refine (length_text _).trans ?_
  dsimp only [pointAfter, Literal.fracText, Literal.exponentText]
  rw [List.length_drop] at hfrac
  rw [List.length_take]
  omega

theorem length_pointBefore (sign : Sign) (digits : Numeral) (k : Nat) :
    (pointBefore sign digits k).text.length ≤ 3 + k + digits.chars.length := by
  refine (length_text _).trans ?_
  dsimp only [pointBefore, Literal.fracText, Literal.exponentText]
  refine (Nat.add_le_add_right (Nat.add_le_add_left (trimmed_length _) _) _).trans ?_
  simp only [List.length_singleton, List.length_append, List.length_replicate, Option.map_none,
    Option.getD_none, List.length_nil]
  omega

theorem length_layout {n d : Nat} (hn : 0 < n) (hd : d < 10 ^ n) (sign : Sign) {e : Int}
    (he : e.natAbs < 1000) : (layout n sign d e).text.length ≤ n + 7 := by
  have hlen : (paddedNumeral n d).chars.length = n := length_padded hn hd
  have hexp := length_printedExponent he
  unfold layout
  split_ifs with hfixed hpos
  · have := length_pointAfter sign (paddedNumeral n d) e.toNat none
    rw [Option.map_none, Option.getD_none, List.length_nil] at this
    omega
  · have := length_pointBefore sign (paddedNumeral n d) (-e - 1).toNat
    omega
  · have := length_pointAfter sign (paddedNumeral n d) 0 (some (printedExponent e))
    rw [Option.map_some, Option.getD_some] at this
    omega

theorem two_zpow_le_ten_zpow {a b : Int} (hb : 0 ≤ b) (h : a ≤ 3 * b) :
    (2 : ℚ) ^ a ≤ 10 ^ b := by
  lift b to Nat using hb
  calc (2 : ℚ) ^ a ≤ 2 ^ (3 * b : Int) := zpow_le_zpow_right₀ one_le_two h
    _ = 8 ^ b := by
      rw [zpow_mul, zpow_natCast]
      norm_num
    _ ≤ 10 ^ b := pow_le_pow_left₀ (by norm_num) (by norm_num) b
    _ = 10 ^ (b : Int) := (zpow_natCast _ _).symm

/-- The exponents of the numbers of type `double`. -/
theorem log_bounds {x : Finite} (hx : 0 < x.abs) :
    -400 ≤ Int.log 10 x.abs ∧ Int.log 10 x.abs < 400 := by
  have hmant : (1 : ℚ) ≤ x.mant := by exact_mod_cast mant_pos hx
  have hmant' : (x.mant : ℚ) < 2 ^ 53 := by exact_mod_cast x.mant_lt
  have hlow : (2 : ℚ) ^ (-1074 : Int) ≤ 2 ^ x.exp := zpow_le_zpow_right₀ one_le_two x.le_exp
  have hhigh : (2 : ℚ) ^ x.exp ≤ 2 ^ (971 : Int) := zpow_le_zpow_right₀ one_le_two x.exp_le
  constructor
  · rw [← Int.zpow_le_iff_le_log (by norm_num) hx, Finite.abs, zpow_neg, Nat.cast_ofNat]
    calc ((10 : ℚ) ^ (400 : Int))⁻¹ ≤ (2 ^ (1074 : Int))⁻¹ :=
          inv_anti₀ (two_zpow_pos _) (two_zpow_le_ten_zpow (by norm_num) (by norm_num))
      _ = 2 ^ (-1074 : Int) := (zpow_neg _ _).symm
      _ ≤ 2 ^ x.exp := hlow
      _ ≤ x.mant * 2 ^ x.exp := le_mul_of_one_le_left (two_zpow_pos _).le hmant
  · rw [← Int.lt_zpow_iff_log_lt (by norm_num) hx, Finite.abs, Nat.cast_ofNat]
    calc (x.mant : ℚ) * 2 ^ x.exp < 2 ^ 53 * 2 ^ x.exp :=
          mul_lt_mul_of_pos_right hmant' (two_zpow_pos _)
      _ ≤ 2 ^ 53 * 2 ^ (971 : Int) := mul_le_mul_of_nonneg_left hhigh (by norm_num)
      _ = 2 ^ (1024 : Int) := by
        rw [← zpow_natCast, ← zpow_add₀ two_ne_zero]
        rfl
      _ ≤ 10 ^ (400 : Int) := two_zpow_le_ten_zpow (by norm_num) (by norm_num)

theorem significant_exponent (n : Nat) (x : Finite) : (significant n x.abs).2.natAbs < 1000 := by
  unfold significant
  dsimp only
  split_ifs with hx
  · have := log_bounds hx
    dsimp only
    omega
  · have := log_bounds hx
    dsimp only
    omega
  · norm_num

theorem length_general {n : Nat} (hn : 0 < n) (x : Finite) : (general n x).text.length ≤ n + 7 :=
  length_layout hn (significant_lt hn _) _ (significant_exponent n x)

end CDouble
