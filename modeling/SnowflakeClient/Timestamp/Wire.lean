import SnowflakeClient.Timestamp.Offset

/-!
# Times on the wire

The server sends a time as seconds since the epoch, in decimal, with as many digits after the point
as the scale says; for `TIMESTAMP_TZ` a blank and the offset in minutes follow, counted from
`-TIMEZONE_OFFSET_RANGE`.

* `Wire.value`: the rational number that the text denotes; `Wire.floor` and `Wire.fract` are its
  whole seconds and the rest, in units of the scale.
* `parseEpoch_wire`, `parseEpoch_zoned`: what the numbers of the text are for the code.
* `borrow_wire`: the code gets the whole seconds and the rest, unless the value is between -1 and 0.
-/

namespace Snowflake

open CInt Decimal

/-! ## Reading numbers -/

theorem not_isSpace {c : Char} (hc : c.isDigit) : isSpace c = false := by
  have h0 : 48 ≤ c.toNat := (Char.isDigit_iff_toNat.mp hc).1
  have hblank : c ≠ ' ' := by
    rintro rfl
    revert h0
    decide
  have hcontrol : ¬c ≤ '\r' := by
    intro h
    have hle : c.toNat ≤ 13 := h
    omega
  simp [isSpace, hblank, hcontrol]

theorem not_mem_digits {c : Char} (hc : c.isDigit = false) (d : Digits) : c ∉ d.chars := by
  intro h
  rw [d.digit c h] at hc
  cases hc

theorem foldl_digits (text : List Char) (n : Nat) :
    text.foldl (fun (n : Int) c => 10 * n + (c.toNat - '0'.toNat : Nat)) n =
      (Nat.ofDigitChars 10 text n : Nat) := by
  induction text generalizing n with
  | nil => rfl
  | cons c text ih =>
    rw [List.foldl_cons, Nat.ofDigitChars_cons, ← ih]
    push_cast
    rfl

theorem strtoll_nil : strtoll [] = 0 := rfl

theorem strtoll_blank (text : List Char) : strtoll (' ' :: text) = strtoll text := by
  rw [strtoll, strtol, String.toList_ofList, strtoll, strtol, String.toList_ofList,
    List.dropWhile_cons_of_pos (by decide)]

theorem strtoll_numeral (n : Numeral) {rest : List Char} (hrest : Stops rest)
    (hmax : n.value < 2 ^ 63) : strtoll (n.chars ++ rest) = n.value := by
  obtain ⟨d, ds, hcons⟩ := List.exists_cons_of_ne_nil n.nonempty
  have hd : d.isDigit := n.digit d (by simp [hcons])
  have htake : (n.chars ++ rest).takeWhile Char.isDigit = n.chars := takeWhile_digits n.digit hrest
  have hfold : n.chars.foldl (fun (n : Int) c => 10 * n + (c.toNat - '0'.toNat : Nat)) 0 =
      n.value := foldl_digits n.chars 0
  have hstart : (n.chars ++ rest).dropWhile isSpace = n.chars ++ rest := by
    rw [hcons, List.cons_append, List.dropWhile_cons_of_neg (by simp [not_isSpace hd])]
  rw [strtoll, strtol, String.toList_ofList, hstart]
  dsimp only
  -- the text begins with a digit, so neither of the branches for a sign is taken
  split
  · next heq =>
      rw [hcons] at heq
      rw [(List.cons.inj heq).1] at hd
      exact absurd hd (by decide)
  · next heq =>
      rw [hcons] at heq
      rw [(List.cons.inj heq).1] at hd
      exact absurd hd (by decide)
  · rw [htake, hfold]
    omega

theorem strtoll_minus (n : Numeral) {rest : List Char} (hrest : Stops rest)
    (hmax : n.value < 2 ^ 63) : strtoll ('-' :: (n.chars ++ rest)) = -n.value := by
  have hfold : n.chars.foldl (fun (n : Int) c => 10 * n + (c.toNat - '0'.toNat : Nat)) 0 =
      n.value := foldl_digits n.chars 0
  rw [strtoll, strtol, String.toList_ofList, List.dropWhile_cons_of_neg (by decide)]
  show max (-2 ^ 63) (min (-((n.chars ++ rest).takeWhile Char.isDigit).foldl
    (fun (n : Int) c => 10 * n + (c.toNat - '0'.toNat : Nat)) 0) (2 ^ 63 - 1)) = _
  rw [takeWhile_digits n.digit hrest, hfold]
  omega

theorem afterFirst_append {c : Char} {text : List Char} (h : c ∉ text) (rest : List Char) :
    afterFirst c (text ++ c :: rest) = some rest := by
  have hpos : ∀ d ∈ text, decide (d ≠ c) = true := fun d hd => by
    simpa using ne_of_mem_of_not_mem hd h
  rw [afterFirst, List.dropWhile_append_of_pos hpos, List.dropWhile_cons_of_neg (by simp)]

theorem afterFirst_eq_none {c : Char} {text : List Char} (h : c ∉ text) :
    afterFirst c text = none := by
  have hdrop : text.dropWhile (· ≠ c) = [] := List.dropWhile_eq_nil_iff.mpr fun d hd => by
    simpa using ne_of_mem_of_not_mem hd h
  rw [afterFirst, hdrop]

/-! ## The text and its value -/

/-- A decimal number with a point. -/
structure Wire where
  negative : Bool
  whole : Numeral
  fraction : Digits

namespace Wire

variable (w : Wire)

/-- The part of the text before the point. -/
def head : List Char := (if w.negative then ['-'] else []) ++ w.whole.chars

def text : List Char := w.head ++ '.' :: w.fraction.chars

/-- The text with an offset after it. -/
def zoned (o : Numeral) : List Char := w.head ++ '.' :: (w.fraction.chars ++ ' ' :: o.chars)

def scale : Nat := w.fraction.chars.length

/-- The number that the text denotes. -/
def value : ℚ :=
  (if w.negative then -1 else 1) * (w.whole.value + w.fraction.value / 10 ^ w.scale)

/-- The number before the point. -/
def signed : Int := if w.negative then -w.whole.value else w.whole.value

/-- The whole seconds, rounded down. -/
def floor : Int := if w.negative ∧ 0 < w.fraction.value then -w.whole.value - 1 else w.signed

/-- What is above the whole seconds, in units of the scale. -/
def fract : Int :=
  if w.negative ∧ 0 < w.fraction.value then 10 ^ w.scale - w.fraction.value else w.fraction.value

/-- The value is between -1 and 0, and the sign is before a zero. -/
def Between : Prop := w.negative ∧ w.whole.value = 0 ∧ 0 < w.fraction.value

theorem fraction_lt : w.fraction.value < 10 ^ w.scale := w.fraction.value_lt

theorem value_eq : w.value = w.floor + w.fract / 10 ^ w.scale := by
  have hpos : (10 : ℚ) ^ w.scale ≠ 0 := by positivity
  rw [value, floor, fract, signed]
  cases hneg : w.negative with
  | false => simp
  | true =>
    by_cases hf : 0 < w.fraction.value
    · simp only [hf, and_self, if_true]
      push_cast
      field_simp
      ring
    · have hzero : w.fraction.value = 0 := by omega
      simp [hzero]

theorem fract_nonneg : 0 ≤ w.fract := by
  have hlt := w.fraction_lt
  rw [fract]
  split_ifs
  · have : (w.fraction.value : Int) < 10 ^ w.scale := by exact_mod_cast hlt
    omega
  · omega

theorem fract_lt : w.fract < 10 ^ w.scale := by
  have hlt : (w.fraction.value : Int) < 10 ^ w.scale := by exact_mod_cast w.fraction_lt
  rw [fract]
  split_ifs <;> omega

theorem floor_value : ⌊w.value⌋ = w.floor := by
  have hpos : (0 : ℚ) < 10 ^ w.scale := by positivity
  have h0 : (0 : ℚ) ≤ w.fract := by exact_mod_cast w.fract_nonneg
  have h1 : (w.fract : ℚ) < 10 ^ w.scale := by exact_mod_cast w.fract_lt
  rw [w.value_eq, Int.floor_intCast_add, Int.floor_eq_zero_iff.mpr, add_zero]
  exact ⟨by positivity, (div_lt_one hpos).mpr h1⟩

theorem sub_floor : (w.value - ⌊w.value⌋) * 10 ^ w.scale = w.fract := by
  have hpos : (10 : ℚ) ^ w.scale ≠ 0 := by positivity
  rw [w.floor_value, w.value_eq]
  field_simp
  ring

theorem between_iff : (-1 < w.value ∧ w.value < 0) ↔ w.Between := by
  have hpos : (0 : ℚ) < 10 ^ w.scale := by positivity
  constructor
  · rintro ⟨hlow, hhigh⟩
    have hfloor : w.floor = -1 := by
      rw [← w.floor_value, Int.floor_eq_iff]
      exact ⟨by push_cast; exact hlow.le, by push_cast; linarith⟩
    have hfract : w.fract ≠ 0 := by
      intro hzero
      rw [w.value_eq, hfloor, hzero] at hlow
      simp at hlow
    by_cases hneg : w.negative ∧ 0 < w.fraction.value
    · rw [floor, if_pos hneg] at hfloor
      exact ⟨hneg.1, by omega, hneg.2⟩
    · rw [floor, if_neg hneg, signed] at hfloor
      rw [fract, if_neg hneg] at hfract
      have hminus : w.negative = true := by
        by_contra hplus
        rw [if_neg hplus] at hfloor
        omega
      exact absurd ⟨hminus, by omega⟩ hneg
  · rintro ⟨hneg, hwhole, hfrac⟩
    have hfloor : w.floor = -1 := by simp [floor, hneg, hwhole, hfrac]
    have hfract : (0 : ℚ) < w.fract := by
      have hlt : (w.fraction.value : Int) < 10 ^ w.scale := by exact_mod_cast w.fraction_lt
      have hfract : w.fract = 10 ^ w.scale - w.fraction.value := by simp [fract, hneg, hfrac]
      exact_mod_cast (by omega : 0 < w.fract)
    have hlt : (w.fract : ℚ) / 10 ^ w.scale < 1 :=
      (div_lt_one hpos).mpr (by exact_mod_cast w.fract_lt)
    have hgt : 0 < (w.fract : ℚ) / 10 ^ w.scale := div_pos hfract hpos
    rw [w.value_eq, hfloor]
    push_cast
    exact ⟨by linarith, by linarith⟩

/-! ## What the code reads -/

theorem point_not_mem_head : '.' ∉ w.head := by
  rw [head, List.mem_append]
  rintro (h | h)
  · split_ifs at h <;> simp at h
  · exact not_mem_digits (by decide) w.whole.toDigits h

theorem strtoll_head (hwhole : w.whole.value < 2 ^ 63) (rest : List Char) :
    strtoll (w.head ++ '.' :: rest) = w.signed := by
  rw [head, signed]
  cases w.negative with
  | false => simpa using strtoll_numeral w.whole (stops_cons _ rfl rest) hwhole
  | true => simpa using strtoll_minus w.whole (stops_cons _ rfl rest) hwhole

end Wire

theorem value_lt_of_length_le {d : Digits} (h : d.chars.length ≤ 9) : d.value < 10 ^ 9 :=
  lt_of_lt_of_le d.value_lt (Nat.pow_le_pow_right (by decide) h)

/-- Up to nine digits, before a blank or at the end. -/
theorem strtoll_digits {d : Digits} (h : d.chars.length ≤ 9) (hne : d.chars ≠ [])
    {rest : List Char} (hrest : Stops rest) : strtoll (d.chars ++ rest) = d.value := by
  have hlt : d.value < 2 ^ 63 := lt_trans (value_lt_of_length_le h) (by decide)
  exact strtoll_numeral ⟨d, hne⟩ hrest hlt

namespace Wire

variable (w : Wire) {tsType : DbType}

theorem afterFirst_point (rest : List Char) :
    afterFirst '.' (w.head ++ '.' :: rest) = some rest :=
  afterFirst_append w.point_not_mem_head rest

theorem parseEpoch_text (htype : tsType ≠ .date) (hscale : w.scale ≤ 9)
    (hwhole : w.whole.value < 2 ^ 63) :
    parseEpoch w.text tsType = some (w.signed, (w.fraction.value : Int), 0) := by
  have hblank : afterFirst ' ' w.fraction.chars = none :=
    afterFirst_eq_none (not_mem_digits (by decide) w.fraction)
  have hfraction : strtoll w.fraction.chars = w.fraction.value := by
    by_cases hne : w.fraction.chars = []
    · rw [hne, strtoll_nil, Digits.value, hne]
      rfl
    · simpa using strtoll_digits hscale hne stops_nil
  rw [parseEpoch, if_neg htype, text, w.afterFirst_point, w.strtoll_head hwhole]
  simp [hblank, hfraction]

/-- What is taken for the fraction when an offset follows. Without digits of its own, it is the
offset, as `strtoll` goes over the blank. -/
def zonedFraction (o : Numeral) : Int := if w.scale = 0 then o.value else w.fraction.value

theorem parseEpoch_zoned (htype : tsType ≠ .date) (hscale : w.scale ≤ 9)
    (hwhole : w.whole.value < 2 ^ 63) {o : Numeral} (ho : o.value ≤ 2880) :
    parseEpoch (w.zoned o) tsType = some (w.signed, w.zonedFraction o, (o.value : Int) - 1440) := by
  have hblank : afterFirst ' ' (w.fraction.chars ++ ' ' :: o.chars) = some o.chars :=
    afterFirst_append (not_mem_digits (by decide) w.fraction) _
  have hoffset : strtoll o.chars = o.value := by
    have hnum := strtoll_numeral o stops_nil (lt_of_le_of_lt ho (by decide))
    rwa [List.append_nil] at hnum
  have hfraction : strtoll (w.fraction.chars ++ ' ' :: o.chars) = w.zonedFraction o := by
    rw [zonedFraction]
    by_cases hne : w.fraction.chars = []
    · have hzero : w.scale = 0 := by rw [scale, hne]; rfl
      rw [hne, List.nil_append, strtoll_blank, hoffset, if_pos hzero]
    · have hzero : w.scale ≠ 0 := fun h => hne (List.eq_nil_of_length_eq_zero h)
      rw [if_neg hzero]
      exact strtoll_digits hscale hne (stops_cons _ rfl o.chars)
  have hcheck :
      checkI64 ((o.value : Int) - timezoneOffsetRange) = some ((o.value : Int) - 1440) := by
    have hrange : timezoneOffsetRange = 1440 := rfl
    rw [hrange]
    exact checkI64_of_lt (by omega) (by omega)
  rw [parseEpoch, if_neg htype, zoned, w.afterFirst_point, w.strtoll_head hwhole]
  simp [hblank, hfraction, hoffset, hcheck]

/-! ## The borrow -/

theorem pow10Int64_natCast {k : Nat} (hk : k ≤ 9) : pow10Int64 k = some (10 ^ k) := by
  rw [pow10Int64, if_pos ⟨by omega, by omega⟩, Int.toNat_natCast]

/-- Before the epoch, a fraction is taken from the second before. -/
theorem borrow_of_neg {scale : Nat} {sec nsec : Int} (hscale : scale ≤ 9) (hsec : sec < 0)
    (hnsec : 0 < nsec) (hmax : nsec < 2 ^ 62) (hmin : -2 ^ 63 < sec) :
    borrow scale sec nsec = some (sec - 1, 10 ^ scale - nsec) := by
  have hpow : (10 : Int) ^ scale ≤ 10 ^ 9 := pow_le_pow_right₀ (by decide) hscale
  have hpos : (0 : Int) < 10 ^ scale := by positivity
  rw [borrow, if_pos ⟨hsec, hnsec⟩, pow10Int64_natCast hscale]
  simp only [Option.bind_eq_bind, Option.bind_some]
  rw [checkI64_of_lt (by omega) (by omega), Option.bind_some,
    checkI64_of_lt (by omega) (by omega), Option.bind_some]

theorem borrow_of_not {scale sec nsec : Int} (h : ¬(sec < 0 ∧ 0 < nsec)) :
    borrow scale sec nsec = some (sec, nsec) := if_neg h

/-- The code gets the whole seconds and the rest. -/
theorem borrow_floor (hscale : w.scale ≤ 9) (hwhole : w.whole.value < 2 ^ 63) (h : ¬w.Between) :
    borrow w.scale w.signed w.fraction.value = some (w.floor, w.fract) := by
  have hfraction := value_lt_of_length_le hscale
  by_cases hneg : w.negative ∧ 0 < w.fraction.value
  · have hpos : w.whole.value ≠ 0 := fun hzero => h ⟨hneg.1, hzero, hneg.2⟩
    have hsigned : w.signed = -w.whole.value := if_pos hneg.1
    rw [borrow_of_neg hscale (by omega) (by omega) (by omega) (by omega), floor, fract,
      if_pos hneg, if_pos hneg, hsigned]
  · have hkeep : ¬(w.signed < 0 ∧ 0 < (w.fraction.value : Int)) := by
      rintro ⟨hsec, hnsec⟩
      have hminus : w.negative = true := by
        by_contra hplus
        rw [signed, if_neg hplus] at hsec
        omega
      exact hneg ⟨hminus, by omega⟩
    rw [borrow_of_not hkeep, floor, fract, if_neg hneg, if_neg hneg]

/-- Between -1 and 0 the sign is lost. -/
theorem borrow_between (h : w.Between) :
    borrow w.scale w.signed w.fraction.value = some (0, (w.fraction.value : Int)) := by
  obtain ⟨hneg, hwhole, -⟩ := h
  have hsigned : w.signed = 0 := by simp [signed, hneg, hwhole]
  rw [hsigned, borrow_of_not (by omega)]

end Wire

end Snowflake
