import Mathlib

/-!
# Numbers of type `double`

The numbers of IEEE 754 binary64, with the exact rational value of each finite one.

* `Binary64.Finite`: a finite number in the one form that the format has for it, so that two numbers
  are equal as terms exactly if they have the same bits.
* `ofRat`: the nearest number, with ties to the even one.
* `ofRat_of_near`: a rational that is nearer to a number than `2⁻⁵⁴` of it is rounded to it. This
  is all that a text with enough digits needs.
-/

/-- The number `± mant * 2 ^ exp`. -/
structure Binary64.Finite where
  neg : Bool
  mant : Nat
  exp : Int
  mant_lt : mant < 2 ^ 53
  le_exp : -1074 ≤ exp
  exp_le : exp ≤ 971
  /-- Only the numbers with the least exponent have a leading zero. -/
  normal : 2 ^ 52 ≤ mant ∨ exp = -1074
  deriving DecidableEq, Repr

/-- A number of type `double`. The bits of a number that is not finite are left out. -/
inductive Binary64 where
  | finite (x : Binary64.Finite)
  | inf (neg : Bool)
  | nan
  deriving DecidableEq, Repr

namespace Binary64

variable {q : ℚ} {n : Nat}

/-! ## Rounding to an integer -/

/-- The nearest integer, and the even one of two. -/
def roundEven (q : ℚ) : Nat :=
  let n := ⌊q⌋₊
  if q - n < 1 / 2 then n else if 1 / 2 < q - n then n + 1 else if Even n then n else n + 1

theorem roundEven_cases (hq : 0 ≤ q) :
    ((roundEven q : ℚ) ≤ q ∧ q ≤ roundEven q + 1 / 2) ∨
      (q ≤ roundEven q ∧ (roundEven q : ℚ) ≤ q + 1 / 2) := by
  have hle := Nat.floor_le hq
  have hlt := Nat.lt_floor_add_one q
  unfold roundEven
  dsimp only
  split_ifs with h1 h2 h3
  · exact .inl ⟨hle, by linarith⟩
  · refine .inr ⟨?_, ?_⟩ <;> push_cast <;> linarith
  · exact .inl ⟨hle, by linarith⟩
  · refine .inr ⟨?_, ?_⟩ <;> push_cast <;> linarith

theorem abs_roundEven_sub_le (hq : 0 ≤ q) : |(roundEven q : ℚ) - q| ≤ 1 / 2 := by
  rw [abs_le]
  rcases roundEven_cases hq with h | h <;> constructor <;> linarith

theorem roundEven_of_near (hq : 0 ≤ q) (h : |q - n| < 1 / 2) : roundEven q = n := by
  have hround := abs_le.mp (abs_roundEven_sub_le hq)
  rw [abs_lt] at h
  have hlt : (roundEven q : ℚ) < n + 1 := by linarith
  have hgt : (n : ℚ) < roundEven q + 1 := by linarith
  have hlt' : roundEven q < n + 1 := by exact_mod_cast hlt
  have hgt' : n < roundEven q + 1 := by exact_mod_cast hgt
  omega

theorem le_roundEven (hn : (n : ℚ) ≤ q) : n ≤ roundEven q := by
  have hq : 0 ≤ q := n.cast_nonneg.trans hn
  have hround := abs_le.mp (abs_roundEven_sub_le hq)
  have hlt : (n : ℚ) < roundEven q + 1 := by linarith
  have hlt' : n < roundEven q + 1 := by exact_mod_cast hlt
  omega

theorem roundEven_le (hq : 0 ≤ q) (hn : q ≤ n) : roundEven q ≤ n := by
  have hround := abs_le.mp (abs_roundEven_sub_le hq)
  have hlt : (roundEven q : ℚ) < n + 1 := by linarith
  have hlt' : roundEven q < n + 1 := by exact_mod_cast hlt
  omega

/-! ## Rounding to a `double` -/

namespace Finite

/-- The absolute value. -/
def abs (x : Finite) : ℚ := x.mant * (2 : ℚ) ^ x.exp

def value (x : Finite) : ℚ := if x.neg then -x.abs else x.abs

def zero (neg : Bool) : Finite :=
  ⟨neg, 0, -1074, by norm_num, le_refl _, by norm_num, .inr rfl⟩

theorem abs_nonneg (x : Finite) : 0 ≤ x.abs := by
  unfold abs
  positivity

theorem abs_eq_zero_iff {x : Finite} : x.abs = 0 ↔ x = zero x.neg := by
  constructor
  · intro h
    have hmant : x.mant = 0 := by
      rcases mul_eq_zero.mp h with h | h
      · exact_mod_cast h
      · exact absurd h (zpow_ne_zero _ two_ne_zero)
    obtain ⟨neg, mant, exp, _, _, _, hnormal⟩ := x
    obtain rfl : mant = 0 := hmant
    obtain rfl : exp = -1074 := hnormal.resolve_left (by norm_num)
    rfl
  · intro h
    rw [h]
    simp [abs, zero]

end Finite

/-- The exponent of the numbers around `q`. -/
def exponent (q : ℚ) : Int := max (-1074) (Int.log 2 q - 52)

theorem pow_log_le (hq : 0 < q) : (2 : ℚ) ^ Int.log 2 q ≤ q :=
  mod_cast Int.zpow_log_le_self (b := 2) (by norm_num) hq

theorem two_zpow_pos (e : Int) : (0 : ℚ) < (2 : ℚ) ^ e := zpow_pos two_pos e

/-- The scaled number has its leading bit in the place of a normal number, or the exponent is the
least one. -/
theorem le_scaled (hq : 0 < q) : 2 ^ 52 ≤ q / 2 ^ exponent q ∨ exponent q = -1074 := by
  by_cases h : Int.log 2 q - 52 ≤ -1074
  · exact .inr (max_eq_left h)
  · have he : exponent q = Int.log 2 q - 52 := max_eq_right (by omega)
    left
    rw [he, le_div_iff₀ (two_zpow_pos _), ← zpow_natCast, ← zpow_add₀ two_ne_zero]
    norm_num
    exact pow_log_le hq

theorem normal_roundEven (hq : 0 < q) :
    2 ^ 52 ≤ roundEven (q / 2 ^ exponent q) ∨ exponent q = -1074 :=
  (le_scaled hq).imp_left fun h => le_roundEven (by exact_mod_cast h)

/-- The number nearest to `± q`. -/
def ofRat (neg : Bool) (q : ℚ) : Binary64 :=
  if hq : 0 < q then
    if hmant : roundEven (q / 2 ^ exponent q) < 2 ^ 53 then
      if hexp : exponent q ≤ 971 then
        .finite ⟨neg, roundEven (q / 2 ^ exponent q), exponent q, hmant, le_max_left _ _, hexp,
          normal_roundEven hq⟩
      else .inf neg
    else
      -- all digits are ones, and were rounded up to the next power of two
      if hexp : exponent q + 1 ≤ 971 then
        .finite ⟨neg, 2 ^ 52, exponent q + 1, by norm_num,
          (le_max_left (-1074) _).trans (le_add_of_nonneg_right zero_le_one), hexp, .inl le_rfl⟩
      else .inf neg
  else .finite (.zero neg)

theorem ofRat_zero (neg : Bool) : ofRat neg 0 = .finite (.zero neg) := by
  rw [ofRat, dif_neg (lt_irrefl _)]

/-! ## Numbers near a `double` -/

/-- The exponent from the place of the leading bit. -/
theorem exponent_eq {e : Int} (he : -1074 ≤ e) (hlow : (2 : ℚ) ^ 52 ≤ q / 2 ^ e ∨ e = -1074)
    (hq : 0 < q) (hhigh : q / 2 ^ e < 2 ^ 53) : exponent q = e := by
  have hhigh' : q < (2 : ℚ) ^ (e + 53) := by
    rw [div_lt_iff₀ (two_zpow_pos _), ← zpow_natCast, ← zpow_add₀ two_ne_zero] at hhigh
    rwa [add_comm]
  have hlog : Int.log 2 q < e + 53 :=
    (Int.lt_zpow_iff_log_lt (by norm_num) hq).mp (by exact_mod_cast hhigh')
  rcases hlow with hlow | rfl
  · have hlow' : (2 : ℚ) ^ (e + 52) ≤ q := by
      rw [le_div_iff₀ (two_zpow_pos _), ← zpow_natCast, ← zpow_add₀ two_ne_zero] at hlow
      rwa [add_comm]
    have hlog' : e + 52 ≤ Int.log 2 q :=
      (Int.zpow_le_iff_le_log (by norm_num) hq).mp (by exact_mod_cast hlow')
    unfold exponent
    omega
  · unfold exponent
    omega

variable {x : Finite} {y : ℚ}

/-- The numbers `y` that are rounded with the exponent of `x`. -/
theorem ofRat_of_exponent (hy : 0 < y) (he : exponent y = x.exp)
    (hnear : |y / 2 ^ x.exp - x.mant| < 1 / 2) : ofRat x.neg y = .finite x := by
  have hround : roundEven (y / 2 ^ exponent y) = x.mant := by
    rw [he]
    exact roundEven_of_near (by positivity) hnear
  have hlt : roundEven (y / 2 ^ exponent y) < 2 ^ 53 := hround ▸ x.mant_lt
  have hle : exponent y ≤ 971 := he ▸ x.exp_le
  rw [ofRat, dif_pos hy, dif_pos hlt, dif_pos hle]
  obtain ⟨neg, mant, exp, _, _, _, _⟩ := x
  congr 2

/-- The numbers right below a power of two: they have the next smaller exponent, and are rounded
up. -/
theorem ofRat_of_below (hy : 0 < y) (hmant : x.mant = 2 ^ 52) (he : exponent y + 1 = x.exp)
    (hnear : |y / 2 ^ exponent y - 2 ^ 53| < 1 / 2) : ofRat x.neg y = .finite x := by
  have hround : roundEven (y / 2 ^ exponent y) = 2 ^ 53 :=
    roundEven_of_near (by positivity) (by exact_mod_cast hnear)
  have hge : ¬ roundEven (y / 2 ^ exponent y) < 2 ^ 53 := by omega
  have hle : exponent y + 1 ≤ 971 := he ▸ x.exp_le
  rw [ofRat, dif_pos hy, dif_neg hge, dif_pos hle]
  obtain ⟨neg, mant, exp, _, _, _, _⟩ := x
  obtain rfl : mant = 2 ^ 52 := hmant
  congr 2

theorem mant_pos (hx : 0 < x.abs) : 1 ≤ x.mant := by
  by_contra h
  have hzero : x.mant = 0 := by omega
  rw [Finite.abs, hzero] at hx
  simp at hx

/-- Whatever is near to a number is rounded to it. -/
theorem ofRat_of_near (hx : 0 < x.abs) (hnear : 2 ^ 54 * |y - x.abs| < x.abs) :
    ofRat x.neg y = .finite x := by
  have hpos := two_zpow_pos x.exp
  have hmant : (1 : ℚ) ≤ x.mant := by exact_mod_cast mant_pos hx
  have hmant' : (x.mant : ℚ) + 1 ≤ 2 ^ 53 := by exact_mod_cast x.mant_lt
  -- all numbers in units of the last place of `x`
  obtain ⟨r, rfl⟩ : ∃ r, y = r * 2 ^ x.exp :=
    ⟨y / 2 ^ x.exp, by rw [div_mul_cancel₀ _ hpos.ne']⟩
  have hunits : 2 ^ 54 * |r - x.mant| < x.mant := by
    have hfactor : |r * 2 ^ x.exp - x.abs| = |r - x.mant| * 2 ^ x.exp := by
      rw [Finite.abs, ← sub_mul, abs_mul, abs_of_pos hpos]
    rw [hfactor, Finite.abs, ← mul_assoc] at hnear
    exact lt_of_mul_lt_mul_right hnear hpos.le
  have hhalf : |r - x.mant| < 1 / 2 := by linarith
  have hr := abs_lt.mp hhalf
  have hypos : 0 < r * 2 ^ x.exp := mul_pos (by linarith) hpos
  have hscale : r * 2 ^ x.exp / 2 ^ x.exp = r := mul_div_cancel_right₀ _ hpos.ne'
  by_cases hlow : 2 ^ 52 ≤ r ∨ x.exp = -1074
  · apply ofRat_of_exponent hypos
    · exact exponent_eq x.le_exp (by rwa [hscale]) hypos (by rw [hscale]; linarith)
    · rwa [hscale]
  · -- `x` is a power of two, and `y` is below it
    rw [not_or, not_le] at hlow
    have hmin : 2 ^ 52 ≤ x.mant := x.normal.resolve_right hlow.2
    have hmant52 : x.mant = 2 ^ 52 := by
      have hlt : (x.mant : ℚ) < 2 ^ 52 + 1 := by linarith
      have hlt' : x.mant < 2 ^ 52 + 1 := by exact_mod_cast hlt
      omega
    rw [hmant52] at hunits hr
    push_cast at hunits hr
    have hscale' : r * 2 ^ x.exp / 2 ^ (x.exp - 1) = 2 * r := by
      rw [zpow_sub_one₀ two_ne_zero]
      field_simp
    have hexp : exponent (r * 2 ^ x.exp) = x.exp - 1 := by
      have hle := x.le_exp
      apply exponent_eq (by omega) _ hypos
      · rw [hscale']
        linarith
      · rw [hscale']
        left
        linarith
    apply ofRat_of_below hypos hmant52 (by rw [hexp]; ring)
    rw [hexp, hscale']
    have hdouble : 2 * r - 2 ^ 53 = 2 * (r - 2 ^ 52) := by ring
    rw [hdouble, abs_mul, abs_of_pos two_pos]
    linarith

theorem ofRat_abs (x : Finite) : ofRat x.neg x.abs = .finite x := by
  rcases x.abs_nonneg.eq_or_lt with hzero | hpos
  · rw [← hzero, ofRat_zero, ← Finite.abs_eq_zero_iff.mp hzero.symm]
  · exact ofRat_of_near hpos (by simpa using hpos)

/-! ## Comparison -/

/-- The operator `==`, for which the two zeros are equal. -/
def equal : Binary64 → Binary64 → Bool
  | .finite x, .finite y => x.value == y.value
  | .inf x, .inf y => x == y
  | _, _ => false

theorem neg_of_ofRat {neg : Bool} (h : ofRat neg q = .finite x) : x.neg = neg := by
  unfold ofRat at h
  split_ifs at h <;> cases h <;> rfl

/-- Numbers of one sign that are equal have the same bits. -/
theorem ofRat_of_equal (h : equal (ofRat x.neg q) (.finite x) = true) :
    ofRat x.neg q = .finite x := by
  cases hy : ofRat x.neg q with
  | inf | nan => rw [hy] at h; cases h
  | finite z =>
    rw [hy] at h
    have hneg : z.neg = x.neg := neg_of_ofRat hy
    have hvalue : z.value = x.value := eq_of_beq h
    have habs : z.abs = x.abs := by
      unfold Finite.value at hvalue
      rw [hneg] at hvalue
      cases hx : x.neg <;> simpa [hx] using hvalue
    rw [← ofRat_abs z, ← ofRat_abs x, hneg, habs]

end Binary64
