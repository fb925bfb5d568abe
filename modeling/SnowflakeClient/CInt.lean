import Mathlib

/-!
# Fixed-width integers

C's fixed-width types as `Nat` and `Int` with the wrap-around written out. An unsigned type of
width `w` is `Nat` below `2 ^ w`; a signed one is `Int` in the two's complement range. The
conversion to a signed type that the value does not fit is the two's complement one, which every
supported compiler implements.
-/

namespace CInt

/-- `a + 1` in `uint64`. -/
def incU64 (a : Nat) : Nat := (a + 1) % 2 ^ 64

/-- `a - b` in `uint64`. -/
def subU64 (a b : Nat) : Nat := (a + 2 ^ 64 - b) % 2 ^ 64

/-- Conversion to `uint32`. -/
def toU32 (x : Int) : Nat := (x % 2 ^ 32).toNat

/-- Conversion to `int32`. -/
def toI32 (x : Int) : Int := (x + 2 ^ 31) % 2 ^ 32 - 2 ^ 31

/-- The value of an operation in `int64`, which is undefined when it overflows. -/
def checkI64 (x : Int) : Option Int := if -2 ^ 63 ≤ x ∧ x < 2 ^ 63 then some x else none

/-- The value of an operation in `int32`, which is undefined when it overflows. -/
def checkI32 (x : Int) : Option Int := if -2 ^ 31 ≤ x ∧ x < 2 ^ 31 then some x else none

theorem incU64_of_lt {a b : Nat} (h : a < b) (hb : b < 2 ^ 64) : incU64 a = a + 1 := by
  unfold incU64; omega

/-- The subtraction does not wrap for ordered operands. -/
theorem subU64_of_le {a b : Nat} (h : b ≤ a) (ha : a < 2 ^ 64) : subU64 a b = a - b := by
  unfold subU64; omega

theorem toU32_natCast {n : Nat} (h : n < 2 ^ 32) : toU32 n = n := by
  unfold toU32; omega

theorem toI32_of_lt {x : Int} (h0 : -2 ^ 31 ≤ x) (h : x < 2 ^ 31) : toI32 x = x := by
  unfold toI32; omega

/-- The conversion takes off a multiple of `2 ^ 32`. -/
theorem toI32_eq (x : Int) :
    ∃ k, toI32 x = x - 2 ^ 32 * k ∧ -2 ^ 31 ≤ toI32 x ∧ toI32 x < 2 ^ 31 :=
  ⟨(x + 2 ^ 31) / 2 ^ 32, by unfold toI32; omega⟩

/-- A length as an `int` is not longer. -/
theorem toNat_toI32_le (n : Nat) : (toI32 n).toNat ≤ n := by
  unfold toI32; omega

/-- Whole blocks of 16 are whole blocks as an `int`. -/
theorem toNat_toI32_mod {n : Nat} (h : n % 16 = 0) : (toI32 n).toNat % 16 = 0 := by
  unfold toI32; omega

theorem checkI64_of_lt {x : Int} (h0 : -2 ^ 63 ≤ x) (h : x < 2 ^ 63) : checkI64 x = some x :=
  if_pos ⟨h0, h⟩

theorem checkI32_eq_some_iff {x y : Int} :
    checkI32 x = some y ↔ x = y ∧ -2 ^ 31 ≤ y ∧ y < 2 ^ 31 := by
  rw [checkI32]
  split_ifs with h
  · rw [Option.some.injEq]
    omega
  · simp only [false_iff]
    omega

end CInt
