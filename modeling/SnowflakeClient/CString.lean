import Mathlib

/-!
# C strings

A C string is its bytes up to the first `NUL`. `strcmp` compares the bytes as unsigned numbers up to
the first difference, the final `NUL` included; its order is the lexicographic one.
-/

/-- The bytes of a C string, without the final `NUL`. -/
structure CString where
  bytes : List UInt8
  noNul : 0 ∉ bytes
  deriving DecidableEq

namespace CString

theorem ext_bytes {s t : CString} (h : s.bytes = t.bytes) : s = t := by
  cases s
  cases t
  cases h
  rfl

/-- The bytes as numbers. -/
def codes (s : CString) : List Nat := s.bytes.map UInt8.toNat

theorem codes_injective : Function.Injective codes := fun _ _ h =>
  ext_bytes (List.map_injective_iff.mpr (fun _ _ => UInt8.toNat_inj.mp) h)

instance : LinearOrder CString := LinearOrder.lift' codes codes_injective

/-- `strcmp` on the bytes before the `NUL`. -/
def compareBytes : List UInt8 → List UInt8 → Int
  | [], [] => 0
  | [], b :: _ => 0 - b.toNat
  | a :: _, [] => a.toNat - 0
  | a :: as, b :: bs => if a = b then compareBytes as bs else a.toNat - b.toNat

def strcmp (s t : CString) : Int := compareBytes s.bytes t.bytes

theorem toNat_pos {b : UInt8} (h : b ≠ 0) : 0 < b.toNat :=
  Nat.pos_of_ne_zero fun h0 => h (UInt8.toNat_inj.mp h0)

theorem compareBytes_lt_iff {as bs : List UInt8} (has : 0 ∉ as) (hbs : 0 ∉ bs) :
    compareBytes as bs < 0 ↔ as.map UInt8.toNat < bs.map UInt8.toNat := by
  fun_induction compareBytes as bs with
  | case1 => simp
  | case2 b bs =>
    have hb := toNat_pos (b := b) (fun h => hbs (h ▸ List.mem_cons_self))
    simp only [List.map_nil, List.map_cons, List.nil_lt_cons, iff_true]
    omega
  | case3 a as =>
    simp only [List.map_nil, List.map_cons, List.not_lt_nil, iff_false]
    omega
  | case4 a as bs ih =>
    rw [ih (List.not_mem_of_not_mem_cons has) (List.not_mem_of_not_mem_cons hbs)]
    simp
  | case5 a as b bs hab =>
    have hne : a.toNat ≠ b.toNat := fun h => hab (UInt8.toNat_inj.mp h)
    simp only [List.map_cons, List.cons_lt_cons_iff, hne, false_and, or_false]
    omega

theorem compareBytes_swap (as bs : List UInt8) : compareBytes bs as = -compareBytes as bs := by
  fun_induction compareBytes as bs with
  | case1 => rfl
  | case2 b bs => simp [compareBytes]
  | case3 a as => simp [compareBytes]
  | case4 a as bs ih => rw [compareBytes, if_pos rfl, ih]
  | case5 a as b bs hab =>
    rw [compareBytes, if_neg (Ne.symm hab)]
    omega

/-- `strcmp` is the order. -/
theorem strcmp_neg_iff {s t : CString} : strcmp s t < 0 ↔ s < t :=
  compareBytes_lt_iff s.noNul t.noNul

theorem strcmp_pos_iff {s t : CString} : 0 < strcmp s t ↔ t < s := by
  rw [← strcmp_neg_iff, strcmp, strcmp, compareBytes_swap s.bytes]
  omega

theorem strcmp_eq_zero_iff {s t : CString} : strcmp s t = 0 ↔ s = t := by
  constructor
  · intro h
    refine le_antisymm (not_lt.mp ?_) (not_lt.mp ?_)
    · rw [← strcmp_pos_iff]
      omega
    · rw [← strcmp_neg_iff]
      omega
  · rintro rfl
    have hlt := mt strcmp_neg_iff.mp (lt_irrefl s)
    have hgt := mt strcmp_pos_iff.mp (lt_irrefl s)
    omega

end CString
