import SnowflakeClient.CText

/-!
# String functions

Of `lib/platform.c`. A C string is the list of its characters without the terminator; reading at its
end gives the terminator.

`sf_strncasecmp` compares the characters up to the count, in lower case, in the order of lists.
`sfStrncasecmpAt` has the reads of its loop: it takes a character of both texts at a position only
if neither of them has ended before.
-/

namespace Snowflake

/-- `sf_strncasecmp`. -/
def sfStrncasecmp (s1 s2 : List Char) : Nat → Int
  | 0 => 0
  | n + 1 =>
    let c1 := s1.headD '\x00'
    let c2 := s2.headD '\x00'
    if c1.toLower = c2.toLower ∧ ¬ (n = 0 ∨ c1 = '\x00' ∨ c2 = '\x00') then
      sfStrncasecmp s1.tail s2.tail n
    else c1.toLower.toNat - c2.toLower.toNat

/-- `sf_strncasecmp` on the memory that can be read at `s1` and at `s2`. -/
def sfStrncasecmpAt (m1 m2 : List Char) : Nat → Run Empty Int
  | 0 => .returned 0
  | n + 1 => do
    let c1 ← .ofRead m1.head?
    let c2 ← .ofRead m2.head?
    if c1.toLower = c2.toLower ∧ ¬ (n = 0 ∨ c1 = '\x00' ∨ c2 = '\x00') then
      sfStrncasecmpAt m1.tail m2.tail n
    else .returned (c1.toLower.toNat - c2.toLower.toNat)

/-! ## One character -/

theorem toLower_eq_nul_iff {c : Char} : c.toLower = '\x00' ↔ c = '\x00' := by
  refine ⟨CText.toLower_eq (by decide), ?_⟩
  rintro rfl
  rfl

section

variable {c d : Char} {s1 s2 : List Char}

theorem sfStrncasecmp_cons (hc : c ≠ '\x00') (hd : d ≠ '\x00') (n : Nat) :
    sfStrncasecmp (c :: s1) (d :: s2) (n + 1) =
      if c.toLower = d.toLower then sfStrncasecmp s1 s2 n
      else c.toLower.toNat - d.toLower.toNat := by
  simp only [sfStrncasecmp, List.headD_cons, List.tail_cons, hc, hd, or_false]
  by_cases heq : c.toLower = d.toLower
  · -- the last character that is compared is not passed, and the difference there is zero
    cases n with
    | zero => simp [heq, sfStrncasecmp]
    | succ n => simp [heq]
  · rw [if_neg fun h => heq h.1, if_neg heq]

theorem sfStrncasecmp_nil_cons (hd : d ≠ '\x00') (n : Nat) :
    sfStrncasecmp [] (d :: s2) (n + 1) = -d.toLower.toNat := by
  have hne : '\x00'.toLower ≠ d.toLower := fun h => hd (toLower_eq_nul_iff.mp h.symm)
  simp only [sfStrncasecmp, List.headD_nil, List.headD_cons]
  rw [if_neg fun h => hne h.1]
  exact Int.zero_sub _

theorem sfStrncasecmp_nil_nil (n : Nat) : sfStrncasecmp [] [] n = 0 := by
  cases n <;> simp [sfStrncasecmp]

end

theorem sfStrncasecmp_swap (s1 s2 : List Char) (n : Nat) :
    sfStrncasecmp s2 s1 n = -sfStrncasecmp s1 s2 n := by
  induction n generalizing s1 s2 with
  | zero => rfl
  | succ n ih =>
    simp only [sfStrncasecmp]
    split_ifs with h2 h1 h1
    · exact ih _ _
    · exact absurd ⟨h2.1.symm, fun h => h2.2 (by tauto)⟩ h1
    · exact absurd ⟨h1.1.symm, fun h => h1.2 (by tauto)⟩ h2
    · exact (Int.neg_sub _ _).symm

/-! ## The order -/

/-- What is compared: at most `n` characters, in lower case. -/
def lowered (s : List Char) (n : Nat) : List Char := (s.take n).map Char.toLower

@[simp] theorem lowered_zero (s : List Char) : lowered s 0 = [] := rfl

@[simp] theorem lowered_nil (n : Nat) : lowered [] n = [] := by
  rw [lowered, List.take_nil, List.map_nil]

@[simp] theorem lowered_cons (c : Char) (s : List Char) (n : Nat) :
    lowered (c :: s) (n + 1) = c.toLower :: lowered s n := rfl

/-- The beginning of an induction on two texts that C sees to their ends. -/
theorem ne_nul_of_cons {c : Char} {s : List Char} (h : '\x00' ∉ c :: s) :
    c ≠ '\x00' ∧ '\x00' ∉ s :=
  ⟨fun hc => h (hc ▸ List.mem_cons_self), List.not_mem_of_not_mem_cons h⟩

theorem sfStrncasecmp_neg_iff {s1 s2 : List Char} (h1 : '\x00' ∉ s1) (h2 : '\x00' ∉ s2)
    (n : Nat) : sfStrncasecmp s1 s2 n < 0 ↔ lowered s1 n < lowered s2 n := by
  induction n generalizing s1 s2 with
  | zero => simp [sfStrncasecmp]
  | succ n ih =>
    have hpos : ∀ {c : Char}, c ≠ '\x00' → 0 < c.toLower.toNat := fun {c} hc =>
      Nat.pos_of_ne_zero fun h => hc (toLower_eq_nul_iff.mp (Char.toNat_inj.mp h))
    cases s1 with
    | nil =>
      cases s2 with
      | nil => simp [sfStrncasecmp_nil_nil]
      | cons d s2 =>
        obtain ⟨hd, -⟩ := ne_nul_of_cons h2
        rw [sfStrncasecmp_nil_cons hd]
        simp [hpos hd]
    | cons c s1 =>
      obtain ⟨hc, h1⟩ := ne_nul_of_cons h1
      cases s2 with
      | nil =>
        rw [sfStrncasecmp_swap, sfStrncasecmp_nil_cons hc]
        simp
      | cons d s2 =>
        obtain ⟨hd, h2⟩ := ne_nul_of_cons h2
        rw [sfStrncasecmp_cons hc hd, lowered_cons, lowered_cons, List.cons_lt_cons_iff]
        by_cases heq : c.toLower = d.toLower
        · rw [if_pos heq, ih h1 h2, heq]
          simp
        · have hlt : c.toLower < d.toLower ↔ c.toLower.toNat < d.toLower.toNat := Iff.rfl
          rw [if_neg heq, hlt]
          simp only [heq, false_and, or_false]
          omega

theorem sfStrncasecmp_pos_iff {s1 s2 : List Char} (h1 : '\x00' ∉ s1) (h2 : '\x00' ∉ s2)
    (n : Nat) : 0 < sfStrncasecmp s1 s2 n ↔ lowered s2 n < lowered s1 n := by
  rw [← sfStrncasecmp_neg_iff h2 h1, sfStrncasecmp_swap s1 s2, Int.neg_neg_iff_pos]

theorem sfStrncasecmp_eq_zero_iff {s1 s2 : List Char} (h1 : '\x00' ∉ s1) (h2 : '\x00' ∉ s2)
    (n : Nat) :
    sfStrncasecmp s1 s2 n = 0 ↔
      (s1.take n).map Char.toLower = (s2.take n).map Char.toLower := by
  have hneg := sfStrncasecmp_neg_iff h1 h2 n
  have hpos := sfStrncasecmp_pos_iff h1 h2 n
  constructor
  · intro hzero
    rcases lt_trichotomy (lowered s1 n) (lowered s2 n) with hlt | heq | hlt
    · exact absurd (hneg.mpr hlt) (by omega)
    · exact heq
    · exact absurd (hpos.mpr hlt) (by omega)
  · intro heq
    have heq : lowered s1 n = lowered s2 n := heq
    rw [heq, iff_false_right (lt_irrefl _)] at hneg hpos
    omega

/-! ## The reads -/

/-- The characters that are read of each text: those before the count and before the end of either
text, and the terminator there. -/
def comparedLength (s1 s2 : List Char) (n : Nat) : Nat := min n (min s1.length s2.length + 1)

theorem comparedLength_cons (c d : Char) (s1 s2 : List Char) (n : Nat) :
    comparedLength (c :: s1) (d :: s2) (n + 1) = comparedLength s1 s2 n + 1 := by
  simp only [comparedLength, List.length_cons]
  omega

/-- The first character of a text, or its terminator, can be read if one character can. -/
theorem head?_of_readable {s m : List Char} {k : Nat} (hk : 0 < k)
    (hm : (s ++ ['\x00']).take k <+: m) : m.head? = some (s.headD '\x00') := by
  obtain ⟨rest, rfl⟩ := hm
  obtain ⟨k, rfl⟩ := Nat.exists_eq_add_of_lt hk
  cases s <;> simp

theorem tail_readable {c : Char} {s m : List Char} {k : Nat}
    (hm : (c :: s ++ ['\x00']).take (k + 1) <+: m) : (s ++ ['\x00']).take k <+: m.tail := by
  obtain ⟨rest, rfl⟩ := hm
  simp

/-- The loop has the characters that `comparedLength` counts, and no others are needed. -/
theorem sfStrncasecmpAt_eq {s1 s2 m1 m2 : List Char} {n : Nat}
    (hm1 : (s1 ++ ['\x00']).take (comparedLength s1 s2 n) <+: m1)
    (hm2 : (s2 ++ ['\x00']).take (comparedLength s1 s2 n) <+: m2) :
    sfStrncasecmpAt m1 m2 n = .returned (sfStrncasecmp s1 s2 n) := by
  induction n generalizing s1 s2 m1 m2 with
  | zero => rfl
  | succ n ih =>
    have hk : 0 < comparedLength s1 s2 (n + 1) := by
      rw [comparedLength]
      omega
    simp only [sfStrncasecmpAt, sfStrncasecmp, head?_of_readable hk hm1, head?_of_readable hk hm2,
      Run.ofRead_some, Run.returned_bind]
    split_ifs with hstep
    · -- neither character is the terminator
      cases s1 with
      | nil => exact absurd (Or.inr (Or.inl rfl)) hstep.2
      | cons c s1 =>
        cases s2 with
        | nil => exact absurd (Or.inr (Or.inr rfl)) hstep.2
        | cons d s2 =>
          rw [comparedLength_cons] at hm1 hm2
          exact ih (tail_readable hm1) (tail_readable hm2)
    · rfl

/-- `sf_strncasecmp` orders the texts as the lower-cased characters up to the count are ordered,
and it reads none behind the end of either text or behind the count. -/
theorem strncasecmp_compares (s1 s2 s3 : CText.Terminated) (n : Nat) :
    let cmp (s t : CText.Terminated) : Int := sfStrncasecmp s.chars t.chars n
    (∀ m1 m2, (s1.chars ++ ['\x00']).take (comparedLength s1.chars s2.chars n) <+: m1 →
      (s2.chars ++ ['\x00']).take (comparedLength s1.chars s2.chars n) <+: m2 →
      sfStrncasecmpAt m1 m2 n = .returned (cmp s1 s2)) ∧
    ((cmp s1 s2 < 0 ↔ lowered s1.chars n < lowered s2.chars n) ∧
      (cmp s1 s2 = 0 ↔ lowered s1.chars n = lowered s2.chars n) ∧
      (0 < cmp s1 s2 ↔ lowered s2.chars n < lowered s1.chars n)) ∧
    (cmp s2 s1).sign = -(cmp s1 s2).sign ∧
    (cmp s1 s2 ≤ 0 → cmp s2 s3 ≤ 0 → cmp s1 s3 ≤ 0) ∧
    ∀ sign, (cmp s1 s2).sign = sign → (cmp s2 s3).sign = sign → (cmp s1 s3).sign = sign := by
  intro cmp
  have hneg (s t : CText.Terminated) : cmp s t < 0 ↔ lowered s.chars n < lowered t.chars n :=
    sfStrncasecmp_neg_iff s.noNul t.noNul n
  have hzero (s t : CText.Terminated) : cmp s t = 0 ↔ lowered s.chars n = lowered t.chars n :=
    sfStrncasecmp_eq_zero_iff s.noNul t.noNul n
  have hpos (s t : CText.Terminated) : 0 < cmp s t ↔ lowered t.chars n < lowered s.chars n :=
    sfStrncasecmp_pos_iff s.noNul t.noNul n
  refine ⟨fun m1 m2 hm1 hm2 => sfStrncasecmpAt_eq hm1 hm2, ⟨hneg s1 s2, hzero s1 s2, hpos s1 s2⟩,
    ?_, ?_, ?_⟩
  · rw [show cmp s2 s1 = -cmp s1 s2 from sfStrncasecmp_swap _ _ n, Int.sign_neg]
  · intro h12 h23
    rw [← not_lt, hpos, not_lt] at h12 h23 ⊢
    exact h12.trans h23
  · rintro _ rfl h
    rcases lt_trichotomy (cmp s1 s2) 0 with h12 | h12 | h12
    · rw [Int.sign_eq_neg_one_of_neg h12, Int.sign_eq_neg_one_iff_neg] at h
      rw [Int.sign_eq_neg_one_of_neg h12, Int.sign_eq_neg_one_iff_neg]
      rw [hneg] at h12 h ⊢
      exact h12.trans h
    · rw [h12, Int.sign_zero, Int.sign_eq_zero_iff_zero] at h
      rw [h12, Int.sign_zero, Int.sign_eq_zero_iff_zero]
      rw [hzero] at h12 h ⊢
      exact h12.trans h
    · rw [Int.sign_eq_one_of_pos h12, Int.sign_eq_one_iff_pos] at h
      rw [Int.sign_eq_one_of_pos h12, Int.sign_eq_one_iff_pos]
      rw [hpos] at h12 h ⊢
      exact h.trans h12

end Snowflake
