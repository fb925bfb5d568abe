import Mathlib
import SnowflakeClient.Run

/-!
# Texts in C buffers

A text in a buffer is its characters before the `NUL`. `strncat` and `snprintf` put it and the `NUL`
after it into a buffer of `size` bytes; a character stands for one byte.

`pieces sep text`: the parts of a text between the separators, without the empty ones.
`strstr pat text`: where a text first has another one in it.
-/

namespace CText

variable {ε : Type} {size : Nat} {dst src : List Char}

/-- `strncat(dst, src, n)`. -/
def strncat (size : Nat) (dst src : List Char) (n : Nat) : Run ε (List Char) :=
  if (dst ++ src.take n).length < size then .returned (dst ++ src.take n) else .outside

/-- `snprintf(dst, n, ...)` for `0 < n`: `text` is what would be printed without the limit. -/
def snprintf (size n : Nat) (text : List Char) : Run ε (List Char) :=
  if (text.take (n - 1)).length < size then .returned (text.take (n - 1)) else .outside

theorem strncat_length (h : dst.length + src.length < size) :
    (strncat size dst src src.length : Run ε (List Char)) = .returned (dst ++ src) := by
  rw [strncat, List.take_length, if_pos (by rwa [List.length_append])]

theorem snprintf_of_lt {n : Nat} {text : List Char} (hn : text.length < n)
    (hsize : text.length < size) : (snprintf size n text : Run ε (List Char)) = .returned text := by
  rw [snprintf, List.take_of_length_le (by omega), if_pos hsize]

/-- A write of `src` into the middle of a text, from `off` on, in a buffer that was zeroed before: a
text that gets longer still has a `NUL` after it. -/
def overwrite (size : Nat) (dst : List Char) (off : Nat) (src : List Char) : Run ε (List Char) :=
  if off + src.length < size then .returned (dst.take off ++ src ++ dst.drop (off + src.length))
  else .outside

/-- A write over as many characters of the text. -/
theorem overwrite_mid {a b c src : List Char} (hlen : src.length = b.length)
    (hsize : (a ++ b ++ c).length < size) :
    (overwrite size (a ++ b ++ c) a.length src : Run ε (List Char)) =
      .returned (a ++ src ++ c) := by
  have hinside : a.length + src.length < size := by
    simp only [List.length_append] at hsize
    omega
  have htake : (a ++ b ++ c).take a.length = a := by rw [List.append_assoc, List.take_left]
  have hdrop : (a ++ b ++ c).drop (a.length + src.length) = c := by
    rw [hlen, ← List.length_append, List.drop_left]
  rw [overwrite, if_pos hinside, htake, hdrop]

/-! ## Pieces -/

/-- The parts between the separators that are not empty. -/
def pieces (sep : Char) (text : List Char) : List (List Char) :=
  (text.splitOn sep).filter (· ≠ [])

variable {sep : Char}

theorem pieces_append_cons (a b : List Char) :
    pieces sep (a ++ sep :: b) = pieces sep a ++ pieces sep b := by
  unfold pieces List.splitOn
  rw [List.splitOnP_append_cons (p := (· == sep)) a b (beq_self_eq_true sep), List.filter_append]

theorem pieces_of_notMem {text : List Char} (h : sep ∉ text) (hne : text ≠ []) :
    pieces sep text = [text] := by
  unfold pieces List.splitOn
  rw [List.splitOnP_eq_singleton]
  · rw [List.filter_cons_of_pos (by simpa using hne), List.filter_nil]
  · intro c hc
    rw [beq_eq_false_iff_ne]
    rintro rfl
    exact h hc

/-- A text that does not start with the separator starts with a piece. Whatever is put in front of
it makes that piece longer. -/
theorem pieces_append_of_head {text : List Char} (hne : text ≠ []) (hhead : text.head? ≠ some sep)
    {a : List Char} (ha : sep ∉ a) :
    ∃ first rest, pieces sep text = first :: rest ∧
      pieces sep (a ++ text) = (a ++ first) :: rest := by
  have hlong : ∀ {first}, sep ∉ first → sep ∉ a ++ first := by
    intro first hfirst h
    rcases List.mem_append.mp h with h | h
    · exact ha h
    · exact hfirst h
  by_cases hmem : sep ∈ text
  · obtain ⟨first, rest, rfl, hnot⟩ := List.eq_append_cons_of_mem hmem
    have hfirst : first ≠ [] := by
      rintro rfl
      exact hhead rfl
    refine ⟨first, pieces sep rest, ?_, ?_⟩
    · rw [pieces_append_cons, pieces_of_notMem hnot hfirst, List.singleton_append]
    · rw [← List.append_assoc, pieces_append_cons, pieces_of_notMem (hlong hnot) (by simp [hfirst]),
        List.singleton_append]
  · exact ⟨text, [], pieces_of_notMem hmem hne,
      pieces_of_notMem (hlong hmem) (List.append_ne_nil_of_right_ne_nil _ hne)⟩

/-! ## Texts in texts -/

/-- `strstr(text, pat)`, as an offset. -/
def strstr (pat : List Char) : (text : List Char) → Option Nat
  | [] => if pat = [] then some 0 else none
  | c :: text => if pat <+: c :: text then some 0 else (strstr pat text).map (· + 1)

variable {pat pre : List Char}

/-- `pat` begins in `pre` and goes on after it only if it has the last character of `pre`. -/
theorem not_prefix_append (hpre : ¬ pat <:+: pre) (hlast : ∀ c ∈ pre.getLast?, c ∉ pat)
    (hne : pre ≠ []) (rest : List Char) : ¬ pat <+: pre ++ rest := by
  intro h
  rcases List.prefix_or_prefix_of_prefix h (List.prefix_append pre rest) with h | h
  · exact hpre h.isInfix
  · have hmem := List.getLast_mem hne
    exact hlast _ (List.getLast?_eq_some_getLast hne) (h.subset hmem)

/-- The first occurrence, after a text that has none and whose last character is none of `pat`. -/
theorem strstr_append (hpre : ¬ pat <:+: pre) (hlast : ∀ c ∈ pre.getLast?, c ∉ pat)
    (rest : List Char) : strstr pat (pre ++ (pat ++ rest)) = some pre.length := by
  induction pre with
  | nil =>
    cases pat with
    | nil => exact absurd List.nil_infix hpre
    | cons c pat =>
      rw [List.nil_append, List.cons_append, strstr, if_pos]
      · rfl
      · exact List.prefix_append (c :: pat) rest
  | cons c pre ih =>
    have hfirst := not_prefix_append hpre hlast (List.cons_ne_nil c pre) (pat ++ rest)
    rw [List.cons_append] at hfirst
    rw [List.cons_append, strstr, if_neg hfirst, ih]
    · rfl
    · exact fun h => hpre (h.trans (List.suffix_cons c pre).isInfix)
    · intro d hd
      apply hlast
      rw [List.getLast?_cons, Option.mem_def.1 hd]
      rfl

/-- No occurrence. -/
theorem strstr_eq_none {text : List Char} (h : ¬ pat <:+: text) : strstr pat text = none := by
  induction text with
  | nil =>
    rw [strstr, if_neg]
    rintro rfl
    exact h List.nil_infix
  | cons c text ih =>
    have hrest : ¬ pat <:+: text := fun hocc => h (hocc.trans (List.suffix_cons c text).isInfix)
    rw [strstr, if_neg fun hpre => h hpre.isInfix, ih hrest]
    rfl

/-- An occurrence is inside of the text. -/
theorem strstr_le {text : List Char} {i : Nat} (h : strstr pat text = some i) :
    i + pat.length ≤ text.length := by
  induction text generalizing i with
  | nil =>
    rw [strstr] at h
    split_ifs at h with hpat
    cases h
    simp [hpat]
  | cons c text ih =>
    rw [strstr] at h
    split_ifs at h with hpre
    · cases h
      simpa using hpre.length_le
    · obtain ⟨j, hj, rfl⟩ := Option.map_eq_some_iff.1 h
      have hle := ih hj
      rw [List.length_cons]
      omega

/-! ## Comparing -/

/-- A text that ends where C sees its end. -/
structure Terminated where
  chars : List Char
  noNul : '\x00' ∉ chars
  deriving DecidableEq

/-- `strncmp`. Reading at the end of a text gives the terminator. -/
def strncmp (s t : List Char) : Nat → Int
  | 0 => 0
  | n + 1 =>
    let c := s.headD '\x00'
    let d := t.headD '\x00'
    if c = d ∧ c ≠ '\x00' then strncmp s.tail t.tail n else c.toNat - d.toNat

theorem toNat_toLower (c : Char) :
    c.toLower.toNat = if 65 ≤ c.toNat ∧ c.toNat ≤ 90 then c.toNat + 32 else c.toNat := by
  have hupper : c.val ≥ 'A'.val ∧ c.val ≤ 'Z'.val ↔ 65 ≤ c.toNat ∧ c.toNat ≤ 90 := Iff.rfl
  unfold Char.toLower
  by_cases h : 65 ≤ c.toNat ∧ c.toNat ≤ 90
  · have hsum : (c.val + ('a'.val - 'A'.val)).toNat = (c.toNat + 32) % 2 ^ 32 :=
      UInt32.toNat_add _ _
    rw [dif_pos (hupper.mpr h), if_pos h]
    exact hsum.trans (Nat.mod_eq_of_lt (by omega))
  · rw [dif_neg fun hc => h (hupper.mp hc), if_neg h]

/-- Only a letter is folded. -/
theorem toLower_eq {c d : Char} (hc : c.isLower = false) (h : d.toLower = c) : d = c := by
  have hnat := toNat_toLower d
  rw [h] at hnat
  split_ifs at hnat with hd
  · have hlower : 97 ≤ c.toNat ∧ c.toNat ≤ 122 := by omega
    have htrue : c.isLower = true := by
      rw [Char.isLower, Bool.and_eq_true, decide_eq_true_eq, decide_eq_true_eq]
      exact hlower
    exact absurd (htrue.symm.trans hc) (by decide)
  · exact (Char.toNat_inj.mp hnat).symm

/-- A small letter is what its two forms are folded to. -/
theorem toLower_eq_iff {c upper d : Char} (hlow : 97 ≤ c.toNat) (hhigh : c.toNat ≤ 122)
    (hupper : upper.toNat + 32 = c.toNat) : d.toLower = c ↔ d = c ∨ d = upper := by
  rw [← Char.toNat_inj, ← Char.toNat_inj, ← Char.toNat_inj, toNat_toLower]
  split_ifs with hd <;> omega

theorem toNat_sub_eq_zero_iff {c d : Char} : (c.toNat : Int) - d.toNat = 0 ↔ c = d := by
  rw [← Char.toNat_inj]
  omega

theorem strncmp_eq_zero_iff {s t : List Char} (hs : '\x00' ∉ s) (ht : '\x00' ∉ t) (n : Nat) :
    strncmp s t n = 0 ↔ s.take n = t.take n := by
  induction n generalizing s t with
  | zero => simp [strncmp]
  | succ n ih =>
    simp only [strncmp]
    cases s with
    | nil =>
      cases t with
      | nil => simp
      | cons d t =>
        have hd : '\x00' ≠ d := fun h => ht (h ▸ List.mem_cons_self)
        rw [List.headD_nil, List.headD_cons, if_neg fun h => hd h.1, toNat_sub_eq_zero_iff]
        simp [hd]
    | cons c s =>
      have hc : c ≠ '\x00' := fun h => hs (h ▸ List.mem_cons_self)
      cases t with
      | nil =>
        rw [List.headD_nil, List.headD_cons, if_neg fun h => hc h.1, toNat_sub_eq_zero_iff]
        simp [hc]
      | cons d t =>
        rw [List.headD_cons, List.headD_cons, List.tail_cons, List.tail_cons,
          List.take_succ_cons, List.take_succ_cons, List.cons.injEq]
        by_cases hcd : c = d
        · rw [if_pos ⟨hcd, hc⟩,
            ih (List.not_mem_of_not_mem_cons hs) (List.not_mem_of_not_mem_cons ht)]
          simp [hcd]
        · rw [if_neg fun h => hcd h.1, toNat_sub_eq_zero_iff]
          simp [hcd]

end CText
