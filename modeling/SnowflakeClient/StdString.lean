import SnowflakeClient.CText

/-!
# `std::string`

The searches of `std::string` and its `substr`, on the list of the characters. A search gives `none`
for `npos`. `substr` throws `std::out_of_range` if it begins behind the end of the text.

* `find_append`, `findChar_append`: the first occurrence, from a position on.
* `slice_mid`: the text between two positions.
-/

namespace StdString

/-- `std::out_of_range`. -/
inductive OutOfRange where
  | outOfRange
  deriving DecidableEq, Repr

/-- `text.find(pat, pos)`. -/
def find (text pat : List Char) (pos : Nat) : Option Nat :=
  if pos ≤ text.length then (CText.strstr pat (text.drop pos)).map (pos + ·) else none

/-- `text.find(c, pos)`. -/
def findChar (text : List Char) (c : Char) (pos : Nat) : Option Nat := find text [c] pos

/-- `text.find_last_of(c)`. -/
def findLastOf (text : List Char) (c : Char) : Option Nat :=
  if c ∈ text then some (text.length - 1 - text.reverse.idxOf c) else none

/-- `text.substr(pos, stop - pos)`. The difference is one of `size_t`: if `stop` is before `pos`, or
is `npos` (`none`), it is more than a text has characters. -/
def slice (text : List Char) (pos : Nat) (stop : Option Nat) : Except OutOfRange (List Char) :=
  if text.length < pos then .error .outOfRange
  else
    match stop with
    | none => .ok (text.drop pos)
    | some stop => .ok (if stop < pos then text.drop pos else (text.drop pos).take (stop - pos))

/-- `text.substr(pos)`; `npos` is behind the end of every text. -/
def substrFrom (text : List Char) : (pos : Option Nat) → Except OutOfRange (List Char)
  | none => .error .outOfRange
  | some pos => slice text pos none

/-- `text.c_str()`, as far as a C function reads it. -/
def cStr (text : List Char) : List Char := text.takeWhile (· ≠ '\x00')

section Lemmas

variable {text front a b c pat : List Char} {ch : Char}

theorem find_le {pos i : Nat} (h : find text pat pos = some i) :
    pos ≤ i ∧ i + pat.length ≤ text.length := by
  rw [find] at h
  split_ifs at h with hpos
  obtain ⟨j, hj, rfl⟩ := Option.map_eq_some_iff.1 h
  have hle := CText.strstr_le hj
  rw [List.length_drop] at hle
  omega

theorem find_append (hpat : ¬ pat <:+: a) (hlast : ∀ d ∈ a.getLast?, d ∉ pat) :
    find (front ++ (a ++ (pat ++ b))) pat front.length = some (front.length + a.length) := by
  rw [find, if_pos (by simp), List.drop_left, CText.strstr_append hpat hlast]
  rfl

theorem find_eq_none (hpat : ¬ pat <:+: a) : find (front ++ a) pat front.length = none := by
  rw [find, if_pos (by simp), List.drop_left, CText.strstr_eq_none hpat]
  rfl

theorem singleton_infix_iff : [ch] <:+: a ↔ ch ∈ a := by
  constructor
  · intro h
    exact h.subset (List.mem_singleton_self ch)
  · intro h
    obtain ⟨s, t, rfl⟩ := List.append_of_mem h
    exact ⟨s, t, by simp⟩

theorem findChar_append (h : ch ∉ a) :
    findChar (front ++ (a ++ ch :: b)) ch front.length = some (front.length + a.length) := by
  have hpat : ¬ [ch] <:+: a := fun hocc => h (singleton_infix_iff.1 hocc)
  refine find_append hpat fun d hd hch => ?_
  rw [List.mem_singleton] at hch
  exact h (hch ▸ List.mem_of_getLast? hd)

theorem findChar_eq_none (h : ch ∉ a) : findChar (front ++ a) ch front.length = none :=
  find_eq_none fun hocc => h (singleton_infix_iff.1 hocc)

theorem slice_mid : slice (a ++ (b ++ c)) a.length (some (a.length + b.length)) = .ok b := by
  unfold slice
  rw [if_neg (by simp)]
  simp

theorem slice_rest : slice (a ++ b) a.length (some (a ++ b).length) = .ok b := by
  have hmid := slice_mid (a := a) (b := b) (c := [])
  rwa [List.append_nil, ← List.length_append] at hmid

/-- The last occurrence. -/
theorem findLastOf_append (h : ch ∉ b) : findLastOf (a ++ ch :: b) ch = some a.length := by
  have hrev : (a ++ ch :: b).reverse = b.reverse ++ ch :: a.reverse := by simp
  rw [findLastOf, if_pos (by simp), hrev, List.idxOf_append_of_notMem (by simpa using h),
    List.idxOf_cons_self, List.length_append, List.length_cons, List.length_reverse]
  congr 1
  omega

theorem exists_last (h : ch ∈ text) : ∃ a b, text = a ++ ch :: b ∧ ch ∉ b := by
  obtain ⟨s, t, heq, hs⟩ := List.eq_append_cons_of_mem (List.mem_reverse.2 h)
  refine ⟨t.reverse, s.reverse, ?_, by simpa using hs⟩
  rw [← List.reverse_reverse text, heq]
  simp

/-- The text from the last occurrence on. -/
theorem substrFrom_findLastOf (h : ch ∉ b) :
    substrFrom (a ++ ch :: b) (findLastOf (a ++ ch :: b) ch) = .ok (ch :: b) := by
  rw [findLastOf_append h]
  simp [substrFrom, slice]

/-- It throws only if it begins behind the end. -/
theorem slice_ok {pos : Nat} (h : pos ≤ text.length) (stop : Option Nat) :
    ∃ part, slice text pos stop = .ok part := by
  unfold slice
  rw [if_neg (by omega)]
  cases stop with
  | none => exact ⟨_, rfl⟩
  | some stop => exact ⟨_, rfl⟩

theorem cStr_of_noNul (h : '\x00' ∉ text) : cStr text = text := by
  rw [cStr, List.takeWhile_eq_self_iff]
  intro d hd
  have hne : d ≠ '\x00' := fun heq => h (heq ▸ hd)
  simpa using hne

end Lemmas

end StdString
