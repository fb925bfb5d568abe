import SnowflakeClient.Block
import SnowflakeClient.CString

/-!
# C strings in blocks

What a block holds as a C string: the bytes from an offset up to the first `NUL`, all of which have
to be written. `string_append`: the string of bytes that were written with a `NUL` after them.
-/

theorem CString.zero_notMem_takeWhile (bytes : List UInt8) : 0 ∉ bytes.takeWhile (· ≠ 0) := by
  intro h
  have hne := List.mem_takeWhile_imp h
  simp at hne

/-- The C string that begins with `bytes`. -/
def CString.ofBytes (bytes : List UInt8) : CString :=
  ⟨bytes.takeWhile (· ≠ 0), CString.zero_notMem_takeWhile bytes⟩

theorem CString.ofBytes_bytes (s : CString) : CString.ofBytes s.bytes = s := by
  apply CString.ext_bytes
  apply List.takeWhile_eq_self_iff.mpr
  intro b hb
  rw [decide_eq_true_eq]
  rintro rfl
  exact s.noNul hb

namespace Block

variable {ε : Type}

/-- The C string at the front of `bytes`. -/
def stringOf : List (Option UInt8) → Run ε CString
  | [] => .outside
  | none :: _ => .outside
  | some b :: rest =>
    if hb : b = 0 then .returned ⟨[], List.not_mem_nil⟩
    else do
      let s ← stringOf rest
      .returned ⟨b :: s.bytes, fun h => (List.mem_cons.mp h).elim (fun h => hb h.symm) s.noNul⟩

/-- The C string from `off` on. -/
def string (b : Block) (off : Nat) : Run ε CString := stringOf (b.bytes.drop off)

/-- `strlen`. -/
def strlen (b : Block) (off : Nat) : Run ε Nat := do
  let s ← b.string off
  .returned s.bytes.length

theorem stringOf_append (bytes : List UInt8) (rest : List (Option UInt8)) :
    (stringOf (bytes.map some ++ some 0 :: rest) : Run ε CString) =
      .returned (CString.ofBytes bytes) := by
  induction bytes with
  | nil => rfl
  | cons b bytes ih =>
    rw [List.map_cons, List.cons_append, stringOf]
    by_cases hb : b = 0
    · rw [dif_pos hb]
      exact congrArg Run.returned (CString.ext_bytes (by simp [CString.ofBytes, hb]))
    · rw [dif_neg hb, ih]
      exact congrArg Run.returned (CString.ext_bytes (by simp [CString.ofBytes, hb]))

/-- The string after bytes `front`. -/
theorem string_append {front : List (Option UInt8)} (s : CString) (rest : List (Option UInt8))
    {off : Nat} (hoff : front.length = off) :
    (string ⟨front ++ (s.bytes.map some ++ some 0 :: rest)⟩ off : Run ε CString) = .returned s := by
  subst hoff
  rw [string, List.drop_left, stringOf_append, CString.ofBytes_bytes]

theorem string_zero {b : Block} (s : CString) {rest : List (Option UInt8)}
    (h : b.bytes = s.bytes.map some ++ some 0 :: rest) :
    (b.string 0 : Run ε CString) = .returned s := by
  rw [string, List.drop_zero, h, stringOf_append, CString.ofBytes_bytes]

theorem strlen_append {front : List (Option UInt8)} (s : CString) (rest : List (Option UInt8))
    {off : Nat} (hoff : front.length = off) :
    (strlen ⟨front ++ (s.bytes.map some ++ some 0 :: rest)⟩ off : Run ε Nat) =
      .returned s.bytes.length := by
  rw [strlen, string_append s rest hoff, Run.returned_bind]

end Block
