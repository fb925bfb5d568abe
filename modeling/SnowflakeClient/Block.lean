import SnowflakeClient.Run

/-!
# Blocks on the heap

A block is its bytes, with `none` for one that was not written yet. An allocation never fails: the
process ends when there is no memory.

`write_append`: a write right after a part of a block.
-/

/-- A block on the heap. -/
structure Block where
  bytes : List (Option UInt8)
  deriving DecidableEq, Repr

namespace Block

variable {ε : Type}

/-- The size of the allocation. -/
def size (b : Block) : Nat := b.bytes.length

/-- `calloc(1, n)`. -/
def calloc (n : Nat) : Block := ⟨List.replicate n (some 0)⟩

/-- `realloc(b, n)`, for the null pointer too. -/
def realloc (b : Option Block) (n : Nat) : Block :=
  let old := (b.map bytes).getD []
  ⟨old.take n ++ List.replicate (n - old.length) none⟩

/-- A write of `values` from `off` on. -/
@[irreducible] def write (b : Block) (off : Nat) (values : List UInt8) : Run ε Block :=
  if off + values.length ≤ b.size then
    .returned ⟨b.bytes.take off ++ values.map some ++ b.bytes.drop (off + values.length)⟩
  else .outside

@[simp] theorem size_calloc (n : Nat) : (calloc n).size = n := List.length_replicate

theorem write_of_le {b : Block} {off : Nat} {values : List UInt8}
    (h : off + values.length ≤ b.size) :
    (b.write off values : Run ε Block) =
      .returned ⟨b.bytes.take off ++ values.map some ++ b.bytes.drop (off + values.length)⟩ := by
  rw [write, if_pos h]

theorem size_of_write {b b' : Block} {off : Nat} {values : List UInt8}
    (h : (b.write off values : Run ε Block) = .returned b') : b'.size = b.size := by
  rw [write] at h
  by_cases hfit : off + values.length ≤ b.size
  · rw [if_pos hfit] at h
    cases h
    unfold size at *
    simp only [List.length_append, List.length_take, List.length_map, List.length_drop]
    omega
  · rw [if_neg hfit] at h
    cases h

theorem write_inside {b : Block} {off : Nat} {values : List UInt8}
    (h : off + values.length ≤ b.size) :
    Run.Inside (fun b' => b'.size = b.size) (b.write off values : Run ε Block) := by
  have hwrite := @write_of_le ε b off values h
  rw [hwrite]
  exact size_of_write hwrite

/-- A write right after the bytes `front`. -/
theorem write_append {front rest : List (Option UInt8)} {values : List UInt8} {off : Nat}
    (hoff : front.length = off) (h : values.length ≤ rest.length) :
    (write ⟨front ++ rest⟩ off values : Run ε Block) =
      .returned ⟨front ++ values.map some ++ rest.drop values.length⟩ := by
  subst hoff
  rw [write_of_le]
  · rw [List.take_left, List.drop_append, List.drop_of_length_le (by omega), List.nil_append,
      Nat.add_sub_cancel_left]
  · unfold size
    rw [List.length_append]
    omega

/-- A write right after bytes that were written. -/
theorem write_map_append {front values : List UInt8} {rest : List (Option UInt8)} {off : Nat}
    (hoff : front.length = off) (h : values.length ≤ rest.length) :
    (write ⟨front.map some ++ rest⟩ off values : Run ε Block) =
      .returned ⟨(front ++ values).map some ++ rest.drop values.length⟩ := by
  rw [write_append (by rwa [List.length_map]) h, List.map_append]

/-- A block that is made longer. -/
theorem realloc_some {bytes : List (Option UInt8)} {n : Nat} (h : bytes.length ≤ n) :
    realloc (some ⟨bytes⟩) n = ⟨bytes ++ List.replicate (n - bytes.length) none⟩ := by
  simp only [realloc, Option.map_some, Option.getD_some, List.take_of_length_le h]

/-- A block that still has room for the bytes `front`. -/
theorem realloc_append {front rest : List (Option UInt8)} {n : Nat} (h : front.length ≤ n) :
    ∃ rest', realloc (some ⟨front ++ rest⟩) n = ⟨front ++ rest'⟩ := by
  refine ⟨rest.take (n - front.length) ++ List.replicate (n - (front ++ rest).length) none, ?_⟩
  simp only [realloc, Option.map_some, Option.getD_some, List.take_append,
    List.take_of_length_le h, List.append_assoc]

@[simp] theorem size_realloc (b : Option Block) (n : Nat) : (realloc b n).size = n := by
  simp only [realloc, size, List.length_append, List.length_take, List.length_replicate]
  omega

theorem realloc_none (n : Nat) : realloc none n = ⟨List.replicate n none⟩ := by
  simp [realloc]

end Block
