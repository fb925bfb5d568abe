import Mathlib.Logic.Basic

/-!
# Code that may leave its memory

`Run ε α`: the end of a piece of code that computes an `α`. It returns, it raises an `ε`, or it
reads or writes `outside` of a buffer, after which nothing is known about it.

Proofs take a `do` block apart with the `simp` lemmas for `bind`; `bind_eq_returned` gives the run
of each part of one that returned. `Inside` is a postcondition that leaves out the runs outside of
a buffer, with a rule for `bind`; `Ends` also says when nothing is raised. `RaisesOr` compares a run
with one of the same code where fewer calls fail. `Buffer.write` is a write that has to stay in its
buffer.
-/

inductive Run (ε α : Type) where
  | outside
  | raised (e : ε)
  | returned (a : α)
  deriving DecidableEq, Repr

namespace Run

variable {ε α β : Type}

protected def bind (r : Run ε α) (f : α → Run ε β) : Run ε β :=
  match r with
  | .outside => .outside
  | .raised e => .raised e
  | .returned a => f a

instance : Monad (Run ε) where
  pure := .returned
  bind := Run.bind

@[simp] theorem pure_eq (a : α) : (pure a : Run ε α) = .returned a := rfl

@[simp] theorem outside_bind (f : α → Run ε β) : (.outside : Run ε α) >>= f = .outside := rfl

@[simp] theorem raised_bind (e : ε) (f : α → Run ε β) :
    (.raised e : Run ε α) >>= f = .raised e := rfl

@[simp] theorem returned_bind (a : α) (f : α → Run ε β) :
    (.returned a : Run ε α) >>= f = f a := rfl

instance : LawfulMonad (Run ε) :=
  LawfulMonad.mk' _ (fun r => by cases r <;> rfl) (fun _ _ => rfl) (fun r _ _ => by cases r <;> rfl)

theorem bind_eq_returned {r : Run ε α} {f : α → Run ε β} {b : β} :
    r >>= f = .returned b ↔ ∃ a, r = .returned a ∧ f a = .returned b := by
  cases r <;> simp

/-- The value of a read, which is outside of its buffer if there is none. -/
def ofRead : Option α → Run ε α
  | none => .outside
  | some a => .returned a

@[simp] theorem ofRead_none : (ofRead none : Run ε α) = .outside := rfl

@[simp] theorem ofRead_some (a : α) : (ofRead (some a) : Run ε α) = .returned a := rfl

theorem ofRead_eq_returned {r : Option α} {a : α} :
    (ofRead r : Run ε α) = .returned a ↔ r = some a := by
  cases r <;> simp

/-- The value of a call that may fail. -/
def ofCall (e : ε) : Option α → Run ε α
  | none => .raised e
  | some a => .returned a

@[simp] theorem ofCall_none (e : ε) : (ofCall e none : Run ε α) = .raised e := rfl

@[simp] theorem ofCall_some (e : ε) (a : α) : ofCall e (some a) = .returned a := rfl

/-- The run stays in its memory, and what it returns has the property. -/
def Inside (P : α → Prop) : Run ε α → Prop
  | .outside => False
  | .raised _ => True
  | .returned a => P a

@[simp] theorem inside_raised (P : α → Prop) (e : ε) : Inside P (.raised e : Run ε α) := trivial

@[simp] theorem inside_returned {P : α → Prop} {a : α} :
    Inside P (.returned a : Run ε α) ↔ P a := Iff.rfl

theorem inside_bind_returned {Q : β → Prop} {r : Run ε α} {f : α → β} :
    Inside Q (r >>= fun a => .returned (f a)) ↔ Inside (fun a => Q (f a)) r := by
  cases r <;> rfl

namespace Inside

variable {P : α → Prop} {Q : β → Prop} {r : Run ε α}

/-- The rule for `bind` that keeps what was returned. -/
theorem bind_returned {f : α → Run ε β} (h : Inside P r)
    (hf : ∀ a, r = .returned a → P a → Inside Q (f a)) : Inside Q (r >>= f) := by
  cases r with
  | outside => exact h.elim
  | raised e => exact trivial
  | returned a => exact hf a rfl h

theorem bind {f : α → Run ε β} (h : Inside P r) (hf : ∀ a, P a → Inside Q (f a)) :
    Inside Q (r >>= f) :=
  h.bind_returned fun a _ ha => hf a ha

theorem imp {P' : α → Prop} (h : Inside P r) (himp : ∀ a, P a → P' a) : Inside P' r := by
  cases r with
  | outside => exact h
  | raised e => exact trivial
  | returned a => exact himp a h

theorem ne_outside (h : Inside P r) : r ≠ .outside := by
  rintro rfl
  exact h

end Inside

/-- The run stays in its memory, raises nothing if `ok`, and what it returns has the property. -/
def Ends (ok : Prop) (P : α → Prop) : Run ε α → Prop
  | .outside => False
  | .raised _ => ¬ ok
  | .returned a => P a

@[simp] theorem ends_raised {ok : Prop} {P : α → Prop} {e : ε} :
    Ends ok P (.raised e : Run ε α) ↔ ¬ ok := Iff.rfl

@[simp] theorem ends_returned {ok : Prop} {P : α → Prop} {a : α} :
    Ends ok P (.returned a : Run ε α) ↔ P a := Iff.rfl

namespace Ends

variable {ok : Prop} {P : α → Prop} {Q : β → Prop} {r : Run ε α}

theorem bind {f : α → Run ε β} (h : Ends ok P r) (hf : ∀ a, P a → Ends ok Q (f a)) :
    Ends ok Q (r >>= f) := by
  cases r with
  | outside => exact h.elim
  | raised e => exact h
  | returned a => exact hf a h

theorem imp {P' : α → Prop} (h : Ends ok P r) (himp : ∀ a, P a → P' a) : Ends ok P' r := by
  cases r with
  | outside => exact h
  | raised e => exact h
  | returned a => exact himp a h

theorem weaken {ok' : Prop} (h : Ends ok P r) (hok : ok' → ok) : Ends ok' P r := by
  cases r with
  | outside => exact h
  | raised e => exact mt hok h
  | returned a => exact h

theorem exists_returned (h : Ends ok P r) (hok : ok) : ∃ a, r = .returned a ∧ P a := by
  cases r with
  | outside => exact h.elim
  | raised e => exact absurd hok h
  | returned a => exact ⟨a, rfl, h⟩

end Ends

/-- The run raises, or it does what the other run does. -/
def RaisesOr (r r' : Run ε α) : Prop := (∃ e, r = .raised e) ∨ r = r'

namespace RaisesOr

theorem refl (r : Run ε α) : RaisesOr r r := .inr rfl

theorem bind {r r' : Run ε α} {f f' : α → Run ε β} (h : RaisesOr r r')
    (hf : ∀ a, RaisesOr (f a) (f' a)) : RaisesOr (r >>= f) (r' >>= f') := by
  obtain ⟨e, rfl⟩ | rfl := h
  · exact .inl ⟨e, rfl⟩
  · cases r with
    | outside => exact .inr rfl
    | raised e => exact .inl ⟨e, rfl⟩
    | returned a => exact hf a

end RaisesOr

end Run

/-- A buffer with room for `n` values. -/
def Buffer (α : Type) (n : Nat) : Type := { content : List α // content.length = n }

namespace Buffer

variable {ε α : Type} {n : Nat}

def replicate (n : Nat) (a : α) : Buffer α n := ⟨List.replicate n a, List.length_replicate⟩

/-- The buffer after `values` were put over its content from `off` on. -/
def set (b : Buffer α n) (off : Nat) (values : List α) (h : off + values.length ≤ n) :
    Buffer α n :=
  ⟨b.val.take off ++ values ++ b.val.drop (off + values.length), by
    have hlen := b.property
    simp only [List.length_append, List.length_take, List.length_drop]
    omega⟩

/-- A write of `values` from `off` on. It is irreducible, since the unifier would compute the length
of `values` otherwise. -/
@[irreducible] def write (b : Buffer α n) (off : Nat) (values : List α) : Run ε (Buffer α n) :=
  if h : off + values.length ≤ n then .returned (b.set off values h) else .outside

theorem write_of_le (b : Buffer α n) {off : Nat} {values : List α} (h : off + values.length ≤ n) :
    (b.write off values : Run ε (Buffer α n)) = .returned (b.set off values h) := by
  rw [write, dif_pos h]

theorem write_of_lt (b : Buffer α n) {off : Nat} {values : List α} (h : n < off + values.length) :
    (b.write off values : Run ε (Buffer α n)) = .outside := by
  rw [write, dif_neg (Nat.not_le.mpr h)]

/-- Nothing is written. -/
@[simp] theorem write_nil (b : Buffer α n) {off : Nat} (h : off ≤ n) :
    (b.write off [] : Run ε (Buffer α n)) = .returned b := by
  rw [write_of_le b h]
  exact congrArg Run.returned (Subtype.ext (by simp [set]))

theorem set_zero_val (b : Buffer α n) {values : List α} (h : 0 + values.length ≤ n) :
    (b.set 0 values h).val = values ++ b.val.drop values.length := by
  simp [set]

/-- Two writes, one after the other from the beginning. -/
theorem set_set_val (b : Buffer α n) {first second : List α} (hfirst : 0 + first.length ≤ n)
    {k : Nat} (hk : k = first.length) (hsecond : k + second.length ≤ n) :
    ((b.set 0 first hfirst).set k second hsecond).val =
      first ++ second ++ b.val.drop (k + second.length) := by
  subst hk
  simp [set, List.drop_append, List.drop_drop]

/-- What is written is there already. -/
theorem set_of_eq (b : Buffer α n) {off : Nat} {values : List α} (h : off + values.length ≤ n)
    (hvalues : (b.val.drop off).take values.length = values) : b.set off values h = b := by
  have hrest : b.val.drop off = values ++ b.val.drop (off + values.length) := by
    rw [← List.drop_drop]
    exact (List.take_append_drop values.length _).symm.trans (by rw [hvalues])
  refine Subtype.ext ?_
  show b.val.take off ++ values ++ b.val.drop (off + values.length) = b.val
  rw [List.append_assoc, ← hrest, List.take_append_drop]

end Buffer
