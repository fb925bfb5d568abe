import Mathlib.Logic.Function.Basic

/-!
# A mutex and the threads that use it

`Mutex α` is a lock with the places of the threads `α` around it (`LockPlace`). The places are
where the code says the thread is; the owner is who locked last. Nothing forces the two to agree:
code with a missing or an extra unlock makes them differ. `Exact` says that they agree, and the
lemmas of this file say which operations keep it.
-/

namespace Conc

/-- Where a thread is in the code around a lock. -/
inductive LockPlace where
  | out
  /-- On its way to the lock. -/
  | wants
  /-- After the lock. -/
  | inside
  /-- At the unlock. -/
  | leaving
  deriving DecidableEq

/-- The code between the lock and the unlock. -/
def LockPlace.locked : LockPlace → Bool
  | .inside | .leaving => true
  | _ => false

/-- A lock (module doc). -/
structure Mutex (α : Type) where
  owner : Option α
  place : α → LockPlace

namespace Mutex

variable {α : Type} [DecidableEq α]

/-- Nobody holds the lock, and nobody is near it. -/
def free : Mutex α := ⟨none, fun _ => .out⟩

def goto (m : Mutex α) (u : α) (p : LockPlace) : Mutex α :=
  { m with place := Function.update m.place u p }

/-- `u` locks: it waits until there is no owner. -/
def lock (m : Mutex α) (u : α) : Option (Mutex α) :=
  if m.owner = none then some ⟨some u, Function.update m.place u .inside⟩ else none

/-- `u` drops the lock, at an unlock or in a wait on a condition variable. A lock without a check
is free then, whoever the owner was. -/
def drop (m : Mutex α) (u : α) : Mutex α := ⟨none, Function.update m.place u .out⟩

def holds (m : Mutex α) (u : α) : Bool := decide (m.owner = some u)

/-- The owner is the thread between the lock and the unlock. -/
def Exact (m : Mutex α) : Prop := ∀ u, m.owner = some u ↔ (m.place u).locked = true

namespace Exact

variable {m m' : Mutex α} {u : α}

omit [DecidableEq α] in
theorem free : (Mutex.free : Mutex α).Exact := by
  intro u
  simp [Mutex.free, LockPlace.locked]

theorem goto (h : m.Exact) {p : LockPlace} (hp : p.locked = (m.place u).locked) :
    (m.goto u p).Exact := by
  intro v
  by_cases hv : v = u
  · subst hv
    simpa [Mutex.goto, hp] using h v
  · simpa [Mutex.goto, hv] using h v

theorem lock (h : m.Exact) (hl : m.lock u = some m') : m'.Exact := by
  unfold Mutex.lock at hl
  split at hl
  · rename_i hfree
    cases hl
    intro v
    by_cases hv : v = u
    · subst hv; simp [LockPlace.locked]
    · have hv' : u ≠ v := fun e => hv e.symm
      have hout : m.owner ≠ some v := by rw [hfree]; exact nofun
      simpa [hv, hv'] using (h v).not.mp hout
  · cases hl

/-- The owner drops the lock. -/
theorem drop (h : m.Exact) (hu : (m.place u).locked = true) : (m.drop u).Exact := by
  have howner := (h u).mpr hu
  intro v
  by_cases hv : v = u
  · subst hv; simp [Mutex.drop, LockPlace.locked]
  · have hout : m.owner ≠ some v := by
      rw [howner]
      exact fun e => hv (Option.some.inj e).symm
    simpa [Mutex.drop, hv] using (h v).not.mp hout

theorem holds_eq (h : m.Exact) (u : α) : m.holds u = (m.place u).locked := by
  have hu := h u
  unfold Mutex.holds
  cases hp : (m.place u).locked <;> simp_all

end Exact

end Mutex

end Conc
