import Mathlib.Logic.Function.Basic

/-!
# Condition variables over a family of threads

The `n` threads of a program are a map `f : Fin n → P` from thread to place in the code. A
condition variable is seen through the places (`CondVar`): those where a thread sleeps on it
un-notified, and where a notified thread goes on. `signal f w` notifies the sleeper `w`, or does
nothing (`w = none`) if no thread sleeps; which sleeper it is, is not the program's choice, so it
is an argument. `broadcast` notifies every sleeper. A wake-up that nobody asked for, which POSIX
allows, is `signal f (some t)` too.
-/

namespace Conc

/-- A condition variable (module doc). -/
structure CondVar (P : Type) where
  /-- The thread sleeps on it and is not notified. -/
  asleep : P → Bool
  /-- Where a notified sleeper goes on. -/
  wake : P → P
  wake_awake : ∀ p, asleep (wake p) = false

namespace CondVar

variable {P : Type} {n : Nat} (cv : CondVar P)

/-- Notify the sleeper `w`; with `w = none`, no thread may sleep. -/
def signal (f : Fin n → P) : Option (Fin n) → Option (Fin n → P)
  | some t => if cv.asleep (f t) then some (Function.update f t (cv.wake (f t))) else none
  | none => if ∀ t, cv.asleep (f t) = false then some f else none

/-- One thread after a broadcast. -/
def notify (p : P) : P := if cv.asleep p then cv.wake p else p

/-- Notify every sleeper. -/
def broadcast (f : Fin n → P) : Fin n → P := fun t => cv.notify (f t)

variable {cv} {f f' : Fin n → P} {w : Option (Fin n)}

@[simp] theorem notify_awake (p : P) : cv.asleep (cv.notify p) = false := by
  unfold notify
  split
  · exact cv.wake_awake p
  · simpa using ‹¬ cv.asleep p = true›

/-- What a signal does: it wakes one sleeper, or there is none. -/
theorem signal_cases (h : cv.signal f w = some f') :
    (∃ t, w = some t ∧ cv.asleep (f t) = true ∧ f' = Function.update f t (cv.wake (f t))) ∨
      (w = none ∧ (∀ t, cv.asleep (f t) = false) ∧ f' = f) := by
  cases w with
  | none =>
    simp only [signal] at h
    split at h
    · exact .inr ⟨rfl, ‹_›, (Option.some.inj h).symm⟩
    · cases h
  | some t =>
    simp only [signal] at h
    split at h
    · exact .inl ⟨t, rfl, ‹_›, (Option.some.inj h).symm⟩
    · cases h

/-- One thread after a signal: it is where it was, or it was a sleeper and is awake. -/
theorem signal_thread (h : cv.signal f w = some f') (t : Fin n) :
    f' t = f t ∨ (cv.asleep (f t) = true ∧ f' t = cv.wake (f t)) := by
  obtain ⟨u, -, hu, rfl⟩ | ⟨-, -, rfl⟩ := signal_cases h
  · by_cases htu : t = u
    · subst htu; exact .inr ⟨hu, Function.update_self ..⟩
    · exact .inl (Function.update_of_ne htu ..)
  · exact .inl rfl

variable (cv) in
/-- A signal can always be sent. -/
theorem exists_signal (f : Fin n → P) : ∃ w f', cv.signal f w = some f' := by
  by_cases h : ∀ t, cv.asleep (f t) = false
  · exact ⟨none, f, by simp [signal, h]⟩
  · obtain ⟨t, ht⟩ := not_forall.mp h
    exact ⟨some t, Function.update f t (cv.wake (f t)), by simpa [signal] using ht⟩

/-- After a signal some thread is awake, if there is a thread at all. -/
theorem signal_exists_awake (h : cv.signal f w = some f') (t : Fin n) :
    ∃ u, cv.asleep (f' u) = false := by
  obtain ⟨u, -, -, rfl⟩ | ⟨-, hall, rfl⟩ := signal_cases h
  · exact ⟨u, by rw [Function.update_self]; exact cv.wake_awake _⟩
  · exact ⟨t, hall t⟩

end CondVar

end Conc
