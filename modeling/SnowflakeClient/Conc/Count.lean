import Mathlib.Algebra.BigOperators.Group.Finset.Piecewise
import Mathlib.Algebra.Order.BigOperators.Group.Finset
import Mathlib.Data.Fintype.BigOperators

/-!
# Sums over the threads

`total w f` adds up the weights of the places of all threads: with weights 0 and 1 it counts the
threads at some place, with others it measures how far the threads still have to go.
`total_update` is how it changes when one thread moves.
-/

namespace Conc

variable {P : Type} {n : Nat}

/-- The sum of `w (f t)` over all threads. -/
def total (w : P → Nat) (f : Fin n → P) : Nat := ∑ t, w (f t)

theorem total_update (w : P → Nat) (f : Fin n → P) (t : Fin n) (p : P) :
    total w (Function.update f t p) + w (f t) = total w f + w p := by
  have hnew : total w (Function.update f t p) = w p + ∑ u ∈ Finset.univ \ {t}, w (f u) := by
    simp only [total, Function.apply_update fun _ => w]
    exact Finset.sum_update_of_mem (Finset.mem_univ t) (fun u => w (f u)) (w p)
  have hold : total w f = w (f t) + ∑ u ∈ Finset.univ \ {t}, w (f u) :=
    Finset.sum_eq_add_sum_sdiff_singleton_of_mem (Finset.mem_univ t) fun u => w (f u)
  omega

/-- Each thread gains at most 1. -/
theorem total_le_add {w : P → Nat} {f g : Fin n → P} (h : ∀ t, w (g t) ≤ w (f t) + 1) :
    total w g ≤ total w f + n := by
  calc total w g ≤ ∑ t, (w (f t) + 1) := Finset.sum_le_sum fun t _ => h t
    _ = total w f + n := by simp [total, Finset.sum_add_distrib]

end Conc
