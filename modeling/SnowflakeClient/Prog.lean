import Mathlib.Logic.Basic

/-!
# Programs that may not return

`Prog σ α`: sequential code over the state `σ`. `none` is a run that does not return (it waits
for ever, runs out of fuel, or the process dies); the state is the one at that point, so that what
the run did until then can be looked at.

`Triple c s Q E`: started at `s`, the code `c` returns a value and a state with `Q`, or stops in a
state with `E`. There is one rule for each way to build a program; `Triple.bind` is the one that
chains them.
-/

/-- Code over the state `σ` that returns an `α`, or stops. -/
def Prog (σ α : Type) : Type := σ → Option α × σ

namespace Prog

variable {σ α β : Type}

instance : Monad (Prog σ) where
  pure a := fun s => (some a, s)
  bind c f := fun s =>
    match c s with
    | (some a, s') => f a s'
    | (none, s') => (none, s')

/-- The code never gets past this point. -/
def stop : Prog σ α := fun s => (none, s)

/-- A part of the state. -/
def gets (f : σ → α) : Prog σ α := fun s => (some (f s), s)

/-- Changes the state. -/
def update (f : σ → σ) : Prog σ Unit := fun s => (some (), f s)

/-- From `s`, `c` returns with `Q` or stops with `E`. -/
def Triple (c : Prog σ α) (s : σ) (Q : α → σ → Prop) (E : σ → Prop) : Prop :=
  match c s with
  | (some a, s') => Q a s'
  | (none, s') => E s'

namespace Triple

variable {c : Prog σ α} {s s' : σ} {a : α} {Q Q' : α → σ → Prop} {E E' : σ → Prop}

theorem of_returns (hr : c s = (some a, s')) (hq : Q a s') : Triple c s Q E := by
  unfold Triple
  rw [hr]
  exact hq

theorem of_stops (hr : c s = (none, s')) (he : E s') : Triple c s Q E := by
  unfold Triple
  rw [hr]
  exact he

theorem returned (h : Triple c s Q E) (hr : c s = (some a, s')) : Q a s' := by
  unfold Triple at h
  rw [hr] at h
  exact h

theorem stopped (h : Triple c s Q E) (hr : c s = (none, s')) : E s' := by
  unfold Triple at h
  rw [hr] at h
  exact h

/-- Where the code ends, if the two postconditions say the same of the state. -/
theorem ended {P : σ → Prop} (h : Triple c s (fun _ => P) P) : P (c s).2 := by
  match hr : c s with
  | (some _, _) => exact h.returned hr
  | (none, _) => exact h.stopped hr

theorem mono (h : Triple c s Q E) (hq : ∀ a s', Q a s' → Q' a s') (he : ∀ s', E s' → E' s') :
    Triple c s Q' E' := by
  match hr : c s with
  | (some a, s') => exact of_returns hr (hq a s' (h.returned hr))
  | (none, s') => exact of_stops hr (he s' (h.stopped hr))

theorem trivial : Triple c s (fun _ _ => True) (fun _ => True) := by
  match hr : c s with
  | (some _, _) => exact of_returns hr .intro
  | (none, _) => exact of_stops hr .intro

/-- The run itself. -/
theorem self : Triple c s (fun a s' => c s = (some a, s')) (fun s' => c s = (none, s')) := by
  match hr : c s with
  | (some _, _) => exact of_returns hr rfl
  | (none, _) => exact of_stops hr rfl

/-- A postcondition that each way to return makes equivalent to `P`, and that is about returning
only, is equivalent to `P`. -/
theorem iff_of {P : Prop} (h : Triple c s (fun a s' => Q a s' ↔ P) (fun _ => P)) :
    Triple c s Q (fun _ => True) ↔ P := by
  match hr : c s with
  | (some a, s') =>
    have hiff := h.returned hr
    exact ⟨fun hq => hiff.mp (hq.returned hr), fun hp => of_returns hr (hiff.mpr hp)⟩
  | (none, s') => exact ⟨fun _ => h.stopped hr, fun _ => of_stops hr .intro⟩

theorem pure (h : Q a s) : Triple (Pure.pure a : Prog σ α) s Q E := h

theorem stop (h : E s) : Triple (Prog.stop : Prog σ α) s Q E := h

theorem gets {f : σ → α} (h : Q (f s) s) : Triple (Prog.gets f) s Q E := h

theorem update {f : σ → σ} {Q : Unit → σ → Prop} (h : Q () (f s)) :
    Triple (Prog.update f) s Q E := h

theorem bind {f : α → Prog σ β} {R : β → σ → Prop} (hc : Triple c s Q E)
    (hf : ∀ a s', Q a s' → Triple (f a) s' R E) : Triple (c >>= f) s R E := by
  match hr : c s with
  | (some a, s') =>
    have hrun : (c >>= f) s = f a s' := by
      simp only [Bind.bind, hr]
    have hnext := hf a s' (hc.returned hr)
    unfold Triple at hnext ⊢
    rwa [hrun]
  | (none, s') =>
    refine of_stops ?_ (hc.stopped hr)
    simp only [Bind.bind, hr]

theorem gets_bind {f : σ → α} {g : α → Prog σ β} {R : β → σ → Prop}
    (h : Triple (g (f s)) s R E) : Triple (Prog.gets f >>= g) s R E := h

theorem update_bind {f : σ → σ} {g : Unit → Prog σ β} {R : β → σ → Prop}
    (h : Triple (g ()) (f s) R E) : Triple (Prog.update f >>= g) s R E := h

end Triple

end Prog
