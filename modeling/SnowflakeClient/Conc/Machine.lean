import Mathlib.Data.List.Basic

/-!
# Machines and their runs

A concurrent program is a **machine**: a type of states and a step function. An event fixes
every choice that a step leaves open (which thread moves, which sleeper a signal wakes, whether
a request fails), so a step is a function and a run on given events can be computed
(`Machine.exec`). A proof over all schedules is about `Machine.Run`: any events, in any order.

* `Run M C s₀ outs s`: some run of `M` from `s₀` reaches `s` and lets an observer see `outs`, and
  the condition `C` holds of the state and the event at each of its steps. `Any` is no condition.
* `Run.inv`: what holds at the start and is kept by every step holds of every run.
* `Inevitable M C G s`: whatever steps with `C` are made from `s`, after finitely many of them the
  goal `G` is met. `inevitable_of_measure`: it is, if each step makes a measure smaller and a step
  is possible as long as the goal is not met.
* `exec_run`: a computed run is a run.
* `attach M act`: `M` together with a store that its steps write to.
-/

namespace Conc

/-- A machine (module doc). `step s e` is `none` if `e` cannot happen in `s`; else it gives the
next state and what an observer of the step sees. -/
structure Machine (St Ev Out : Type) where
  step : St → Ev → Option (St × List Out)

namespace Machine

variable {St Ev Out : Type}

/-- No condition on the steps of a run. -/
def Any : St → Ev → Prop := fun _ _ => True

variable (M : Machine St Ev Out)

/-- The runs from `s₀` whose steps all meet `C`, by the outputs and the state at their end. -/
inductive Run (C : St → Ev → Prop) (s₀ : St) : List Out → St → Prop
  | nil : Run C s₀ [] s₀
  | snoc {outs o : List Out} {s s' : St} {e : Ev} :
      Run C s₀ outs s → C s e → M.step s e = some (s', o) → Run C s₀ (outs ++ o) s'

/-- Every schedule of steps with `C` meets the goal `G` (module doc). -/
inductive Inevitable (C : St → Ev → Prop) (G : St → Prop) : St → Prop
  | now {s : St} : G s → Inevitable C G s
  | later {s : St} : (∃ e s' o, C s e ∧ M.step s e = some (s', o)) →
      (∀ e s' o, C s e → M.step s e = some (s', o) → Inevitable C G s') → Inevitable C G s

/-- Run the events `es` from `s`, as long as the test `c` holds at each step. -/
def exec (c : St → Ev → Bool) : St → List Ev → Option (St × List Out)
  | s, [] => some (s, [])
  | s, e :: es =>
    if c s e then
      match M.step s e with
      | none => none
      | some (s', o) => (exec c s' es).map fun r => (r.1, o ++ r.2)
    else none

variable {M} {C D : St → Ev → Prop} {s₀ s s' : St} {outs outs' : List Out}

namespace Run

/-- What holds at the start and is kept by every step that meets the condition holds of every
run. -/
theorem inv {I : List Out → St → Prop} (h0 : I [] s₀)
    (hstep : ∀ outs s e s' o, I outs s → C s e → M.step s e = some (s', o) → I (outs ++ o) s')
    (h : M.Run C s₀ outs s) : I outs s := by
  induction h with
  | nil => exact h0
  | snoc _ hc hs ih => exact hstep _ _ _ _ _ ih hc hs

/-- `inv` for a property of the states alone. -/
theorem state_inv {I : St → Prop} (h0 : I s₀)
    (hstep : ∀ s e s' o, I s → C s e → M.step s e = some (s', o) → I s')
    (h : M.Run C s₀ outs s) : I s :=
  h.inv (I := fun _ s => I s) h0 fun _ s e s' o hi hc hs => hstep s e s' o hi hc hs

theorem mono (hC : ∀ s e, C s e → D s e) (h : M.Run C s₀ outs s) : M.Run D s₀ outs s := by
  induction h with
  | nil => exact .nil
  | snoc _ hc hs ih => exact .snoc ih (hC _ _ hc) hs

theorem trans (h : M.Run C s₀ outs s) (h' : M.Run C s outs' s') :
    M.Run C s₀ (outs ++ outs') s' := by
  induction h' with
  | nil => rwa [List.append_nil]
  | snoc _ hc hs ih => rw [← List.append_assoc]; exact .snoc ih hc hs

theorem single {e : Ev} {o : List Out} (hc : C s e) (hs : M.step s e = some (s', o)) :
    M.Run C s o s' := by
  simpa using Run.snoc .nil hc hs

end Run

/-- Each step with `C` keeps the invariant `I` and makes `m` smaller; as long as the goal is not
met, there is such a step. -/
theorem inevitable_of_measure {I G : St → Prop} (m : St → Nat)
    (hstep : ∀ s e s' o, I s → ¬ G s → C s e → M.step s e = some (s', o) → I s' ∧ m s' < m s)
    (hgo : ∀ s, I s → ¬ G s → ∃ e s' o, C s e ∧ M.step s e = some (s', o)) :
    ∀ s, I s → M.Inevitable C G s := by
  intro s
  induction hn : m s using Nat.strongRecOn generalizing s with
  | _ n ih =>
    intro hi
    by_cases hg : G s
    · exact .now hg
    · refine .later (hgo s hi hg) fun e s' o hc hs => ?_
      obtain ⟨hi', hlt⟩ := hstep s e s' o hi hg hc hs
      exact ih (m s') (hn ▸ hlt) s' rfl hi'

/-- What is inevitable can be reached. -/
theorem Inevitable.reaches {G : St → Prop} (h : M.Inevitable C G s) :
    ∃ outs s', M.Run C s outs s' ∧ G s' := by
  induction h with
  | now hg => exact ⟨[], _, .nil, hg⟩
  | later hgo _ ih =>
    obtain ⟨e, s₁, o, hc, hs⟩ := hgo
    obtain ⟨outs, s₂, hr, hg⟩ := ih e s₁ o hc hs
    exact ⟨o ++ outs, s₂, (Run.single hc hs).trans hr, hg⟩

/-- A computed run is a run whose steps all pass the test. -/
theorem exec_run {c : St → Ev → Bool} (es : List Ev) (h : M.exec c s es = some (s', outs)) :
    M.Run (fun s e => c s e = true) s outs s' := by
  induction es generalizing s s' outs with
  | nil =>
    simp only [exec, Option.some.injEq, Prod.mk.injEq] at h
    obtain ⟨rfl, rfl⟩ := h
    exact .nil
  | cons e es ih =>
    rw [exec] at h
    split at h
    · rename_i hc
      split at h
      · cases h
      · rename_i s₁ o hs
        simp only [Option.map_eq_some_iff, Prod.mk.injEq] at h
        obtain ⟨⟨s₂, outs₂⟩, hr, rfl, rfl⟩ := h
        exact (Run.single (C := fun s e => c s e = true) hc hs).trans (ih hr)
    · cases h

/-- A property of the end of a computed run, by evaluation. -/
theorem exec_exists {c : St → Ev → Bool} {p : St × List Out → Bool} (es : List Ev)
    (h : (M.exec c s es).any p = true) :
    ∃ outs s', M.Run (fun s e => c s e = true) s outs s' ∧ p (s', outs) = true := by
  cases hr : M.exec c s es with
  | none => rw [hr] at h; cases h
  | some r =>
    rw [hr] at h
    exact ⟨r.2, r.1, exec_run es hr, h⟩

/-! ## A store beside a machine -/

section Attach

variable {A : Type} {act : St → Ev → A → Option A} {a a' : A} {e : Ev} {o : List Out}

/-- `M`, with a store that its steps write to but do not read: `act s e` is what the step `e` from
`s` writes, `none` if it cannot. -/
def attach (M : Machine St Ev Out) (act : St → Ev → A → Option A) : Machine (St × A) Ev Out where
  step s e := (M.step s.1 e).bind fun r => (act s.1 e s.2).map fun a => ((r.1, a), r.2)

theorem attach_step_iff :
    (M.attach act).step (s, a) e = some ((s', a'), o) ↔
      M.step s e = some (s', o) ∧ act s e a = some a' := by
  simp only [attach, Option.bind_eq_some_iff, Option.map_eq_some_iff, Prod.mk.injEq]
  constructor
  · rintro ⟨⟨s₁, o₁⟩, hstep, a₁, hact, ⟨rfl, rfl⟩, rfl⟩
    exact ⟨hstep, hact⟩
  · rintro ⟨hstep, hact⟩
    exact ⟨(s', o), hstep, a', hact, ⟨rfl, rfl⟩, rfl⟩

/-- What is inevitable stays so if the writes are always possible. -/
theorem Inevitable.attach {G : St → Prop} {I : St → A → Prop}
    (hact : ∀ s e s' o a, I s a → C s e → M.step s e = some (s', o) →
      ∃ a', act s e a = some a' ∧ I s' a')
    (h : M.Inevitable C G s) (hi : I s a) :
    (M.attach act).Inevitable (fun s e => C s.1 e) (fun s => G s.1) (s, a) := by
  induction h generalizing a with
  | now hg => exact .now hg
  | @later s hgo _ ih =>
    refine .later ?_ ?_
    · obtain ⟨e, s', o, hc, hs⟩ := hgo
      obtain ⟨a', ha, -⟩ := hact s e s' o a hi hc hs
      exact ⟨e, (s', a'), o, hc, attach_step_iff.mpr ⟨hs, ha⟩⟩
    · rintro e ⟨s', a'⟩ o hc hstep
      obtain ⟨hs, ha⟩ := attach_step_iff.mp hstep
      obtain ⟨a₁, ha₁, hi'⟩ := hact s e s' o a hi hc hs
      obtain rfl := Option.some.inj (ha.symm.trans ha₁)
      exact ih e s' o hc hs hi'

end Attach

end Machine

end Conc
