import Mathlib

/-!
# Stream buffers

The protected interface of `std::basic_streambuf` and the public functions on top of it, as in
libstdc++: a class gives `underflow` (fill the get area) and `overflow` (empty the put area), and
`sbumpc`, `sgetn`, `sputc` and `sputn` go through the areas and call them.

* `Getter.Delivers`: the buffer still has the elements `rest` to give. Then any calls of `sbumpc`
  and `sgetn` give as many of them as were asked for, in order (`Getter.Delivers.reads`).
* `Putter.Accepts`: the buffer has taken `written`, and will take what makes it longer up to
  `goal`. Then any calls of `sputc` and `sputn` that write a part of the goal succeed
  (`Putter.Accepts.writes`).

* `Getter.Keeps`, `Putter.Keeps`: a property that `underflow` and `overflow` keep holds after any
  calls.

`none` is an exception that leaves the class.
-/

namespace Streambuf

/-- The reading side of a stream buffer with the states `B`: the get area and `underflow`, after
which an empty get area means the end of the stream. -/
structure Getter (B α : Type) where
  area : B → List α
  setArea : B → List α → B
  underflow : B → Option B

/-- The writing side: the room in the put area, how elements get there, and `overflow`, which
says if the element was taken. -/
structure Putter (B α : Type) where
  room : B → Nat
  put : B → List α → B
  overflow : B → α → Option (B × Bool)

variable {B α : Type}

namespace Getter

variable (g : Getter B α)

/-- `uflow`: `underflow` and one element. -/
def uflow (b : B) : Option (Option α × B) :=
  (g.underflow b).map fun b =>
    match g.area b with
    | [] => (none, b)
    | a :: rest => (some a, g.setArea b rest)

/-- One element, or `eof`. -/
def sbumpc (b : B) : Option (Option α × B) :=
  match g.area b with
  | [] => g.uflow b
  | a :: rest => some (some a, g.setArea b rest)

/-- Up to `n` elements (`xsgetn`). -/
def sgetn (n : Nat) (b : B) : Option (List α × B) :=
  let buffered := (g.area b).take n
  let b := g.setArea b ((g.area b).drop n)
  if _h : buffered.length < n then
    match g.uflow b with
    | none => none
    | some (none, b) => some (buffered, b)
    | some (some a, b) =>
      (sgetn (n - buffered.length - 1) b).map fun r => (buffered ++ a :: r.1, r.2)
  else some (buffered, b)
termination_by n

end Getter

/-- A call that reads. -/
inductive Read where
  | sbumpc
  | sgetn (n : Nat)
  deriving DecidableEq, Repr

/-- How many elements are asked for. -/
def Read.size : Read → Nat
  | .sbumpc => 1
  | .sgetn n => n

def Getter.read (g : Getter B α) : Read → B → Option (List α × B)
  | .sbumpc, b => (g.sbumpc b).map fun r => (r.1.toList, r.2)
  | .sgetn n, b => g.sgetn n b

/-- One call after the other: all that was read. -/
def Getter.reads (g : Getter B α) : List Read → B → Option (List α × B)
  | [], b => some ([], b)
  | call :: calls, b =>
    match g.read call b with
    | none => none
    | some (got, b) => (g.reads calls b).map fun r => (got ++ r.1, r.2)

namespace Putter

variable (p : Putter B α)

def sputc (a : α) (b : B) : Option (B × Bool) :=
  if 0 < p.room b then some (p.put b [a], true) else p.overflow b a

/-- `xsputn`: how many elements were taken. -/
def sputn (as : List α) (b : B) : Option (B × Nat) :=
  let n := min (p.room b) as.length
  let b := p.put b (as.take n)
  match _h : as.drop n with
  | [] => some (b, n)
  | a :: rest =>
    match p.overflow b a with
    | none => none
    | some (b, false) => some (b, n)
    | some (b, true) => (sputn rest b).map fun r => (r.1, n + 1 + r.2)
termination_by as.length
decreasing_by
  have hlen := congrArg List.length _h
  rw [List.length_drop, List.length_cons] at hlen
  omega

end Putter

/-- A call that writes. -/
inductive Write (α : Type) where
  | sputc (a : α)
  | sputn (as : List α)
  deriving DecidableEq, Repr

def Write.data : Write α → List α
  | .sputc a => [a]
  | .sputn as => as

/-- `true`: all was taken. -/
def Putter.write (p : Putter B α) : Write α → B → Option (B × Bool)
  | .sputc a, b => p.sputc a b
  | .sputn as, b => (p.sputn as b).map fun r => (r.1, r.2 = as.length)

/-- One call after the other: `true` if each took all. -/
def Putter.writes (p : Putter B α) : List (Write α) → B → Option (B × Bool)
  | [], b => some (b, true)
  | call :: calls, b =>
    match p.write call b with
    | none => none
    | some (b, taken) => (p.writes calls b).map fun r => (r.1, taken && r.2)

/-! ## Reading -/

/-- The relation `R rest b`, that `b` has the elements `rest` to give, is kept by the parts of
the reading side. -/
structure Getter.Delivers (g : Getter B α) (R : List α → B → Prop) : Prop where
  area_setArea : ∀ b as, g.area (g.setArea b as) = as
  area : ∀ rest b, R rest b → g.area b <+: rest
  advance : ∀ rest b n, R rest b → n ≤ (g.area b).length →
    R (rest.drop n) (g.setArea b ((g.area b).drop n))
  underflow : ∀ rest b, R rest b → g.area b = [] →
    ∃ b', g.underflow b = some b' ∧ R rest b' ∧ (g.area b' = [] → rest = [])

namespace Getter.Delivers

variable {g : Getter B α} {R : List α → B → Prop} {rest : List α} {b : B}

/-- The first element of the get area is the next one to come. -/
theorem area_cons (h : g.Delivers R) (hb : R rest b) {a : α} {as : List α}
    (harea : g.area b = a :: as) : rest = a :: rest.drop 1 ∧ R (rest.drop 1) (g.setArea b as) := by
  obtain ⟨tail, htail⟩ := h.area rest b hb
  have hadvance := h.advance rest b 1 hb (by simp [harea])
  rw [harea] at hadvance htail
  refine ⟨?_, hadvance⟩
  rw [← htail]
  rfl

theorem uflow (h : g.Delivers R) (hb : R rest b) (harea : g.area b = []) :
    ∃ b', g.uflow b = some (rest.head?, b') ∧ R (rest.drop 1) b' := by
  obtain ⟨b₁, hunder, hb₁, hend⟩ := h.underflow rest b hb harea
  cases harea₁ : g.area b₁ with
  | nil =>
    obtain rfl := hend harea₁
    exact ⟨b₁, by simp [Getter.uflow, hunder, harea₁], hb₁⟩
  | cons a as =>
    obtain ⟨hrest, hnext⟩ := h.area_cons hb₁ harea₁
    refine ⟨g.setArea b₁ as, ?_, hnext⟩
    rw [hrest]
    simp [Getter.uflow, hunder, harea₁]

theorem sbumpc (h : g.Delivers R) (hb : R rest b) :
    ∃ b', g.sbumpc b = some (rest.head?, b') ∧ R (rest.drop 1) b' := by
  cases harea : g.area b with
  | nil =>
    rw [Getter.sbumpc, harea]
    exact h.uflow hb harea
  | cons a as =>
    obtain ⟨hrest, hnext⟩ := h.area_cons hb harea
    refine ⟨g.setArea b as, ?_, hnext⟩
    rw [Getter.sbumpc, harea, hrest]
    rfl

theorem sgetn (h : g.Delivers R) (n : Nat) (hb : R rest b) :
    ∃ b', g.sgetn n b = some (rest.take n, b') ∧ R (rest.drop n) b' := by
  induction n using Nat.strongRecOn generalizing rest b with
  | _ n ih =>
    obtain ⟨tail, htail⟩ := h.area rest b hb
    rw [Getter.sgetn]
    by_cases hshort : ((g.area b).take n).length < n
    · -- The get area is used up; what is missing comes from `underflow`.
      have hlen : (g.area b).length < n := by
        rw [List.length_take] at hshort
        omega
      have hdrop : (g.area b).drop n = [] := List.drop_of_length_le (Nat.le_of_lt hlen)
      have htake : (g.area b).take n = g.area b := List.take_of_length_le (Nat.le_of_lt hlen)
      have hb₁ : R tail (g.setArea b []) := by
        have hadvance := h.advance rest b (g.area b).length hb (Nat.le_refl _)
        rwa [List.drop_length, ← htail, List.drop_left] at hadvance
      obtain ⟨b₂, huflow, hb₂⟩ := h.uflow hb₁ (h.area_setArea b [])
      rw [dif_pos hshort, hdrop, huflow, htake]
      cases tail with
      | nil =>
        rw [List.append_nil] at htail
        refine ⟨b₂, ?_, ?_⟩
        · rw [← htail, htake]
          rfl
        · rw [← htail, hdrop]
          exact hb₂
      | cons a tail =>
        obtain ⟨b₃, hget, hb₃⟩ := ih (n - (g.area b).length - 1) (by omega) hb₂
        obtain ⟨m, rfl⟩ : ∃ m, n = (g.area b).length + (m + 1) :=
          ⟨n - (g.area b).length - 1, by omega⟩
        have hm : (g.area b).length + (m + 1) - (g.area b).length - 1 = m := by omega
        rw [hm] at hget hb₃
        refine ⟨b₃, ?_, ?_⟩
        · rw [← htail, List.take_length_add_append, List.take_succ_cons]
          simp only [List.head?_cons, hm]
          rw [hget]
          rfl
        · rw [← htail, List.drop_length_add_append]
          exact hb₃
    · have hle : n ≤ (g.area b).length := by
        rw [List.length_take] at hshort
        omega
      rw [dif_neg hshort]
      refine ⟨_, ?_, h.advance rest b n hb hle⟩
      rw [← htail, List.take_append_of_le_length hle]

theorem read (h : g.Delivers R) (call : Read) (hb : R rest b) :
    ∃ b', g.read call b = some (rest.take call.size, b') ∧ R (rest.drop call.size) b' := by
  cases call with
  | sbumpc =>
    obtain ⟨b', hget, hb'⟩ := h.sbumpc hb
    refine ⟨b', ?_, hb'⟩
    rw [Getter.read, hget]
    cases rest <;> rfl
  | sgetn n => exact h.sgetn n hb

/-- Any calls give the elements that are left, as many as were asked for. -/
theorem reads (h : g.Delivers R) (calls : List Read) (hb : R rest b) :
    ∃ b', g.reads calls b = some (rest.take (calls.map Read.size).sum, b') ∧
      R (rest.drop (calls.map Read.size).sum) b' := by
  induction calls generalizing rest b with
  | nil => exact ⟨b, rfl, hb⟩
  | cons call calls ih =>
    obtain ⟨b₁, hread, hb₁⟩ := h.read call hb
    obtain ⟨b₂, hreads, hb₂⟩ := ih hb₁
    refine ⟨b₂, ?_, ?_⟩
    · rw [Getter.reads, hread]
      simp only [hreads, Option.map_some, List.map_cons, List.sum_cons, List.take_add]
    · rwa [List.drop_drop] at hb₂

end Getter.Delivers

/-! ## Writing -/

/-- The relation `W written b`, that `b` has taken the elements `written`, is kept by the parts of
the writing side as long as what was written is a part of `goal`. -/
structure Putter.Accepts (p : Putter B α) (goal : List α) (W : List α → B → Prop) : Prop where
  room_put : ∀ b as, p.room (p.put b as) = p.room b - as.length
  put : ∀ written b as, W written b → as.length ≤ p.room b → W (written ++ as) (p.put b as)
  overflow : ∀ written b a, W written b → p.room b = 0 → written ++ [a] <+: goal →
    ∃ b', p.overflow b a = some (b', true) ∧ W (written ++ [a]) b'

namespace Putter.Accepts

variable {p : Putter B α} {goal : List α} {W : List α → B → Prop} {written : List α} {b : B}

theorem sputc (h : p.Accepts goal W) (a : α) (hb : W written b) (hgoal : written ++ [a] <+: goal) :
    ∃ b', p.sputc a b = some (b', true) ∧ W (written ++ [a]) b' := by
  by_cases hroom : 0 < p.room b
  · exact ⟨_, if_pos hroom, h.put written b [a] hb hroom⟩
  · rw [Putter.sputc, if_neg hroom]
    exact h.overflow written b a hb (by omega) hgoal

theorem sputn (h : p.Accepts goal W) (as : List α) (hb : W written b)
    (hgoal : written ++ as <+: goal) :
    ∃ b', p.sputn as b = some (b', as.length) ∧ W (written ++ as) b' := by
  induction hn : as.length using Nat.strongRecOn generalizing as written b with
  | _ n ih =>
    subst hn
    have hput := h.put written b (as.take (min (p.room b) as.length)) hb
      (by rw [List.length_take]; omega)
    have hsplit := List.take_append_drop (min (p.room b) as.length) as
    rw [Putter.sputn]
    split
    · next hdrop =>
      have hlen := congrArg List.length hdrop
      rw [List.length_drop, List.length_nil] at hlen
      have hmin : min (p.room b) as.length = as.length := by omega
      rw [hmin, List.take_length] at hput
      exact ⟨p.put b as, by rw [hmin, List.take_length], hput⟩
    · next a rest hdrop =>
      have hlen := congrArg List.length hdrop
      rw [List.length_drop, List.length_cons] at hlen
      -- The put area is full.
      have hfull : p.room (p.put b (as.take (min (p.room b) as.length))) = 0 := by
        rw [h.room_put, List.length_take]
        omega
      rw [hdrop] at hsplit
      have hgoal' : written ++ as.take (min (p.room b) as.length) ++ [a] ++ rest <+: goal := by
        rwa [← hsplit, ← List.singleton_append, ← List.append_assoc, ← List.append_assoc] at hgoal
      obtain ⟨b₁, hover, hb₁⟩ := h.overflow _ _ a hput hfull
        ((List.prefix_append _ rest).trans hgoal')
      obtain ⟨b₂, hrest, hb₂⟩ := ih rest.length (by omega) rest hb₁ hgoal' rfl
      refine ⟨b₂, ?_, ?_⟩
      · rw [hover]
        simp only [hrest, Option.map_some, Option.some.injEq, Prod.mk.injEq, true_and]
        omega
      · rw [← hsplit, ← List.singleton_append, ← List.append_assoc, ← List.append_assoc]
        exact hb₂

theorem write (h : p.Accepts goal W) (call : Write α) (hb : W written b)
    (hgoal : written ++ call.data <+: goal) :
    ∃ b', p.write call b = some (b', true) ∧ W (written ++ call.data) b' := by
  cases call with
  | sputc a => exact h.sputc a hb hgoal
  | sputn as =>
    obtain ⟨b', hput, hb'⟩ := h.sputn as hb hgoal
    refine ⟨b', ?_, hb'⟩
    rw [Putter.write, hput]
    simp

/-- Any calls that write a part of the goal take all of it. -/
theorem writes (h : p.Accepts goal W) (calls : List (Write α)) (hb : W written b)
    (hgoal : written ++ calls.flatMap Write.data <+: goal) :
    ∃ b', p.writes calls b = some (b', true) ∧ W (written ++ calls.flatMap Write.data) b' := by
  induction calls generalizing written b with
  | nil => exact ⟨b, rfl, by rwa [List.flatMap_nil, List.append_nil]⟩
  | cons call calls ih =>
    rw [List.flatMap_cons, ← List.append_assoc] at hgoal ⊢
    obtain ⟨b₁, hwrite, hb₁⟩ := h.write call hb ((List.prefix_append _ _).trans hgoal)
    obtain ⟨b₂, hwrites, hb₂⟩ := ih hb₁ hgoal
    refine ⟨b₂, ?_, hb₂⟩
    rw [Putter.writes, hwrite]
    simp [hwrites]

end Putter.Accepts

/-! ## Properties of the states -/

/-- The property `P` is kept by the parts of the reading side, which do not throw. -/
structure Getter.Keeps (g : Getter B α) (P : B → Prop) : Prop where
  setArea : ∀ b as, P b → P (g.setArea b as)
  underflow : ∀ b, P b → ∃ b', g.underflow b = some b' ∧ P b'

namespace Getter.Keeps

variable {g : Getter B α} {P : B → Prop} {b : B}

theorem uflow (h : g.Keeps P) (hb : P b) : ∃ a b', g.uflow b = some (a, b') ∧ P b' := by
  obtain ⟨b', hunder, hb'⟩ := h.underflow b hb
  cases harea : g.area b' with
  | nil => exact ⟨none, b', by simp [Getter.uflow, hunder, harea], hb'⟩
  | cons a as =>
    exact ⟨some a, g.setArea b' as, by simp [Getter.uflow, hunder, harea], h.setArea b' as hb'⟩

theorem sgetn (h : g.Keeps P) (n : Nat) (hb : P b) :
    ∃ as b', g.sgetn n b = some (as, b') ∧ P b' := by
  induction n using Nat.strongRecOn generalizing b with
  | _ n ih =>
    have hset := h.setArea b ((g.area b).drop n) hb
    rw [Getter.sgetn]
    by_cases hshort : ((g.area b).take n).length < n
    · rw [dif_pos hshort]
      obtain ⟨a, b₁, huflow, hb₁⟩ := h.uflow hset
      rw [huflow]
      cases a with
      | none => exact ⟨_, b₁, rfl, hb₁⟩
      | some a =>
        obtain ⟨as, b₂, hget, hb₂⟩ := ih (n - ((g.area b).take n).length - 1) (by omega) hb₁
        exact ⟨(g.area b).take n ++ a :: as, b₂, by dsimp only; rw [hget]; rfl, hb₂⟩
    · rw [dif_neg hshort]
      exact ⟨_, _, rfl, hset⟩

theorem read (h : g.Keeps P) (call : Read) (hb : P b) :
    ∃ as b', g.read call b = some (as, b') ∧ P b' := by
  cases call with
  | sbumpc =>
    rw [Getter.read, Getter.sbumpc]
    cases harea : g.area b with
    | nil =>
      obtain ⟨a, b', huflow, hb'⟩ := h.uflow hb
      exact ⟨a.toList, b', by simp [huflow], hb'⟩
    | cons a as => exact ⟨[a], g.setArea b as, rfl, h.setArea b as hb⟩
  | sgetn n => exact h.sgetn n hb

theorem reads (h : g.Keeps P) (calls : List Read) (hb : P b) :
    ∃ as b', g.reads calls b = some (as, b') ∧ P b' := by
  induction calls generalizing b with
  | nil => exact ⟨[], b, rfl, hb⟩
  | cons call calls ih =>
    obtain ⟨as, b₁, hread, hb₁⟩ := h.read call hb
    obtain ⟨rest, b₂, hreads, hb₂⟩ := ih hb₁
    exact ⟨as ++ rest, b₂, by rw [Getter.reads, hread]; simp [hreads], hb₂⟩

end Getter.Keeps

/-- The property `P` is kept by the parts of the writing side, which do not throw. `overflow` is
called when the put area is full. -/
structure Putter.Keeps (p : Putter B α) (P : B → Prop) : Prop where
  room_put : ∀ b as, p.room (p.put b as) = p.room b - as.length
  put : ∀ b as, P b → as.length ≤ p.room b → P (p.put b as)
  overflow : ∀ b a, P b → p.room b = 0 → ∃ b' taken, p.overflow b a = some (b', taken) ∧ P b'

namespace Putter.Keeps

variable {p : Putter B α} {P : B → Prop} {b : B}

theorem sputn (h : p.Keeps P) (as : List α) (hb : P b) :
    ∃ b' n, p.sputn as b = some (b', n) ∧ P b' := by
  induction hn : as.length using Nat.strongRecOn generalizing as b with
  | _ n ih =>
    subst hn
    have hput := h.put b (as.take (min (p.room b) as.length)) hb (by rw [List.length_take]; omega)
    rw [Putter.sputn]
    split
    · exact ⟨_, _, rfl, hput⟩
    · next a rest hdrop =>
      have hlen := congrArg List.length hdrop
      rw [List.length_drop, List.length_cons] at hlen
      have hfull : p.room (p.put b (as.take (min (p.room b) as.length))) = 0 := by
        rw [h.room_put, List.length_take]
        omega
      obtain ⟨b₁, taken, hover, hb₁⟩ := h.overflow _ a hput hfull
      rw [hover]
      cases taken with
      | false => exact ⟨b₁, _, rfl, hb₁⟩
      | true =>
        obtain ⟨b₂, m, hrest, hb₂⟩ := ih rest.length (by omega) rest hb₁ rfl
        exact ⟨b₂, _, by dsimp only; rw [hrest]; rfl, hb₂⟩

theorem write (h : p.Keeps P) (call : Write α) (hb : P b) :
    ∃ b' taken, p.write call b = some (b', taken) ∧ P b' := by
  cases call with
  | sputc a =>
    rw [Putter.write, Putter.sputc]
    by_cases hroom : 0 < p.room b
    · exact ⟨_, true, if_pos hroom, h.put b [a] hb hroom⟩
    · rw [if_neg hroom]
      exact h.overflow b a hb (by omega)
  | sputn as =>
    obtain ⟨b', n, hput, hb'⟩ := h.sputn as hb
    exact ⟨b', _, by rw [Putter.write, hput]; rfl, hb'⟩

theorem writes (h : p.Keeps P) (calls : List (Write α)) (hb : P b) :
    ∃ b' taken, p.writes calls b = some (b', taken) ∧ P b' := by
  induction calls generalizing b with
  | nil => exact ⟨b, true, rfl, hb⟩
  | cons call calls ih =>
    obtain ⟨b₁, taken, hwrite, hb₁⟩ := h.write call hb
    obtain ⟨b₂, taken', hwrites, hb₂⟩ := ih hb₁
    exact ⟨b₂, taken && taken', by rw [Putter.writes, hwrite]; simp [hwrites], hb₂⟩

end Putter.Keeps

end Streambuf
