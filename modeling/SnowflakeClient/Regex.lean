import Mathlib.Computability.Language
import Mathlib.Logic.Relation

/-!
# Regular expressions at the beginning of a text

Expressions over sets of characters, their languages, and a matcher: `ends r text` lists what may be
left of a text after a word of the language. A set stands for a character, for a bracket expression
or for the dot.

`mem_ends` says that the matcher is right. Proofs about a pattern take `Begins` apart with the rules
for each constructor; the one for a star is the reflexive and transitive closure.
-/

inductive Regex (α : Type) where
  | set (p : α → Bool)
  | seq (r s : Regex α)
  | alt (r s : Regex α)
  | star (r : Regex α)

namespace Regex

open Relation
open scoped Computability

variable {α : Type} {l m : Language α} {text rest : List α}

/-- One or more. -/
def plus (r : Regex α) : Regex α := r.seq r.star

def lang : Regex α → Language α
  | set p => {w | ∃ c, p c ∧ w = [c]}
  | seq r s => r.lang * s.lang
  | alt r s => r.lang + s.lang
  | star r => r.lang∗

/-! ## Beginnings -/

/-- The text begins with a word of the language, and `rest` follows. -/
def Begins (l : Language α) (text rest : List α) : Prop := ∃ w ∈ l, text = w ++ rest

theorem begins_mul : Begins (l * m) text rest ↔ ∃ mid, Begins l text mid ∧ Begins m mid rest := by
  constructor
  · rintro ⟨w, hw, rfl⟩
    obtain ⟨a, ha, b, hb, rfl⟩ := Language.mem_mul.1 hw
    exact ⟨b ++ rest, ⟨a, ha, List.append_assoc a b rest⟩, b, hb, rfl⟩
  · rintro ⟨_, ⟨a, ha, rfl⟩, b, hb, rfl⟩
    exact ⟨a ++ b, Language.append_mem_mul ha hb, (List.append_assoc a b rest).symm⟩

theorem begins_add : Begins (l + m) text rest ↔ Begins l text rest ∨ Begins m text rest := by
  unfold Begins
  simp only [Language.mem_add, or_and_right, exists_or]

theorem begins_set {p : α → Bool} :
    Begins (set p).lang text rest ↔ ∃ c, p c ∧ text = c :: rest := by
  constructor
  · rintro ⟨w, ⟨c, hc, rfl⟩, htext⟩
    exact ⟨c, hc, htext⟩
  · rintro ⟨c, hc, htext⟩
    exact ⟨[c], ⟨c, hc, rfl⟩, htext⟩

theorem begins_kstar : Begins l∗ text rest ↔ ReflTransGen (Begins l) text rest := by
  constructor
  · rintro ⟨w, hw, rfl⟩
    obtain ⟨words, rfl, hwords⟩ := Language.mem_kstar.1 hw
    clear hw
    induction words with
    | nil => exact .refl
    | cons word words ih =>
      apply ReflTransGen.head
      · exact ⟨word, hwords word List.mem_cons_self, List.append_assoc _ _ _⟩
      · exact ih fun y hy => hwords y (List.mem_cons_of_mem word hy)
  · intro h
    induction h using ReflTransGen.head_induction_on with
    | refl => exact ⟨[], Language.nil_mem_kstar l, rfl⟩
    | head hstep _ ih =>
      obtain ⟨a, ha, rfl⟩ := hstep
      obtain ⟨b, hb, rfl⟩ := ih
      obtain ⟨words, rfl, hwords⟩ := Language.mem_kstar.1 hb
      refine ⟨a ++ words.flatten, Language.mem_kstar.2 ⟨a :: words, rfl, ?_⟩, ?_⟩
      · intro y hy
        rcases List.mem_cons.1 hy with rfl | hy
        · exact ha
        · exact hwords y hy
      · rw [List.append_assoc]

theorem begins_plus {r : Regex α} :
    Begins r.plus.lang text rest ↔
      ∃ mid, Begins r.lang text mid ∧ ReflTransGen (Begins r.lang) mid rest := by
  show Begins (r.lang * r.lang∗) text rest ↔ _
  rw [begins_mul]
  simp only [begins_kstar]

/-- What is left is as long as the text only if it is the text. -/
theorem Begins.length_le (h : Begins l text rest) :
    rest.length < text.length ∨ rest = text := by
  obtain ⟨w, -, rfl⟩ := h
  cases w with
  | nil => exact .inr rfl
  | cons c w =>
    left
    rw [List.length_append, List.length_cons]
    omega

/-! ## The matcher -/

/-- Any number of steps. One that leaves the text as it is changes nothing. -/
def starEnds (step : List α → List (List α)) : (fuel : Nat) → List α → List (List α)
  | 0, text => [text]
  | fuel + 1, text =>
    text :: ((step text).filter (·.length < text.length)).flatMap (starEnds step fuel)

/-- What may be left of a text. -/
def ends : Regex α → List α → List (List α)
  | set _, [] => []
  | set p, c :: text => if p c then [text] else []
  | seq r s, text => (r.ends text).flatMap s.ends
  | alt r s, text => r.ends text ++ s.ends text
  | star r, text => starEnds r.ends text.length text

theorem mem_starEnds {step : List α → List (List α)}
    (hstep : ∀ a b, b ∈ step a ↔ Begins l a b) {fuel : Nat} (hfuel : text.length ≤ fuel) :
    rest ∈ starEnds step fuel text ↔ ReflTransGen (Begins l) text rest := by
  constructor
  · intro h
    clear hfuel
    induction fuel generalizing text with
    | zero =>
      rw [List.mem_singleton.1 h]
    | succ fuel ih =>
      unfold starEnds at h
      rcases List.mem_cons.1 h with rfl | h
      · exact .refl
      · obtain ⟨mid, hmid, hrest⟩ := List.mem_flatMap.1 h
        have hbegins := (hstep text mid).1 (List.mem_filter.1 hmid).1
        exact .head hbegins (ih hrest)
  · intro h
    -- along the steps; the fuel is spent by those that shorten the text
    induction h using ReflTransGen.head_induction_on generalizing fuel with
    | refl => cases fuel <;> exact List.mem_cons_self
    | @head a b hbegins _ ih =>
      rcases hbegins.length_le with hlt | rfl
      · obtain ⟨fuel, rfl⟩ : ∃ n, fuel = n + 1 := ⟨fuel - 1, by omega⟩
        unfold starEnds
        apply List.mem_cons_of_mem
        apply List.mem_flatMap.2
        refine ⟨b, List.mem_filter.2 ⟨(hstep a b).2 hbegins, ?_⟩, ih (by omega)⟩
        exact decide_eq_true hlt
      · exact ih hfuel

/-- The matcher finds what is left after the words of the language, and nothing else. -/
theorem mem_ends (r : Regex α) (text rest : List α) :
    rest ∈ r.ends text ↔ Begins r.lang text rest := by
  induction r generalizing text rest with
  | set p =>
    rw [begins_set]
    cases text with
    | nil => simp [ends]
    | cons c text =>
      unfold ends
      split_ifs with hc
      · rw [List.mem_singleton]
        constructor
        · rintro rfl
          exact ⟨c, hc, rfl⟩
        · rintro ⟨_, -, heq⟩
          exact (List.cons.inj heq).2.symm
      · constructor
        · exact fun h => absurd h List.not_mem_nil
        · rintro ⟨_, hd, heq⟩
          obtain ⟨rfl, -⟩ := List.cons.inj heq
          exact absurd hd hc
  | seq r s ihr ihs =>
    show rest ∈ (r.ends text).flatMap s.ends ↔ Begins (r.lang * s.lang) text rest
    rw [begins_mul, List.mem_flatMap]
    simp only [ihr, ihs]
  | alt r s ihr ihs =>
    show rest ∈ r.ends text ++ s.ends text ↔ Begins (r.lang + s.lang) text rest
    rw [begins_add, List.mem_append, ihr, ihs]
  | star r ih =>
    show rest ∈ starEnds r.ends text.length text ↔ Begins r.lang∗ text rest
    rw [begins_kstar, mem_starEnds ih le_rfl]

/-- The text begins with a match. -/
def matchesStart (r : Regex α) (text : List α) : Bool := !(r.ends text).isEmpty

theorem matchesStart_iff (r : Regex α) (text : List α) :
    r.matchesStart text ↔ ∃ rest, Begins r.lang text rest := by
  unfold matchesStart
  rw [Bool.not_eq_true', List.isEmpty_eq_false_iff_exists_mem]
  simp only [mem_ends]

end Regex
