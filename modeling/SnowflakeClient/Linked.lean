import Mathlib

/-!
# Linked lists in memory

A node has the address of the next one and some data; the null pointer is 0. `get a` is the node at
the address `a`, if there is one.

* `Seg get a l b`: the nodes from `a` on, up to the address `b`, have the addresses and data of `l`.
  A list that ends is `Seg get a l 0`; its addresses are distinct (`Seg.nodup`) and it is the only
  one from `a` on (`Seg.unique`).
* `seek` goes along the links to the first node with a property. On a list that ends it finds that
  node and the one before it (`Seg.seek_eq`).
* `Seg.frame` and `Seg.splice`: other nodes change, or some nodes in a row are replaced. From them
  `Seg.setData`, `Seg.unlink_head` and `Seg.unlink`: one node gets new data, one node is taken out.
-/

namespace Linked

/-- A node. -/
structure Node (δ : Type) where
  link : Nat
  data : δ
  deriving DecidableEq, Repr

variable {δ : Type} {get get' : Nat → Option (Node δ)} {a b : Nat} {l : List (Nat × δ)}

/-- The nodes from `a` on, up to `b`. -/
def Seg (get : Nat → Option (Node δ)) : Nat → List (Nat × δ) → Nat → Prop
  | a, [], b => a = b
  | a, (x, d) :: l, b => a = x ∧ x ≠ 0 ∧ ∃ next, get x = some ⟨next, d⟩ ∧ Seg get next l b

/-- The loop that goes along the links, with the address before: where it stops, 0 at the end of the
list. `none` if there is no node where it reads one, or no end within `fuel` nodes. -/
def seek (get : Nat → Option (Node δ)) (stop : δ → Bool) :
    (fuel prev a : Nat) → Option (Nat × Nat)
  | 0, _, _ => none
  | fuel + 1, prev, a =>
    if a = 0 then some (prev, 0)
    else do
      let n ← get a
      if stop n.data then some (prev, a) else seek get stop fuel a n.link

namespace Seg

theorem append {l₁ l₂ : List (Nat × δ)} :
    Seg get a (l₁ ++ l₂) b ↔ ∃ c, Seg get a l₁ c ∧ Seg get c l₂ b := by
  induction l₁ generalizing a with
  | nil => simp [Seg]
  | cons p l₁ ih =>
    obtain ⟨x, d⟩ := p
    simp only [List.cons_append, Seg]
    constructor
    · rintro ⟨ha, hx, next, hget, h⟩
      obtain ⟨c, h₁, h₂⟩ := ih.mp h
      exact ⟨c, ⟨ha, hx, next, hget, h₁⟩, h₂⟩
    · rintro ⟨c, ⟨ha, hx, next, hget, h₁⟩, h₂⟩
      exact ⟨ha, hx, next, hget, ih.mpr ⟨c, h₁, h₂⟩⟩

/-- Nodes elsewhere do not matter. -/
theorem frame (h : Seg get a l b) (hframe : ∀ p ∈ l, get' p.1 = get p.1) : Seg get' a l b := by
  induction l generalizing a with
  | nil => exact h
  | cons p l ih =>
    obtain ⟨x, d⟩ := p
    obtain ⟨ha, hx, next, hget, h⟩ := h
    have hhead : get' x = get x := hframe (x, d) List.mem_cons_self
    exact ⟨ha, hx, next, hhead.trans hget,
      ih h fun p hp => hframe p (List.mem_cons_of_mem _ hp)⟩

theorem get_of_mem (h : Seg get a l b) {x : Nat} {d : δ} (hmem : (x, d) ∈ l) :
    x ≠ 0 ∧ ∃ next, get x = some ⟨next, d⟩ := by
  induction l generalizing a with
  | nil => cases hmem
  | cons p l ih =>
    obtain ⟨ha, hx, next, hget, h⟩ := h
    rcases List.mem_cons.mp hmem with rfl | hmem
    · exact ⟨hx, next, hget⟩
    · exact ih h hmem

/-- From an address there is one list that ends. -/
theorem unique {l' : List (Nat × δ)} (h : Seg get a l 0) (h' : Seg get a l' 0) : l = l' := by
  induction l generalizing a l' with
  | nil =>
    obtain rfl : a = 0 := h
    cases l' with
    | nil => rfl
    | cons p l' =>
      obtain ⟨ha, hx, -⟩ := h'
      exact absurd ha.symm hx
  | cons p l ih =>
    obtain ⟨x, d⟩ := p
    obtain ⟨rfl, hx, next, hget, h⟩ := h
    cases l' with
    | nil => exact absurd h' hx
    | cons p' l' =>
      obtain ⟨x', d'⟩ := p'
      obtain ⟨rfl, -, next', hget', h'⟩ := h'
      obtain ⟨rfl, rfl⟩ : next = next' ∧ d = d' := by simpa [hget] using hget'
      rw [ih h h']

/-- An address that came again would make the list go on for ever. -/
theorem nodup (h : Seg get a l 0) : (l.map Prod.fst).Nodup := by
  induction l generalizing a with
  | nil => exact List.nodup_nil
  | cons p l ih =>
    obtain ⟨x, d⟩ := p
    have hall := h
    obtain ⟨rfl, hx, next, hget, h⟩ := h
    rw [List.map_cons, List.nodup_cons]
    refine ⟨fun hagain => ?_, ih h⟩
    obtain ⟨⟨x, d'⟩, hmem, rfl⟩ := List.mem_map.mp hagain
    obtain ⟨front, back, rfl⟩ := List.append_of_mem hmem
    obtain ⟨c, -, hback⟩ := append.mp h
    obtain rfl : c = x := hback.1
    have hlen := congrArg List.length (unique hback hall)
    simp only [List.length_cons, List.length_append] at hlen
    omega

/-- The loop on a list that ends: what is before the first node with the property, and the node. -/
theorem seek_eq {fuel : Nat} (h : Seg get a l 0) (stop : δ → Bool) (hfuel : l.length < fuel)
    (prev : Nat) :
    (∃ last, (∀ p ∈ l, stop p.2 = false) ∧ seek get stop fuel prev a = some (last, 0)) ∨
      ∃ front x d back, l = front ++ (x, d) :: back ∧ stop d = true ∧
        seek get stop fuel prev a = some ((front.getLast?.map Prod.fst).getD prev, x) := by
  induction l generalizing a fuel prev with
  | nil =>
    obtain ⟨fuel, rfl⟩ := Nat.exists_eq_add_of_lt hfuel
    obtain rfl : a = 0 := h
    exact .inl ⟨prev, by simp, by simp [seek]⟩
  | cons p l ih =>
    obtain ⟨x, d⟩ := p
    obtain ⟨fuel, rfl⟩ : ∃ n, fuel = n + 1 := ⟨fuel - 1, by omega⟩
    obtain ⟨rfl, hx, next, hget, h⟩ := h
    have hstep : seek get stop (fuel + 1) prev a =
        if stop d then some (prev, a) else seek get stop fuel a next := by
      simp [seek, hx, hget]
    by_cases hstop : stop d = true
    · rw [hstep, if_pos hstop]
      exact .inr ⟨[], a, d, l, rfl, hstop, rfl⟩
    · rw [hstep, if_neg hstop]
      rw [List.length_cons] at hfuel
      rcases ih h (Nat.lt_of_succ_lt_succ hfuel) a with
        ⟨last, hno, hseek⟩ | ⟨front, y, e, back, rfl, he, hseek⟩
      · refine .inl ⟨last, ?_, hseek⟩
        rintro p hp
        rcases List.mem_cons.mp hp with rfl | hp
        · simpa using hstop
        · exact hno p hp
      · refine .inr ⟨(a, d) :: front, y, e, back, rfl, he, ?_⟩
        rw [hseek]
        cases front with
        | nil => rfl
        | cons q front => simp [List.getLast?_cons]

theorem tail {x next : Nat} {d : δ} (h : Seg get a ((x, d) :: l) b)
    (hx : get x = some ⟨next, d⟩) : Seg get next l b := by
  obtain ⟨-, -, next', hget, htail⟩ := h
  rw [hx] at hget
  cases hget
  exact htail

/-- Some nodes in a row are replaced by others that begin and end where they did. -/
theorem splice {front back : List (Nat × δ)} (mid new : List (Nat × δ))
    (h : Seg get a (front ++ (mid ++ back)) 0)
    (hframe : ∀ z, z ∉ mid.map Prod.fst → get' z = get z)
    (hnew : ∀ c b, Seg get c mid b → Seg get' c new b) :
    Seg get' a (front ++ (new ++ back)) 0 := by
  have hnodup := h.nodup
  rw [List.map_append, List.map_append, List.nodup_append', List.nodup_append'] at hnodup
  obtain ⟨-, ⟨-, -, hback⟩, hfront⟩ := hnodup
  obtain ⟨c, hl, hrest⟩ := append.mp h
  obtain ⟨b, hmid, hr⟩ := append.mp hrest
  refine append.mpr ⟨c, hl.frame fun p hp => hframe p.1 fun hz => ?_,
    append.mpr ⟨b, hnew c b hmid, hr.frame fun p hp => hframe p.1 fun hz => ?_⟩⟩
  · exact hfront (List.mem_map_of_mem hp) (List.mem_append_left _ hz)
  · exact hback hz (List.mem_map_of_mem hp)

/-- New data in one node. -/
theorem setData {front back : List (Nat × δ)} {x next : Nat} {d d' : δ}
    (h : Seg get a (front ++ (x, d) :: back) 0) (hx : get x = some ⟨next, d⟩)
    (hx' : get' x = some ⟨next, d'⟩) (hframe : ∀ y, y ≠ x → get' y = get y) :
    Seg get' a (front ++ (x, d') :: back) 0 := by
  refine splice [(x, d)] [(x, d')] h ?_ ?_
  · intro z hz
    exact hframe z (by simpa using hz)
  · intro c b hmid
    have hend : next = b := hmid.tail hx
    exact ⟨hmid.1, hmid.2.1, next, hx', hend⟩

/-- The first node less. -/
theorem unlink_head {x next : Nat} {d : δ} (h : Seg get a ((x, d) :: l) 0)
    (hx : get x = some ⟨next, d⟩) (hframe : ∀ z, z ≠ x → get' z = get z) :
    Seg get' next l 0 := by
  have hnodup := h.nodup
  rw [List.map_cons, List.nodup_cons] at hnodup
  exact (h.tail hx).frame fun p hp =>
    hframe p.1 fun heq => hnodup.1 (List.mem_map.mpr ⟨p, hp, heq⟩)

/-- One node less: the one before it has its link. -/
theorem unlink {front back : List (Nat × δ)} {y x next : Nat} {e d : δ}
    (h : Seg get a (front ++ (y, e) :: (x, d) :: back) 0) (hx : get x = some ⟨next, d⟩)
    (hy : get' y = some ⟨next, e⟩) (hframe : ∀ z, z ≠ y → z ≠ x → get' z = get z) :
    Seg get' a (front ++ (y, e) :: back) 0 := by
  refine splice [(y, e), (x, d)] [(y, e)] h ?_ ?_
  · intro z hz
    simp only [List.map_cons, List.map_nil, List.mem_cons, List.not_mem_nil, or_false,
      not_or] at hz
    exact hframe z hz.1 hz.2
  · rintro c b ⟨hc, hne, link, -, hmid⟩
    have hend : next = b := hmid.tail hx
    exact ⟨hc, hne, next, hy, hend⟩

end Seg

end Linked
