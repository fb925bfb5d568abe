import Mathlib

/-!
# Red-black trees with a path to the root

Binary trees with coloured nodes, and insertion that goes down to the place of the key and then
mends the colours on the way up. The way is a list of frames: what is left of a node when one of
its children is taken out. Everything that has a left and a right version has a side.

* `Frame`, `zip`: a path and the tree in its hole.
* `repair`: the way up from a red node.
* `repair_balanced`: it restores the colours. The path has to be sound except right above the red
  node (`Sound`).
* `descend`, `alter`: the way down, and insertion.
* `alter_balanced`, `alter_sorted`, `mem_alter`: what insertion keeps, and what it changes.
-/

namespace RedBlack

inductive Color where
  | red
  | black
  deriving DecidableEq, Repr

inductive Side where
  | left
  | right
  deriving DecidableEq, Repr

def Side.other : Side → Side
  | left => right
  | right => left

/-- The one of two things that is on the left, if the first of them is on the side `d`. -/
def Side.pick {β : Type*} : Side → β → β → β
  | left, near, _ => near
  | right, _, far => far

@[simp] theorem Side.pick_left {β : Type*} (a b : β) : Side.left.pick a b = a := rfl

@[simp] theorem Side.pick_right {β : Type*} (a b : β) : Side.right.pick a b = b := rfl

inductive ColorTree (α : Type*) where
  | nil
  | node (c : Color) (l : ColorTree α) (a : α) (r : ColorTree α)

variable {α κ : Type*}

namespace ColorTree

def inorder : ColorTree α → List α
  | nil => []
  | node _ l a r => l.inorder ++ a :: r.inorder

/-- A missing node counts as black. -/
def color : ColorTree α → Color
  | nil => .black
  | node c _ _ _ => c

def setColor (c : Color) : ColorTree α → ColorTree α
  | nil => nil
  | node _ l a r => node c l a r

/-- The node with `near` on the side `d` and `far` on the other one. -/
def join (d : Side) (c : Color) (a : α) (near far : ColorTree α) : ColorTree α :=
  node c (d.pick near far) a (d.pick far near)

@[simp] theorem inorder_setColor (c : Color) (t : ColorTree α) :
    (t.setColor c).inorder = t.inorder := by
  cases t <;> rfl

/-- No red node has a red child. -/
def NoRedRed : ColorTree α → Prop
  | nil => True
  | node c l _ r => (c = .red → l.color = .black ∧ r.color = .black) ∧ l.NoRedRed ∧ r.NoRedRed

/-- The colours on the ways from the root to the missing nodes. -/
def paths : ColorTree α → List (List Color)
  | nil => [[]]
  | node c l _ r => (l.paths ++ r.paths).map (c :: ·)

/-- A tree that is coloured right, with the colour of its root and the number of black nodes on
each of its paths. -/
inductive Balanced : ColorTree α → Color → Nat → Prop
  | nil : Balanced nil .black 0
  | red {l r : ColorTree α} {a : α} {n : Nat} :
      Balanced l .black n → Balanced r .black n → Balanced (node .red l a r) .red n
  | black {l r : ColorTree α} {a : α} {c d : Color} {n : Nat} :
      Balanced l c n → Balanced r d n → Balanced (node .black l a r) .black (n + 1)

namespace Balanced

variable {t : ColorTree α} {c : Color} {n : Nat}

theorem color_eq (h : Balanced t c n) : t.color = c := by
  cases h <;> rfl

theorem noRedRed (h : Balanced t c n) : t.NoRedRed := by
  induction h with
  | nil => trivial
  | red hl hr ihl ihr => exact ⟨fun _ => ⟨hl.color_eq, hr.color_eq⟩, ihl, ihr⟩
  | black hl hr ihl ihr => exact ⟨fun h => (Color.noConfusion h), ihl, ihr⟩

theorem count_black (h : Balanced t c n) : ∀ p ∈ t.paths, p.count .black = n := by
  induction h with
  | nil => simp [paths]
  | red hl hr ihl ihr =>
    intro p hp
    obtain ⟨q, hq, rfl⟩ := List.mem_map.mp hp
    rw [List.count_cons_of_ne (by decide)]
    exact (List.mem_append.mp hq).elim (ihl q) (ihr q)
  | black hl hr ihl ihr =>
    intro p hp
    obtain ⟨q, hq, rfl⟩ := List.mem_map.mp hp
    rw [List.count_cons_self]
    exact congrArg (· + 1) ((List.mem_append.mp hq).elim (ihl q) (ihr q))

theorem setColor_black (h : Balanced t c n) : ∃ m, Balanced (t.setColor .black) .black m := by
  cases h with
  | nil => exact ⟨0, .nil⟩
  | red hl hr => exact ⟨_, .black hl hr⟩
  | black hl hr => exact ⟨_, .black hl hr⟩

/-- A red tree with a black root has one more black node on each path. -/
theorem blacken (h : Balanced t .red n) : Balanced (t.setColor .black) .black (n + 1) := by
  cases h with
  | red hl hr => exact .black hl hr

theorem join_red {d : Side} {a : α} {near far : ColorTree α} (hn : Balanced near .black n)
    (hf : Balanced far .black n) : Balanced (join d .red a near far) .red n := by
  cases d
  · exact .red hn hf
  · exact .red hf hn

theorem join_black {d : Side} {a : α} {near far : ColorTree α} {c c' : Color}
    (hn : Balanced near c n) (hf : Balanced far c' n) :
    Balanced (join d .black a near far) .black (n + 1) := by
  cases d
  · exact .black hn hf
  · exact .black hf hn

end Balanced
end ColorTree

open ColorTree

/-! ## Paths -/

/-- A node without its child on the side `side`. -/
structure Frame (α : Type*) where
  side : Side
  color : Color
  val : α
  sibling : ColorTree α

/-- The node, with `t` as the missing child. -/
def Frame.plug (f : Frame α) (t : ColorTree α) : ColorTree α :=
  join f.side f.color f.val t f.sibling

/-- The whole tree: the path begins at the parent of the hole. -/
def zip : List (Frame α) → ColorTree α → ColorTree α
  | [], t => t
  | f :: fs, t => zip fs (f.plug t)

/-- What comes before the hole, in order. -/
def before : List (Frame α) → List α
  | [] => []
  | f :: fs => before fs ++ f.side.pick [] (f.sibling.inorder ++ [f.val])

/-- What comes after the hole. -/
def after : List (Frame α) → List α
  | [] => []
  | f :: fs => f.side.pick (f.val :: f.sibling.inorder) [] ++ after fs

theorem inorder_zip (fs : List (Frame α)) (t : ColorTree α) :
    (zip fs t).inorder = before fs ++ t.inorder ++ after fs := by
  induction fs generalizing t with
  | nil => simp [zip, before, after]
  | cons f fs ih =>
    rw [zip, ih]
    cases hside : f.side <;> simp [Frame.plug, join, inorder, before, after, hside]

/-- A path that is coloured right around a hole for trees with `n` black nodes on each path. What
is directly above the hole may be red, and so may be what is put there; the root is black. -/
inductive Sound : List (Frame α) → Nat → Prop
  | top (n : Nat) : Sound [] n
  | black {f : Frame α} {fs : List (Frame α)} {c : Color} {n : Nat} :
      f.color = .black → Balanced f.sibling c n → Sound fs (n + 1) → Sound (f :: fs) n
  | red {f g : Frame α} {fs : List (Frame α)} {n : Nat} :
      f.color = .red → g.color = .black → Balanced f.sibling .black n → Sound (g :: fs) n →
      Sound (f :: g :: fs) n

theorem Frame.plug_black {f : Frame α} {t : ColorTree α} {c d : Color} {n : Nat}
    (hf : f.color = .black) (hs : Balanced f.sibling d n) (ht : Balanced t c n) :
    Balanced (f.plug t) .black (n + 1) := by
  rw [plug, hf]
  exact ht.join_black hs

theorem Frame.plug_red {f : Frame α} {t : ColorTree α} {n : Nat} (hf : f.color = .red)
    (hs : Balanced f.sibling .black n) (ht : Balanced t .black n) :
    Balanced (f.plug t) .red n := by
  rw [plug, hf]
  exact ht.join_red hs

/-- What may be put into the hole of a path: red only under black. -/
def Fits (c : Color) (fs : List (Frame α)) : Prop :=
  c = .red → ∃ f gs, fs = f :: gs ∧ f.color = .black

/-- A tree that is coloured right and fits gives a whole tree that is, with a black root. -/
theorem Sound.zip_balanced {fs : List (Frame α)} {n : Nat} (h : Sound fs n) :
    ∀ {t : ColorTree α} {c : Color}, Balanced t c n → Fits c fs →
      ∃ m, Balanced (zip fs t) .black m := by
  induction h with
  | top n =>
    intro t c ht hfits
    cases c with
    | red =>
      obtain ⟨f, gs, hfs, -⟩ := hfits rfl
      cases hfs
    | black => exact ⟨n, ht⟩
  | black hf hs _ ih =>
    intro t c ht _
    exact ih (Frame.plug_black hf hs ht) (fun h => Color.noConfusion h)
  | red hf hg hs _ ih =>
    intro t c ht hfits
    cases c with
    | red =>
      obtain ⟨f, gs, hfs, hblack⟩ := hfits rfl
      cases hfs
      rw [hblack] at hf
      cases hf
    | black => exact ih (Frame.plug_red hf hs ht) (fun _ => ⟨_, _, rfl, hg⟩)

/-! ## The way up -/

/-- The tree with the red node of `l`, `x` and `r` in the hole of a path, mended from there up:
colours are flipped and the way goes on two nodes higher, or one or two rotations end it. -/
def repair (l : ColorTree α) (x : α) (r : ColorTree α) : List (Frame α) → ColorTree α
  | p :: g :: fs =>
    if p.color = .black then
      zip (p :: g :: fs) (node .red l x r)
    else if g.sibling.color = .red then
      repair
        (g.side.pick (join p.side .black p.val (node .red l x r) p.sibling)
          (g.sibling.setColor .black))
        g.val
        (g.side.pick (g.sibling.setColor .black)
          (join p.side .black p.val (node .red l x r) p.sibling)) fs
    else if p.side = g.side then
      zip fs (join g.side .black p.val (node .red l x r)
        (join g.side .red g.val p.sibling g.sibling))
    else
      zip fs (join g.side .black x (join g.side .red p.val p.sibling (g.side.pick l r))
        (join g.side .red g.val (g.side.pick r l) g.sibling))
  | fs => zip fs (node .red l x r)

theorem inorder_zip_congr {fs : List (Frame α)} {t u : ColorTree α} (h : t.inorder = u.inorder) :
    (zip fs t).inorder = (zip fs u).inorder := by
  rw [inorder_zip, inorder_zip, h]

theorem inorder_repair (l : ColorTree α) (x : α) (r : ColorTree α) (fs : List (Frame α)) :
    (repair l x r fs).inorder = before fs ++ (l.inorder ++ x :: r.inorder) ++ after fs := by
  have hnode : l.inorder ++ x :: r.inorder = (node .red l x r).inorder := rfl
  rw [hnode, ← inorder_zip]
  fun_induction repair l x r fs with
  | case1 l x r p g fs hp => rfl
  | case2 l x r p g fs hp hg ih =>
    rw [ih rfl]
    refine inorder_zip_congr ?_
    cases hps : p.side <;> cases hgs : g.side <;>
      simp [join, inorder, Frame.plug, hps, hgs]
  | case3 l x r p g fs hp hg hside =>
    refine inorder_zip_congr ?_
    cases hgs : g.side <;> simp [join, inorder, Frame.plug, hside, hgs]
  | case4 l x r p g fs hp hg hside =>
    refine inorder_zip_congr ?_
    cases hps : p.side <;> cases hgs : g.side <;>
      simp_all [join, inorder, Frame.plug]
  | case5 l x r fs => rfl

/-- Above a red frame of a sound path there is a black one. -/
theorem Sound.of_red {p g : Frame α} {fs : List (Frame α)} {n : Nat} (h : Sound (p :: g :: fs) n)
    (hp : ¬p.color = .black) :
    Balanced p.sibling .black n ∧ (∃ c, Balanced g.sibling c n) ∧ Sound fs (n + 1) := by
  cases h with
  | black hp' => exact absurd hp' hp
  | red _ hg hs h =>
    refine ⟨hs, ?_⟩
    cases h with
    | black _ hgs hfs => exact ⟨⟨_, hgs⟩, hfs⟩
    | red hg' => simp [hg] at hg'

theorem ColorTree.Balanced.of_color_ne {t : ColorTree α} {c : Color} {n : Nat} (h : Balanced t c n)
    (ht : ¬t.color = .red) : Balanced t .black n := by
  rw [h.color_eq] at ht
  cases c with
  | red => exact absurd rfl ht
  | black => exact h

/-- The way up restores the colours, but for a red root. -/
theorem repair_balanced {l r : ColorTree α} {x : α} {fs : List (Frame α)} {n : Nat}
    (hl : Balanced l .black n) (hr : Balanced r .black n) (h : Sound fs n) :
    ∃ m, Balanced ((repair l x r fs).setColor .black) .black m := by
  fun_induction repair l x r fs generalizing n with
  | case1 l x r p g fs hp =>
    obtain ⟨m, hm⟩ := h.zip_balanced (t := .node .red l x r) (.red hl hr)
      (fun _ => ⟨p, g :: fs, rfl, hp⟩)
    exact hm.setColor_black
  | case2 l x r p g fs hp hg ih =>
    obtain ⟨hps, ⟨c, hgs⟩, hfs⟩ := h.of_red hp
    obtain rfl : c = .red := hgs.color_eq.symm.trans hg
    have hnear := (Balanced.red (a := x) hl hr).join_black (d := p.side) (a := p.val) hps
    have hfar := hgs.blacken
    cases hside : g.side <;> simp only [hside, Side.pick_left, Side.pick_right] at ih
    · exact ih hnear hfar hfs
    · exact ih hfar hnear hfs
  | case3 l x r p g fs hp hg hside =>
    obtain ⟨hps, ⟨c, hgs⟩, hfs⟩ := h.of_red hp
    have hred := hps.join_red (d := g.side) (a := g.val) (hgs.of_color_ne hg)
    have htop := (Balanced.red (a := x) hl hr).join_black (d := g.side) (a := p.val) hred
    obtain ⟨m, hm⟩ := hfs.zip_balanced htop (fun h => Color.noConfusion h)
    exact hm.setColor_black
  | case4 l x r p g fs hp hg hside =>
    obtain ⟨hps, ⟨c, hgs⟩, hfs⟩ := h.of_red hp
    have hchildren : Balanced (g.side.pick l r) .black n ∧ Balanced (g.side.pick r l) .black n := by
      cases g.side
      · exact ⟨hl, hr⟩
      · exact ⟨hr, hl⟩
    have hnear := hps.join_red (d := g.side) (a := p.val) hchildren.1
    have hfar := hchildren.2.join_red (d := g.side) (a := g.val) (hgs.of_color_ne hg)
    have htop := hnear.join_black (d := g.side) (a := x) hfar
    obtain ⟨m, hm⟩ := hfs.zip_balanced htop (fun h => Color.noConfusion h)
    exact hm.setColor_black
  | case5 l x r fs hfs =>
    cases h with
    | top => exact ⟨_, .black hl hr⟩
    | black hblack hs hfs' =>
      have htop := (Sound.black hblack hs hfs').zip_balanced (t := .node .red l x r) (.red hl hr)
        (fun _ => ⟨_, _, rfl, hblack⟩)
      obtain ⟨m, hm⟩ := htop
      exact hm.setColor_black
    | red => exact absurd rfl (hfs _ _ _)

/-! ## The way down -/

section Order

variable [LinearOrder κ] (key : α → κ)

/-- The keys are strictly increasing. -/
def Sorted (t : ColorTree α) : Prop := (t.inorder.map key).Pairwise (· < ·)

/-- The subtree with the key `k` at its root, or the place where it is missing, and the path to
it. -/
def descend (k : κ) : ColorTree α → List (Frame α) → ColorTree α × List (Frame α)
  | .nil, fs => (.nil, fs)
  | .node c l a r, fs =>
    if k = key a then (.node c l a r, fs)
    else if key a < k then descend k r (⟨.right, c, a, l⟩ :: fs)
    else descend k l (⟨.left, c, a, r⟩ :: fs)

/-- The entry with the key `k`. -/
def find (k : κ) : ColorTree α → Option α
  | .nil => none
  | .node _ l a r => if k = key a then some a else if key a < k then find k r else find k l

/-- A new entry at a place; `new` gets the entry that was there. -/
def put (new : Option α → α) : ColorTree α × List (Frame α) → ColorTree α
  | (.nil, fs) => (repair .nil (new none) .nil fs).setColor .black
  | (.node c l a r, fs) => zip fs (.node c l (new (some a)) r)

/-- Insertion. -/
def alter (k : κ) (new : Option α → α) (t : ColorTree α) : ColorTree α :=
  put new (descend key k t [])

variable {key}

theorem zip_descend (k : κ) (t : ColorTree α) (fs : List (Frame α)) :
    zip (descend key k t fs).2 (descend key k t fs).1 = zip fs t := by
  fun_induction descend key k t fs with
  | case1 fs => rfl
  | case2 c l a r fs hk => rfl
  | case3 c l a r fs hk hlt ih => exact ih
  | case4 c l a r fs hk hlt ih => exact ih

theorem descend_root {k : κ} {t l r : ColorTree α} {fs : List (Frame α)} {c : Color} {a : α}
    (h : (descend key k t fs).1 = .node c l a r) : k = key a := by
  fun_induction descend key k t fs with
  | case1 fs => cases h
  | case2 c l a r fs hk => cases h; exact hk
  | case3 c l a r fs hk hlt ih => exact ih h
  | case4 c l a r fs hk hlt ih => exact ih h

/-- The place of the key `k` is in the hole of the path. -/
def Between (key : α → κ) (k : κ) (fs : List (Frame α)) : Prop :=
  (∀ a ∈ before fs, key a < k) ∧ ∀ a ∈ after fs, k < key a

theorem sorted_node_iff {c : Color} {l r : ColorTree α} {a : α} :
    Sorted key (.node c l a r) ↔ Sorted key l ∧ Sorted key r ∧
      (∀ b ∈ l.inorder, key b < key a) ∧ (∀ b ∈ r.inorder, key a < key b) := by
  simp only [Sorted, inorder, List.map_append, List.map_cons, List.pairwise_append,
    List.pairwise_cons, List.mem_map, List.mem_cons]
  constructor
  · rintro ⟨hl, ⟨ha, hr⟩, hlr⟩
    refine ⟨hl, hr, ?_, ?_⟩
    · intro b hb
      exact hlr _ ⟨b, hb, rfl⟩ _ (.inl rfl)
    · intro b hb
      exact ha _ ⟨b, hb, rfl⟩
  · rintro ⟨hl, hr, hla, har⟩
    refine ⟨hl, ⟨?_, hr⟩, ?_⟩
    · rintro _ ⟨b, hb, rfl⟩
      exact har b hb
    · rintro _ ⟨b, hb, rfl⟩ _ (rfl | ⟨b', hb', rfl⟩)
      · exact hla b hb
      · exact (hla b hb).trans (har b' hb')

theorem descend_between {k : κ} {t : ColorTree α} {fs : List (Frame α)} (ht : Sorted key t)
    (h : Between key k fs) : Between key k (descend key k t fs).2 := by
  fun_induction descend key k t fs with
  | case1 fs => exact h
  | case2 c l a r fs hk => exact h
  | case3 c l a r fs hk hlt ih =>
    obtain ⟨hl, hr, hla, har⟩ := sorted_node_iff.mp ht
    refine ih hr ⟨?_, ?_⟩
    · intro b hb
      simp only [before, Side.pick_right, List.mem_append, List.mem_singleton] at hb
      rcases hb with hb | hb | rfl
      · exact h.1 b hb
      · exact (hla b hb).trans hlt
      · exact hlt
    · intro b hb
      exact h.2 b (by simpa [after] using hb)
  | case4 c l a r fs hk hlt ih =>
    obtain ⟨hl, hr, hla, har⟩ := sorted_node_iff.mp ht
    have hka : k < key a := lt_of_le_of_ne (not_lt.mp hlt) hk
    refine ih hl ⟨?_, ?_⟩
    · intro b hb
      exact h.1 b (by simpa [before] using hb)
    · intro b hb
      simp only [after, Side.pick_left, List.cons_append, List.mem_cons, List.mem_append] at hb
      rcases hb with rfl | hb | hb
      · exact hka
      · exact hka.trans (har b hb)
      · exact h.2 b hb

theorem descend_sorted {k : κ} {t : ColorTree α} {fs : List (Frame α)} (ht : Sorted key t) :
    Sorted key (descend key k t fs).1 := by
  fun_induction descend key k t fs with
  | case1 fs => exact ht
  | case2 c l a r fs hk => exact ht
  | case3 c l a r fs hk hlt ih => exact ih (sorted_node_iff.mp ht).2.1
  | case4 c l a r fs hk hlt ih => exact ih (sorted_node_iff.mp ht).1

theorem find_eq_some_iff {k : κ} {t : ColorTree α} (ht : Sorted key t) {a : α} :
    find key k t = some a ↔ a ∈ t.inorder ∧ key a = k := by
  induction t with
  | nil => simp [find, inorder]
  | node c l b r ihl ihr =>
    obtain ⟨hl, hr, hlb, hbr⟩ := sorted_node_iff.mp ht
    simp only [find, inorder, List.mem_append, List.mem_cons]
    by_cases hk : k = key b
    · subst hk
      rw [if_pos rfl, Option.some.injEq]
      constructor
      · rintro rfl
        exact ⟨.inr (.inl rfl), rfl⟩
      · rintro ⟨ha | ha | ha, heq⟩
        · exact absurd heq (hlb a ha).ne
        · exact ha.symm
        · exact absurd heq (hbr a ha).ne'
    · rw [if_neg hk]
      by_cases hlt : key b < k
      · rw [if_pos hlt, ihr hr]
        constructor
        · rintro ⟨ha, heq⟩
          exact ⟨.inr (.inr ha), heq⟩
        · rintro ⟨ha | rfl | ha, heq⟩
          · exact absurd (heq ▸ hlb a ha) hlt.not_gt
          · exact absurd heq.symm hk
          · exact ⟨ha, heq⟩
      · rw [if_neg hlt, ihl hl]
        constructor
        · rintro ⟨ha, heq⟩
          exact ⟨.inl ha, heq⟩
        · rintro ⟨ha | rfl | ha, heq⟩
          · exact ⟨ha, heq⟩
          · exact absurd heq.symm hk
          · exact absurd (heq ▸ hbr a ha) hlt

/-- The entries around the key `k`, before and after `alter`. -/
theorem inorder_alter {t : ColorTree α} (ht : Sorted key t) (k : κ) (new : Option α → α) :
    ∃ xs ys : List α, t.inorder = xs ++ (find key k t).toList ++ ys ∧
      (alter key k new t).inorder = xs ++ new (find key k t) :: ys ∧
      (∀ a ∈ xs, key a < k) ∧ (∀ a ∈ ys, k < key a) := by
  have hbetween : Between key k (descend key k t []).2 :=
    descend_between ht ⟨by simp [before], by simp [after]⟩
  have hzip : zip (descend key k t []).2 (descend key k t []).1 = t := zip_descend k t []
  have hsub : Sorted key (descend key k t []).1 := descend_sorted ht
  have hroot : ∀ {c l a r}, (descend key k t []).1 = .node c l a r → k = key a := descend_root
  rw [alter]
  generalize descend key k t [] = place at hbetween hzip hsub hroot
  obtain ⟨u, fs⟩ := place
  have hinorder : t.inorder = before fs ++ u.inorder ++ after fs := by rw [← hzip, inorder_zip]
  cases u with
  | nil =>
    have hfind : find key k t = none := by
      rw [Option.eq_none_iff_forall_ne_some]
      intro a ha
      obtain ⟨hmem, hkey⟩ := (find_eq_some_iff ht).mp ha
      simp only [hinorder, inorder, List.append_nil, List.mem_append] at hmem
      rcases hmem with hmem | hmem
      · exact (hbetween.1 a hmem).ne hkey
      · exact (hbetween.2 a hmem).ne' hkey
    refine ⟨before fs, after fs, ?_, ?_, hbetween.1, hbetween.2⟩
    · rw [hinorder, hfind]
      rfl
    · rw [put, inorder_setColor, inorder_repair, hfind]
      simp [inorder]
  | node c l a r =>
    obtain rfl := hroot rfl
    obtain ⟨-, -, hla, har⟩ := sorted_node_iff.mp hsub
    have hfind : find key (key a) t = some a := by
      rw [find_eq_some_iff ht, hinorder]
      simp [inorder]
    refine ⟨before fs ++ l.inorder, r.inorder ++ after fs, ?_, ?_, ?_, ?_⟩
    · simp [hinorder, hfind, inorder]
    · simp [put, inorder_zip, hfind, inorder]
    · intro b hb
      exact (List.mem_append.mp hb).elim (hbetween.1 b) (hla b)
    · intro b hb
      exact (List.mem_append.mp hb).elim (har b) (hbetween.2 b)

section Alter

variable {k : κ} {new : Option α → α} {t : ColorTree α}

theorem alter_sorted (hnew : ∀ old, key (new old) = k) (ht : Sorted key t) :
    Sorted key (alter key k new t) := by
  obtain ⟨xs, ys, hold, halter, hxs, hys⟩ := inorder_alter ht k new
  rw [Sorted, hold, List.map_append, List.map_append] at ht
  have hparts := List.pairwise_append.mp ht
  have hxs' := (List.pairwise_append.mp hparts.1).1
  rw [Sorted, halter, List.map_append, List.map_cons, List.pairwise_append, List.pairwise_cons,
    hnew]
  refine ⟨hxs', ⟨?_, hparts.2.1⟩, ?_⟩
  · intro b hb
    obtain ⟨y, hy, rfl⟩ := List.mem_map.mp hb
    exact hys y hy
  · intro a ha b hb
    obtain ⟨x, hx, rfl⟩ := List.mem_map.mp ha
    rcases List.mem_cons.mp hb with rfl | hb
    · exact hxs x hx
    · obtain ⟨y, hy, rfl⟩ := List.mem_map.mp hb
      exact (hxs x hx).trans (hys y hy)

theorem mem_alter (ht : Sorted key t) {a : α} :
    a ∈ (alter key k new t).inorder ↔
      a = new (find key k t) ∨ a ∈ t.inorder ∧ key a ≠ k := by
  obtain ⟨xs, ys, hold, halter, hxs, hys⟩ := inorder_alter ht k new
  have hfind : ∀ b ∈ (find key k t).toList, key b = k := by
    intro b hb
    exact ((find_eq_some_iff ht).mp (Option.mem_toList.mp hb)).2
  rw [halter, hold]
  simp only [List.mem_append, List.mem_cons]
  constructor
  · rintro (ha | ha | ha)
    · exact .inr ⟨.inl (.inl ha), (hxs a ha).ne⟩
    · exact .inl ha
    · exact .inr ⟨.inr ha, (hys a ha).ne'⟩
  · rintro (ha | ⟨(ha | ha) | ha, hne⟩)
    · exact .inr (.inl ha)
    · exact .inl ha
    · exact absurd (hfind a ha) hne
    · exact .inr (.inr ha)

theorem find_alter (hnew : ∀ old, key (new old) = k) (ht : Sorted key t) (k' : κ) :
    find key k' (alter key k new t) =
      if k' = k then some (new (find key k t)) else find key k' t := by
  refine Option.ext fun a => ?_
  rw [find_eq_some_iff (alter_sorted hnew ht), mem_alter ht]
  by_cases hk : k' = k
  · subst hk
    rw [if_pos rfl, Option.some.injEq]
    constructor
    · rintro ⟨rfl | ⟨-, hne⟩, hkey⟩
      · rfl
      · exact absurd hkey hne
    · rintro rfl
      exact ⟨.inl rfl, hnew _⟩
  · rw [if_neg hk, find_eq_some_iff ht]
    constructor
    · rintro ⟨rfl | ⟨hmem, -⟩, hkey⟩
      · exact absurd (hkey.symm.trans (hnew _)) hk
      · exact ⟨hmem, hkey⟩
    · rintro ⟨hmem, hkey⟩
      exact ⟨.inr ⟨hmem, fun heq => hk (hkey.symm.trans heq)⟩, hkey⟩

end Alter

/-- One step down a tree that is coloured right. -/
theorem Sound.push {fs : List (Frame α)} {d : Side} {c c' : Color} {a : α} {near far : ColorTree α}
    {n : Nat} (hfs : Sound fs n) (ht : Balanced (join d c a near far) c' n) (hfits : Fits c' fs) :
    ∃ e m, Sound (⟨d, c, a, far⟩ :: fs) m ∧ Balanced near e m ∧ Fits e (⟨d, c, a, far⟩ :: fs) := by
  cases d with
  | left =>
    cases ht with
    | red hl hr =>
      obtain ⟨g, gs, rfl, hg⟩ := hfits rfl
      exact ⟨_, _, .red rfl hg hr hfs, hl, fun h => Color.noConfusion h⟩
    | black hl hr => exact ⟨_, _, .black rfl hr hfs, hl, fun _ => ⟨_, _, rfl, rfl⟩⟩
  | right =>
    cases ht with
    | red hl hr =>
      obtain ⟨g, gs, rfl, hg⟩ := hfits rfl
      exact ⟨_, _, .red rfl hg hl hfs, hr, fun h => Color.noConfusion h⟩
    | black hl hr => exact ⟨_, _, .black rfl hl hfs, hr, fun _ => ⟨_, _, rfl, rfl⟩⟩

/-- The way down a tree that is coloured right. -/
theorem descend_sound {k : κ} {t : ColorTree α} {fs : List (Frame α)} {c : Color} {n : Nat}
    (hfs : Sound fs n) (ht : Balanced t c n) (hfits : Fits c fs) :
    ∃ d m, Sound (descend key k t fs).2 m ∧ Balanced (descend key k t fs).1 d m ∧
      Fits d (descend key k t fs).2 := by
  fun_induction descend key k t fs generalizing c n with
  | case1 fs => exact ⟨c, n, hfs, ht, hfits⟩
  | case2 e l a r fs hk => exact ⟨c, n, hfs, ht, hfits⟩
  | case3 e l a r fs hk hlt ih =>
    obtain ⟨_, _, hfs', hr, hfits'⟩ := Sound.push (d := .right) hfs ht hfits
    exact ih hfs' hr hfits'
  | case4 e l a r fs hk hlt ih =>
    obtain ⟨_, _, hfs', hl, hfits'⟩ := Sound.push (d := .left) hfs ht hfits
    exact ih hfs' hl hfits'

theorem alter_balanced {k : κ} {new : Option α → α} {t : ColorTree α} {n : Nat}
    (ht : Balanced t .black n) : ∃ m, Balanced (alter key k new t) .black m := by
  have hplace : ∃ d m, Sound (descend key k t []).2 m ∧ Balanced (descend key k t []).1 d m ∧
      Fits d (descend key k t []).2 :=
    descend_sound (.top n) ht (fun h => Color.noConfusion h)
  obtain ⟨d, m, hsound, hbal, hfits⟩ := hplace
  rw [alter]
  generalize descend key k t [] = place at hsound hbal hfits
  obtain ⟨u, fs⟩ := place
  cases hbal with
  | nil => exact repair_balanced .nil .nil hsound
  | red hl hr => exact hsound.zip_balanced (.red hl hr) hfits
  | black hl hr => exact hsound.zip_balanced (.black hl hr) hfits

end Order

end RedBlack
