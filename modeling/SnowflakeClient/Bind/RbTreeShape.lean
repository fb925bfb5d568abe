import SnowflakeClient.Bind.RbTree

/-!
# The nodes as a tree

`Shows T t`: the nodes of `T` are the tree `t`, whose entries carry their addresses: each node has
the colour, the entry and the pointers to its children that `t` gives it, and the pointer to its
actual parent. A tree with a path, `zip fs t`, is looked at from the hole (`shows_zip_iff`); every
function of `rbtree.c` has a rule for what it does there.
-/

namespace Snowflake

open RedBlack ColorTree RedBlackNode

/-- An entry, with the address of its node. -/
structure Entry (ν : Type) where
  addr : Nat
  key : CString
  elem : ν

variable {ν : Type}

/-- The pointer to a tree. -/
def ptr : ColorTree (Entry ν) → NodePtr
  | .nil => none
  | .node _ _ a _ => some a.addr

/-- The pointer to the node of the first frame. -/
def above : List (Frame (Entry ν)) → NodePtr
  | [] => none
  | f :: _ => some f.val.addr

theorem above_cons (f : Frame (Entry ν)) (fs : List (Frame (Entry ν))) :
    above (f :: fs) = some f.val.addr := rfl

/-- The node of an entry. -/
def nodeOf (c : Color) (a : Entry ν) (left right parent : NodePtr) : RedBlackNode ν :=
  ⟨c, some a.elem, some a.key, left, right, parent⟩

/-- The nodes are the tree `t` below `parent`. -/
def Rep (nodes : Nat → Option (RedBlackNode ν)) (parent : NodePtr) : ColorTree (Entry ν) → Prop
  | .nil => True
  | .node c l a r =>
    nodes a.addr = some (nodeOf c a (ptr l) (ptr r) parent) ∧
      Rep nodes (some a.addr) l ∧ Rep nodes (some a.addr) r

/-- The nodes are the path `fs` above `hole`. -/
def RepPath (nodes : Nat → Option (RedBlackNode ν)) (hole : NodePtr) :
    List (Frame (Entry ν)) → Prop
  | [] => True
  | f :: fs =>
    nodes f.val.addr = some (nodeOf f.color f.val (f.side.pick hole (ptr f.sibling))
      (f.side.pick (ptr f.sibling) hole) (above fs)) ∧
      Rep nodes (some f.val.addr) f.sibling ∧ RepPath nodes (some f.val.addr) fs

/-- The addresses of a tree. -/
def addrs (t : ColorTree (Entry ν)) : Multiset Nat := (t.inorder.map Entry.addr : List Nat)

/-- The addresses of a path. -/
def pathAddrs : List (Frame (Entry ν)) → Multiset Nat
  | [] => 0
  | f :: fs => f.val.addr ::ₘ (addrs f.sibling + pathAddrs fs)

@[simp] theorem addrs_nil : addrs (.nil : ColorTree (Entry ν)) = 0 := rfl

@[simp] theorem addrs_node (c : Color) (l : ColorTree (Entry ν)) (a : Entry ν)
    (r : ColorTree (Entry ν)) : addrs (.node c l a r) = a.addr ::ₘ (addrs l + addrs r) := by
  simp only [addrs, inorder, List.map_append, List.map_cons, Multiset.coe_add, Multiset.cons_coe,
    Multiset.coe_eq_coe]
  exact List.perm_middle

@[simp] theorem addrs_setColor (c : Color) (t : ColorTree (Entry ν)) :
    addrs (t.setColor c) = addrs t := by
  rw [addrs, addrs, inorder_setColor]

@[simp] theorem addrs_join (d : Side) (c : Color) (a : Entry ν) (near far : ColorTree (Entry ν)) :
    addrs (join d c a near far) = a.addr ::ₘ (addrs near + addrs far) := by
  cases d
  · exact addrs_node ..
  · exact (addrs_node ..).trans (congrArg _ (add_comm _ _))

theorem addrs_zip (fs : List (Frame (Entry ν))) (t : ColorTree (Entry ν)) :
    addrs (zip fs t) = addrs t + pathAddrs fs := by
  induction fs generalizing t with
  | nil => exact (add_zero _).symm
  | cons f fs ih => simp [zip, ih, Frame.plug, pathAddrs, add_assoc]

@[simp] theorem ptr_setColor (c : Color) (t : ColorTree (Entry ν)) :
    ptr (t.setColor c) = ptr t := by
  cases t <;> rfl

@[simp] theorem ptr_join (d : Side) (c : Color) (a : Entry ν) (near far : ColorTree (Entry ν)) :
    ptr (join d c a near far) = some a.addr := rfl

/-- The root is above the hole, if anything is. -/
theorem ptr_zip_cons (f : Frame (Entry ν)) (fs : List (Frame (Entry ν)))
    (t u : ColorTree (Entry ν)) : ptr (zip (f :: fs) t) = ptr (zip (f :: fs) u) := by
  induction fs generalizing f t u with
  | nil => rfl
  | cons g fs ih => exact ih g (f.plug t) (f.plug u)

theorem ptr_mem {t : ColorTree (Entry ν)} {a : Nat} (h : ptr t = some a) : a ∈ addrs t := by
  cases t with
  | nil => cases h
  | node c l b r =>
    cases h
    simp

theorem rep_join_iff {nodes : Nat → Option (RedBlackNode ν)} {parent : NodePtr} {d : Side}
    {c : Color} {a : Entry ν} {near far : ColorTree (Entry ν)} :
    Rep nodes parent (join d c a near far) ↔
      nodes a.addr = some (nodeOf c a (d.pick (ptr near) (ptr far)) (d.pick (ptr far) (ptr near))
        parent) ∧ Rep nodes (some a.addr) near ∧ Rep nodes (some a.addr) far := by
  cases d
  · exact Iff.rfl
  · exact and_congr_right' and_comm

theorem rep_zip_iff {nodes : Nat → Option (RedBlackNode ν)} (fs : List (Frame (Entry ν)))
    (t : ColorTree (Entry ν)) :
    Rep nodes none (zip fs t) ↔ Rep nodes (above fs) t ∧ RepPath nodes (ptr t) fs := by
  induction fs generalizing t with
  | nil => exact (and_iff_left trivial).symm
  | cons f fs ih =>
    rw [zip, ih, Frame.plug, rep_join_iff]
    simp only [RepPath, above, ptr_join]
    tauto

/-! ## What a write leaves alone -/

theorem Rep.congr {nodes nodes' : Nat → Option (RedBlackNode ν)} {parent : NodePtr}
    {t : ColorTree (Entry ν)} (h : Rep nodes parent t)
    (heq : ∀ a ∈ addrs t, nodes' a = nodes a) : Rep nodes' parent t := by
  induction t generalizing parent with
  | nil => trivial
  | node c l a r ihl ihr =>
    simp only [addrs_node, Multiset.mem_cons, Multiset.mem_add] at heq
    obtain ⟨ha, hl, hr⟩ := h
    refine ⟨(heq _ (.inl rfl)).trans ha, ihl hl ?_, ihr hr ?_⟩
    · intro b hb
      exact heq b (.inr (.inl hb))
    · intro b hb
      exact heq b (.inr (.inr hb))

theorem RepPath.congr {nodes nodes' : Nat → Option (RedBlackNode ν)} {hole : NodePtr}
    {fs : List (Frame (Entry ν))} (h : RepPath nodes hole fs)
    (heq : ∀ a ∈ pathAddrs fs, nodes' a = nodes a) : RepPath nodes' hole fs := by
  induction fs generalizing hole with
  | nil => trivial
  | cons f fs ih =>
    simp only [pathAddrs, Multiset.mem_cons, Multiset.mem_add] at heq
    obtain ⟨hf, hs, hfs⟩ := h
    refine ⟨(heq _ (.inl rfl)).trans hf, hs.congr ?_, ih hfs ?_⟩
    · intro b hb
      exact heq b (.inr (.inl hb))
    · intro b hb
      exact heq b (.inr (.inr hb))

/-- A tree gets a new parent: only the node at its root is written. -/
theorem Rep.reparent {nodes nodes' : Nat → Option (RedBlackNode ν)} {parent parent' : NodePtr}
    {t : ColorTree (Entry ν)} (h : Rep nodes parent t) (hnodup : (addrs t).Nodup)
    (hroot : ∀ a, ptr t = some a → nodes' a = (nodes a).map (setParent parent'))
    (heq : ∀ a ∈ addrs t, ptr t ≠ some a → nodes' a = nodes a) : Rep nodes' parent' t := by
  cases t with
  | nil => trivial
  | node c l a r =>
    obtain ⟨ha, hl, hr⟩ := h
    simp only [addrs_node, Multiset.nodup_cons, Multiset.mem_add, not_or] at hnodup
    obtain ⟨⟨hal, har⟩, -⟩ := hnodup
    simp only [addrs_node, Multiset.mem_cons, Multiset.mem_add, ptr, ne_eq, Option.some.injEq]
      at heq
    refine ⟨?_, hl.congr ?_, hr.congr ?_⟩
    · rw [hroot _ rfl, ha]
      rfl
    · intro b hb
      exact heq b (.inr (.inl hb)) (fun h => hal (h ▸ hb))
    · intro b hb
      exact heq b (.inr (.inr hb)) (fun h => har (h ▸ hb))

/-- The hole of a path gets another tree: only the node above it is written. -/
theorem RepPath.refill {nodes nodes' : Nat → Option (RedBlackNode ν)} {hole hole' : NodePtr}
    {f : Frame (Entry ν)} {fs : List (Frame (Entry ν))} (h : RepPath nodes hole (f :: fs))
    (hf : nodes' f.val.addr = some (nodeOf f.color f.val (f.side.pick hole' (ptr f.sibling))
      (f.side.pick (ptr f.sibling) hole') (above fs)))
    (heq : ∀ a ∈ addrs f.sibling + pathAddrs fs, nodes' a = nodes a) :
    RepPath nodes' hole' (f :: fs) := by
  simp only [Multiset.mem_add] at heq
  refine ⟨hf, h.2.1.congr ?_, h.2.2.congr ?_⟩
  · intro b hb
    exact heq b (.inl hb)
  · intro b hb
    exact heq b (.inr hb)

/-! ## Trees of nodes -/

/-- The nodes of `T` are the tree `t` (module doc). -/
structure Shows (T : RedBlackTree ν) (t : ColorTree (Entry ν)) : Prop where
  rep : Rep T.nodes none t
  root : T.root = ptr t
  nodup : (addrs t).Nodup
  lt : ∀ a ∈ addrs t, a < T.next

namespace Shows

variable {T T' : RedBlackTree ν} {t u : ColorTree (Entry ν)} {fs : List (Frame (Entry ν))}

/-- What is in the hole is replaced by nodes at the same addresses. -/
theorem update (h : Shows T (zip fs t)) (hrep : Rep T'.nodes (above fs) u)
    (hpath : RepPath T'.nodes (ptr u) fs) (haddrs : addrs u = addrs t)
    (hroot : T'.root = if fs = [] then ptr u else T.root) (hnext : T'.next = T.next) :
    Shows T' (zip fs u) := by
  have hzip : addrs (zip fs u) = addrs (zip fs t) := by rw [addrs_zip, addrs_zip, haddrs]
  refine ⟨(rep_zip_iff fs u).mpr ⟨hrep, hpath⟩, ?_, hzip ▸ h.nodup, ?_⟩
  · cases fs with
    | nil => exact hroot
    | cons f fs => rw [hroot, if_neg (List.cons_ne_nil f fs), h.root, ptr_zip_cons]
  · rw [hzip, hnext]
    exact h.lt

theorem focus (h : Shows T (zip fs t)) : Rep T.nodes (above fs) t ∧ RepPath T.nodes (ptr t) fs :=
  (rep_zip_iff fs t).mp h.rep

theorem nodup_zip (h : Shows T (zip fs t)) :
    (addrs t).Nodup ∧ (pathAddrs fs).Nodup ∧ Disjoint (addrs t) (pathAddrs fs) := by
  have hnodup := h.nodup
  rwa [addrs_zip, Multiset.nodup_add] at hnodup

end Shows

@[simp] theorem child_setParent (n : RedBlackNode ν) (p : NodePtr) (d : Side) :
    (n.setParent p).child d = n.child d := by
  cases d <;> rfl

@[simp] theorem parent_setParent (n : RedBlackNode ν) (p : NodePtr) :
    (n.setParent p).parent = p := rfl

@[simp] theorem set_nodes_self (T : RedBlackTree ν) (a : Nat) (n : RedBlackNode ν) :
    (T.set a n).nodes a = some n := Function.update_self ..

@[simp] theorem set_nodes_ne (T : RedBlackTree ν) {a b : Nat} (n : RedBlackNode ν) (h : b ≠ a) :
    (T.set a n).nodes b = T.nodes b := Function.update_of_ne h ..

@[simp] theorem set_root (T : RedBlackTree ν) (a : Nat) (n : RedBlackNode ν) :
    (T.set a n).root = T.root := rfl

@[simp] theorem set_next (T : RedBlackTree ν) (a : Nat) (n : RedBlackNode ν) :
    (T.set a n).next = T.next := rfl

@[simp] theorem load_none (T : RedBlackTree ν) : T.load none = none := rfl

@[simp] theorem load_some (T : RedBlackTree ν) (a : Nat) : T.load (some a) = T.nodes a := rfl

theorem store_some {T : RedBlackTree ν} {a : Nat} {n : RedBlackNode ν} (h : T.nodes a = some n)
    (f : RedBlackNode ν → RedBlackNode ν) : T.store (some a) f = some (T.set a (f n)) := by
  simp [RedBlackTree.store, h]

/-- What a rotation writes up to the pointer to the two nodes: the nodes and the child that changes
its parent. -/
theorem rotateNodes_run {T : RedBlackTree ν} {d : Side} {x y : Nat} {n m : RedBlackNode ν}
    (parent : NodePtr) (hx : T.nodes x = some n) (hy : T.nodes y = some m) (hxy : x ≠ y)
    (hmoved : ∀ b, m.child d = some b → b ≠ x ∧ b ≠ y ∧ ∃ k, T.nodes b = some k) :
    ∃ T', rotateNodes d T (some x) (some y) parent = some T' ∧ T'.next = T.next ∧
      T'.root = T.root ∧
      T'.nodes x = some ((setChild (m.child d) d.other n).setParent (some y)) ∧
      T'.nodes y = some (setChild (some x) d (m.setParent parent)) ∧
      (∀ b, m.child d = some b → T'.nodes b = (T.nodes b).map (setParent (some x))) ∧
      ∀ a, a ≠ x → a ≠ y → m.child d ≠ some a → T'.nodes a = T.nodes a := by
  have hyx := hxy.symm
  cases hm : m.child d with
  | none =>
    refine ⟨(((T.set y (m.setParent parent)).set x (setChild none d.other n)).set y
      (setChild (some x) d (m.setParent parent))).set x
        ((setChild none d.other n).setParent (some y)), ?_, rfl, rfl, ?_, ?_, ?_, ?_⟩
    · simp [rotateNodes, store_some, hx, hy, hm, hxy, hyx]
    · simp
    · simp [hyx]
    · simp
    · intro a hax hay _
      simp [hax, hay]
  | some b =>
    obtain ⟨hbx, hby, k, hk⟩ := hmoved b hm
    refine ⟨((((T.set y (m.setParent parent)).set x (setChild (some b) d.other n)).set b
      (k.setParent (some x))).set y (setChild (some x) d (m.setParent parent))).set x
        ((setChild (some b) d.other n).setParent (some y)), ?_, rfl, rfl, ?_, ?_, ?_, ?_⟩
    · simp [rotateNodes, store_some, hx, hy, hm, hk, hxy, hyx, hbx, hby, hbx.symm, hby.symm]
    · simp
    · simp [hyx]
    · rintro _ ⟨⟩
      simp [hbx, hby, hk]
    · intro a hax hay hab
      have hab' : a ≠ b := fun h => hab (h ▸ rfl)
      simp [hax, hay, hab']

section NodeOf

variable (c : Color) (a : Entry ν) (d : Side) (p q p' parent : NodePtr)

@[simp] theorem setParent_nodeOf :
    setParent p' (nodeOf c a p q parent) = nodeOf c a p q p' := rfl

@[simp] theorem child_nodeOf :
    (nodeOf c a (d.pick p q) (d.pick q p) parent).child d = p := by
  cases d <;> rfl

@[simp] theorem child_other_nodeOf :
    (nodeOf c a (d.pick p q) (d.pick q p) parent).child d.other = q := by
  cases d <;> rfl

@[simp] theorem setChild_nodeOf :
    setChild p' d (nodeOf c a (d.pick p q) (d.pick q p) parent) =
      nodeOf c a (d.pick p' q) (d.pick q p') parent := by
  cases d <;> rfl

@[simp] theorem setChild_other_nodeOf :
    setChild p' d.other (nodeOf c a (d.pick p q) (d.pick q p) parent) =
      nodeOf c a (d.pick p p') (d.pick p' p) parent := by
  cases d <;> rfl

end NodeOf

/-- The addresses of a tree that is about to be rotated are apart. -/
theorem rotate_apart {a b : Nat} {A B C P : Multiset Nat}
    (h : (a ::ₘ (A + b ::ₘ (B + C)) + P).Nodup) :
    a ≠ b ∧ (∀ z, z ∈ A ∨ z ∈ B ∨ z ∈ C ∨ z ∈ P → z ≠ a ∧ z ≠ b) ∧
      (∀ z, z ∈ A ∨ z ∈ C ∨ z ∈ P → z ∉ B) ∧ B.Nodup := by
  simp only [Multiset.cons_add, Multiset.nodup_cons, Multiset.nodup_add, Multiset.mem_add,
    Multiset.mem_cons, Multiset.add_cons, not_or, Multiset.disjoint_left] at h
  grind

theorem Rep.load_ptr {nodes : Nat → Option (RedBlackNode ν)} {parent : NodePtr}
    {t : ColorTree (Entry ν)} (h : Rep nodes parent t) {z : Nat} (hz : ptr t = some z) :
    ∃ k, nodes z = some k := by
  cases t with
  | nil => cases hz
  | node c l a r =>
    cases hz
    exact ⟨_, h.1⟩

/-- `replaceChild` at the hole of a path, whose node has just been replaced. -/
theorem replaceChild_shows {T T₁ : RedBlackTree ν} {fs : List (Frame (Entry ν))}
    {t u : ColorTree (Entry ν)} {x y : Nat} (h : Shows T (zip fs t)) (ht : ptr t = some x)
    (hu : ptr u = some y) (haddrs : addrs u = addrs t) (hrep : Rep T₁.nodes (above fs) u)
    (hsame : ∀ z ∈ pathAddrs fs, T₁.nodes z = T.nodes z) (hnext : T₁.next = T.next)
    (hroot : T₁.root = T.root) :
    ∃ T', replaceChild T₁ (some x) (some y) (above fs) = some T' ∧ Shows T' (zip fs u) := by
  have hpath := h.focus.2
  have hapart := h.nodup_zip.2.2
  cases fs with
  | nil =>
    refine ⟨{ T₁ with root := some y }, rfl, h.update hrep trivial haddrs ?_ hnext⟩
    exact hu.symm
  | cons f fs =>
    -- the frame has its node on one side and something else, or nothing, on the other one
    have hf : T₁.nodes f.val.addr = some (nodeOf f.color f.val (f.side.pick (some x)
        (ptr f.sibling)) (f.side.pick (ptr f.sibling) (some x)) (above fs)) := by
      rw [hsame _ (Multiset.mem_cons_self _ _), hpath.1, ht]
    have hsibling : ptr f.sibling ≠ some x := by
      intro hx
      refine Multiset.disjoint_left.mp hapart (ptr_mem ht) ?_
      exact Multiset.mem_cons_of_mem (Multiset.mem_add.mpr (.inl (ptr_mem hx)))
    have hstore : replaceChild T₁ (some x) (some y) (above (f :: fs)) =
        some (T₁.set f.val.addr (nodeOf f.color f.val (f.side.pick (some y) (ptr f.sibling))
          (f.side.pick (ptr f.sibling) (some y)) (above fs))) := by
      rw [replaceChild, above, if_neg (Option.some_ne_none _), load_some, hf]
      cases hside : f.side
      · rw [hside] at hf
        simp only [Side.pick_left] at hf ⊢
        simp [nodeOf, Ne.symm hsibling, store_some hf, setChild]
      · rw [hside] at hf
        simp only [Side.pick_right] at hf ⊢
        simp [nodeOf, store_some hf, setChild]
    have hpathNodup := h.nodup_zip.2.1
    rw [pathAddrs, Multiset.nodup_cons] at hpathNodup
    refine ⟨_, hstore, h.update ?_ ?_ haddrs ?_ hnext⟩
    · refine hrep.congr fun z hz => set_nodes_ne _ _ ?_
      rintro rfl
      exact Multiset.disjoint_left.mp hapart (haddrs ▸ hz) (Multiset.mem_cons_self _ _)
    · refine hpath.refill ?_ ?_
      · rw [set_nodes_self, hu]
      · intro z hz
        have hzf : z ≠ f.val.addr := fun heq => hpathNodup.1 (heq ▸ hz)
        rw [set_nodes_ne _ _ hzf, hsame z (Multiset.mem_cons_of_mem hz)]
    · rw [if_neg (List.cons_ne_nil f fs), set_root, hroot]

/-- A rotation at the hole of a path. -/
theorem rbtreeRotate_shows {T : RedBlackTree ν} {fs : List (Frame (Entry ν))} {d : Side}
    {c c' : Color} {a b : Entry ν} {A B C : ColorTree (Entry ν)}
    (h : Shows T (zip fs (join d c a A (join d c' b B C)))) :
    ∃ T', rbtreeRotate d T (some a.addr) = some T' ∧
      Shows T' (zip fs (join d c' b (join d c a A B) C)) := by
  obtain ⟨ha, hA, hb, hB, hC⟩ := by simpa only [rep_join_iff, ptr_join] using h.focus.1
  have hnodup := h.nodup
  simp only [addrs_zip, addrs_join] at hnodup
  obtain ⟨hab, hne, hapart, hBnodup⟩ := rotate_apart hnodup
  have hmoved : ∀ z, ptr B = some z → z ≠ a.addr ∧ z ≠ b.addr ∧ ∃ k, T.nodes z = some k := by
    intro z hz
    have hzne := hne z (.inr (.inl (ptr_mem hz)))
    exact ⟨hzne.1, hzne.2, hB.load_ptr hz⟩
  obtain ⟨T₁, hrun, hnext, hroot, hx, hy, hB₁, hsame⟩ := rotateNodes_run (d := d) (above fs) ha hb
    hab (by simpa only [child_nodeOf] using hmoved)
  rw [child_nodeOf, setChild_other_nodeOf, setParent_nodeOf] at hx
  rw [setParent_nodeOf, setChild_nodeOf] at hy
  rw [child_nodeOf] at hB₁ hsame
  have hsame' : ∀ z, z ∈ addrs A ∨ z ∈ addrs C ∨ z ∈ pathAddrs fs → T₁.nodes z = T.nodes z := by
    intro z hz
    have hzne := hne z (hz.imp_right .inr)
    exact hsame z hzne.1 hzne.2 fun hzB => hapart z hz (ptr_mem hzB)
  have hrep : Rep T₁.nodes (above fs) (join d c' b (join d c a A B) C) := by
    simp only [rep_join_iff, ptr_join]
    refine ⟨hy, ⟨hx, hA.congr fun z hz => hsame' z (.inl hz), ?_⟩,
      hC.congr fun z hz => hsame' z (.inr (.inl hz))⟩
    refine hB.reparent hBnodup hB₁ ?_
    intro z hz hzB
    have hzne := hne z (.inr (.inl hz))
    exact hsame z hzne.1 hzne.2 hzB
  have haddrs : addrs (join d c' b (join d c a A B) C) =
      addrs (join d c a A (join d c' b B C)) := by
    simp only [addrs_join, Multiset.cons_add, Multiset.add_cons, add_assoc]
    exact Multiset.cons_swap _ _ _
  obtain ⟨T', hreplace, hshows⟩ := replaceChild_shows h rfl rfl haddrs hrep
    (fun z hz => hsame' z (.inr (.inr hz))) hnext hroot
  refine ⟨T', ?_, hshows⟩
  simp only [rbtreeRotate, load_some, ha, Option.bind_eq_bind, Option.bind_some,
    child_other_nodeOf]
  rw [nodeOf, hrun]
  exact hreplace

/-! ## Reading and writing at the hole -/

namespace Shows

variable {T : RedBlackTree ν} {t : ColorTree (Entry ν)} {f g : Frame (Entry ν)}
  {fs : List (Frame (Entry ν))} {x : Nat}

theorem getColor (h : Shows T (zip fs t)) : rbtreeGetColor T (ptr t) = some t.color := by
  cases t with
  | nil => rfl
  | node c l a r =>
    rw [ptr, rbtreeGetColor, if_neg (Option.some_ne_none _), load_some, h.focus.1.1]
    rfl

theorem parentOf (h : Shows T (zip fs t)) (ht : ptr t = some x) :
    T.parentOf (some x) = some (above fs) := by
  cases t with
  | nil => cases ht
  | node c l a r =>
    cases ht
    rw [RedBlackTree.parentOf, load_some, h.focus.1.1]
    rfl

theorem grandparentOf (h : Shows T (zip (f :: fs) t)) (ht : ptr t = some x) :
    T.grandparentOf (some x) = some (above fs) := by
  have hparent : T.parentOf (some f.val.addr) = some (above fs) := parentOf (t := f.plug t) h rfl
  rw [RedBlackTree.grandparentOf, h.parentOf ht]
  exact hparent

/-- The node above the hole. -/
theorem load_above (h : Shows T (zip (f :: fs) t)) :
    T.nodes f.val.addr = some (nodeOf f.color f.val (f.side.pick (ptr t) (ptr f.sibling))
      (f.side.pick (ptr f.sibling) (ptr t)) (above fs)) :=
  h.focus.2.1

/-- What is in the hole is not what is beside it. -/
theorem sibling_ne (h : Shows T (zip (f :: fs) t)) (ht : ptr t = some x) :
    ptr f.sibling ≠ some x := by
  intro hx
  refine Multiset.disjoint_left.mp h.nodup_zip.2.2 (ptr_mem ht) ?_
  exact Multiset.mem_cons_of_mem (Multiset.mem_add.mpr (.inl (ptr_mem hx)))

theorem getUncle (h : Shows T (zip (f :: g :: fs) t)) (ht : ptr t = some x) :
    rbtreeGetUncle T (some x) = some (ptr g.sibling) := by
  have hg := load_above (f := g) (t := f.plug t) h
  have hne := sibling_ne (f := g) (t := f.plug t) (x := f.val.addr) h rfl
  rw [rbtreeGetUncle, h.parentOf ht, h.grandparentOf ht]
  simp only [above_cons, Option.bind_eq_bind, Option.bind_some, load_some, hg, Frame.plug, ptr_join]
  rw [if_neg (Option.some_ne_none _)]
  cases g.side
  · simp [nodeOf, Ne.symm hne]
  · simp [nodeOf]

/-- An assignment to the node in the hole that leaves its pointers alone. -/
theorem store_focus {c c' : Color} {l r : ColorTree (Entry ν)} {a a' : Entry ν}
    {w : RedBlackNode ν → RedBlackNode ν} (h : Shows T (zip fs (.node c l a r)))
    (hw : w (nodeOf c a (ptr l) (ptr r) (above fs)) = nodeOf c' a' (ptr l) (ptr r) (above fs))
    (ha : a'.addr = a.addr) :
    ∃ T', T.store (some a.addr) w = some T' ∧ Shows T' (zip fs (.node c' l a' r)) := by
  obtain ⟨⟨hnode, hl, hr⟩, hpath⟩ := h.focus
  obtain ⟨hnodup, -, hapart⟩ := h.nodup_zip
  simp only [addrs_node, Multiset.nodup_cons, Multiset.mem_add, not_or] at hnodup
  obtain ⟨⟨hal, har⟩, -⟩ := hnodup
  refine ⟨_, store_some hnode w, h.update ⟨?_, ?_, ?_⟩ ?_ ?_ ?_ rfl⟩
  · rw [ha, set_nodes_self, hw]
  · rw [ha]
    exact hl.congr fun z hz => set_nodes_ne _ _ fun heq => hal (heq ▸ hz)
  · rw [ha]
    exact hr.congr fun z hz => set_nodes_ne _ _ fun heq => har (heq ▸ hz)
  · rw [ptr, ha]
    refine RepPath.congr hpath fun z hz => set_nodes_ne _ _ ?_
    rintro rfl
    exact Multiset.disjoint_left.mp hapart (ptr_mem rfl) hz
  · rw [addrs_node, addrs_node, ha]
  · cases fs with
    | nil => rw [set_root, h.root, if_pos rfl, zip, ptr, ptr, ha]
    | cons f fs => rw [set_root, if_neg (List.cons_ne_nil f fs)]

theorem setColor (h : Shows T (zip fs t)) (c : Color) :
    ∃ T', rbtreeSetColor T (ptr t) c = some T' ∧ Shows T' (zip fs (t.setColor c)) := by
  cases t with
  | nil => exact ⟨T, rfl, h⟩
  | node c' l a r =>
    rw [ptr, rbtreeSetColor, if_neg (Option.some_ne_none _)]
    exact h.store_focus (w := paint c) rfl rfl

end Shows

end Snowflake
