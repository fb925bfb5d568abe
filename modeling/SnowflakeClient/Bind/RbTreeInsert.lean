import SnowflakeClient.Bind.RbTreeShape

/-!
# Insertion into the red-black tree

`rbtree_fix_tree` follows the path up as `repair` does, `rbtree_insert` follows it down as `descend`
does, and `rbtree_search_node` as `find` does.
-/

namespace Snowflake

open RedBlack ColorTree RedBlackNode

variable {ν : Type}

theorem join_other {α : Type} (d : Side) (c : Color) (a : α) (near far : ColorTree α) :
    join d.other c a far near = join d c a near far := by
  cases d <;> rfl

/-! ## The way up -/

section FixTree

variable {T : RedBlackTree ν} {t : ColorTree (Entry ν)} {p g : Frame (Entry ν)}
  {fs : List (Frame (Entry ν))} {x : Nat}

/-- One child is seen from the other one. -/
theorem zip_other (d : Side) (c : Color) (a : Entry ν) (fs : List (Frame (Entry ν)))
    (t s : ColorTree (Entry ν)) :
    zip (⟨d.other, c, a, t⟩ :: fs) s = zip (⟨d, c, a, s⟩ :: fs) t :=
  congrArg (zip fs) (join_other ..)

theorem Shows.sibling (h : Shows T (zip (g :: fs) t)) :
    Shows T (zip (⟨g.side.other, g.color, g.val, t⟩ :: fs) g.sibling) := by
  rw [zip_other]
  exact h

theorem Shows.grandparent_join {d d' : Side} {c c' : Color} {a b : Entry ν}
    {s u : ColorTree (Entry ν)} (h : Shows T (zip fs (join d c a (join d' c' b t s) u)))
    (ht : ptr t = some x) : T.grandparentOf (some x) = some (some a.addr) := by
  have hpath : Shows T (zip (⟨d', c', b, s⟩ :: ⟨d, c, a, u⟩ :: fs) t) := h
  exact hpath.grandparentOf ht

theorem flipColors_shows (h : Shows T (zip (p :: g :: fs) t)) (ht : ptr t = some x) :
    ∃ T', flipColors T (some x) (ptr g.sibling) = some (T', some g.val.addr) ∧
      Shows T' (zip fs (join g.side .red g.val (join p.side .black p.val t p.sibling)
        (g.sibling.setColor .black))) := by
  obtain ⟨T₁, hparent, h₁⟩ : ∃ T₁, rbtreeSetColor T (some p.val.addr) .black = some T₁ ∧
      Shows T₁ (zip (g :: fs) (join p.side .black p.val t p.sibling)) :=
    Shows.setColor (t := p.plug t) h .black
  obtain ⟨T₂, huncle, h₂⟩ := h₁.sibling.setColor .black
  rw [zip_other] at h₂
  obtain ⟨T₃, hgrandparent, h₃⟩ : ∃ T₃, rbtreeSetColor T₂ (some g.val.addr) .red = some T₃ ∧
      Shows T₃ (zip fs (join g.side .red g.val (join p.side .black p.val t p.sibling)
        (g.sibling.setColor .black))) :=
    Shows.setColor (t := join g.side g.color g.val _ _) h₂ .red
  refine ⟨T₃, ?_, h₃⟩
  -- the colours do not change the way up from the target
  have hup₂ : T₂.grandparentOf (some x) = some (some g.val.addr) := Shows.grandparent_join h₂ ht
  rw [flipColors, h.parentOf ht]
  simp only [above_cons, Option.bind_eq_bind, Option.bind_some, hparent, huncle, hup₂, hgrandparent,
    h₃.grandparent_join ht]

/-- The parent comes up in the place of its parent. -/
theorem rotateUp_shows {d : Side} {c c' : Color} {a b : Entry ν} {B C : ColorTree (Entry ν)}
    (h : Shows T (zip (⟨d, c, a, B⟩ :: ⟨d, c', b, C⟩ :: fs) t)) (ht : ptr t = some x) :
    ∃ T', rotateUp d T (some x) = some T' ∧
      Shows T' (zip fs (join d .black a t (join d .red b B C))) := by
  obtain ⟨T₁, hparent, h₁⟩ : ∃ T₁, rbtreeSetColor T (some a.addr) .black = some T₁ ∧
      Shows T₁ (zip (⟨d, .black, a, B⟩ :: ⟨d, c', b, C⟩ :: fs) t) :=
    Shows.setColor (t := join d c a t B) h .black
  obtain ⟨T₂, hgrandparent, h₂⟩ : ∃ T₂, rbtreeSetColor T₁ (some b.addr) .red = some T₂ ∧
      Shows T₂ (zip (⟨d, .black, a, B⟩ :: ⟨d, .red, b, C⟩ :: fs) t) :=
    Shows.setColor (t := join d c' b (join d .black a t B) C) h₁ .red
  have hturn : Shows T₂ (zip fs (join d.other .red b C (join d.other .black a B t))) := by
    rw [join_other, join_other]
    exact h₂
  obtain ⟨T₃, hrotate, h₃⟩ := rbtreeRotate_shows hturn
  rw [join_other, join_other] at h₃
  refine ⟨T₃, ?_, h₃⟩
  rw [rotateUp, h.parentOf ht]
  simp only [above_cons, Option.bind_eq_bind, Option.bind_some, hparent, h₁.grandparentOf ht,
    hgrandparent, h₂.grandparentOf ht]
  exact hrotate

theorem fixRound_flip (d : Side) (h : Shows T (zip (p :: g :: fs) t)) (ht : ptr t = some x)
    (hg : g.sibling.color = .red) :
    ∃ T', rbtreeFixRound d T (some x) = some (T', some g.val.addr) ∧
      Shows T' (zip fs (join g.side .red g.val (join p.side .black p.val t p.sibling)
        (g.sibling.setColor .black))) := by
  obtain ⟨T', hflip, h'⟩ := flipColors_shows h ht
  have huncle := (Shows.sibling (t := p.plug t) h).getColor
  refine ⟨T', ?_, h'⟩
  rw [rbtreeFixRound, h.getUncle ht]
  simp only [Option.bind_eq_bind, Option.bind_some, huncle, hg, if_true]
  exact hflip

/-- The target is an outer grandchild: one rotation. -/
theorem fixRound_outer (h : Shows T (zip (p :: g :: fs) t)) (ht : ptr t = some x)
    (hg : ¬g.sibling.color = .red) (hside : p.side = g.side) :
    ∃ T', rbtreeFixRound g.side T (some x) = some (T', some x) ∧
      Shows T' (zip fs (join g.side .black p.val t (join g.side .red g.val p.sibling
        g.sibling))) := by
  obtain ⟨d, c, a, S⟩ := p
  obtain rfl : d = g.side := hside
  have huncle := (Shows.sibling (t := join g.side c a t S) h).getColor
  obtain ⟨T', hrotate, h'⟩ := rotateUp_shows h ht
  refine ⟨T', ?_, h'⟩
  rw [rbtreeFixRound, h.getUncle ht]
  simp only [Option.bind_eq_bind, Option.bind_some, huncle, hg, if_false, h.parentOf ht, above_cons,
    load_some, h.load_above, child_other_nodeOf]
  rw [if_neg (h.sibling_ne ht).symm, hrotate]
  rfl

/-- The target is an inner grandchild: it is rotated out first. -/
theorem fixRound_inner {c : Color} {a : Entry ν} {A B : ColorTree (Entry ν)}
    (h : Shows T (zip (p :: g :: fs) (join g.side c a A B))) (hg : ¬g.sibling.color = .red)
    (hside : ¬p.side = g.side) :
    ∃ T', rbtreeFixRound g.side T (some a.addr) = some (T', some p.val.addr) ∧
      Shows T' (zip fs (join g.side .black a (join g.side p.color p.val p.sibling A)
        (join g.side .red g.val B g.sibling))) := by
  obtain ⟨d, c', b, S⟩ := p
  obtain rfl : d = g.side.other := by
    revert hside
    cases d <;> cases g.side <;> simp [Side.other]
  have huncle := (Shows.sibling (t := join g.side.other c' b _ S) h).getColor
  have hturn : Shows T (zip (g :: fs) (join g.side c' b S (join g.side c a A B))) := by
    rw [← join_other]
    exact h
  obtain ⟨T₁, hrotate, h₁⟩ := rbtreeRotate_shows hturn
  have hpath : Shows T₁ (zip (⟨g.side, c, a, B⟩ :: ⟨g.side, g.color, g.val, g.sibling⟩ :: fs)
      (join g.side c' b S A)) := h₁
  obtain ⟨T', hup, h'⟩ := rotateUp_shows hpath rfl
  refine ⟨T', ?_, h'⟩
  rw [rbtreeFixRound, h.getUncle rfl]
  simp only [Option.bind_eq_bind, Option.bind_some, huncle, hg, if_false, h.parentOf rfl,
    above_cons, load_some, h.load_above, ptr_join, child_nodeOf, if_true, hrotate, hup]

/-- The loop ends below a black node. -/
theorem fixLoop_stop {f : Frame (Entry ν)} (h : Shows T (zip (f :: fs) t)) (ht : ptr t = some x)
    (hf : f.color = .black) (fuel : Nat) : rbtreeFixLoop (fuel + 1) T (some x) = some T := by
  have hcolor : rbtreeGetColor T (some f.val.addr) = some f.color :=
    Shows.getColor (t := f.plug t) h
  rw [rbtreeFixLoop]
  by_cases hroot : some x = T.root
  · rw [if_pos hroot]
  · rw [if_neg hroot, h.parentOf ht]
    simp [above_cons, hcolor, hf]

theorem ptr_zip_mem (f : Frame (Entry ν)) (fs : List (Frame (Entry ν)))
    (t : ColorTree (Entry ν)) : ∃ a ∈ pathAddrs (f :: fs), ptr (zip (f :: fs) t) = some a := by
  induction fs generalizing f t with
  | nil => exact ⟨f.val.addr, Multiset.mem_cons_self _ _, rfl⟩
  | cons g fs ih =>
    obtain ⟨a, ha, hptr⟩ := ih g (f.plug t)
    exact ⟨a, Multiset.mem_cons_of_mem (Multiset.mem_add.mpr (.inr ha)), hptr⟩

theorem Shows.ne_root {f : Frame (Entry ν)} (h : Shows T (zip (f :: fs) t)) (ht : ptr t = some x) :
    some x ≠ T.root := by
  intro hx
  obtain ⟨a, ha, hptr⟩ := ptr_zip_mem f fs t
  rw [h.root, hptr] at hx
  cases hx
  exact Multiset.disjoint_left.mp h.nodup_zip.2.2 (ptr_mem ht) ha

theorem eq_red_of_ne {c : Color} (h : ¬c = .black) : c = .red := by
  cases c with
  | red => rfl
  | black => exact absurd rfl h

/-- A round of the loop, below a red node that is the child of `g`. -/
theorem fixLoop_round (h : Shows T (zip (p :: g :: fs) t)) (ht : ptr t = some x)
    (hp : ¬p.color = .black) (fuel : Nat) :
    rbtreeFixLoop (fuel + 1) T (some x) =
      (rbtreeFixRound g.side T (some x)).bind fun r => rbtreeFixLoop fuel r.1 r.2 := by
  have hcolor : rbtreeGetColor T (some p.val.addr) = some p.color :=
    Shows.getColor (t := p.plug t) h
  have hparent : T.parentOf (some p.val.addr) = some (some g.val.addr) :=
    Shows.parentOf (t := p.plug t) h rfl
  have hg := Shows.load_above (t := p.plug t) h
  have hne := Shows.sibling_ne (t := p.plug t) (x := p.val.addr) h rfl
  have hside : (if some p.val.addr = (nodeOf g.color g.val (g.side.pick (ptr (p.plug t))
      (ptr g.sibling)) (g.side.pick (ptr g.sibling) (ptr (p.plug t))) (above fs)).left
      then Side.left else Side.right) = g.side := by
    cases g.side
    · exact if_pos rfl
    · exact if_neg hne.symm
  rw [rbtreeFixLoop, if_neg (h.ne_root ht), h.parentOf ht]
  simp only [above_cons, Option.bind_eq_bind, Option.bind_some, hcolor, eq_red_of_ne hp, if_true,
    hparent, load_some, hg, hside]

/-- The loop of `rbtree_fix_tree` ends, and mends the tree. -/
theorem fixLoop_shows {l r : ColorTree (Entry ν)} {a : Entry ν} {fs : List (Frame (Entry ν))}
    {n : Nat} (hsound : Sound fs n) {T : RedBlackTree ν} {fuel : Nat} (hfuel : fs.length < fuel)
    (h : Shows T (zip fs (.node .red l a r))) :
    ∃ T', rbtreeFixLoop fuel T (some a.addr) = some T' ∧ Shows T' (repair l a r fs) := by
  fun_induction repair l a r fs generalizing n T fuel with
  | case1 l a r p g fs hp =>
    obtain ⟨k, rfl⟩ : ∃ k, fuel = k + 1 := ⟨fuel - 1, by omega⟩
    exact ⟨T, fixLoop_stop h rfl hp k, h⟩
  | case2 l a r p g fs hp hg ih =>
    obtain ⟨-, -, hsound'⟩ := hsound.of_red hp
    simp only [List.length_cons] at hfuel
    obtain ⟨k, rfl⟩ : ∃ k, fuel = k + 1 := ⟨fuel - 1, by omega⟩
    obtain ⟨T₁, hround, h₁⟩ := fixRound_flip g.side h rfl hg
    have hlen : fs.length < k := by omega
    obtain ⟨T', hloop, h'⟩ := ih hsound' hlen h₁
    refine ⟨T', ?_, h'⟩
    rw [fixLoop_round h rfl hp, hround]
    exact hloop
  | case3 l a r p g fs hp hg hside =>
    simp only [List.length_cons] at hfuel
    obtain ⟨k, rfl⟩ : ∃ k, fuel = k + 2 := ⟨fuel - 2, by omega⟩
    obtain ⟨T₁, hround, h₁⟩ := fixRound_outer h rfl hg hside
    refine ⟨T₁, ?_, h₁⟩
    have hpath : Shows T₁ (zip (⟨g.side, .black, p.val, _⟩ :: fs) (.node .red l a r)) := h₁
    rw [fixLoop_round h rfl hp, hround]
    exact fixLoop_stop hpath rfl rfl k
  | case4 l a r p g fs hp hg hside =>
    simp only [List.length_cons] at hfuel
    obtain ⟨k, rfl⟩ : ∃ k, fuel = k + 2 := ⟨fuel - 2, by omega⟩
    have hjoin : (.node .red l a r : ColorTree (Entry ν)) =
        join g.side .red a (g.side.pick l r) (g.side.pick r l) := by
      cases g.side <;> rfl
    rw [hjoin] at h
    obtain ⟨T₁, hround, h₁⟩ := fixRound_inner h hg hside
    rw [eq_red_of_ne hp] at h₁
    refine ⟨T₁, ?_, h₁⟩
    have hpath : Shows T₁ (zip (⟨g.side, .black, a, _⟩ :: fs)
      (join g.side .red p.val p.sibling (g.side.pick l r))) := h₁
    rw [fixLoop_round h rfl hp, hround]
    exact fixLoop_stop hpath rfl rfl k
  | case5 l a r fs hfs =>
    obtain ⟨k, rfl⟩ : ∃ k, fuel = k + 1 := ⟨fuel - 1, by omega⟩
    cases hsound with
    | top => exact ⟨T, by rw [rbtreeFixLoop, h.root]; exact if_pos rfl, h⟩
    | black hf => exact ⟨T, fixLoop_stop h rfl hf k, h⟩
    | red => exact absurd rfl (hfs _ _ _)

theorem length_le_card_pathAddrs (fs : List (Frame (Entry ν))) :
    fs.length ≤ (pathAddrs fs).card := by
  induction fs with
  | nil => exact Nat.zero_le _
  | cons f fs ih =>
    simp only [pathAddrs, List.length_cons, Multiset.card_cons, Multiset.card_add]
    omega

/-- There are not more nodes than were allocated. -/
theorem Shows.card_le (h : Shows T t) : (addrs t).card ≤ T.next := by
  have hsub : (addrs t).toFinset ⊆ Finset.range T.next := by
    intro a ha
    exact Finset.mem_range.mpr (h.lt a (Multiset.mem_toFinset.mp ha))
  have hcard := Finset.card_le_card hsub
  rwa [Multiset.toFinset_card_of_nodup h.nodup, Finset.card_range] at hcard

theorem fixTree_shows {l r : ColorTree (Entry ν)} {a : Entry ν} {n : Nat} (hsound : Sound fs n)
    (h : Shows T (zip fs (.node .red l a r))) :
    ∃ T', rbtreeFixTree T (some a.addr) = some (.success, T') ∧
      Shows T' ((repair l a r fs).setColor .black) := by
  have hfuel : fs.length < T.next + 1 := by
    have hcard := h.card_le
    have hlen := length_le_card_pathAddrs fs
    rw [addrs_zip, Multiset.card_add] at hcard
    omega
  obtain ⟨T₁, hloop, h₁⟩ := fixLoop_shows hsound hfuel h
  have hne : repair l a r fs ≠ .nil := by
    intro hnil
    have hinorder := inorder_repair l a r fs
    simp [hnil, inorder] at hinorder
  generalize repair l a r fs = u at h₁ hne ⊢
  cases u with
  | nil => exact absurd rfl hne
  | node c l' b r' =>
    have hstore : ∃ T', T₁.store (some b.addr) (paint .black) = some T' ∧
        Shows T' (zip [] (.node .black l' b r')) := Shows.store_focus h₁ rfl rfl
    obtain ⟨T', hstore, h'⟩ := hstore
    refine ⟨T', ?_, h'⟩
    rw [rbtreeFixTree, if_neg (Option.some_ne_none _), hloop]
    simp only [Option.bind_eq_bind, Option.bind_some, h₁.root, ptr, hstore]

end FixTree

/-! ## The way down -/

section Insert

variable {T : RedBlackTree ν} {t : ColorTree (Entry ν)} {fs : List (Frame (Entry ν))}
  (param : ν) (name : CString)

/-- The entry that is written for `name`, at its old address or at `addr`. -/
def entryAt (addr : Nat) (old : Option (Entry ν)) : Entry ν :=
  ⟨(old.map Entry.addr).getD addr, name, param⟩

theorem newNode_nodes_next (T : RedBlackTree ν) :
    (rbtreeNewNode T).2.nodes T.next = some zero := Function.update_self ..

theorem newNode_nodes_ne (T : RedBlackTree ν) {z : Nat} (hz : z ≠ T.next) :
    (rbtreeNewNode T).2.nodes z = T.nodes z := Function.update_of_ne hz ..

/-- What `addChild` writes: the pointer in the parent, and the new node. -/
theorem addChild_run {d : Side} {x : Nat} {n : RedBlackNode ν} (hx : T.nodes x = some n)
    (hxnext : x ≠ T.next) :
    ∃ T', addChild param name d T (some x) = some (some T.next, T') ∧ T'.next = T.next + 1 ∧
      T'.root = T.root ∧ T'.nodes x = some (setChild (some T.next) d n) ∧
      T'.nodes T.next = some (nodeOf .red ⟨T.next, name, param⟩ none none (some x)) ∧
      ∀ z, z ≠ x → z ≠ T.next → T'.nodes z = T.nodes z := by
  have hxnext' := hxnext.symm
  have hx' := newNode_nodes_ne T hxnext
  rw [hx] at hx'
  have hnew := newNode_nodes_next T
  refine ⟨(((((rbtreeNewNode T).2.set x (setChild (some T.next) d n)).set T.next
    (setEntry name param zero)).set T.next (setParent (some x) (setEntry name param zero))).set
      T.next (paint .red (setParent (some x) (setEntry name param zero)))), ?_, rfl, rfl, ?_, ?_,
    ?_⟩
  · have hptr : (rbtreeNewNode T).1 = some T.next := rfl
    simp [addChild, hptr, store_some, hx', hnew, hxnext']
  · simp [hxnext]
  · simp [nodeOf, paint, setParent, setEntry, zero]
  · intro z hzx hznext
    simp [hzx, hznext, newNode_nodes_ne T hznext]

/-- The new node, before the tree is mended. -/
theorem addChild_shows {f : Frame (Entry ν)} (h : Shows T (zip (f :: fs) .nil)) :
    ∃ T', addChild param name f.side T (some f.val.addr) = some (some T.next, T') ∧
      Shows T' (zip (f :: fs) (.node .red .nil ⟨T.next, name, param⟩ .nil)) := by
  have hlt : ∀ z ∈ pathAddrs (f :: fs), z < T.next := by
    intro z hz
    exact h.lt z (by rw [addrs_zip]; exact Multiset.mem_add.mpr (.inr hz))
  have hpathNodup := h.nodup_zip.2.1
  obtain ⟨T', hrun, hnext, hroot, hf, hnew, hsame⟩ :=
    addChild_run param name h.load_above (hlt _ (Multiset.mem_cons_self _ _)).ne
  rw [setChild_nodeOf] at hf
  have haddrs : addrs (zip (f :: fs) (.node .red .nil ⟨T.next, name, param⟩ .nil)) =
      T.next ::ₘ pathAddrs (f :: fs) := by
    rw [addrs_zip, addrs_node, addrs_nil, add_zero, Multiset.cons_add, zero_add]
  refine ⟨T', hrun, (rep_zip_iff _ _).mpr ⟨⟨hnew, trivial, trivial⟩, ?_⟩, ?_, ?_, ?_⟩
  · refine h.focus.2.refill hf ?_
    intro z hz
    have hzf : z ≠ f.val.addr := fun heq => (Multiset.nodup_cons.mp hpathNodup).1 (heq ▸ hz)
    exact hsame z hzf (hlt z (Multiset.mem_cons_of_mem hz)).ne
  · rw [hroot, h.root]
    exact ptr_zip_cons f fs _ _
  · rw [haddrs, Multiset.nodup_cons]
    exact ⟨fun hmem => (hlt _ hmem).ne rfl, hpathNodup⟩
  · intro z hz
    rw [haddrs, Multiset.mem_cons] at hz
    rw [hnext]
    rcases hz with rfl | hz
    · exact Nat.lt_succ_self _
    · exact Nat.lt_succ_of_lt (hlt z hz)

/-- What `rbtree_insert` returns. -/
def insertCode : Option (Entry ν) → IntRetCode
  | none => .success
  | some _ => .duplicates

/-- A round of the loop that goes down to `u`, or puts the new node there. -/
theorem insertLoop_down {f : Frame (Entry ν)} {u : ColorTree (Entry ν)}
    (h : Shows T (zip (f :: fs) u)) (hne : name ≠ f.val.key)
    (hside : f.side = if f.val.key < name then .right else .left) (fuel : Nat) :
    rbtreeInsertLoop param name (fuel + 1) T (some f.val.addr) =
      if ptr u ≠ none then rbtreeInsertLoop param name fuel T (ptr u)
      else (addChild param name f.side T (some f.val.addr)).bind fun r =>
        (rbtreeFixTree r.2 r.1).bind fun r => some (.success, r.2) := by
  have hcmp : ¬name.strcmp f.val.key = 0 := fun h => hne (CString.strcmp_eq_zero_iff.mp h)
  have hkey : (nodeOf f.color f.val (f.side.pick (ptr u) (ptr f.sibling))
      (f.side.pick (ptr f.sibling) (ptr u)) (above fs)).key = some f.val.key := rfl
  rw [rbtreeInsertLoop]
  simp only [load_some, h.load_above, Option.bind_eq_bind, Option.bind_some, hkey, hcmp, if_false,
    CString.strcmp_pos_iff, ← hside, child_nodeOf]

/-- The loop from the node above `u`, if it does well from `u`. -/
theorem insertLoop_above {f : Frame (Entry ν)} {u : ColorTree (Entry ν)} {n fuel : Nat}
    (h : Shows T (zip (f :: fs) u)) (hsound : Sound (f :: fs) n) (hne : name ≠ f.val.key)
    (hside : f.side = if f.val.key < name then .right else .left)
    (ih : u ≠ .nil → ∃ T', rbtreeInsertLoop param name fuel T (ptr u) =
        some (insertCode (find Entry.key name u), T') ∧
      Shows T' (put (entryAt param name T.next) (descend Entry.key name u (f :: fs)))) :
    ∃ T', rbtreeInsertLoop param name (fuel + 1) T (some f.val.addr) =
        some (insertCode (find Entry.key name u), T') ∧
      Shows T' (put (entryAt param name T.next) (descend Entry.key name u (f :: fs))) := by
  rw [insertLoop_down param name h hne hside]
  cases u with
  | nil =>
    obtain ⟨T₁, hadd, h₁⟩ := addChild_shows param name h
    obtain ⟨T', hfix, h'⟩ := fixTree_shows hsound h₁
    refine ⟨T', ?_, h'⟩
    rw [ptr, if_neg (not_not_intro rfl), hadd, Option.bind_some, hfix]
    rfl
  | node c l a r =>
    have hptr : ptr (.node c l a r) ≠ none := Option.some_ne_none _
    rw [if_pos hptr]
    exact ih (by simp)

/-- The loop of `rbtree_insert` puts the entry at its place. -/
theorem insertLoop_shows {c : Color} {n : Nat} {fuel : Nat} (hnil : t ≠ .nil)
    (h : Shows T (zip fs t)) (hsound : Sound fs n) (hbal : Balanced t c n) (hfits : Fits c fs)
    (hfuel : (addrs t).card ≤ fuel) :
    ∃ T', rbtreeInsertLoop param name fuel T (ptr t) =
        some (insertCode (find Entry.key name t), T') ∧
      Shows T' (put (entryAt param name T.next) (descend Entry.key name t fs)) := by
  induction t generalizing fs c n fuel with
  | nil => exact absurd rfl hnil
  | node c' l a r ihl ihr =>
    simp only [addrs_node, Multiset.card_cons, Multiset.card_add] at hfuel
    obtain ⟨k, rfl⟩ : ∃ k, fuel = k + 1 := ⟨fuel - 1, by omega⟩
    by_cases hname : name = a.key
    · have hload := h.focus.1.1
      have hkey : (nodeOf c' a (ptr l) (ptr r) (above fs)).key = some a.key := rfl
      have hcmp : name.strcmp a.key = 0 := CString.strcmp_eq_zero_iff.mpr hname
      have hstore : ∃ T', T.store (some a.addr) (setEntry name param) = some T' ∧
          Shows T' (zip fs (.node c' l ⟨a.addr, name, param⟩ r)) := h.store_focus rfl rfl
      obtain ⟨T', hstore, h'⟩ := hstore
      refine ⟨T', ?_, ?_⟩
      · rw [ptr, rbtreeInsertLoop, find, if_pos hname]
        simp only [load_some, hload, Option.bind_eq_bind, Option.bind_some, hkey, hcmp, if_true,
          hstore]
        rfl
      · rw [descend, if_pos hname]
        exact h'
    · by_cases hlt : a.key < name
      · have hpath : Shows T (zip (⟨.right, c', a, l⟩ :: fs) r) := h
        obtain ⟨e, m, hsound', hr, hfits'⟩ := Sound.push (d := .right) hsound hbal hfits
        rw [find, if_neg hname, if_pos hlt, descend, if_neg hname, if_pos hlt]
        refine insertLoop_above param name hpath hsound' hname (if_pos hlt).symm ?_
        intro hr'
        exact ihr hr' hpath hsound' hr hfits' (by omega)
      · have hpath : Shows T (zip (⟨.left, c', a, r⟩ :: fs) l) := h
        obtain ⟨e, m, hsound', hl, hfits'⟩ := Sound.push (d := .left) hsound hbal hfits
        rw [find, if_neg hname, if_neg hlt, descend, if_neg hname, if_neg hlt]
        refine insertLoop_above param name hpath hsound' hname (if_neg hlt).symm ?_
        intro hl'
        exact ihl hl' hpath hsound' hl hfits' (by omega)

end Insert

/-! ## The whole functions -/

/-- The nodes of `T` are the tree `t`. A tree without entries has one node, without a key. -/
def Represents (T : RedBlackTree ν) : ColorTree (Entry ν) → Prop
  | .nil => ∃ a, T.root = some a ∧ a < T.next ∧ T.nodes a = some (paint .black zero)
  | .node c l a r => Shows T (.node c l a r)

theorem represents_init : Represents (rbtreeInit : RedBlackTree ν) .nil :=
  ⟨0, rfl, Nat.one_pos, rfl⟩

theorem represents_of_ne_nil {T : RedBlackTree ν} {t : ColorTree (Entry ν)} (ht : t ≠ .nil) :
    Represents T t ↔ Shows T t := by
  cases t with
  | nil => exact absurd rfl ht
  | node c l a r => exact Iff.rfl

theorem alter_ne_nil {t : ColorTree (Entry ν)} (ht : Sorted Entry.key t) (k : CString)
    (new : Option (Entry ν) → Entry ν) : alter Entry.key k new t ≠ .nil := by
  intro hnil
  have hmem : new (find Entry.key k t) ∈ (alter Entry.key k new t).inorder :=
    (mem_alter ht).mpr (.inl rfl)
  rw [hnil] at hmem
  cases hmem

/-- `rbtree_insert` is insertion. -/
theorem insert_represents {T : RedBlackTree ν} {t : ColorTree (Entry ν)} {n : Nat}
    (h : Represents T t) (hbal : Balanced t .black n) (hsorted : Sorted Entry.key t) (param : ν)
    (name : CString) :
    ∃ T' addr, rbtreeInsert T (some param) (some name) =
        some (insertCode (find Entry.key name t), T') ∧
      Represents T' (alter Entry.key name (entryAt param name addr) t) := by
  cases t with
  | nil =>
    obtain ⟨a, hroot, hlt, hnode⟩ := h
    refine ⟨T.set a (nodeOf .black ⟨a, name, param⟩ none none none), a, ?_, ?_⟩
    · simp only [rbtreeInsert, hroot, hnode, Option.bind_eq_bind, Option.bind_some,
        store_some hnode]
      rfl
    · refine ⟨⟨set_nodes_self .., trivial, trivial⟩, hroot, ?_, ?_⟩
      · exact Multiset.nodup_singleton a
      · intro z hz
        rw [Multiset.mem_singleton.mp hz]
        exact hlt
  | node c l a r =>
    obtain ⟨T', hrun, h'⟩ := insertLoop_shows (t := .node c l a r) param name (by simp)
      (show Shows T (zip [] _) from h) (.top n) hbal (fun h => Color.noConfusion h) h.card_le
    refine ⟨T', T.next, ?_, ?_⟩
    · have hroot : T.root = some a.addr := h.root
      have hload : T.nodes a.addr = some (nodeOf c a (ptr l) (ptr r) none) := h.rep.1
      have helem : (nodeOf c a (ptr l) (ptr r) none).elem.isNone = false := rfl
      simp only [rbtreeInsert, hroot, hload, Option.bind_eq_bind, Option.bind_some, helem]
      exact hrun
    · exact (represents_of_ne_nil (alter_ne_nil hsorted _ _)).mpr h'

end Snowflake
