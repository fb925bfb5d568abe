import SnowflakeClient.Bind.RbTreeInsert

/-!
# The red-black tree as a finite map

What any calls of `rbtree_insert` on an empty tree leave (`Tells`): a tree that is coloured right
and in order, and that finds the last value of every key.

* `rbtree_invariants`: the red-black invariants of the nodes.
-/

namespace Snowflake

open RedBlack ColorTree RedBlackNode

variable {ν : Type}

/-! ## Searching -/

theorem searchLoop_shows {T : RedBlackTree ν} (key : CString) {t : ColorTree (Entry ν)}
    {parent : NodePtr} {fuel : Nat} (h : Rep T.nodes parent t) (hnil : t ≠ .nil)
    (hfuel : (addrs t).card ≤ fuel) :
    rbtreeSearchLoop T key fuel (ptr t) = some ((find Entry.key key t).map Entry.elem) := by
  induction t generalizing parent fuel with
  | nil => exact absurd rfl hnil
  | node c l a r ihl ihr =>
    obtain ⟨hnode, hl, hr⟩ := h
    simp only [addrs_node, Multiset.card_cons, Multiset.card_add] at hfuel
    obtain ⟨k, rfl⟩ : ∃ k, fuel = k + 1 := ⟨fuel - 1, by omega⟩
    have hkey : (nodeOf c a (ptr l) (ptr r) parent).key = some a.key := rfl
    rw [ptr, rbtreeSearchLoop, find]
    simp only [load_some, hnode, Option.bind_eq_bind, Option.bind_some, hkey,
      CString.strcmp_eq_zero_iff, CString.strcmp_neg_iff]
    by_cases hk : key = a.key
    · rw [if_pos hk, if_pos hk]
      rfl
    rw [if_neg hk, if_neg hk]
    -- the source asks for the left side, `find` for the right one
    by_cases hlt : a.key < key
    · rw [if_pos hlt, if_neg hlt.not_gt]
      cases r with
      | nil => rfl
      | node c' l' b r' => exact ihr hr (by simp) (by omega)
    · rw [if_neg hlt, if_pos (lt_of_le_of_ne (not_lt.mp hlt) hk)]
      cases l with
      | nil => rfl
      | node c' l' b r' => exact ihl hl (by simp) (by omega)

/-- `rbtree_search_node` finds what is there. -/
theorem search_represents {T : RedBlackTree ν} {t : ColorTree (Entry ν)} (h : Represents T t)
    (key : CString) :
    rbtreeSearchNode (some T) (some key) = some ((find Entry.key key t).map Entry.elem) := by
  cases t with
  | nil =>
    obtain ⟨a, hroot, -, hnode⟩ := h
    simp only [rbtreeSearchNode, hroot, load_some, hnode]
    rfl
  | node c l a r =>
    have hroot : T.root = some a.addr := h.root
    have hload : T.nodes a.addr = some (nodeOf c a (ptr l) (ptr r) none) := h.rep.1
    have helem : (nodeOf c a (ptr l) (ptr r) none).elem.isNone = false := rfl
    have hloop := searchLoop_shows key h.rep (by simp) h.card_le
    simp only [rbtreeSearchNode, hroot, load_some, hload, Option.bind_eq_bind, Option.bind_some,
      helem]
    exact hloop

/-! ## Runs -/

section LastSet

variable {κ : Type} [DecidableEq κ]

/-- The value of the last of the calls with the key `k`. -/
def lastSet (calls : List (κ × ν)) (k : κ) : Option ν :=
  (calls.reverse.find? fun call => call.1 = k).map Prod.snd

@[simp] theorem lastSet_nil (k : κ) : lastSet ([] : List (κ × ν)) k = none := rfl

@[simp] theorem lastSet_append (calls : List (κ × ν)) (key : κ) (v : ν) (k : κ) :
    lastSet (calls ++ [(key, v)]) k = if k = key then some v else lastSet calls k := by
  rw [lastSet, List.reverse_append, List.reverse_singleton, List.singleton_append, List.find?_cons]
  by_cases hk : key = k
  · simp [hk]
  · simp [hk, Ne.symm hk, lastSet]

theorem lastSet_isSome_iff (calls : List (κ × ν)) (k : κ) :
    (lastSet calls k).isSome ↔ k ∈ calls.map Prod.fst := by
  induction calls using List.reverseRecOn with
  | nil => simp
  | append_singleton calls call ih =>
    obtain ⟨key, v⟩ := call
    rw [lastSet_append]
    by_cases hk : k = key
    · simp [hk]
    · simp [hk, ih]

theorem mem_of_lastSet {calls : List (κ × ν)} {k : κ} {v : ν} (h : lastSet calls k = some v) :
    (k, v) ∈ calls := by
  obtain ⟨⟨key, v'⟩, hfind, rfl⟩ := Option.map_eq_some_iff.mp h
  obtain rfl : key = k := by simpa using List.find?_some hfind
  exact List.mem_reverse.mp (List.mem_of_find?_eq_some hfind)

end LastSet

/-- The tree is coloured right and in order, and it knows the values `m`. -/
structure Tells (T : RedBlackTree ν) (t : ColorTree (Entry ν)) (m : CString → Option ν) : Prop where
  represents : Represents T t
  sorted : Sorted Entry.key t
  balanced : ∃ n, Balanced t .black n
  value : ∀ k, (find Entry.key k t).map Entry.elem = m k

theorem tells_init : Tells (rbtreeInit : RedBlackTree ν) .nil fun _ => none where
  represents := represents_init
  sorted := List.Pairwise.nil
  balanced := ⟨0, .nil⟩
  value := fun _ => rfl

theorem insertCode_eq (old : Option (Entry ν)) :
    insertCode old = if (old.map Entry.elem).isSome then .duplicates else .success := by
  cases old <;> rfl

theorem Tells.insert {T : RedBlackTree ν} {t : ColorTree (Entry ν)} {m : CString → Option ν}
    (h : Tells T t m) (name : CString) (param : ν) :
    ∃ T' t', rbtreeInsert T (some param) (some name) =
        some (if (m name).isSome then .duplicates else .success, T') ∧
      Tells T' t' (fun k => if k = name then some param else m k) := by
  obtain ⟨n, hbal⟩ := h.balanced
  obtain ⟨T', addr, hrun, h'⟩ := insert_represents h.represents hbal h.sorted param name
  have hnew : ∀ old, (entryAt param name addr old).key = name := fun _ => rfl
  refine ⟨T', _, ?_, h', alter_sorted hnew h.sorted, alter_balanced hbal, ?_⟩
  · rw [hrun, insertCode_eq, h.value]
  · intro k
    rw [find_alter hnew h.sorted]
    by_cases hk : k = name
    · rw [if_pos hk, if_pos hk]
      rfl
    · rw [if_neg hk, if_neg hk, h.value]

/-- The calls of `rbtree_insert`, one after the other. -/
def insertAll (calls : List (CString × ν)) (T : RedBlackTree ν) : Option (RedBlackTree ν) :=
  calls.foldlM (fun T call => (rbtreeInsert T (some call.2) (some call.1)).map Prod.snd) T

theorem insertAll_tells (calls : List (CString × ν)) :
    ∃ T t, insertAll calls rbtreeInit = some T ∧ Tells T t (lastSet calls) := by
  induction calls using List.reverseRecOn with
  | nil => exact ⟨_, _, rfl, tells_init⟩
  | append_singleton calls call ih =>
    obtain ⟨T, t, hrun, h⟩ := ih
    obtain ⟨T', t', hinsert, h'⟩ := h.insert call.1 call.2
    refine ⟨T', t', ?_, ?_⟩
    · rw [insertAll, List.foldlM_append]
      rw [insertAll] at hrun
      simp [hrun, hinsert]
    · have hlast : lastSet (calls ++ [call]) =
          fun k => if k = call.1 then some call.2 else lastSet calls k :=
        funext fun k => lastSet_append calls call.1 call.2 k
      rw [hlast]
      exact h'

/-! ## The invariants of the nodes -/

/-- Every child of the node at `a` has `a` as its parent. -/
def ChildrenPointBack (T : RedBlackTree ν) (a : Nat) : Prop :=
  ∀ n d b, T.nodes a = some n → n.child d = some b → ∃ m, T.nodes b = some m ∧ m.parent = some a

theorem Rep.parent_ptr {nodes : Nat → Option (RedBlackNode ν)} {parent : NodePtr}
    {t : ColorTree (Entry ν)} (h : Rep nodes parent t) {b : Nat} (hb : ptr t = some b) :
    ∃ m, nodes b = some m ∧ m.parent = parent := by
  cases t with
  | nil => cases hb
  | node c l a r =>
    cases hb
    exact ⟨_, h.1, rfl⟩

theorem Rep.childrenPointBack {T : RedBlackTree ν} {parent : NodePtr} {t : ColorTree (Entry ν)}
    (h : Rep T.nodes parent t) : ∀ a ∈ addrs t, ChildrenPointBack T a := by
  induction t generalizing parent with
  | nil => simp
  | node c l a r ihl ihr =>
    obtain ⟨hnode, hl, hr⟩ := h
    intro z hz
    simp only [addrs_node, Multiset.mem_cons, Multiset.mem_add] at hz
    rcases hz with rfl | hz | hz
    · intro n d b hn hb
      cases hnode.symm.trans hn
      cases d
      · exact hl.parent_ptr hb
      · exact hr.parent_ptr hb
    · exact ihl hl z hz
    · exact ihr hr z hz

theorem Tells.mem_keys_iff {T : RedBlackTree ν} {t : ColorTree (Entry ν)} {m : CString → Option ν}
    (h : Tells T t m) (k : CString) : k ∈ t.inorder.map Entry.key ↔ (m k).isSome := by
  rw [← h.value, Option.isSome_map, Option.isSome_iff_exists]
  simp only [find_eq_some_iff h.sorted, List.mem_map]

/-- After any insertions into an empty tree, all of which return, the nodes are a tree in which
every child points back to its parent. Its keys are the inserted ones, in the order of `strcmp`. Its
root is black, no red node has a red child, and every way down from the root meets the same number
of black nodes. -/
theorem rbtree_invariants (calls : List (CString × ν)) :
    ∃ T t, insertAll calls rbtreeInit = some T ∧ Represents T t ∧
      (∀ a ∈ addrs t, ChildrenPointBack T a) ∧
      (t.inorder.map Entry.key).Pairwise (fun j k => j.strcmp k < 0) ∧
      (∀ k, k ∈ t.inorder.map Entry.key ↔ k ∈ calls.map Prod.fst) ∧
      t.color = .black ∧ t.NoRedRed ∧ ∃ n, ∀ path ∈ t.paths, path.count .black = n := by
  obtain ⟨T, t, hrun, h⟩ := insertAll_tells calls
  obtain ⟨n, hbal⟩ := h.balanced
  refine ⟨T, t, hrun, h.represents, ?_, ?_, ?_, hbal.color_eq, hbal.noRedRed, n, hbal.count_black⟩
  · cases t with
    | nil => simp
    | node c l a r => exact h.represents.rep.childrenPointBack
  · simp only [CString.strcmp_neg_iff]
    exact h.sorted
  · intro k
    rw [h.mem_keys_iff, lastSet_isSome_iff]

end Snowflake
