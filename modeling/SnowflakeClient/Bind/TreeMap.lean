import SnowflakeClient.Bind.RbTreeMap

/-!
# The tree map of the named parameters

`lib/treemap.c`: a table of `TREE_MAP_MAX_SIZE` red-black trees, with a key in the tree of its hash.
The trees are made when they are first used. `none` is a run that does not return: one of a function
of the trees, or the loop of `sf_treemap_hash_fxn`, whose 32-bit counter never gets to the end of a
key of `2 ^ 32` bytes.

* `treemap_refines`: any calls of `sf_treemap_set` make a finite map.
-/

namespace Snowflake

open RedBlack

variable {ν : Type}

def treeMapMaxSize : Nat := 1000

def hashConstant : Nat := 31

/-- A `char`, as it is added to the hash. -/
def signedChar (b : UInt8) : Int := if b.toNat < 128 then b.toNat else b.toNat - 256

/-- `(HASH_CONSTANT*hash)+key[iter]` in `unsigned long`. -/
def hashStep (hash : Nat) (b : UInt8) : Nat := ((hashConstant * hash + signedChar b) % 2 ^ 64).toNat

/-- The loop of `sf_treemap_hash_fxn`; `iter` is an `unsigned int`. -/
def hashLoop (key : List UInt8) : (fuel iter hash : Nat) → Option Nat
  | 0, _, _ => none
  | fuel + 1, iter, hash =>
    if iter < key.length then
      hashLoop key fuel ((iter + 1) % 2 ^ 32) (hashStep hash (key.getD iter 0))
    else
      some hash

def sfTreemapHashFxn (key : CString) : Option Nat := hashLoop key.bytes (key.bytes.length + 1) 0 0

/-- `sf_treemap_get_index`. -/
def sfTreemapGetIndex (key : CString) : Option (Fin treeMapMaxSize) :=
  (sfTreemapHashFxn key).map fun hash => ⟨hash % treeMapMaxSize, Nat.mod_lt _ (by decide)⟩

/-- `TREE_MAP`: the trees; a tree that is not there yet is `none`. -/
abbrev TreeMap (ν : Type) := Fin treeMapMaxSize → Option (RedBlackTree ν)

def sfTreemapInit : TreeMap ν := fun _ => none

def sfTreemapInsertNode (index : Fin treeMapMaxSize) (treeMap : TreeMap ν) (param : Option ν)
    (key : Option CString) : Option (IntRetCode × TreeMap ν) := do
  let (retval, tree) ← rbtreeInsert ((treeMap index).getD rbtreeInit) param key
  some (retval, Function.update treeMap index (some tree))

/-- `sf_treemap_extract_node`, with `*ret_param`. -/
def sfTreemapExtractNode (treeMap : TreeMap ν) (idx : Fin treeMapMaxSize) (key : Option CString) :
    Option (IntRetCode × Option ν) := do
  let retParam ← rbtreeSearchNode (treeMap idx) key
  some (if retParam.isNone then .nodeNotFound else .success, retParam)

/-- `sf_treemap_set`. -/
def sfTreemapSet (treeMap : TreeMap ν) (param : Option ν) (key : Option CString) :
    Option (IntRetCode × TreeMap ν) :=
  match param, key with
  | some param, some key => do
    sfTreemapInsertNode (← sfTreemapGetIndex key) treeMap (some param) (some key)
  | _, _ => some (.error, treeMap)

/-- `sf_treemap_get`. -/
def sfTreemapGet (treeMap : TreeMap ν) (key : Option CString) : Option (Option ν) :=
  match key with
  | none => some none
  | some key => do
    let (_, param) ← sfTreemapExtractNode treeMap (← sfTreemapGetIndex key) (some key)
    some param

/-! ## The hash -/

/-- A key whose end the counter gets to. -/
def Short (key : CString) : Prop := key.bytes.length < 2 ^ 32

instance (key : CString) : Decidable (Short key) := inferInstanceAs (Decidable (_ < _))

/-- The tree of a key. -/
def indexOf (key : CString) : Fin treeMapMaxSize :=
  ⟨key.bytes.foldl hashStep 0 % treeMapMaxSize, Nat.mod_lt _ (by decide)⟩

theorem hashLoop_eq {key : List UInt8} (hkey : key.length < 2 ^ 32) (done rest : List UInt8)
    (heq : key = done ++ rest) :
    ∀ (fuel hash : Nat), rest.length < fuel →
      hashLoop key fuel done.length hash = some (rest.foldl hashStep hash) := by
  induction rest generalizing done with
  | nil =>
    intro fuel hash hfuel
    obtain ⟨k, rfl⟩ : ∃ k, fuel = k + 1 := ⟨fuel - 1, by omega⟩
    have hend : ¬done.length < key.length := by simp [heq]
    rw [hashLoop, if_neg hend]
    rfl
  | cons b rest ih =>
    intro fuel hash hfuel
    simp only [List.length_cons] at hfuel
    obtain ⟨k, rfl⟩ : ∃ k, fuel = k + 1 := ⟨fuel - 1, by omega⟩
    have hlen : key.length = done.length + (rest.length + 1) := by simp [heq]
    have hnext : (done.length + 1) % 2 ^ 32 = (done ++ [b]).length := by
      rw [List.length_append, List.length_singleton]
      exact Nat.mod_eq_of_lt (by omega)
    have hbyte : key.getD done.length 0 = b := by simp [heq]
    rw [hashLoop, if_pos (by omega), hnext, hbyte, List.foldl_cons]
    exact ih (done ++ [b]) (by simp [heq]) k _ (by omega)

/-- The counter wraps around below the end of a long key. -/
theorem hashLoop_long {key : List UInt8} (hkey : 2 ^ 32 ≤ key.length) (fuel : Nat) :
    ∀ iter hash, iter < 2 ^ 32 → hashLoop key fuel iter hash = none := by
  induction fuel with
  | zero =>
    intro iter hash _
    rfl
  | succ fuel ih =>
    intro iter hash hiter
    rw [hashLoop, if_pos (by omega)]
    exact ih _ _ (Nat.mod_lt _ (by omega))

theorem getIndex_short {key : CString} (h : Short key) :
    sfTreemapGetIndex key = some (indexOf key) := by
  have hloop := hashLoop_eq h [] key.bytes rfl (key.bytes.length + 1) 0 (Nat.lt_succ_self _)
  rw [sfTreemapGetIndex, sfTreemapHashFxn]
  exact congrArg (Option.map _) hloop

theorem getIndex_long {key : CString} (h : ¬Short key) : sfTreemapGetIndex key = none := by
  have hloop := hashLoop_long (Nat.le_of_not_lt h) (key.bytes.length + 1) 0 0 (by omega)
  rw [sfTreemapGetIndex, sfTreemapHashFxn, hloop]
  rfl

/-! ## The map -/

/-- The tree at `i` has the values of `m` for the keys of its index. -/
def BucketHolds (i : Fin treeMapMaxSize) (m : CString → Option ν) :
    Option (RedBlackTree ν) → Prop
  | none => ∀ k, indexOf k = i → m k = none
  | some T => ∃ t, Tells T t fun k => if indexOf k = i then m k else none

/-- The tree map has the values of `m`. -/
def MapHolds (treeMap : TreeMap ν) (m : CString → Option ν) : Prop :=
  ∀ i, BucketHolds i m (treeMap i)

theorem mapHolds_init : MapHolds (sfTreemapInit : TreeMap ν) fun _ => none :=
  fun _ _ _ => rfl

theorem BucketHolds.tells {i : Fin treeMapMaxSize} {m : CString → Option ν}
    {tree : Option (RedBlackTree ν)} (h : BucketHolds i m tree) :
    ∃ t, Tells (tree.getD rbtreeInit) t fun k => if indexOf k = i then m k else none := by
  cases tree with
  | some T => exact h
  | none =>
    have hnone : (fun k => if indexOf k = i then m k else none) = fun _ => none := by
      funext k
      by_cases hk : indexOf k = i
      · rw [if_pos hk, h k hk]
      · rw [if_neg hk]
    refine ⟨.nil, ?_⟩
    rw [hnone]
    exact tells_init

/-- A key of another tree changes nothing. -/
theorem BucketHolds.of_ne {i : Fin treeMapMaxSize} {m : CString → Option ν}
    {tree : Option (RedBlackTree ν)} (h : BucketHolds i m tree) {key : CString} {v : ν}
    (hi : indexOf key ≠ i) : BucketHolds i (fun k => if k = key then some v else m k) tree := by
  have hsame : ∀ k, indexOf k = i → (if k = key then some v else m k) = m k := by
    rintro k rfl
    exact if_neg fun hk : k = key => hi (congrArg indexOf hk.symm)
  cases tree with
  | none =>
    intro k hk
    exact (hsame k hk).trans (h k hk)
  | some T =>
    obtain ⟨t, ht⟩ := h
    refine ⟨t, ?_⟩
    have hfun : (fun k => if indexOf k = i then (if k = key then some v else m k) else none) =
        fun k => if indexOf k = i then m k else none := by
      funext k
      by_cases hk : indexOf k = i
      · rw [if_pos hk, if_pos hk, hsame k hk]
      · rw [if_neg hk, if_neg hk]
    rw [hfun]
    exact ht

theorem MapHolds.set {treeMap : TreeMap ν} {m : CString → Option ν} (h : MapHolds treeMap m)
    {key : CString} (hkey : Short key) (v : ν) :
    ∃ treeMap', sfTreemapSet treeMap (some v) (some key) =
        some (if (m key).isSome then .duplicates else .success, treeMap') ∧
      MapHolds treeMap' fun k => if k = key then some v else m k := by
  obtain ⟨t, ht⟩ := (h (indexOf key)).tells
  obtain ⟨T', t', hinsert, ht'⟩ := ht.insert key v
  rw [if_pos rfl] at hinsert
  refine ⟨Function.update treeMap (indexOf key) (some T'), ?_, ?_⟩
  · simp [sfTreemapSet, getIndex_short hkey, sfTreemapInsertNode, hinsert]
  · intro i
    by_cases hi : indexOf key = i
    · subst hi
      rw [Function.update_self]
      refine ⟨t', ?_⟩
      have hfun : (fun k => if indexOf k = indexOf key then (if k = key then some v else m k)
          else none) =
          fun k => if k = key then some v else if indexOf k = indexOf key then m k else none := by
        funext k
        by_cases hk : k = key
        · rw [if_pos (congrArg indexOf hk), if_pos hk, if_pos hk]
        · rw [if_neg hk, if_neg hk]
      rw [hfun]
      exact ht'
    · rw [Function.update_of_ne (Ne.symm hi)]
      exact (h i).of_ne hi

theorem MapHolds.get {treeMap : TreeMap ν} {m : CString → Option ν} (h : MapHolds treeMap m)
    {key : CString} (hkey : Short key) : sfTreemapGet treeMap (some key) = some (m key) := by
  have hsearch : rbtreeSearchNode (treeMap (indexOf key)) (some key) = some (m key) := by
    have hbucket := h (indexOf key)
    cases htree : treeMap (indexOf key) with
    | none =>
      rw [htree] at hbucket
      rw [hbucket key rfl]
      rfl
    | some T =>
      rw [htree] at hbucket
      obtain ⟨t, ht⟩ := hbucket
      rw [search_represents ht.represents, ht.value, if_pos rfl]
  simp [sfTreemapGet, getIndex_short hkey, sfTreemapExtractNode, hsearch]

/-- The calls of `sf_treemap_set`, one after the other. -/
def sfTreemapSetAll (calls : List (CString × ν)) (treeMap : TreeMap ν) : Option (TreeMap ν) :=
  calls.foldlM (fun treeMap call => (sfTreemapSet treeMap (some call.2) (some call.1)).map Prod.snd)
    treeMap

theorem sfTreemapSetAll_append (calls : List (CString × ν)) (key : CString) (v : ν)
    (treeMap : TreeMap ν) :
    sfTreemapSetAll (calls ++ [(key, v)]) treeMap =
      (sfTreemapSetAll calls treeMap).bind fun treeMap =>
        (sfTreemapSet treeMap (some v) (some key)).map Prod.snd := by
  rw [sfTreemapSetAll, List.foldlM_append]
  simp [sfTreemapSetAll]

theorem setAll_holds (calls : List (CString × ν)) (hshort : ∀ call ∈ calls, Short call.1) :
    ∃ treeMap, sfTreemapSetAll calls sfTreemapInit = some treeMap ∧
      MapHolds treeMap (lastSet calls) := by
  induction calls using List.reverseRecOn with
  | nil => exact ⟨_, rfl, mapHolds_init⟩
  | append_singleton calls call ih =>
    obtain ⟨key, v⟩ := call
    obtain ⟨treeMap, hrun, h⟩ := ih fun call hcall => hshort call (List.mem_append_left _ hcall)
    obtain ⟨treeMap', hset, h'⟩ := h.set (hshort (key, v) (by simp)) v
    refine ⟨treeMap', ?_, ?_⟩
    · rw [sfTreemapSetAll_append, hrun, Option.bind_some, hset]
      rfl
    · rw [funext (lastSet_append calls key v)]
      exact h'

/-- After any calls of `sf_treemap_set` with short keys, `sf_treemap_get` gives the value of the
last call with the key, and the next call says whether the key was there. -/
theorem treemap_refines (calls : List (CString × ν)) (hshort : ∀ call ∈ calls, Short call.1) :
    ∃ treeMap, sfTreemapSetAll calls sfTreemapInit = some treeMap ∧
      (∀ key, Short key → sfTreemapGet treeMap (some key) = some (lastSet calls key)) ∧
      ∀ key v, Short key → ∃ treeMap',
        sfTreemapSet treeMap (some v) (some key) =
          some (if key ∈ calls.map Prod.fst then .duplicates else .success, treeMap') ∧
        sfTreemapSetAll (calls ++ [(key, v)]) sfTreemapInit = some treeMap' := by
  obtain ⟨treeMap, hrun, h⟩ := setAll_holds calls hshort
  refine ⟨treeMap, hrun, fun key hkey => h.get hkey, ?_⟩
  intro key v hkey
  obtain ⟨treeMap', hset, -⟩ := h.set hkey v
  simp only [lastSet_isSome_iff] at hset
  refine ⟨treeMap', hset, ?_⟩
  rw [sfTreemapSetAll_append, hrun, Option.bind_some, hset]
  rfl

/-- The keys `ab` and `i` are in the same tree. -/
theorem treemap_refines_collision :
    ∃ treeMap, sfTreemapSetAll [(⟨[97, 98], by decide⟩, 1), (⟨[105], by decide⟩, 2),
        (⟨[97, 98], by decide⟩, 3)] sfTreemapInit = some treeMap ∧
      sfTreemapGet treeMap (some ⟨[97, 98], by decide⟩) = some (some 3) ∧
      sfTreemapGet treeMap (some ⟨[105], by decide⟩) = some (some 2) := by
  obtain ⟨treeMap, hrun, hget, -⟩ := treemap_refines [(⟨[97, 98], by decide⟩, 1),
    (⟨[105], by decide⟩, 2), (⟨[97, 98], by decide⟩, 3)] (by decide)
  exact ⟨treeMap, hrun, hget _ (by decide), hget _ (by decide)⟩

end Snowflake
