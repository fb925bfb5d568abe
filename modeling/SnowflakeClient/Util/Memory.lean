import SnowflakeClient.Linked
import SnowflakeClient.Run

/-!
# Tracked memory

Of `lib/memory.c`. The library keeps a node for each block of memory it hands out, in the buckets of
`alloc_map`; `sf_alloc_map_to_log` logs what has not been freed.

The heap has an address for each block and for each node that is allocated. `Libc` is what the
functions of the C library answer on a heap, with what is known about the answers: `malloc` and
`realloc` give addresses that are not in use, and `realloc` to size 0 frees the block and answers
null. `none` and `Run.outside` are accesses to memory that is not allocated (or a loop that never
ends), `Run.raised` is the end of the process when there is no memory left. All functions hold
`allocation_lock` while they use the map; the model has one call after the other.

* `Tracks s m chains`: the buckets of `s` are the lists `chains`, and they have one node for each
  block of `m`, with its size.
* `Tracks.seek`, `Tracks.insert`, `Tracks.remove` and `Tracks.setFields`: the functions on the map.
-/

namespace Snowflake.Memory

open Linked

/-- `struct allocation`, without its link. -/
structure Allocation where
  ptr : Nat
  size : Nat
  file : String
  line : Int
  deriving DecidableEq, Repr

/-- What is allocated at an address. -/
inductive Cell where
  | block
  | node (n : Node Allocation)
  deriving DecidableEq, Repr

abbrev Heap : Type := Finmap fun _ : Nat => Cell

def Heap.nodeAt (h : Heap) (a : Nat) : Option (Node Allocation) :=
  match h.lookup a with
  | some (.node n) => some n
  | _ => none

/-- More nodes than there are addresses are not visited by a loop that ends. -/
def Heap.fuel (h : Heap) : Nat := h.keys.card + 1

/-- `SF_ALLOC_MAP_SIZE`. -/
def sfAllocMapSize : Nat := 2048

abbrev Bucket : Type := Fin sfAllocMapSize

/-- All buckets, in their order. -/
def buckets : List Bucket := List.finRange sfAllocMapSize

theorem mem_buckets (i : Bucket) : i ∈ buckets := List.mem_finRange i

theorem nodup_buckets : buckets.Nodup := List.nodup_finRange sfAllocMapSize

-- the unifier would go through the buckets otherwise
attribute [irreducible] buckets

/-- `sf_ptr_hash`. -/
def sfPtrHash (p : Nat) : Bucket :=
  ⟨p >>> 3 &&& (sfAllocMapSize - 1), Nat.lt_of_le_of_lt Nat.and_le_right (by decide)⟩

/-- The heap and `alloc_map`. -/
structure State where
  heap : Heap
  allocMap : Bucket → Nat

/-- `sizeof(struct allocation)`. -/
def sizeofAllocation : Nat := 40

/-- The answers of the C library. -/
structure Libc where
  malloc : Heap → (size : Nat) → Nat
  calloc : Heap → (num size : Nat) → Nat
  realloc : Heap → (ptr size : Nat) → Nat
  malloc_fresh : ∀ h size, malloc h size ≠ 0 → h.lookup (malloc h size) = none
  /-- There is always memory for a node. -/
  malloc_allocation : ∀ h, malloc h sizeofAllocation ≠ 0
  calloc_fresh : ∀ h num size, calloc h num size ≠ 0 → h.lookup (calloc h num size) = none
  /-- No block has more bytes than a `size_t` can say. -/
  calloc_size : ∀ h num size, calloc h num size ≠ 0 → num * size < 2 ^ 64
  realloc_fresh : ∀ h ptr size, realloc h ptr size ≠ 0 → realloc h ptr size ≠ ptr →
    h.lookup (realloc h ptr size) = none
  realloc_zero : ∀ h ptr, ptr ≠ 0 → realloc h ptr 0 = 0

/-- `exit(EXIT_FAILURE)`. -/
inductive Exit where
  | failure
  deriving DecidableEq, Repr

/-- `free` on a block. -/
def Heap.free (h : Heap) (ptr : Nat) : Option Heap :=
  if h.lookup ptr = some .block then some (h.erase ptr) else none

/-- What `realloc` does when it answers `data`. -/
def Heap.realloc (h : Heap) (ptr data : Nat) : Option Heap :=
  (if ptr = 0 then some h else h.free ptr).map fun h =>
    if data = 0 then h else h.insert data .block

section

variable (libc : Libc) (s : State)

/-- `alloc_find`. -/
def allocFind (ptr : Nat) : Option Nat :=
  (seek s.heap.nodeAt (·.ptr = ptr) s.heap.fuel 0 (s.allocMap (sfPtrHash ptr))).map Prod.snd

/-- `alloc_insert`. -/
def allocInsert (ptr size : Nat) (file : String) (line : Int) : Option State :=
  let alloc := libc.malloc s.heap sizeofAllocation
  let index := sfPtrHash ptr
  if alloc = 0 then none
  else some
    { heap := s.heap.insert alloc (.node ⟨s.allocMap index, ⟨ptr, size, file, line⟩⟩)
      allocMap := Function.update s.allocMap index alloc }

/-- `alloc_remove`. -/
def allocRemove (ptr : Nat) : Option State := do
  let index := sfPtrHash ptr
  let found ← seek s.heap.nodeAt (·.ptr = ptr) s.heap.fuel 0 (s.allocMap index)
  let prev := found.1
  let alloc := found.2
  if alloc = 0 then some s
  else do
    let a ← s.heap.nodeAt alloc
    if prev = 0 then
      some { heap := s.heap.erase alloc, allocMap := Function.update s.allocMap index a.link }
    else do
      let p ← s.heap.nodeAt prev
      some { s with
        heap := (s.heap.insert prev (.node { p with link := a.link })).erase alloc }

/-- The end of `sf_malloc` and of `sf_calloc`, with what the C library answered. -/
def allocate (data size : Nat) (file : String) (line : Int) : Run Exit (State × Nat) :=
  if data = 0 then .raised .failure
  else do
    let s ← .ofRead
      (allocInsert libc { s with heap := s.heap.insert data .block } data size file line)
    .returned (s, data)

/-- `sf_malloc`. -/
def sfMalloc (size : Nat) (file : String) (line : Int) : Run Exit (State × Nat) :=
  if size = 0 then .returned (s, 0)
  else allocate libc s (libc.malloc s.heap size) size file line

/-- `sf_calloc`. -/
def sfCalloc (num size : Nat) (file : String) (line : Int) : Run Exit (State × Nat) :=
  if size = 0 ∨ num = 0 then .returned (s, 0)
  else allocate libc s (libc.calloc s.heap num size) (num * size % 2 ^ 64) file line

/-- What `sf_realloc` does to the map, when the C library has moved the block from `ptr` to
`data`. -/
def reallocated (ptr data size : Nat) (file : String) (line : Int) : Option State := do
  let alloc ← allocFind s ptr
  if alloc ≠ 0 then
    if ptr = data then do
      let a ← s.heap.nodeAt alloc
      some { s with
        heap := s.heap.insert alloc
          (.node { a with data := { a.data with size := size, file := file, line := line } }) }
    else do
      let s ← allocRemove s ptr
      allocInsert libc s data size file line
  else allocInsert libc s data size file line

/-- `sf_realloc`. -/
def sfRealloc (ptr size : Nat) (file : String) (line : Int) : Run Exit (State × Nat) := do
  let data := libc.realloc s.heap ptr size
  let heap ← .ofRead (s.heap.realloc ptr data)
  if data = 0 ∧ size > 0 then .raised .failure
  else do
    let s ← .ofRead (reallocated libc { s with heap := heap } ptr data size file line)
    .returned (s, data)

/-- `sf_free`. -/
def sfFree (ptr : Nat) : Run Exit State :=
  if ptr = 0 then .returned s
  else .ofRead do
    let heap ← s.heap.free ptr
    allocRemove { s with heap := heap } ptr

end

section

variable (cleanup : Bool)

/-- The inner loop of `sf_alloc_map_to_log`, with what it logs. -/
def logChain : (fuel : Nat) → Heap → (alloc : Nat) → Option (Heap × List Allocation)
  | 0, _, _ => none
  | fuel + 1, heap, alloc =>
    if alloc = 0 then some (heap, [])
    else do
      let a ← heap.nodeAt alloc
      let rest ← logChain fuel (if cleanup then heap.erase alloc else heap) a.link
      some (rest.1, a.data :: rest.2)

/-- The loop over the buckets. -/
def logBuckets (allocMap : Bucket → Nat) : List Bucket → Heap → Option (Heap × List Allocation)
  | [], heap => some (heap, [])
  | i :: rest, heap => do
    let chain ← logChain cleanup heap.fuel heap (allocMap i)
    let rest ← logBuckets allocMap rest chain.1
    some (rest.1, chain.2 ++ rest.2)

/-- `sf_alloc_map_to_log`. -/
def sfAllocMapToLog (s : State) : Run Exit (State × List Allocation) := do
  let logged ← .ofRead (logBuckets cleanup s.allocMap buckets s.heap)
  .returned ({ s with heap := logged.1 }, logged.2)

end

/-! ## Nodes in the heap -/

namespace Heap

variable {h : Heap} {a b : Nat} {n : Node Allocation}

theorem nodeAt_eq_some : h.nodeAt a = some n ↔ h.lookup a = some (.node n) := by
  unfold nodeAt
  split
  · next n' hn => simp [hn]
  · next hno =>
    exact ⟨fun hn => absurd hn.symm (Option.some_ne_none n), fun hn => absurd hn (hno n)⟩

theorem nodeAt_congr {h' : Heap} (heq : h'.lookup a = h.lookup a) : h'.nodeAt a = h.nodeAt a := by
  rw [nodeAt, nodeAt, heq]

theorem nodeAt_of_lookup_none (hnone : h.lookup a = none) : h.nodeAt a = none := by
  rw [nodeAt, hnone]

theorem nodeAt_of_lookup_block (hblock : h.lookup a = some .block) : h.nodeAt a = none := by
  rw [nodeAt, hblock]

theorem ne_of_block (hblock : h.lookup b = some .block) (hnode : h.nodeAt a = some n) : b ≠ a := by
  rintro rfl
  rw [nodeAt_of_lookup_block hblock] at hnode
  cases hnode

@[simp] theorem nodeAt_insert_node : nodeAt (h.insert a (.node n)) a = some n :=
  nodeAt_eq_some.mpr (Finmap.lookup_insert _)

theorem nodeAt_insert_of_ne {c : Cell} (hne : b ≠ a) : nodeAt (h.insert a c) b = h.nodeAt b :=
  nodeAt_congr (Finmap.lookup_insert_of_ne _ hne)

theorem nodeAt_erase_of_ne (hne : b ≠ a) : nodeAt (h.erase a) b = h.nodeAt b :=
  nodeAt_congr (Finmap.lookup_erase_ne hne)

/-- A new block is no node. -/
theorem nodeAt_insert_block (hnone : h.nodeAt a = none) :
    nodeAt (h.insert a .block) = h.nodeAt := by
  funext b
  by_cases hb : b = a
  · subst hb
    rw [hnone, nodeAt_of_lookup_block (Finmap.lookup_insert _)]
  · exact nodeAt_insert_of_ne hb

theorem nodeAt_erase_block (hnone : h.nodeAt a = none) : nodeAt (h.erase a) = h.nodeAt := by
  funext b
  by_cases hb : b = a
  · subst hb
    rw [hnone, nodeAt_of_lookup_none (Finmap.lookup_erase _ _)]
  · exact nodeAt_erase_of_ne hb

theorem length_lt_fuel {l : List (Nat × Allocation)} (hseg : Seg h.nodeAt a l 0) :
    l.length < h.fuel := by
  have hsub : (l.map Prod.fst).toFinset ⊆ h.keys := by
    intro x hx
    obtain ⟨⟨x, d⟩, hmem, rfl⟩ := List.mem_map.mp (List.mem_toFinset.mp hx)
    obtain ⟨-, next, hget⟩ := hseg.get_of_mem hmem
    exact Finmap.mem_keys.mpr (Finmap.mem_of_lookup_eq_some (nodeAt_eq_some.mp hget))
  have hcard := Finset.card_le_card hsub
  rw [List.toFinset_card_of_nodup hseg.nodup, List.length_map] at hcard
  exact Nat.lt_succ_of_le hcard

/-- The two heaps have the same blocks. -/
def SameBlocks (h h' : Heap) : Prop :=
  ∀ ptr, h.lookup ptr = some .block → h'.lookup ptr = some .block

end Heap

/-! ## The map -/

/-- The sizes in the nodes for `ptr`. -/
def sizesOf (ptr : Nat) (l : List (Nat × Allocation)) : List Nat :=
  (l.filter (·.2.ptr = ptr)).map (·.2.size)

section

variable {ptr q : Nat} {l l' : List (Nat × Allocation)} {p : Nat × Allocation}

@[simp] theorem sizesOf_nil : sizesOf ptr [] = [] := rfl

@[simp] theorem sizesOf_append : sizesOf ptr (l ++ l') = sizesOf ptr l ++ sizesOf ptr l' := by
  simp [sizesOf]

theorem sizesOf_cons :
    sizesOf ptr (p :: l) = (if p.2.ptr = ptr then [p.2.size] else []) ++ sizesOf ptr l := by
  by_cases hp : p.2.ptr = ptr <;> simp [sizesOf, hp]

theorem sizesOf_eq_nil : sizesOf ptr l = [] ↔ ∀ p ∈ l, p.2.ptr ≠ ptr := by
  simp [sizesOf]

end

/-- The buckets of `s` are the lists `chains`, with one node for each block of `m`, which has its
size. -/
structure Tracks (s : State) (m : Nat → Option Nat) (chains : Bucket → List (Nat × Allocation)) :
    Prop where
  chain : ∀ i, Seg s.heap.nodeAt (s.allocMap i) (chains i) 0
  bucket : ∀ i, ∀ p ∈ chains i, sfPtrHash p.2.ptr = i
  sizes : ∀ ptr, sizesOf ptr (chains (sfPtrHash ptr)) = (m ptr).toList

namespace Tracks

variable {libc : Libc} {s : State} {m : Nat → Option Nat} {ptr : Nat}
variable {chains : Bucket → List (Nat × Allocation)}

/-- Only the nodes of the heap matter. -/
theorem withHeap {h : Heap} (ht : Tracks s m chains) (hnodes : h.nodeAt = s.heap.nodeAt) :
    Tracks { s with heap := h } m chains where
  chain i := by
    rw [hnodes]
    exact ht.chain i
  bucket := ht.bucket
  sizes := ht.sizes

/-- A node is in one bucket only. -/
theorem index_eq {i j : Bucket} {x : Nat} {d e : Allocation} (ht : Tracks s m chains)
    (hd : (x, d) ∈ chains i) (he : (x, e) ∈ chains j) : i = j := by
  obtain ⟨-, next, hget⟩ := (ht.chain i).get_of_mem hd
  obtain ⟨-, next', hget'⟩ := (ht.chain j).get_of_mem he
  obtain ⟨-, rfl⟩ : next = next' ∧ d = e := by simpa [hget] using hget'
  exact (ht.bucket i _ hd).symm.trans (ht.bucket j _ he)

/-- One bucket changes: its list is `l`, the nodes of the others are as they were. -/
theorem replace {i : Bucket} {l : List (Nat × Allocation)} {m' : Nat → Option Nat} {s' : State}
    (ht : Tracks s m chains) (hchain : Seg s'.heap.nodeAt (s'.allocMap i) l 0)
    (hmap : ∀ j, j ≠ i → s'.allocMap j = s.allocMap j)
    (hframe : ∀ j, j ≠ i → ∀ p ∈ chains j, s'.heap.nodeAt p.1 = s.heap.nodeAt p.1)
    (hbucket : ∀ p ∈ l, sfPtrHash p.2.ptr = i)
    (hsizes : ∀ q, sfPtrHash q = i → sizesOf q l = (m' q).toList)
    (hother : ∀ q, sfPtrHash q ≠ i → m' q = m q) :
    Tracks s' m' (Function.update chains i l) where
  chain j := by
    by_cases hj : j = i
    · subst hj
      rw [Function.update_self]
      exact hchain
    · rw [Function.update_of_ne hj, hmap j hj]
      exact (ht.chain j).frame (hframe j hj)
  bucket j := by
    by_cases hj : j = i
    · subst hj
      rw [Function.update_self]
      exact hbucket
    · rw [Function.update_of_ne hj]
      exact ht.bucket j
  sizes q := by
    by_cases hq : sfPtrHash q = i
    · subst hq
      rw [Function.update_self]
      exact hsizes q rfl
    · rw [Function.update_of_ne hq, hother q hq]
      exact ht.sizes q

/-- The loops of `alloc_find` and `alloc_remove`. -/
theorem seek (ht : Tracks s m chains) (ptr : Nat) :
    (m ptr = none ∧ ∃ last, seek s.heap.nodeAt (·.ptr = ptr) s.heap.fuel 0
        (s.allocMap (sfPtrHash ptr)) = some (last, 0)) ∨
      ∃ front x d back, chains (sfPtrHash ptr) = front ++ (x, d) :: back ∧ d.ptr = ptr ∧
        seek s.heap.nodeAt (·.ptr = ptr) s.heap.fuel 0 (s.allocMap (sfPtrHash ptr)) =
          some ((front.getLast?.map Prod.fst).getD 0, x) := by
  have hsizes := ht.sizes ptr
  have hchain := ht.chain (sfPtrHash ptr)
  rcases hchain.seek_eq (fun d => decide (d.ptr = ptr)) (Heap.length_lt_fuel hchain) 0 with
    ⟨last, hno, hseek⟩ | ⟨front, x, d, back, hl, hd, hseek⟩
  · rw [sizesOf_eq_nil.mpr fun p hp => of_decide_eq_false (hno p hp)] at hsizes
    refine .inl ⟨?_, last, hseek⟩
    cases hm : m ptr with
    | none => rfl
    | some size => simp [hm] at hsizes
  · exact .inr ⟨front, x, d, back, hl, of_decide_eq_true hd, hseek⟩

/-- There is one node for a block. -/
theorem sizesOf_split {front back : List (Nat × Allocation)} {x : Nat} {d : Allocation}
    (ht : Tracks s m chains) (hl : chains (sfPtrHash d.ptr) = front ++ (x, d) :: back) :
    m d.ptr = some d.size ∧ sizesOf d.ptr front = [] ∧ sizesOf d.ptr back = [] := by
  have hsizes := ht.sizes d.ptr
  rw [hl, sizesOf_append, sizesOf_cons, if_pos rfl] at hsizes
  cases hm : m d.ptr with
  | none => simp [hm] at hsizes
  | some size =>
    -- the size of this node is the only one
    rw [hm, Option.toList_some, List.singleton_append] at hsizes
    rcases List.append_eq_singleton_iff.mp hsizes with ⟨hfront, hrest⟩ | ⟨-, hrest⟩
    · obtain ⟨rfl, hback⟩ := List.cons_eq_cons.mp hrest
      exact ⟨rfl, hfront, hback⟩
    · exact absurd hrest (List.cons_ne_nil _ _)

/-- `alloc_insert` for a block without a node. -/
theorem insert (ht : Tracks s m chains) (hm : m ptr = none) (libc : Libc) (size : Nat)
    (file : String) (line : Int) :
    ∃ s' chains', allocInsert libc s ptr size file line = some s' ∧
      Tracks s' (Function.update m ptr (some size)) chains' ∧ s.heap.SameBlocks s'.heap := by
  have hne := libc.malloc_allocation s.heap
  have hfresh := libc.malloc_fresh _ _ hne
  rw [allocInsert, if_neg hne]
  generalize libc.malloc s.heap sizeofAllocation = alloc at *
  have hnot : ∀ i, ∀ p ∈ chains i, p.1 ≠ alloc := by
    rintro i ⟨x, d⟩ hp rfl
    obtain ⟨-, next, hget⟩ := (ht.chain i).get_of_mem hp
    rw [Heap.nodeAt_of_lookup_none hfresh] at hget
    cases hget
  refine ⟨_, _, rfl, ht.replace (i := sfPtrHash ptr)
    (l := (alloc, ⟨ptr, size, file, line⟩) :: chains (sfPtrHash ptr)) ?_
    (fun j hj => Function.update_of_ne hj _ _)
    (fun j _ p hp => Heap.nodeAt_insert_of_ne (hnot j p hp)) ?_ ?_ ?_, ?_⟩
  · refine ⟨Function.update_self _ _ _, hne, _, Heap.nodeAt_insert_node, ?_⟩
    exact (ht.chain _).frame fun p hp => Heap.nodeAt_insert_of_ne (hnot _ p hp)
  · intro p hp
    rcases List.mem_cons.mp hp with rfl | hp
    · rfl
    · exact ht.bucket _ p hp
  · intro q hq
    rw [sizesOf_cons, ← hq, ht.sizes q]
    by_cases hqp : ptr = q
    · subst hqp
      simp [hm]
    · rw [if_neg hqp, Function.update_of_ne (Ne.symm hqp), List.nil_append]
  · intro q hq
    exact Function.update_of_ne (fun h => hq (congrArg sfPtrHash h)) _ _
  · intro q hq
    refine (Finmap.lookup_insert_of_ne _ ?_).trans hq
    rintro rfl
    rw [hfresh] at hq
    cases hq

/-- One node is taken out of its bucket, or its size changes. -/
theorem replace_node {front back : List (Nat × Allocation)} {x : Nat} {d : Allocation} {s' : State}
    (ht : Tracks s m chains) (new : List (Nat × Allocation)) (size : Option Nat)
    (hl : chains (sfPtrHash d.ptr) = front ++ (x, d) :: back)
    (hchain : Seg s'.heap.nodeAt (s'.allocMap (sfPtrHash d.ptr)) (front ++ new ++ back) 0)
    (hmap : ∀ j, j ≠ sfPtrHash d.ptr → s'.allocMap j = s.allocMap j)
    (hframe : ∀ j, j ≠ sfPtrHash d.ptr → ∀ p ∈ chains j, s'.heap.nodeAt p.1 = s.heap.nodeAt p.1)
    (hptr : ∀ p ∈ new, p.2.ptr = d.ptr) (hsize : new.map (·.2.size) = size.toList) :
    Tracks s' (Function.update m d.ptr size)
      (Function.update chains (sfPtrHash d.ptr) (front ++ new ++ back)) := by
  obtain ⟨-, hfront, hback⟩ := ht.sizesOf_split hl
  refine ht.replace hchain hmap hframe ?_ ?_ ?_
  · intro p hp
    have hold : ∀ p ∈ front ++ back, sfPtrHash p.2.ptr = sfPtrHash d.ptr := fun p hp =>
      ht.bucket _ p (by
        rw [hl]
        rcases List.mem_append.mp hp with hp | hp
        · exact List.mem_append_left _ hp
        · exact List.mem_append_right _ (List.mem_cons_of_mem _ hp))
    rcases List.mem_append.mp hp with hp | hp
    · rcases List.mem_append.mp hp with hp | hp
      · exact hold p (List.mem_append_left _ hp)
      · rw [hptr p hp]
    · exact hold p (List.mem_append_right _ hp)
  · intro q hq
    rw [sizesOf_append, sizesOf_append]
    by_cases hqd : q = d.ptr
    · subst hqd
      rw [hfront, hback, Function.update_self, List.nil_append, List.append_nil, ← hsize, sizesOf,
        List.filter_eq_self.mpr fun p hp => decide_eq_true (hptr p hp)]
    · have hold := ht.sizes q
      rw [hq, hl, sizesOf_append, sizesOf_cons, if_neg (Ne.symm hqd), List.nil_append] at hold
      rw [Function.update_of_ne hqd, ← hold,
        sizesOf_eq_nil.mpr fun p hp => (hptr p hp).trans_ne (Ne.symm hqd), List.append_nil]
  · intro q hq
    exact Function.update_of_ne (fun h => hq (congrArg sfPtrHash h)) _ _

section

variable {front back : List (Nat × Allocation)} {x y next : Nat} {d e : Allocation}

theorem ne_of_mem {j : Bucket} {p : Nat × Allocation} (ht : Tracks s m chains)
    (hmem : (x, d) ∈ chains (sfPtrHash d.ptr)) (hj : j ≠ sfPtrHash d.ptr) (hp : p ∈ chains j) :
    p.1 ≠ x := by
  rintro rfl
  exact hj (ht.index_eq hp hmem)

/-- The first node of a bucket is taken out. -/
theorem remove_head (ht : Tracks s m chains)
    (hl : chains (sfPtrHash d.ptr) = (x, d) :: back) (hget : s.heap.nodeAt x = some ⟨next, d⟩) :
    Tracks { heap := s.heap.erase x,
             allocMap := Function.update s.allocMap (sfPtrHash d.ptr) next }
      (Function.update m d.ptr none) (Function.update chains (sfPtrHash d.ptr) back) := by
  have hmem : (x, d) ∈ chains (sfPtrHash d.ptr) := hl ▸ List.mem_cons_self
  have hchain := ht.chain (sfPtrHash d.ptr)
  rw [hl] at hchain
  have hl' : chains (sfPtrHash d.ptr) = [] ++ (x, d) :: back := hl
  refine ht.replace_node [] none hl' ?_ (fun j hj => Function.update_of_ne hj _ _)
    (fun j hj p hp => Heap.nodeAt_erase_of_ne (ht.ne_of_mem hmem hj hp)) (by simp) rfl
  simp only [Function.update_self, List.nil_append]
  exact hchain.unlink_head hget fun z hz => Heap.nodeAt_erase_of_ne hz

/-- A node that another one has the link to is taken out. -/
theorem remove_inner (ht : Tracks s m chains)
    (hl : chains (sfPtrHash d.ptr) = front ++ (y, e) :: (x, d) :: back)
    (hget : s.heap.nodeAt x = some ⟨next, d⟩) :
    Tracks { s with heap := (s.heap.insert y (.node ⟨next, e⟩)).erase x }
      (Function.update m d.ptr none)
      (Function.update chains (sfPtrHash d.ptr) (front ++ (y, e) :: back)) := by
  have hmem : (x, d) ∈ chains (sfPtrHash d.ptr) := by simp [hl]
  have hmemy : (y, e) ∈ chains (sfPtrHash d.ptr) := by simp [hl]
  have hchain := ht.chain (sfPtrHash d.ptr)
  rw [hl] at hchain
  have hyx : y ≠ x := by
    have hnodup := hchain.nodup
    rintro rfl
    simp [List.nodup_middle] at hnodup
  have hnode : ∀ z, z ≠ y → z ≠ x →
      Heap.nodeAt ((s.heap.insert y (.node ⟨next, e⟩)).erase x) z = s.heap.nodeAt z :=
    fun z hzy hzx => (Heap.nodeAt_erase_of_ne hzx).trans (Heap.nodeAt_insert_of_ne hzy)
  have hl' : chains (sfPtrHash d.ptr) = (front ++ [(y, e)]) ++ (x, d) :: back := by simp [hl]
  have hnew : front ++ (y, e) :: back = (front ++ [(y, e)]) ++ [] ++ back := by simp
  rw [hnew]
  refine ht.replace_node [] none hl' ?_ (fun j hj => rfl) ?_ (by simp) rfl
  · rw [← hnew]
    exact hchain.unlink hget
      ((Heap.nodeAt_erase_of_ne hyx).trans Heap.nodeAt_insert_node) hnode
  · intro j hj p hp
    refine hnode p.1 ?_ (ht.ne_of_mem hmem hj hp)
    rintro rfl
    exact hj (ht.index_eq hp hmemy)

end

/-- `alloc_remove`. -/
theorem remove (ht : Tracks s m chains) (ptr : Nat) :
    ∃ s' chains', allocRemove s ptr = some s' ∧ Tracks s' (Function.update m ptr none) chains' ∧
      s.heap.SameBlocks s'.heap := by
  rcases ht.seek ptr with ⟨hm, last, hseek⟩ | ⟨front, x, d, back, hl, rfl, hseek⟩
  · refine ⟨s, chains, ?_, ?_, fun _ h => h⟩
    · rw [allocRemove, hseek]
      rfl
    · rw [← hm, Function.update_eq_self]
      exact ht
  · have hmem : (x, d) ∈ chains (sfPtrHash d.ptr) := by simp [hl]
    obtain ⟨hx, next, hget⟩ := (ht.chain _).get_of_mem hmem
    rcases List.eq_nil_or_concat' front with rfl | ⟨front, ⟨y, e⟩, rfl⟩
    · refine ⟨_, _, ?_, ht.remove_head hl hget,
        fun q hq => (Finmap.lookup_erase_ne (Heap.ne_of_block hq hget)).trans hq⟩
      simp [allocRemove, hseek, hx, hget]
    · rw [List.append_assoc, List.singleton_append] at hl
      have hmemy : (y, e) ∈ chains (sfPtrHash d.ptr) := by simp [hl]
      obtain ⟨hy, link, hgety⟩ := (ht.chain _).get_of_mem hmemy
      refine ⟨_, _, ?_, ht.remove_inner hl hget, fun q hq => ?_⟩
      · simp [allocRemove, hseek, hx, hget, hy, hgety]
      · rw [Finmap.lookup_erase_ne (Heap.ne_of_block hq hget),
          Finmap.lookup_insert_of_ne _ (Heap.ne_of_block hq hgety)]
        exact hq

/-- The part of `sf_realloc` for the same address. -/
theorem setFields {front back : List (Nat × Allocation)} {x next : Nat} {d : Allocation}
    (ht : Tracks s m chains) (hl : chains (sfPtrHash d.ptr) = front ++ (x, d) :: back)
    (hget : s.heap.nodeAt x = some ⟨next, d⟩) (size : Nat) (file : String) (line : Int) :
    ∃ chains', Tracks
      { s with
        heap := s.heap.insert x
          (.node ⟨next, { d with size := size, file := file, line := line }⟩) }
      (Function.update m d.ptr (some size)) chains' := by
  have hmem : (x, d) ∈ chains (sfPtrHash d.ptr) := by simp [hl]
  have hchain := ht.chain (sfPtrHash d.ptr)
  rw [hl] at hchain
  refine ⟨_, ht.replace_node [(x, { d with size := size, file := file, line := line })] (some size)
    hl ?_ (fun j hj => rfl) (fun j hj p hp => Heap.nodeAt_insert_of_ne (ht.ne_of_mem hmem hj hp))
    (by simp) rfl⟩
  rw [List.append_assoc, List.singleton_append]
  exact hchain.setData hget Heap.nodeAt_insert_node fun z hz => Heap.nodeAt_insert_of_ne hz

/-- What `sf_realloc` does to the map. -/
theorem realloc {data : Nat} (ht : Tracks s m chains) (hm : data ≠ ptr → m data = none)
    (libc : Libc) (size : Nat) (file : String) (line : Int) :
    ∃ s' chains', reallocated libc s ptr data size file line = some s' ∧
      Tracks s' (Function.update (Function.update m ptr none) data (some size)) chains' ∧
        s.heap.SameBlocks s'.heap := by
  have hnone : Function.update m ptr none data = none := by
    by_cases hdata : data = ptr
    · rw [hdata, Function.update_self]
    · rw [Function.update_of_ne hdata, hm hdata]
  rcases ht.seek ptr with ⟨hptr, last, hseek⟩ | ⟨front, x, d, back, hl, rfl, hseek⟩
  · have hfind : allocFind s ptr = some 0 := by rw [allocFind, hseek]; rfl
    have hself : Function.update m ptr none = m := by rw [← hptr, Function.update_eq_self]
    rw [hself] at hnone ⊢
    rw [reallocated, hfind]
    exact ht.insert hnone libc size file line
  · have hfind : allocFind s d.ptr = some x := by rw [allocFind, hseek]; rfl
    have hmem : (x, d) ∈ chains (sfPtrHash d.ptr) := by simp [hl]
    obtain ⟨hx, next, hget⟩ := (ht.chain _).get_of_mem hmem
    by_cases hdata : d.ptr = data
    · subst hdata
      obtain ⟨chains', ht'⟩ := ht.setFields hl hget size file line
      rw [Function.update_idem]
      refine ⟨_, chains', ?_, ht', fun q hq =>
        (Finmap.lookup_insert_of_ne _ (Heap.ne_of_block hq hget)).trans hq⟩
      simp [reallocated, hfind, hx, hget]
    · obtain ⟨s₁, chains₁, hremove, ht₁, hsame₁⟩ := ht.remove d.ptr
      obtain ⟨s₂, chains₂, hinsert, ht₂, hsame₂⟩ := ht₁.insert hnone libc size file line
      refine ⟨s₂, chains₂, ?_, ht₂, fun q hq => hsame₂ q (hsame₁ q hq)⟩
      simp [reallocated, hfind, hx, hdata, hremove, hinsert]

end Tracks

/-! ## The log -/

section

variable {h : Heap} {allocMap : Bucket → Nat}

/-- Without the cleanup a list is logged and stays as it is. -/
theorem logChain_false {a fuel : Nat} {l : List (Nat × Allocation)} (hseg : Seg h.nodeAt a l 0)
    (hfuel : l.length < fuel) : logChain false fuel h a = some (h, l.map Prod.snd) := by
  induction l generalizing a fuel with
  | nil =>
    obtain ⟨fuel, rfl⟩ := Nat.exists_eq_add_of_lt hfuel
    obtain rfl : a = 0 := hseg
    simp [logChain]
  | cons p l ih =>
    obtain ⟨x, d⟩ := p
    obtain ⟨fuel, rfl⟩ : ∃ n, fuel = n + 1 := ⟨fuel - 1, by omega⟩
    obtain ⟨rfl, hx, next, hget, hseg⟩ := hseg
    have hrest := ih hseg (Nat.lt_of_succ_lt_succ hfuel)
    simp [logChain, hx, hget, hrest]

theorem logBuckets_false {chains : Bucket → List (Nat × Allocation)}
    (hchain : ∀ i, Seg h.nodeAt (allocMap i) (chains i) 0) (l : List Bucket) :
    logBuckets false allocMap l h =
      some (h, l.flatMap fun i => (chains i).map Prod.snd) := by
  induction l with
  | nil => rfl
  | cons i l ih =>
    have hi := logChain_false (hchain i) (Heap.length_lt_fuel (hchain i))
    simp [logBuckets, hi, ih]

theorem logBuckets_empty {cleanup : Bool} (hempty : ∀ i, allocMap i = 0) (l : List Bucket) :
    logBuckets cleanup allocMap l h = some (h, []) := by
  induction l with
  | nil => rfl
  | cons i l ih => simp [logBuckets, hempty, Heap.fuel, logChain, ih]

/-- With the cleanup the nodes are freed, and nothing is allocated. -/
theorem logChain_true {fuel a : Nat} {r : Heap × List Allocation}
    (hr : logChain true fuel h a = some r) :
    (a ≠ 0 → r.1.lookup a = none) ∧ ∀ x, h.lookup x = none → r.1.lookup x = none := by
  induction fuel generalizing h a r with
  | zero => cases hr
  | succ fuel ih =>
    rw [logChain] at hr
    by_cases ha : a = 0
    · rw [if_pos ha] at hr
      cases hr
      exact ⟨fun h => absurd ha h, fun x hx => hx⟩
    · rw [if_neg ha] at hr
      simp only [Option.bind_eq_bind, Option.bind_eq_some_iff] at hr
      obtain ⟨n, -, rest, hrest, hr⟩ := hr
      obtain ⟨-, hkept⟩ := ih hrest
      cases hr
      refine ⟨fun _ => hkept a (Finmap.lookup_erase _ _), fun x hx => hkept x ?_⟩
      by_cases hxa : x = a
      · rw [hxa]
        exact Finmap.lookup_erase _ _
      · exact (Finmap.lookup_erase_ne hxa).trans hx

theorem logBuckets_true {l : List Bucket} {r : Heap × List Allocation}
    (hr : logBuckets true allocMap l h = some r) :
    (∀ i ∈ l, allocMap i ≠ 0 → r.1.lookup (allocMap i) = none) ∧
      ∀ x, h.lookup x = none → r.1.lookup x = none := by
  induction l generalizing h r with
  | nil =>
    cases hr
    exact ⟨fun i hi => absurd hi List.not_mem_nil, fun x hx => hx⟩
  | cons i l ih =>
    simp only [logBuckets, Option.bind_eq_bind, Option.bind_eq_some_iff] at hr
    obtain ⟨chain, hchain, rest, hrest, hr⟩ := hr
    obtain ⟨hhead, hkept⟩ := logChain_true hchain
    obtain ⟨hheads, hkepts⟩ := ih hrest
    cases hr
    refine ⟨fun j hj hne => ?_, fun x hx => hkepts x (hkept x hx)⟩
    rcases List.mem_cons.mp hj with rfl | hj
    · exact hkepts _ (hhead hne)
    · exact hheads j hj hne

end

/-- Without the cleanup one line is logged for each node, and nothing changes. -/
theorem Tracks.log_eq {s : State} {m : Nat → Option Nat}
    {chains : Bucket → List (Nat × Allocation)} (ht : Tracks s m chains) :
    sfAllocMapToLog false s =
      .returned (s, buckets.flatMap fun i => (chains i).map Prod.snd) := by
  rw [sfAllocMapToLog, logBuckets_false ht.chain, Run.ofRead_some, Run.returned_bind]

end Snowflake.Memory
