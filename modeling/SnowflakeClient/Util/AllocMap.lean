import SnowflakeClient.Util.Memory

/-!
# Is the tracking exact?

`run` makes calls of the functions of `lib/memory.c` from the empty map on, each one with the
answers of the C library at that time. Beside the state it has the blocks a caller was given since
the last cleanup and has not given back, with the sizes they were asked for (`Call.track`).

`Exact s m`: the nodes of the map are all allocated, and they are those of the blocks of `m`. A call
keeps it unless it makes a block go away with `realloc` to size 0, or cleans a map up that has
something in it (`Call.Harmless`). The first leaves a node for the null pointer. The second frees
the nodes and leaves their addresses in `alloc_map`.
-/

namespace Snowflake.Memory

open Linked

/-- A call. -/
inductive Call where
  | malloc (size : Nat) (file : String) (line : Int)
  | calloc (num size : Nat) (file : String) (line : Int)
  | realloc (ptr size : Nat) (file : String) (line : Int)
  | free (ptr : Nat)
  | allocMapToLog (cleanup : Bool)

namespace Call

/-- The call, with the pointer it returns (null if it returns nothing). -/
def exec (libc : Libc) (s : State) : Call → Run Exit (State × Nat)
  | malloc size file line => sfMalloc libc s size file line
  | calloc num size file line => sfCalloc libc s num size file line
  | realloc ptr size file line => sfRealloc libc s ptr size file line
  | free ptr => do
    let s ← sfFree s ptr
    .returned (s, 0)
  | allocMapToLog cleanup => do
    let logged ← sfAllocMapToLog cleanup s
    .returned (logged.1, 0)

end Call

/-- The blocks a caller has, with one more if there is one at `data`. -/
def given (m : Nat → Option Nat) (data size : Nat) : Nat → Option Nat :=
  if data = 0 then m else Function.update m data (some size)

namespace Call

/-- The blocks a caller was given since the last cleanup, after the call returned `data`. -/
def track (m : Nat → Option Nat) (data : Nat) : Call → Nat → Option Nat
  | malloc size _ _ => given m data size
  | calloc num size _ _ => given m data (num * size)
  | realloc ptr size _ _ => given (Function.update m ptr none) data size
  | free ptr => Function.update m ptr none
  | allocMapToLog cleanup => if cleanup then fun _ => none else m

/-- The pointer of the call is null or that of a block. -/
def Owned (s : State) : Call → Prop
  | realloc ptr _ _ _ | free ptr => ptr = 0 ∨ s.heap.lookup ptr = some .block
  | _ => True

/-- The call is no `realloc` to size 0 with a null answer, and no cleanup of a map with nodes. -/
def Harmless (libc : Libc) (s : State) (m : Nat → Option Nat) : Call → Prop
  | realloc ptr size _ _ => size = 0 → libc.realloc s.heap ptr size ≠ 0
  | allocMapToLog cleanup => cleanup = true → ∀ ptr, m ptr = none
  | _ => True

end Call

/-- The state, with the blocks a caller has. -/
def step (st : State × (Nat → Option Nat)) (c : Libc × Call) :
    Run Exit (State × (Nat → Option Nat)) := do
  let r ← c.2.exec c.1 st.1
  .returned (r.1, c.2.track st.2 r.2)

/-- The calls, one after the other. -/
def run (calls : List (Libc × Call)) : Run Exit (State × (Nat → Option Nat)) :=
  calls.foldlM step (⟨∅, fun _ => 0⟩, fun _ => none)

/-- The nodes that can be reached from the map are allocated. There is one node for each block of
`m`, with its size, and there is no other one. -/
def Exact (s : State) (m : Nat → Option Nat) : Prop :=
  ∃ chains : Bucket → List (Nat × Allocation),
    (∀ i, Seg s.heap.nodeAt (s.allocMap i) (chains i) 0) ∧
      ∀ ptr, sizesOf ptr (buckets.flatMap chains) = (m ptr).toList

/-- Each block of `m` is a block of the heap. -/
def Live (s : State) (m : Nat → Option Nat) : Prop :=
  ∀ ptr size, m ptr = some size → ptr ≠ 0 ∧ s.heap.lookup ptr = some .block

/-- What harmless calls keep. -/
structure Inv (s : State) (m : Nat → Option Nat) : Prop where
  live : Live s m
  tracks : ∃ chains, Tracks s m chains

/-! ## The nodes and the blocks -/

section

variable {s : State} {m m' : Nat → Option Nat}

/-- The nodes for a block are in its bucket. -/
theorem sizesOf_flatMap {chains : Bucket → List (Nat × Allocation)}
    (hbucket : ∀ i, ∀ p ∈ chains i, sfPtrHash p.2.ptr = i) (ptr : Nat) :
    sizesOf ptr (buckets.flatMap chains) =
      sizesOf ptr (chains (sfPtrHash ptr)) := by
  have hnil : ∀ l : List Bucket, sfPtrHash ptr ∉ l → sizesOf ptr (l.flatMap chains) = [] := by
    intro l hl
    refine sizesOf_eq_nil.mpr fun p hp hptr => hl ?_
    obtain ⟨i, hi, hp⟩ := List.mem_flatMap.mp hp
    rw [← hptr, hbucket i p hp]
    exact hi
  obtain ⟨front, back, hsplit⟩ := List.append_of_mem (mem_buckets (sfPtrHash ptr))
  have hnodup := nodup_buckets
  rw [hsplit, List.nodup_middle, List.nodup_cons, List.mem_append, not_or] at hnodup
  rw [hsplit, List.flatMap_append, List.flatMap_cons, sizesOf_append, sizesOf_append,
    hnil front hnodup.1.1, hnil back hnodup.1.2, List.nil_append, List.append_nil]

theorem Tracks.exact {chains : Bucket → List (Nat × Allocation)} (ht : Tracks s m chains) :
    Exact s m :=
  ⟨chains, ht.chain, fun ptr => (sizesOf_flatMap ht.bucket ptr).trans (ht.sizes ptr)⟩

/-- The map has the nodes of one set of blocks. -/
theorem Exact.unique (h : Exact s m) (h' : Exact s m') : m = m' := by
  obtain ⟨chains, hchain, hsizes⟩ := h
  obtain ⟨chains', hchain', hsizes'⟩ := h'
  obtain rfl : chains = chains' := funext fun i => (hchain i).unique (hchain' i)
  funext ptr
  have heq := (hsizes ptr).symm.trans (hsizes' ptr)
  cases hm : m ptr <;> cases hm' : m' ptr <;> simp_all

end

/-! ## One call -/

section

variable {libc : Libc} {s : State} {m : Nat → Option Nat} {ptr data size : Nat}

theorem Live.none_of_fresh (h : Live s m) (hfresh : s.heap.lookup ptr = none) : m ptr = none := by
  cases hm : m ptr with
  | none => rfl
  | some size =>
    have hblock := (h ptr size hm).2
    rw [hfresh] at hblock
    cases hblock

theorem Live.none_of_null (h : Live s m) : m 0 = none := by
  cases hm : m 0 with
  | none => rfl
  | some size => exact absurd rfl (h 0 size hm).1

theorem Live.update {s' : State} (h : Live s m)
    (hother : ∀ q, q ≠ ptr → s.heap.lookup q = some .block → s'.heap.lookup q = some .block) :
    Live s' (Function.update m ptr none) := by
  intro q n hq
  by_cases hqp : q = ptr
  · subst hqp
    rw [Function.update_self] at hq
    cases hq
  · rw [Function.update_of_ne hqp] at hq
    exact ⟨(h q n hq).1, hother q hqp (h q n hq).2⟩

theorem Live.given (h : Live s m) (hdata : data ≠ 0 → s.heap.lookup data = some .block) :
    Live s (given m data size) := by
  rw [Memory.given]
  by_cases hnull : data = 0
  · rw [if_pos hnull]
    exact h
  · rw [if_neg hnull]
    intro q n hq
    by_cases hqd : q = data
    · subst hqd
      exact ⟨hnull, hdata hnull⟩
    · rw [Function.update_of_ne hqd] at hq
      exact h q n hq

theorem allocate_inside {file : String} {line : Int} (hinv : Inv s m)
    (hfresh : data ≠ 0 → s.heap.lookup data = none) :
    (allocate libc s data size file line).Inside fun r => Inv r.1 (given m r.2 size) := by
  obtain ⟨chains, ht⟩ := hinv.tracks
  rw [allocate]
  split
  · exact trivial
  · next hdata =>
    have hnone := hfresh hdata
    have ht₁ := ht.withHeap (Heap.nodeAt_insert_block (Heap.nodeAt_of_lookup_none hnone))
    have hm := hinv.live.none_of_fresh hnone
    obtain ⟨s', chains', hinsert, ht', hsame⟩ := ht₁.insert hm libc size file line
    rw [hinsert]
    have hself : Function.update m data none = m := by rw [← hm, Function.update_eq_self]
    refine ⟨?_, chains', ?_⟩
    · rw [← hself]
      refine (hinv.live.update fun q hq hblock => hsame q ?_).given fun _ => hsame data ?_
      · exact (Finmap.lookup_insert_of_ne _ hq).trans hblock
      · exact Finmap.lookup_insert _
    · rw [given, if_neg hdata]
      exact ht'

/-- The first half of `realloc` of the C library. -/
theorem Heap.freed_eq {h : Heap} (hown : ptr = 0 ∨ h.lookup ptr = some .block) :
    ∃ h' : Heap, (if ptr = 0 then some h else h.free ptr) = some h' ∧ h'.nodeAt = h.nodeAt ∧
      (∀ q, q ≠ ptr → h'.lookup q = h.lookup q) ∧ (ptr ≠ 0 → h'.lookup ptr = none) := by
  by_cases hptr : ptr = 0
  · exact ⟨h, if_pos hptr, rfl, fun q hq => rfl, fun hne => absurd hptr hne⟩
  · have hblock := hown.resolve_left hptr
    refine ⟨h.erase ptr, ?_, Heap.nodeAt_erase_block (Heap.nodeAt_of_lookup_block hblock),
      fun q hq => Finmap.lookup_erase_ne hq, fun _ => Finmap.lookup_erase _ _⟩
    rw [if_neg hptr, Heap.free, if_pos hblock]

/-- `realloc` of the C library moves a block and changes no node. -/
theorem Heap.realloc_eq {h : Heap} (hown : ptr = 0 ∨ h.lookup ptr = some .block)
    (hfresh : data ≠ 0 → data ≠ ptr → h.lookup data = none) :
    ∃ h', h.realloc ptr data = some h' ∧ h'.nodeAt = h.nodeAt ∧
      (∀ q, q ≠ ptr → h.lookup q = some .block → h'.lookup q = some .block) ∧
        (data ≠ 0 → h'.lookup data = some .block) := by
  obtain ⟨h₁, hfree, hnodes₁, hblocks₁, hgone⟩ := Heap.freed_eq hown
  have hnone : data ≠ 0 → h₁.lookup data = none := by
    intro hdata
    by_cases hsame : data = ptr
    · subst hsame
      exact hgone hdata
    · rw [hblocks₁ data hsame]
      exact hfresh hdata hsame
  refine ⟨if data = 0 then h₁ else h₁.insert data .block, ?_, ?_, ?_, ?_⟩
  · rw [Heap.realloc, hfree]
    rfl
  · split
    · exact hnodes₁
    · next hdata =>
      rw [Heap.nodeAt_insert_block (Heap.nodeAt_of_lookup_none (hnone hdata)), hnodes₁]
  · intro q hq hblock
    have hq₁ := (hblocks₁ q hq).trans hblock
    split
    · exact hq₁
    · next hdata =>
      by_cases hqd : q = data
      · rw [hqd]
        exact Finmap.lookup_insert _
      · exact (Finmap.lookup_insert_of_ne _ hqd).trans hq₁
  · intro hdata
    rw [if_neg hdata]
    exact Finmap.lookup_insert _

/-- `sf_realloc` ends the process, or the map has a node for what it returns, null or not. -/
theorem sfRealloc_eq (hinv : Inv s m) (hown : ptr = 0 ∨ s.heap.lookup ptr = some .block)
    (hdata : libc.realloc s.heap ptr size = data) (file : String) (line : Int) :
    (data = 0 ∧ size > 0 ∧ sfRealloc libc s ptr size file line = .raised .failure) ∨
      ∃ s' chains', ¬ (data = 0 ∧ size > 0) ∧
        sfRealloc libc s ptr size file line = .returned (s', data) ∧
        Tracks s' (Function.update (Function.update m ptr none) data (some size)) chains' ∧
        (∀ q, q ≠ ptr → s.heap.lookup q = some .block → s'.heap.lookup q = some .block) ∧
        (data ≠ 0 → s'.heap.lookup data = some .block) := by
  obtain ⟨chains, ht⟩ := hinv.tracks
  have hfresh : data ≠ 0 → data ≠ ptr → s.heap.lookup data = none := by
    rw [← hdata]
    exact libc.realloc_fresh s.heap ptr size
  obtain ⟨h', hrealloc, hnodes, hblocks, hblock⟩ := Heap.realloc_eq hown hfresh
  have hm : data ≠ ptr → m data = none := by
    intro hne
    by_cases hnull : data = 0
    · rw [hnull]
      exact hinv.live.none_of_null
    · exact hinv.live.none_of_fresh (hfresh hnull hne)
  obtain ⟨s', chains', hmap, ht', hsame⟩ := (ht.withHeap hnodes).realloc hm libc size file line
  simp only [sfRealloc, hdata, hrealloc, Run.ofRead_some, Run.returned_bind]
  by_cases hfail : data = 0 ∧ size > 0
  · exact .inl ⟨hfail.1, hfail.2, if_pos hfail⟩
  · refine .inr ⟨s', chains', hfail, ?_, ht', fun q hq hb => hsame q (hblocks q hq hb),
      fun hne => hsame data (hblock hne)⟩
    rw [if_neg hfail, hmap]
    rfl

theorem sfFree_eq (hinv : Inv s m) (hown : ptr = 0 ∨ s.heap.lookup ptr = some .block) :
    ∃ s', sfFree s ptr = .returned s' ∧ Inv s' (Function.update m ptr none) := by
  by_cases hptr : ptr = 0
  · have hself : Function.update m ptr none = m := by
      rw [hptr, ← hinv.live.none_of_null, Function.update_eq_self]
    rw [hself]
    exact ⟨s, if_pos hptr, hinv⟩
  · obtain ⟨chains, ht⟩ := hinv.tracks
    have hblock := hown.resolve_left hptr
    have ht₁ := ht.withHeap (Heap.nodeAt_erase_block (Heap.nodeAt_of_lookup_block hblock))
    obtain ⟨s', chains', hremove, ht', hsame⟩ := ht₁.remove ptr
    refine ⟨s', ?_, ?_, chains', ht'⟩
    · simp [sfFree, hptr, Heap.free, hblock, hremove]
    · exact hinv.live.update fun q hq hb => hsame q ((Finmap.lookup_erase_ne hq).trans hb)

/-- A map with an address that is not allocated is not exact. -/
theorem Exact.allocMap_eq (h : Exact s m)
    (hfreed : ∀ i, s.allocMap i ≠ 0 → s.heap.lookup (s.allocMap i) = none) (i : Bucket) :
    s.allocMap i = 0 := by
  obtain ⟨chains, hchain, -⟩ := h
  have hi := hchain i
  cases hl : chains i with
  | nil =>
    rw [hl] at hi
    exact hi
  | cons p l =>
    obtain ⟨x, d⟩ := p
    rw [hl] at hi
    obtain ⟨hx, hne, next, hget, -⟩ := hi
    rw [← hx] at hne hget
    rw [Heap.nodeAt_of_lookup_none (hfreed i hne)] at hget
    cases hget

theorem Tracks.eq_none {chains : Bucket → List (Nat × Allocation)} (ht : Tracks s m chains)
    (hempty : ∀ i, s.allocMap i = 0) (ptr : Nat) : m ptr = none := by
  have hchain := ht.chain (sfPtrHash ptr)
  rw [hempty] at hchain
  have hnil : chains (sfPtrHash ptr) = [] := hchain.unique rfl
  have hsizes := ht.sizes ptr
  rw [hnil, sizesOf_nil] at hsizes
  exact Option.toList_eq_nil_iff.mp hsizes.symm

/-- Nothing is tracked: the map is empty. -/
theorem Tracks.allocMap_eq {chains : Bucket → List (Nat × Allocation)} (ht : Tracks s m chains)
    (hm : ∀ ptr, m ptr = none) (i : Bucket) : s.allocMap i = 0 := by
  have hchain := ht.chain i
  cases hl : chains i with
  | nil =>
    rw [hl] at hchain
    exact hchain
  | cons p l =>
    have hp : p ∈ chains i := by simp [hl]
    have hsizes := ht.sizes p.2.ptr
    rw [hm, ht.bucket i p hp] at hsizes
    exact absurd rfl (sizesOf_eq_nil.mp hsizes p hp)

theorem sfAllocMapToLog_eq {cleanup : Bool} (hinv : Inv s m)
    (hharmless : cleanup = true → ∀ ptr, m ptr = none) :
    ∃ logged, sfAllocMapToLog cleanup s = .returned (s, logged) := by
  obtain ⟨chains, ht⟩ := hinv.tracks
  cases cleanup with
  | false => exact ⟨_, ht.log_eq⟩
  | true =>
    refine ⟨[], ?_⟩
    rw [sfAllocMapToLog, logBuckets_empty (ht.allocMap_eq (hharmless rfl)), Run.ofRead_some,
      Run.returned_bind]

theorem Call.exec_harmless {c : Call} (hinv : Inv s m) (hown : c.Owned s)
    (hharmless : c.Harmless libc s m) :
    (c.exec libc s).Inside fun r => Inv r.1 (c.track m r.2) := by
  cases c with
  | malloc size file line =>
    rw [exec, sfMalloc]
    split
    · exact hinv
    · exact allocate_inside hinv (libc.malloc_fresh s.heap size)
  | calloc num size file line =>
    rw [exec, sfCalloc]
    split
    · exact hinv
    · by_cases hdata : libc.calloc s.heap num size = 0
      · rw [hdata]
        exact trivial
      · rw [Nat.mod_eq_of_lt (libc.calloc_size _ _ _ hdata)]
        exact allocate_inside hinv fun _ => libc.calloc_fresh _ _ _ hdata
  | realloc ptr size file line =>
    rw [exec]
    rcases sfRealloc_eq hinv hown rfl file line with
      ⟨-, -, hraised⟩ | ⟨s', chains', hnot, hreturned, ht, hother, hblock⟩
    · rw [hraised]
      exact trivial
    · have hdata : libc.realloc s.heap ptr size ≠ 0 := by
        intro hnull
        refine hharmless ?_ hnull
        exact Nat.eq_zero_of_not_pos fun hpos => hnot ⟨hnull, hpos⟩
      rw [hreturned]
      refine ⟨(hinv.live.update hother).given hblock, chains', ?_⟩
      rw [track, given, if_neg hdata]
      exact ht
  | free ptr =>
    obtain ⟨s', hfree, hinv'⟩ := sfFree_eq hinv hown
    rw [exec, hfree]
    exact hinv'
  | allocMapToLog cleanup =>
    obtain ⟨logged, hlog⟩ := sfAllocMapToLog_eq hinv hharmless
    rw [exec, hlog, Run.returned_bind, Run.inside_returned, track]
    cases cleanup with
    | false => exact hinv
    | true =>
      have hself : (fun _ => none) = m := funext fun ptr => (hharmless rfl ptr).symm
      rw [if_pos rfl, hself]
      exact hinv

/-- A harmful call leaves a map that is not exact, or does not come to an end. -/
theorem Call.exec_harmful {c : Call} (hinv : Inv s m) (hown : c.Owned s)
    (hexact : (c.exec libc s).Inside fun r => Exact r.1 (c.track m r.2)) :
    c.Harmless libc s m := by
  cases c with
  | malloc | calloc | free => exact trivial
  | realloc ptr size file line =>
    -- the map has a node for the null pointer, which no caller was given
    intro hsize hdata
    rw [exec] at hexact
    rcases sfRealloc_eq hinv hown hdata file line with
      ⟨-, hpos, -⟩ | ⟨s', chains', -, hreturned, ht, -, -⟩
    · exact absurd hsize (Nat.ne_of_gt hpos)
    · rw [hreturned] at hexact
      have heq := congrFun (ht.exact.unique hexact) 0
      rw [track, given, if_pos rfl, Function.update_self] at heq
      by_cases hptr : ptr = 0
      · rw [hptr, Function.update_self] at heq
        cases heq
      · rw [Function.update_of_ne (Ne.symm hptr), hinv.live.none_of_null] at heq
        cases heq
  | allocMapToLog cleanup =>
    -- the first node of a bucket is freed, and its address is still in the map
    rintro rfl ptr
    obtain ⟨chains, ht⟩ := hinv.tracks
    rw [exec, sfAllocMapToLog] at hexact
    cases hlog : logBuckets true s.allocMap buckets s.heap with
    | none =>
      rw [hlog] at hexact
      exact hexact.elim
    | some r =>
      rw [hlog, Run.ofRead_some, Run.returned_bind, Run.returned_bind,
        Run.inside_returned] at hexact
      have hfreed := (logBuckets_true hlog).1
      exact ht.eq_none (hexact.allocMap_eq fun i hi => hfreed i (mem_buckets i) hi) ptr

end

/-! ## Whole runs -/

section

variable {calls : List (Libc × Call)}

theorem run_concat (c : Libc × Call) : run (calls ++ [c]) = run calls >>= fun st => step st c := by
  rw [run, List.foldlM_append, ← run]
  simp only [List.foldlM_cons, List.foldlM_nil, bind_pure]

/-- Each call has the property in the state it is made in. -/
def Along (P : Libc × Call → State × (Nat → Option Nat) → Prop) (calls : List (Libc × Call)) :
    Prop :=
  ∀ p c, p ++ [c] <+: calls → ∀ st, run p = .returned st → P c st

/-- The pointers of the calls are null or those of blocks a caller has. -/
def Valid : List (Libc × Call) → Prop := Along fun c st => c.2.Owned st.1

def AllHarmless : List (Libc × Call) → Prop := Along fun c st => c.2.Harmless c.1 st.1 st.2

/-- After each call the tracking is exact, and no call used memory that is not allocated. -/
def AlwaysExact (calls : List (Libc × Call)) : Prop :=
  ∀ p, p <+: calls → (run p).Inside fun st => Exact st.1 st.2

theorem Along.nil {P : Libc × Call → State × (Nat → Option Nat) → Prop} : Along P [] := by
  intro p c hp
  simp at hp

theorem along_concat {P : Libc × Call → State × (Nat → Option Nat) → Prop} {c : Libc × Call} :
    Along P (calls ++ [c]) ↔ Along P calls ∧ ∀ st, run calls = .returned st → P c st := by
  constructor
  · intro h
    exact ⟨fun p d hp => h p d (hp.trans (List.prefix_append _ _)), h calls c (List.prefix_refl _)⟩
  · rintro ⟨hbefore, hlast⟩ p d hp
    rcases List.prefix_concat_iff.mp hp with heq | hp
    · obtain ⟨rfl, rfl⟩ := List.append_singleton_inj.mp heq
      exact hlast
    · exact hbefore p d hp

theorem alwaysExact_concat {c : Libc × Call} :
    AlwaysExact (calls ++ [c]) ↔
      AlwaysExact calls ∧ (run (calls ++ [c])).Inside fun st => Exact st.1 st.2 := by
  constructor
  · intro h
    exact ⟨fun p hp => h p (hp.trans (List.prefix_append _ _)), h _ (List.prefix_refl _)⟩
  · rintro ⟨hbefore, hlast⟩ p hp
    rcases List.prefix_concat_iff.mp hp with rfl | hp
    · exact hlast
    · exact hbefore p hp

theorem inv_init : Inv ⟨∅, fun _ => 0⟩ fun _ => none := by
  refine ⟨fun ptr size h => ?_, fun _ => [], fun i => rfl, fun i p hp => ?_, fun ptr => rfl⟩
  · cases h
  · cases hp

/-- What harmless calls keep holds after all of them. -/
theorem AllHarmless.inside (hvalid : Valid calls) (hharmless : AllHarmless calls) :
    (run calls).Inside fun st => Inv st.1 st.2 := by
  induction calls using List.reverseRecOn with
  | nil => exact inv_init
  | append_singleton calls c ih =>
    obtain ⟨hvalid, hown⟩ := along_concat.mp hvalid
    obtain ⟨hharmless, hlast⟩ := along_concat.mp hharmless
    rw [run_concat]
    refine (ih hvalid hharmless).bind_returned fun st hrun hinv => ?_
    exact Run.inside_bind_returned.mpr (Call.exec_harmless hinv (hown st hrun) (hlast st hrun))

theorem AlwaysExact.allHarmless (hvalid : Valid calls) (hexact : AlwaysExact calls) :
    AllHarmless calls := by
  induction calls using List.reverseRecOn with
  | nil => exact Along.nil
  | append_singleton calls c ih =>
    obtain ⟨hvalid, hown⟩ := along_concat.mp hvalid
    obtain ⟨hexact, hlast⟩ := alwaysExact_concat.mp hexact
    have hbefore := ih hvalid hexact
    refine along_concat.mpr ⟨hbefore, fun st hrun => ?_⟩
    have hinv := hbefore.inside hvalid
    rw [run_concat, hrun, Run.returned_bind, step, Run.inside_bind_returned] at hlast
    rw [hrun] at hinv
    exact Call.exec_harmful hinv (hown st hrun) hlast

theorem AllHarmless.alwaysExact (hvalid : Valid calls) (hharmless : AllHarmless calls) :
    AlwaysExact calls := by
  intro p hp
  have hinv := AllHarmless.inside (fun q c hq => hvalid q c (hq.trans hp))
    fun q c hq => hharmless q c (hq.trans hp)
  refine hinv.imp fun st h => ?_
  obtain ⟨chains, ht⟩ := h.tracks
  exact ht.exact

/-- For calls with the pointers of blocks a caller has, and whatever the C library answers: the
tracking is exact after each call, and no call uses a node that is freed, exactly if no call is a
`realloc` to size 0 that answers null or a cleanup of a map that has something in it. -/
theorem allocation_tracking_exact_iff (calls : List (Libc × Call)) (hvalid : Valid calls) :
    AlwaysExact calls ↔ AllHarmless calls :=
  ⟨fun hexact => hexact.allHarmless hvalid, fun hharmless => hharmless.alwaysExact hvalid⟩

end

/-! ## A C library -/

/-- The first address after all those in use. -/
def Heap.next (h : Heap) : Nat := h.keys.sup id + 1

theorem Heap.lookup_next (h : Heap) : h.lookup h.next = none := by
  refine Finmap.lookup_eq_none.mpr fun hmem => ?_
  have hle : h.next ≤ h.keys.sup id := Finset.le_sup (f := id) (Finmap.mem_keys.mpr hmem)
  exact Nat.not_succ_le_self _ hle

/-- A C library that gives the next address to each block and moves it with `realloc`. -/
def bump : Libc where
  malloc h _ := h.next
  calloc h num size := if num * size < 2 ^ 64 then h.next else 0
  realloc h _ size := if size = 0 then 0 else h.next
  malloc_fresh h _ _ := h.lookup_next
  malloc_allocation h := Nat.succ_ne_zero _
  calloc_fresh h num size hne := by
    split at hne
    · next hlt => exact (if_pos hlt).symm ▸ h.lookup_next
    · exact absurd rfl hne
  calloc_size h num size hne := by
    split at hne
    · next hlt => exact hlt
    · exact absurd rfl hne
  realloc_fresh h ptr size hne _ := by
    split at hne
    · exact absurd rfl hne
    · next hsize => exact (if_neg hsize).symm ▸ h.lookup_next
  realloc_zero _ _ _ := rfl

theorem allocation_tracking_exact_moved :
    AlwaysExact [(bump, .malloc 8 "file.c" 1), (bump, .realloc 1 16 "file.c" 2), (bump, .free 3),
      (bump, .allocMapToLog true)] := by
  let calls : List (Libc × Call) := [] ++ [(bump, Call.malloc 8 "file.c" 1)] ++
    [(bump, Call.realloc 1 16 "file.c" 2)] ++ [(bump, Call.free 3)] ++
    [(bump, Call.allocMapToLog true)]
  have hvalid : Valid calls := by
    refine along_concat.mpr ⟨along_concat.mpr ⟨along_concat.mpr ⟨along_concat.mpr
      ⟨Along.nil, ?_⟩, ?_⟩, ?_⟩, ?_⟩
    · exact fun st h => trivial
    · intro st h
      cases h
      exact .inr rfl
    · intro st h
      cases h
      exact .inr rfl
    · exact fun st h => trivial
  have hharmless : AllHarmless calls := by
    refine along_concat.mpr ⟨along_concat.mpr ⟨along_concat.mpr ⟨along_concat.mpr
      ⟨Along.nil, ?_⟩, ?_⟩, ?_⟩, ?_⟩
    · exact fun st h => trivial
    · intro st h hsize
      cases hsize
    · exact fun st h => trivial
    · intro st h _ ptr
      cases h
      change Function.update (Function.update (Function.update (Function.update (fun _ => none) 1
        (some 8)) 1 none) 3 (some 16)) 3 none ptr = none
      rw [Function.update_idem, Function.update_idem]
      by_cases h3 : ptr = 3 <;> by_cases h1 : ptr = 1 <;> simp [h3, h1]
  exact (allocation_tracking_exact_iff calls hvalid).mpr hharmless

/-- `realloc` to size 0 leaves a node for the null pointer, and a cleanup leaves the addresses of
the nodes it freed in the map. -/
theorem allocation_tracking_not_exact :
    (Valid [(bump, .malloc 8 "file.c" 1), (bump, .realloc 1 0 "file.c" 2)] ∧
      ¬ AlwaysExact [(bump, .malloc 8 "file.c" 1), (bump, .realloc 1 0 "file.c" 2)]) ∧
    (Valid [(bump, .malloc 8 "file.c" 1), (bump, .allocMapToLog true)] ∧
      ¬ AlwaysExact [(bump, .malloc 8 "file.c" 1), (bump, .allocMapToLog true)]) := by
  let first : List (Libc × Call) := [] ++ [(bump, Call.malloc 8 "file.c" 1)]
  have hfirst : Valid first := along_concat.mpr ⟨Along.nil, fun st h => trivial⟩
  have hrealloc : Valid (first ++ [(bump, Call.realloc 1 0 "file.c" 2)]) := by
    refine along_concat.mpr ⟨hfirst, fun st h => ?_⟩
    cases h
    exact .inr rfl
  have hcleanup : Valid (first ++ [(bump, Call.allocMapToLog true)]) :=
    along_concat.mpr ⟨hfirst, fun st h => trivial⟩
  refine ⟨⟨hrealloc, fun hexact => ?_⟩, hcleanup, fun hexact => ?_⟩
  · exact (along_concat.mp (AlwaysExact.allHarmless hrealloc hexact)).2 _ rfl rfl rfl
  · have hnone := (along_concat.mp (AlwaysExact.allHarmless hcleanup hexact)).2 _ rfl rfl 1
    cases hnone

end Snowflake.Memory
