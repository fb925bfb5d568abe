import SnowflakeClient.Bind.Positional

/-!
# The array list over a run

An `ARRAY_LIST` that starts with `sf_array_list_init` is a map from indices to items, and `used` is
the number of its items. A get may grow the list; it changes no item.

`sf_array_list_grow` computes the new size and the bytes of its block in a `size_t` and checks
neither. `accessAt` has both as they are when `data[index]` is accessed; they are those of the list
for the indices below `2 ^ 60`.
-/

namespace Snowflake

/-- A call on an `ARRAY_LIST`. -/
inductive ListCall (α : Type) where
  | set (item : Option α) (index : Nat)
  | get (index : Nat)
  deriving DecidableEq, Repr

section ListRun

variable {α : Type}

namespace ListCall

def index : ListCall α → Nat
  | .set _ index => index
  | .get index => index

/-- The list after the call. -/
def run (al : ArrayList α) : ListCall α → Option (ArrayList α)
  | .set item index => sfArrayListSet al item index
  | .get index => (sfArrayListGet al index).map Prod.snd

/-- The index and the item of a call that sets one. -/
def assignment : ListCall α → Option (Nat × Option α)
  | .set item index => some (index, item)
  | .get _ => none

end ListCall

/-- The list after the calls, from `sf_array_list_init` on. -/
def runCalls (calls : List (ListCall α)) : Option (ArrayList α) :=
  calls.foldlM ListCall.run sfArrayListInit

/-- The item of the last set at `i`, `NULL` if there was none. -/
def lastItem (calls : List (ListCall α)) (i : Nat) : Option α :=
  (lastSet (calls.filterMap ListCall.assignment) i).join

/-- The item at an index. -/
def ArrayList.item (al : ArrayList α) (i : Nat) : Option α := al.data[i]?.join

variable {al al' : ArrayList α} {m : Nat → Option α} {item : Option α} {index : Nat}
  {calls : List (ListCall α)}

theorem runCalls_append (calls : List (ListCall α)) (call : ListCall α) :
    runCalls (calls ++ [call]) = (runCalls calls).bind (ListCall.run · call) := by
  simp [runCalls, List.foldlM_append]

theorem lastItem_set (calls : List (ListCall α)) (item : Option α) (index : Nat) :
    lastItem (calls ++ [.set item index]) =
      fun i => if i = index then item else lastItem calls i := by
  funext i
  simp only [lastItem, List.filterMap_append, List.filterMap_cons, ListCall.assignment,
    List.filterMap_nil, lastSet_append]
  by_cases hi : i = index <;> simp [hi]

theorem lastItem_get (calls : List (ListCall α)) (index : Nat) :
    lastItem (calls ++ [.get index]) = lastItem calls := by
  funext i
  simp only [lastItem, List.filterMap_append, List.filterMap_cons, ListCall.assignment,
    List.filterMap_nil, List.append_nil]

/-! ## The invariant -/

/-- The indices that have an item. -/
def indices (m : Nat → Option α) : Set Nat := {i | m i ≠ none}

/-- `ListHolds`, with the count of the items and the size at the beginning. -/
structure ListCounts (al : ArrayList α) (m : Nat → Option α) : Prop extends ListHolds al m where
  eight : 8 ≤ al.data.length
  used : al.used = (indices m).ncard

theorem ListHolds.indices_subset (h : ListHolds al m) : indices m ⊆ Set.Iio al.data.length := by
  intro i hi
  by_contra hge
  apply hi
  rw [← h.cell i, List.getElem?_eq_none (Nat.le_of_not_lt hge), Option.join_none]

theorem ListHolds.finite (h : ListHolds al m) : (indices m).Finite :=
  (Set.finite_Iio _).subset h.indices_subset

/-- The count is a `size_t`, and one more is too. -/
theorem ListHolds.ncard_le (h : ListHolds al m) : (indices m).ncard ≤ 2 ^ 60 := by
  obtain ⟨k, hk, hlen⟩ := h.size
  have hle := Set.ncard_le_ncard h.indices_subset (Set.finite_Iio _)
  rw [Set.ncard_eq_toFinset_card' (Set.Iio _), Set.toFinset_Iio, Nat.card_Iio, hlen] at hle
  exact hle.trans (Nat.pow_le_pow_right (by decide) hk)

theorem listCounts_init : ListCounts (sfArrayListInit : ArrayList α) fun _ => none := by
  refine ⟨listHolds_init, le_rfl, ?_⟩
  simp [indices, sfArrayListInit]

/-- A list that grows keeps its count and does not become smaller. -/
theorem growTo_frame (hgrow : growTo al index = some al') :
    al'.used = al.used ∧ al.data.length ≤ al'.data.length := by
  rw [growTo] at hgrow
  by_cases hi : al.data.length ≤ index
  · rw [if_pos hi] at hgrow
    obtain ⟨newSize, -, hrest⟩ := Option.bind_eq_some_iff.mp hgrow
    by_cases hbytes : 8 * newSize < 2 ^ 64
    · rw [if_pos hbytes] at hrest
      cases hrest
      exact ⟨rfl, by simp⟩
    · rw [if_neg hbytes] at hrest
      cases hrest
  · rw [if_neg hi] at hgrow
    cases hgrow
    exact ⟨rfl, le_rfl⟩

theorem ListCounts.growTo (h : ListCounts al m) (hgrow : growTo al index = some al') :
    ListCounts al' m := by
  obtain ⟨hused, hle⟩ := growTo_frame hgrow
  exact ⟨h.toListHolds.growTo hgrow, h.eight.trans hle, hused.trans h.used⟩

/-- The indices with an item after a set. -/
theorem indices_set (m : Nat → Option α) (item : Option α) (index : Nat) :
    indices (fun i => if i = index then item else m i) =
      if item.isSome then insert index (indices m) else indices m \ {index} := by
  ext i
  rcases item with _ | a <;> by_cases hi : i = index <;> simp [indices, hi]

/-- The three branches of `sf_array_list_set` on `used`. -/
theorem ListHolds.used_set (h : ListHolds al m) (item : Option α) (index : Nat) :
    (if (m index).isNone && item.isSome then ((indices m).ncard + 1) % 2 ^ 64
      else if (m index).isSome && item.isNone then ((indices m).ncard + 2 ^ 64 - 1) % 2 ^ 64
      else (indices m).ncard) =
      (indices fun i => if i = index then item else m i).ncard := by
  have hle := h.ncard_le
  rw [indices_set]
  cases hold : m index with
  | none =>
    have hnot : index ∉ indices m := fun hmem => hmem hold
    cases item with
    | none => simp [Set.sdiff_singleton_eq_self hnot]
    | some a =>
      simp only [Option.isNone_none, Option.isSome_some, Bool.and_self, if_true,
        Set.ncard_insert_of_notMem hnot h.finite]
      exact Nat.mod_eq_of_lt (by omega)
  | some old =>
    have hmem : index ∈ indices m := by simp [indices, hold]
    cases item with
    | none =>
      have hone := Set.ncard_sdiff_singleton_add_one hmem h.finite
      simp only [Option.isNone_some, Option.isSome_none, Bool.and_self, Bool.false_eq_true,
        if_false, Option.isSome_some, Option.isNone_none, if_true]
      omega
    | some a => simp [Set.insert_eq_of_mem hmem]

theorem ListCounts.set (h : ListCounts al m) (hset : sfArrayListSet al item index = some al') :
    ListCounts al' fun i => if i = index then item else m i := by
  have hholds := h.toListHolds.set hset
  obtain ⟨al₁, hgrow, hset⟩ := Option.bind_eq_some_iff.mp hset
  obtain ⟨old, hold, hset⟩ := Option.bind_eq_some_iff.mp hset
  cases hset
  have h₁ := h.growTo hgrow
  have hm : m index = old := by rw [← h₁.cell index, hold, Option.join_some]
  refine ⟨hholds, by simpa using h₁.eight, ?_⟩
  rw [← h₁.toListHolds.used_set item index, h₁.used, hm]

theorem sfArrayListGet_snd {result : Option α × ArrayList α}
    (hget : sfArrayListGet al index = some result) : growTo al index = some result.2 := by
  obtain ⟨al₁, hgrow, hget⟩ := Option.bind_eq_some_iff.mp hget
  obtain ⟨old, -, hget⟩ := Option.bind_eq_some_iff.mp hget
  cases hget
  exact hgrow

/-- One call. -/
theorem ListCounts.run {call : ListCall α} (h : ListCounts al (lastItem calls))
    (hrun : call.run al = some al') : ListCounts al' (lastItem (calls ++ [call])) := by
  cases call with
  | set item index =>
    rw [lastItem_set]
    exact h.set hrun
  | get index =>
    obtain ⟨result, hget, rfl⟩ := Option.map_eq_some_iff.mp hrun
    rw [lastItem_get]
    exact h.growTo (sfArrayListGet_snd hget)

/-- The calls that returned leave a map with its count, whatever their indices. -/
theorem runCalls_counts (hrun : runCalls calls = some al) : ListCounts al (lastItem calls) := by
  induction calls using List.reverseRecOn generalizing al with
  | nil =>
    cases hrun
    exact listCounts_init
  | append_singleton calls call ih =>
    rw [runCalls_append] at hrun
    obtain ⟨al₁, hrun₁, hcall⟩ := Option.bind_eq_some_iff.mp hrun
    exact (ih hrun₁).run hcall

/-- A call that returned has come to its item. -/
theorem ListCall.index_lt {call : ListCall α} (hrun : call.run al = some al') :
    call.index < al'.data.length := by
  cases call with
  | set item index =>
    obtain ⟨al₁, -, hrun⟩ := Option.bind_eq_some_iff.mp hrun
    obtain ⟨old, hold, hrun⟩ := Option.bind_eq_some_iff.mp hrun
    cases hrun
    rw [List.length_set]
    exact (List.getElem?_eq_some_iff.mp hold).1
  | get index =>
    obtain ⟨result, hget, rfl⟩ := Option.map_eq_some_iff.mp hrun
    obtain ⟨al₁, -, hget⟩ := Option.bind_eq_some_iff.mp hget
    obtain ⟨old, hold, hget⟩ := Option.bind_eq_some_iff.mp hget
    cases hget
    exact (List.getElem?_eq_some_iff.mp hold).1

/-! ## Runs on indices below `2 ^ 60` -/

/-- A call on such an index returns. -/
theorem ListHolds.call_total {call : ListCall α} (h : ListHolds al m)
    (hindex : call.index < 2 ^ 60) :
    ∃ al', call.run al = some al' ∧ al.data.length ≤ al'.data.length := by
  obtain ⟨al', hgrow, hlt⟩ := h.growTo_total hindex
  have hle := (growTo_frame hgrow).2
  have hcell : al'.data[call.index]? = some al'.data[call.index] := List.getElem?_eq_getElem hlt
  cases call with
  | set item index =>
    simp only [ListCall.index] at hgrow hlt hcell
    simp only [ListCall.run, sfArrayListSet, hgrow, Option.bind_eq_bind,
      Option.bind_some, hcell]
    refine ⟨_, rfl, ?_⟩
    rwa [List.length_set]
  | get index =>
    simp only [ListCall.index] at hgrow hlt hcell
    simp only [ListCall.run, sfArrayListGet, hgrow, Option.bind_eq_bind,
      Option.bind_some, hcell, Option.map_some]
    exact ⟨al', rfl, hle⟩

theorem runCalls_total (hindex : ∀ call ∈ calls, call.index < 2 ^ 60) :
    ∃ al, runCalls calls = some al ∧ ∀ call ∈ calls, call.index < al.data.length := by
  induction calls using List.reverseRecOn with
  | nil => exact ⟨sfArrayListInit, rfl, by simp⟩
  | append_singleton calls call ih =>
    obtain ⟨al, hrun, hlt⟩ := ih fun c hc => hindex c (List.mem_append_left _ hc)
    have hholds := (runCalls_counts hrun).toListHolds
    obtain ⟨al', hcall, hle⟩ := hholds.call_total (hindex call (by simp))
    refine ⟨al', by rw [runCalls_append, hrun, Option.bind_some, hcall], fun c hc => ?_⟩
    rcases List.mem_append.mp hc with hc | hc
    · exact (hlt c hc).trans_le hle
    · rw [List.mem_singleton.mp hc]
      exact ListCall.index_lt hcall

theorem ListCounts.size_eq (h : ListCounts al m) : ∃ k, al.data.length = 8 * 2 ^ k := by
  obtain ⟨k, -, hlen⟩ := h.size
  have hk : 3 ≤ k := (Nat.pow_le_pow_iff_right (by decide : 1 < 2)).mp (hlen ▸ h.eight)
  refine ⟨k - 3, ?_⟩
  rw [hlen, show 8 = 2 ^ 3 from rfl, ← pow_add]
  congr 1
  omega

/-- After any calls with indices below `2 ^ 60` the list is the map of the last items: a get returns
them and changes none, `used` is their number, and the size is above every index of a call. -/
theorem array_list_is_map (calls : List (ListCall α))
    (hindex : ∀ call ∈ calls, call.index < 2 ^ 60) :
    ∃ al, runCalls calls = some al ∧
      (∀ i < 2 ^ 60, ∃ al', sfArrayListGet al i = some (lastItem calls i, al') ∧
        ∀ j, al'.item j = al.item j) ∧
      al.used = {i | lastItem calls i ≠ none}.ncard ∧
      (∀ i, al.item i = lastItem calls i) ∧
      (∃ k, al.data.length = 8 * 2 ^ k) ∧
      ∀ call ∈ calls, call.index < al.data.length := by
  obtain ⟨al, hrun, hlt⟩ := runCalls_total hindex
  have h := runCalls_counts hrun
  refine ⟨al, hrun, fun i hi => ?_, h.used, h.cell, h.size_eq, hlt⟩
  obtain ⟨al', hget, h'⟩ := h.toListHolds.get hi
  exact ⟨al', hget, fun j => (h'.cell j).trans (h.cell j).symm⟩

/-- Two items, one of them deleted, and a get that grows the list. -/
theorem array_list_is_map_sparse :
    ∃ al, runCalls [.set (some 'a') 3, .set (some 'b') 5, .get 100, .set none 3] = some al ∧
      (∀ i < 2 ^ 60, ∃ al', sfArrayListGet al i =
          some (lastItem [.set (some 'a') 3, .set (some 'b') 5, .get 100, .set none 3] i, al') ∧
        ∀ j, al'.item j = al.item j) := by
  obtain ⟨al, hrun, hget, -⟩ := array_list_is_map
    [.set (some 'a') 3, .set (some 'b') 5, .get 100, .set none 3] (by decide)
  exact ⟨al, hrun, hget⟩

/-! ## Every index -/

/-- What the list is when `sf_array_list_set` and `sf_array_list_get` access `data[index]`: its
size, and the bytes that were requested for its block. -/
structure Access where
  size : Nat
  requested : Nat
  deriving DecidableEq, Repr

/-- The access to `data[index]`; `none` if the loop of `sf_array_list_grow` takes more than `fuel`
rounds. No index is refused. -/
def accessAt (fuel : Nat) (al : ArrayList α) (index : Nat) : Option Access :=
  let access (size : Nat) : Access := ⟨size, 8 * size % 2 ^ 64⟩
  if al.data.length ≤ index then
    (growSize fuel al.data.length ((index + 1) % 2 ^ 64)).map access
  else
    some (access al.data.length)

/-- `sf_array_list_set` and `sf_array_list_get` come to `data[index]`, and when they do the list has
the index and a block of its size. -/
structure Accommodates (al : ArrayList α) (index : Nat) : Prop where
  ends : ∃ fuel, (accessAt fuel al index).isSome
  fits : ∀ fuel access, accessAt fuel al index = some access →
    index < access.size ∧ access.requested = 8 * access.size

/-- `growTo` is that access, with the list of its size where the bytes did not wrap. -/
theorem growTo_eq_accessAt (h : 8 * al.data.length < 2 ^ 64) :
    growTo al index = (accessAt 65 al index).bind fun access =>
      if 8 * access.size < 2 ^ 64 then
        some { al with data := al.data ++ List.replicate (access.size - al.data.length) none }
      else none := by
  by_cases hi : al.data.length ≤ index
  · simp [growTo, accessAt, hi, sfArrayListGrow, Option.bind_map]
  · simp only [growTo, accessAt, if_neg hi, Option.bind_some, if_pos h, Nat.sub_self,
      List.replicate_zero, List.append_nil]

theorem growSize_unique {fuel fuel' newSize minSize a b : Nat}
    (ha : growSize fuel newSize minSize = some a) (hb : growSize fuel' newSize minSize = some b) :
    a = b := by
  induction fuel generalizing fuel' newSize with
  | zero => cases ha
  | succ fuel ih =>
    cases fuel' with
    | zero => cases hb
    | succ fuel' =>
      rw [growSize] at ha hb
      by_cases hlt : newSize < minSize
      · rw [if_pos hlt] at ha hb
        exact ih ha hb
      · rw [if_neg hlt] at ha hb
        exact Option.some.inj (ha.symm.trans hb)

theorem growSize_ge {fuel newSize minSize a : Nat} (h : growSize fuel newSize minSize = some a) :
    minSize ≤ a := by
  induction fuel generalizing newSize with
  | zero => cases h
  | succ fuel ih =>
    rw [growSize] at h
    by_cases hlt : newSize < minSize
    · rw [if_pos hlt] at h
      exact ih h
    · rw [if_neg hlt] at h
      cases h
      exact Nat.le_of_not_lt hlt

theorem growSize_lt {fuel newSize minSize a : Nat} (hnew : newSize < 2 ^ 64)
    (h : growSize fuel newSize minSize = some a) : a < 2 ^ 64 := by
  induction fuel generalizing newSize with
  | zero => cases h
  | succ fuel ih =>
    rw [growSize] at h
    by_cases hlt : newSize < minSize
    · rw [if_pos hlt] at h
      exact ih (Nat.mod_lt _ (by decide)) h
    · rw [if_neg hlt] at h
      cases h
      exact hnew

theorem accessAt_unique {fuel fuel' : Nat} {a b : Access} (ha : accessAt fuel al index = some a)
    (hb : accessAt fuel' al index = some b) : a = b := by
  rw [accessAt] at ha hb
  by_cases hi : al.data.length ≤ index
  · rw [if_pos hi] at ha hb
    obtain ⟨m, hm, rfl⟩ := Option.map_eq_some_iff.mp ha
    obtain ⟨n, hn, rfl⟩ := Option.map_eq_some_iff.mp hb
    rw [growSize_unique hm hn]
  · rw [if_neg hi] at ha hb
    exact Option.some.inj (ha.symm.trans hb)

theorem accessAt_requested {fuel : Nat} {a : Access} (h : accessAt fuel al index = some a) :
    a.requested = 8 * a.size % 2 ^ 64 := by
  rw [accessAt] at h
  by_cases hi : al.data.length ≤ index
  · rw [if_pos hi] at h
    obtain ⟨newSize, -, rfl⟩ := Option.map_eq_some_iff.mp h
    rfl
  · rw [if_neg hi] at h
    cases h
    rfl

/-- The size is above the index, if `index + 1` is a `size_t`. -/
theorem accessAt_size {fuel : Nat} {a : Access} (hindex : index + 1 < 2 ^ 64)
    (h : accessAt fuel al index = some a) : index < a.size := by
  rw [accessAt] at h
  by_cases hi : al.data.length ≤ index
  · rw [if_pos hi, Nat.mod_eq_of_lt hindex] at h
    obtain ⟨newSize, hnew, rfl⟩ := Option.map_eq_some_iff.mp h
    exact growSize_ge hnew
  · rw [if_neg hi] at h
    cases h
    exact Nat.lt_of_not_le hi

namespace ListHolds

theorem bytes_lt (h : ListHolds al m) : 8 * al.data.length < 2 ^ 64 := by
  obtain ⟨k, hk, hlen⟩ := h.size
  have hpow : 2 ^ k ≤ 2 ^ 60 := Nat.pow_le_pow_right (by decide) hk
  omega

/-- The sizes are powers of two. -/
theorem accessAt_pow {fuel : Nat} {a : Access} (h : ListHolds al m)
    (haccess : accessAt fuel al index = some a) : ∃ e < 64, a.size = 2 ^ e := by
  obtain ⟨k, hk, hlen⟩ := h.size
  rw [accessAt, hlen] at haccess
  by_cases hi : 2 ^ k ≤ index
  · rw [if_pos hi] at haccess
    obtain ⟨newSize, hnew, rfl⟩ := Option.map_eq_some_iff.mp haccess
    have hlt := growSize_lt (Nat.pow_lt_pow_right (by decide) (by omega)) hnew
    obtain ⟨e, -, rfl⟩ := growSize_pow (by omega) hnew
    exact ⟨e, (Nat.pow_lt_pow_iff_right (by decide)).mp hlt, rfl⟩
  · rw [if_neg hi] at haccess
    cases haccess
    exact ⟨k, by omega, rfl⟩

theorem accommodates (h : ListHolds al m) (hindex : index < 2 ^ 60) : Accommodates al index := by
  obtain ⟨al', hgrow, -⟩ := h.growTo_total hindex
  rw [growTo_eq_accessAt h.bytes_lt] at hgrow
  obtain ⟨access, haccess, hrest⟩ := Option.bind_eq_some_iff.mp hgrow
  have hbytes : 8 * access.size < 2 ^ 64 := by
    by_contra hge
    rw [if_neg hge] at hrest
    cases hrest
  refine ⟨⟨65, by rw [haccess]; rfl⟩, fun fuel access' haccess' => ?_⟩
  obtain rfl := accessAt_unique haccess haccess'
  refine ⟨accessAt_size (by omega) haccess, ?_⟩
  rw [accessAt_requested haccess, Nat.mod_eq_of_lt hbytes]

/-- From `2 ^ 60` on the size is `2 ^ 61` or more, and its bytes wrap. -/
theorem not_accommodates (h : ListHolds al m) (hge : 2 ^ 60 ≤ index) : ¬Accommodates al index := by
  intro hacc
  obtain ⟨fuel, hsome⟩ := hacc.ends
  obtain ⟨access, haccess⟩ := Option.isSome_iff_exists.mp hsome
  obtain ⟨hlt, hrequested⟩ := hacc.fits fuel access haccess
  obtain ⟨e, -, he⟩ := h.accessAt_pow haccess
  have he' : 60 < e := (Nat.pow_lt_pow_iff_right (by decide)).mp ((hge.trans_lt hlt).trans_eq he)
  have hsize : 2 ^ 61 ≤ access.size := he ▸ Nat.pow_le_pow_right (by decide) he'
  have hmod := Nat.mod_lt (8 * access.size) (by decide : 0 < 2 ^ 64)
  rw [← accessAt_requested haccess] at hmod
  omega

/-- From `2 ^ 63` on the loop doubles the size to zero and does not end. -/
theorem accessAt_eq_none (h : ListHolds al m) (hge : 2 ^ 63 ≤ index) (hindex : index + 1 < 2 ^ 64)
    (fuel : Nat) : accessAt fuel al index = none := by
  by_contra hsome
  obtain ⟨access, haccess⟩ := Option.ne_none_iff_exists'.mp hsome
  have hlt := accessAt_size hindex haccess
  obtain ⟨e, he, hsize⟩ := h.accessAt_pow haccess
  have hle : 2 ^ e ≤ 2 ^ 63 := Nat.pow_le_pow_right (by decide) (by omega)
  omega

end ListHolds

/-- The calls that return are those that the list accommodates. -/
theorem run_isSome_iff {call : ListCall α} (hrun : runCalls calls = some al) :
    (call.run al).isSome ↔ Accommodates al call.index := by
  have h := runCalls_counts hrun
  constructor
  · intro hsome
    obtain ⟨al', hcall⟩ := Option.isSome_iff_exists.mp hsome
    have hlt := ListCall.index_lt hcall
    obtain ⟨k, hk, hlen⟩ := (h.run hcall).size
    have hpow : 2 ^ k ≤ 2 ^ 60 := Nat.pow_le_pow_right (by decide) hk
    exact h.accommodates (by omega)
  · intro hacc
    have hlt : call.index < 2 ^ 60 := by
      by_contra hge
      exact h.not_accommodates (Nat.le_of_not_lt hge) hacc
    obtain ⟨al', hcall, -⟩ := h.call_total hlt
    rw [hcall, Option.isSome_some]

/-- On every list that calls can leave, both functions come to an access within a block of the
list's size exactly for the indices below `2 ^ 60`. -/
theorem accommodates_iff {calls : List (ListCall α)} {al : ArrayList α} {index : Nat}
    (hrun : runCalls calls = some al) :
    Accommodates al index ↔ index < 2 ^ 60 := by
  have h := (runCalls_counts hrun).toListHolds
  refine ⟨fun hacc => ?_, h.accommodates⟩
  by_contra hge
  exact h.not_accommodates (Nat.le_of_not_lt hge) hacc

/-- A list that a get has grown to 32 items, after an item was set. -/
theorem accommodates_grown :
    ∃ al, runCalls [.set (some 'a') 3, .get 20] = some al ∧ al.used = 1 ∧ al.data.length = 32 ∧
      Accommodates al 100 ∧ ¬Accommodates al (2 ^ 60) := by
  let al : ArrayList Char :=
    { data := (List.replicate 32 none).set 3 (some 'a'), used := 1 }
  have hrun : runCalls [.set (some 'a') 3, .get 20] = some al := rfl
  exact ⟨al, hrun, rfl, rfl, (accommodates_iff hrun).mpr (by decide),
    fun h => absurd ((accommodates_iff hrun).mp h) (by decide)⟩

/-- The three ways to fail on a new list: a request of zero bytes for `2 ^ 61` items, a loop that
does not end, and an access far outside of the block of eight items. -/
theorem not_accommodates_init :
    let al : ArrayList Char := sfArrayListInit
    (∀ index ∈ [2 ^ 60, 2 ^ 63, 2 ^ 64 - 1], ¬Accommodates al index) ∧
      accessAt 65 al (2 ^ 60) = some ⟨2 ^ 61, 0⟩ ∧
      (∀ fuel, accessAt fuel al (2 ^ 63) = none) ∧
      accessAt 65 al (2 ^ 64 - 1) = some ⟨8, 64⟩ := by
  refine ⟨fun index hmem => ?_, by decide, ?_, by decide⟩
  · exact listHolds_init.not_accommodates (by revert index; decide)
  · exact listHolds_init.accessAt_eq_none (by decide) (by decide)

end ListRun

end Snowflake
