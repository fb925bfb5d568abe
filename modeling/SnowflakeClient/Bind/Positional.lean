import SnowflakeClient.Bind.Sent

/-!
# Positional parameters

`params_len` counts the calls of `snowflake_bind_param`, and `_snowflake_execute_ex` looks at the
positions up to that number. What is bound above it is not sent.
-/

namespace Snowflake

/-! ## The array list -/

theorem growSize_zero {minSize : Nat} (hmin : minSize ≠ 0) (fuel : Nat) :
    growSize fuel 0 minSize = none := by
  induction fuel with
  | zero => rfl
  | succ fuel ih =>
    rw [growSize, if_pos (Nat.pos_of_ne_zero hmin)]
    exact ih

/-- The sizes are powers of two. -/
theorem growSize_pow {fuel k minSize newSize : Nat} (hk : k < 64)
    (h : growSize fuel (2 ^ k) minSize = some newSize) : ∃ e, k ≤ e ∧ newSize = 2 ^ e := by
  induction fuel generalizing k with
  | zero => cases h
  | succ fuel ih =>
    rw [growSize] at h
    by_cases hlt : 2 ^ k < minSize
    · rw [if_pos hlt, ← pow_succ] at h
      by_cases hlast : k + 1 < 64
      · rw [Nat.mod_eq_of_lt (Nat.pow_lt_pow_right (by decide) hlast)] at h
        obtain ⟨e, he, heq⟩ := ih hlast h
        exact ⟨e, by omega, heq⟩
      · obtain rfl : k = 63 := by omega
        rw [Nat.mod_self, growSize_zero (by omega)] at h
        cases h
    · rw [if_neg hlt] at h
      exact ⟨k, le_rfl, (Option.some.inj h).symm⟩

theorem growSize_total {fuel k minSize : Nat} (hk : k ≤ 60) (hmin : minSize ≤ 2 ^ 60)
    (hfuel : 60 < fuel + k) :
    ∃ e, e ≤ 60 ∧ minSize ≤ 2 ^ e ∧ k ≤ e ∧ growSize fuel (2 ^ k) minSize = some (2 ^ e) := by
  induction fuel generalizing k with
  | zero => omega
  | succ fuel ih =>
    rw [growSize]
    by_cases hlt : 2 ^ k < minSize
    · have hk' : k + 1 ≤ 60 := Nat.succ_le_of_lt (lt_of_le_of_ne hk (by rintro rfl; omega))
      have hmod : 2 ^ k * 2 % 2 ^ 64 = 2 ^ (k + 1) := by
        rw [← pow_succ]
        exact Nat.mod_eq_of_lt (Nat.pow_lt_pow_right (by decide) (by omega))
      rw [if_pos hlt, hmod]
      obtain ⟨e, he, hle, hke, hrun⟩ := ih hk' (by omega)
      exact ⟨e, he, hle, by omega, hrun⟩
    · rw [if_neg hlt]
      exact ⟨k, hk, Nat.le_of_not_lt hlt, le_rfl, rfl⟩

section ArrayList

variable {α : Type} {al al' : ArrayList α} {m : Nat → Option α} {item : Option α} {index : Nat}

/-- The list has the items of `m`, and a size that `sf_array_list_grow` can give it. -/
structure ListHolds (al : ArrayList α) (m : Nat → Option α) : Prop where
  size : ∃ k, k ≤ 60 ∧ al.data.length = 2 ^ k
  cell : ∀ i, al.data[i]?.join = m i

theorem listHolds_init : ListHolds (sfArrayListInit : ArrayList α) fun _ => none := by
  refine ⟨⟨3, by decide, rfl⟩, fun i => ?_⟩
  rw [sfArrayListInit, List.getElem?_replicate]
  by_cases hi : i < 8 <;> simp [hi]

theorem ListHolds.append (h : ListHolds al m) {n k : Nat} (hk : k ≤ 60)
    (hsize : al.data.length + n = 2 ^ k) :
    ListHolds { al with data := al.data ++ List.replicate n none } m := by
  refine ⟨⟨k, hk, by simpa using hsize⟩, fun i => ?_⟩
  rw [← h.cell i]
  by_cases hi : i < al.data.length
  · rw [List.getElem?_append_left hi]
  · rw [List.getElem?_append_right (by omega), List.getElem?_replicate,
      List.getElem?_eq_none (by omega : al.data.length ≤ i)]
    by_cases hn : i - al.data.length < n <;> simp [hn]

theorem ListHolds.grow {minSize : Nat} (h : ListHolds al m)
    (hgrow : sfArrayListGrow al minSize = some al') : ListHolds al' m := by
  obtain ⟨k, hk, hlen⟩ := h.size
  obtain ⟨newSize, hnew, hrest⟩ := Option.bind_eq_some_iff.mp hgrow
  by_cases hbytes : 8 * newSize < 2 ^ 64
  · rw [if_pos hbytes] at hrest
    cases hrest
    rw [hlen] at hnew
    obtain ⟨e, hke, rfl⟩ := growSize_pow (by omega) hnew
    have he : 2 ^ (e + 3) < 2 ^ 64 := by rw [pow_add]; omega
    have he' : e + 3 < 64 := (Nat.pow_lt_pow_iff_right (by decide)).mp he
    have hle : 2 ^ k ≤ 2 ^ e := Nat.pow_le_pow_right (by decide) hke
    exact h.append (k := e) (by omega) (by omega)
  · rw [if_neg hbytes] at hrest
    cases hrest

theorem ListHolds.growTo (h : ListHolds al m) (hgrow : growTo al index = some al') :
    ListHolds al' m := by
  rw [Snowflake.growTo] at hgrow
  by_cases hi : al.data.length ≤ index
  · rw [if_pos hi] at hgrow
    exact h.grow hgrow
  · rw [if_neg hi] at hgrow
    cases hgrow
    exact h

theorem ListHolds.growTo_total (h : ListHolds al m) (hindex : index < 2 ^ 60) :
    ∃ al', Snowflake.growTo al index = some al' ∧ index < al'.data.length := by
  obtain ⟨k, hk, hlen⟩ := h.size
  rw [Snowflake.growTo]
  by_cases hi : al.data.length ≤ index
  · have hmod : (index + 1) % 2 ^ 64 = index + 1 := Nat.mod_eq_of_lt (by omega)
    obtain ⟨e, he, hle, hke, hrun⟩ := @growSize_total 65 k (index + 1) hk (by omega) (by omega)
    have hpow : 2 ^ e ≤ 2 ^ 60 := Nat.pow_le_pow_right (by decide) he
    have hbytes : 8 * 2 ^ e < 2 ^ 64 := by omega
    rw [if_pos hi, hmod, sfArrayListGrow, hlen, hrun]
    simp only [Option.bind_eq_bind, Option.bind_some, if_pos hbytes]
    refine ⟨_, rfl, ?_⟩
    simp only [List.length_append, List.length_replicate]
    omega
  · rw [if_neg hi]
    exact ⟨al, rfl, by omega⟩

theorem ListHolds.set (h : ListHolds al m) (hset : sfArrayListSet al item index = some al') :
    ListHolds al' fun i => if i = index then item else m i := by
  obtain ⟨al₁, hgrow, hset⟩ := Option.bind_eq_some_iff.mp hset
  obtain ⟨old, hold, hset⟩ := Option.bind_eq_some_iff.mp hset
  cases hset
  have h₁ := h.growTo hgrow
  have hlt : index < al₁.data.length := (List.getElem?_eq_some_iff.mp hold).1
  refine ⟨by simpa using h₁.size, fun i => ?_⟩
  rw [← h₁.cell i, List.getElem?_set]
  by_cases hi : i = index
  · subst hi
    simp [hlt]
  · simp [hi, Ne.symm hi]

theorem ListHolds.get (h : ListHolds al m) (hindex : index < 2 ^ 60) :
    ∃ al', sfArrayListGet al index = some (m index, al') ∧ ListHolds al' m := by
  obtain ⟨al', hgrow, hlt⟩ := h.growTo_total hindex
  have h' := h.growTo hgrow
  have hcell : al'.data[index]? = some (m index) := by
    rw [← h'.cell index, List.getElem?_eq_getElem hlt]
    rfl
  refine ⟨al', ?_, h'⟩
  simp [sfArrayListGet, hgrow, hcell]

end ArrayList

/-! ## The calls and the loop -/

/-- The calls by their positions. -/
def positionalCalls (inputs : List BindInput) : List (Nat × BindInput) :=
  inputs.map fun input => (input.idx, input)

/-- What a statement has after calls with positional inputs. -/
def PositionalHolds (s : BoundParams) (inputs : List BindInput) : Prop :=
  s.paramsLen = inputs.length % 2 ^ 32 ∧
    match s.params with
    | none => inputs = []
    | some (.positional list) => ListHolds list (lastSet (positionalCalls inputs))
    | some (.named _) => False

theorem PositionalHolds.start {s : BoundParams} {inputs : List BindInput} {input : BindInput}
    (h : PositionalHolds s inputs) (hidx : 1 ≤ input.idx) :
    ∃ list, startParams s input = (.positional list, s) ∧
      ListHolds list (lastSet (positionalCalls inputs)) := by
  obtain ⟨params, nameList, paramsLen⟩ := s
  obtain ⟨-, h⟩ := h
  rcases params with _ | (list | treeMap)
  · obtain rfl : inputs = [] := h
    have hstyle : ¬(input.name.isSome ∧ input.idx = 0) := by omega
    refine ⟨sfArrayListInit, ?_, listHolds_init⟩
    simp [startParams, sfParamStoreInit, hstyle]
  · exact ⟨list, rfl, h⟩
  · exact h.elim

theorem PositionalHolds.bind {s s' : BoundParams} {inputs : List BindInput} {input : BindInput}
    {status : ValueStatus} (h : PositionalHolds s inputs) (hidx : 1 ≤ input.idx)
    (hbind : snowflakeBindParam s input = some (status, s')) :
    PositionalHolds s' (inputs ++ [input]) := by
  obtain ⟨list, hstart, hlist⟩ := h.start hidx
  rw [snowflakeBindParam, hstart] at hbind
  obtain ⟨r, hset, hbind⟩ := Option.bind_eq_some_iff.mp hbind
  obtain ⟨list', hlist', hr⟩ := Option.bind_eq_some_iff.mp hset
  cases hr
  cases hbind
  refine ⟨?_, ?_⟩
  · simp only [h.1, List.length_append, List.length_singleton, Nat.mod_add_mod]
  · have hlast : lastSet (positionalCalls (inputs ++ [input])) =
        fun i => if i = input.idx then some input else lastSet (positionalCalls inputs) i := by
      funext i
      rw [positionalCalls, List.map_append]
      exact lastSet_append _ _ _ _
    rw [hlast]
    exact hlist.set hlist'

theorem bindAll_positional {inputs : List BindInput} (hidx : ∀ input ∈ inputs, 1 ≤ input.idx)
    {s : BoundParams} (h : bindAll inputs noParams = some s) : PositionalHolds s inputs := by
  induction inputs using List.reverseRecOn generalizing s with
  | nil =>
    cases h
    exact ⟨rfl, rfl⟩
  | append_singleton inputs input ih =>
    rw [bindAll_append] at h
    obtain ⟨s₁, hrun, h⟩ := Option.bind_eq_some_iff.mp h
    obtain ⟨⟨status, s₂⟩, hbind, h⟩ := Option.bind_eq_some_iff.mp h
    have hstatus : status = .success := by
      by_contra hne
      rw [if_neg hne] at h
      cases h
    rw [if_pos hstatus] at h
    cases h
    have h₁ := ih (fun i hi => hidx i (List.mem_append_left _ hi)) hrun
    exact h₁.bind (hidx input (by simp)) hbind

/-- The loop goes over the positions `i + 1`, …, `i + count`. -/
theorem positionalBindings_eq {list : ArrayList BindInput} {m : Nat → Option BindInput}
    (h : ListHolds list m) {count i : Nat} (hi : i + count < 2 ^ 60) :
    positionalBindings count i list =
      sendAll printUnsigned m (List.range' (i + 1) count) := by
  induction count generalizing i list with
  | zero => rfl
  | succ count ih =>
    obtain ⟨list', hget, h'⟩ := h.get (by omega : i + 1 < 2 ^ 60)
    rw [positionalBindings, hget, List.range'_succ]
    simp only [Option.bind_eq_bind, Option.bind_some]
    cases hm : m (i + 1) with
    | none => simp [sendAll, hm, ih h' (i := i + 1) (by omega)]
    | some input => simp [sendAll, hm, ih h' (i := i + 1) (by omega)]

theorem mem_positionalCalls_iff {inputs : List BindInput} {k : Nat} :
    k ∈ (positionalCalls inputs).map Prod.fst ↔ ∃ input ∈ inputs, input.idx = k := by
  simp [positionalCalls]

/-- The positions below a bound, by the calls. -/
theorem last_in_range_iff {inputs : List BindInput} (hidx : ∀ input ∈ inputs, 1 ≤ input.idx)
    (n : Nat) :
    (∀ k i, lastSet (positionalCalls inputs) k = some i → k ∈ List.range' 1 n) ↔
      ∀ input ∈ inputs, input.idx ≤ n := by
  constructor
  · intro h input hinput
    have hset := (lastSet_isSome_iff _ _).mpr (mem_positionalCalls_iff.mpr ⟨input, hinput, rfl⟩)
    obtain ⟨i, hi⟩ := Option.isSome_iff_exists.mp hset
    have hmem := List.mem_range'_1.mp (h input.idx i hi)
    omega
  · intro h k i hi
    have hset : k ∈ (positionalCalls inputs).map Prod.fst :=
      (lastSet_isSome_iff _ _).mp (by rw [hi]; rfl)
    obtain ⟨input, hinput, rfl⟩ := mem_positionalCalls_iff.mp hset
    have hlow := hidx input hinput
    have hhigh := h input hinput
    exact List.mem_range'_1.mpr ⟨hlow, by omega⟩

/-- After calls with positional inputs, the bindings have their inputs if and only if no position is
above the number of calls and every input that is left has a text. -/
theorem positional_binds_sent_iff (inputs : List BindInput) (hidx : ∀ input ∈ inputs, 1 ≤ input.idx)
    (s : BoundParams) (hbind : bindAll inputs noParams = some s) :
    BindsSent printUnsigned (positionalCalls inputs) s ↔
      (∀ input ∈ inputs, input.idx ≤ inputs.length % 2 ^ 32) ∧
        ∀ k i, lastSet (positionalCalls inputs) k = some i → Printable i.value := by
  obtain ⟨hlen, hparams⟩ := bindAll_positional hidx hbind
  obtain ⟨params, nameList, paramsLen⟩ := s
  obtain rfl : paramsLen = inputs.length % 2 ^ 32 := hlen
  rcases params with _ | (list | treeMap)
  · obtain rfl : inputs = [] := hparams
    exact ⟨fun _ => ⟨by simp, fun k i hi => by cases hi⟩, fun _ => bindsSent_nil _ rfl⟩
  · have hbound := Nat.mod_lt inputs.length (by decide : 2 ^ 32 > 0)
    have hloop := positionalBindings_eq hparams
      (by omega : 0 + inputs.length % 2 ^ 32 < 2 ^ 60)
    have hexec : executeBindings ⟨some (.positional list), nameList, inputs.length % 2 ^ 32⟩ =
        (sendAll printUnsigned (lastSet (positionalCalls inputs))
          (List.range' 1 (inputs.length % 2 ^ 32))).map some := congrArg (Option.map some) hloop
    rw [bindsSent_iff _ printUnsigned_injective (List.nodup_range' _) hexec,
      ← last_in_range_iff hidx]
    constructor
    · intro h
      exact ⟨fun k i hi => (h k i hi).1, fun k i hi => (h k i hi).2⟩
    · rintro ⟨hrange, hprint⟩ k i hi
      exact ⟨hrange k i hi, hprint k i hi⟩
  · exact hparams.elim

/-- Three calls, the last one for a position that has an input already. -/
theorem positional_binds_sent_again :
    ∃ s, bindAll [⟨2, none, .int64 7⟩, ⟨1, none, .boolean 1⟩, ⟨2, none, .int64 (-8)⟩] noParams =
        some s ∧
      BindsSent printUnsigned (positionalCalls
        [⟨2, none, .int64 7⟩, ⟨1, none, .boolean 1⟩, ⟨2, none, .int64 (-8)⟩]) s := by
  refine ⟨_, rfl, (positional_binds_sent_iff _ (by decide) _ rfl).mpr ⟨by decide, ?_⟩⟩
  intro k i hi
  have hprint : ∀ call ∈ positionalCalls [⟨2, none, .int64 7⟩, ⟨1, none, .boolean 1⟩,
      ⟨2, none, .int64 (-8)⟩], Printable call.2.value := by decide
  exact hprint (k, i) (mem_of_lastSet hi)

/-- With positions 1 and 3 there are two calls, and the second input is not sent. -/
theorem positional_gap_lost :
    ∃ s, bindAll [⟨1, none, .int64 5⟩, ⟨3, none, .int64 6⟩] noParams = some s ∧
      executeBindings s = some (some [(printUnsigned 1, ⟨"FIXED", some (printSigned 5)⟩)]) ∧
      ¬BindsSent printUnsigned (positionalCalls [⟨1, none, .int64 5⟩, ⟨3, none, .int64 6⟩]) s := by
  refine ⟨_, rfl, rfl, ?_⟩
  rintro ⟨object, hrun, hsends⟩
  cases hrun
  obtain ⟨binding, -, hmem⟩ := hsends.each 3 ⟨3, none, .int64 6⟩ rfl
  have hkey : printUnsigned 3 ∈ [printUnsigned 1] := List.mem_map_of_mem (f := Prod.fst) hmem
  revert hkey
  decide

end Snowflake
