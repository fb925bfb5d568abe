import SnowflakeClient.Bind.Sent

/-!
# Named parameters

The tree map has the inputs, and `name_list` the names in the order of their first calls. The list
starts with room for eight names. When it is full, it is reallocated to `2 * cur_size` bytes, which
is not even enough for the names that it has, and the ninth name is written outside of the block.
-/

namespace Snowflake

/-! ## The list of the names -/

/-- The block has its first size, and the names are `keys`. -/
structure NameListHolds (nparams : NamedParams) (keys : List CString) : Prop where
  allocd : nparams.allocd = 8
  bytes : nparams.bytes = 64
  cell : ∀ i, i < keys.length → nparams.names i = keys[i]?

theorem nameListHolds_init : NameListHolds allocateNamedParamList [] :=
  ⟨rfl, rfl, fun i hi => absurd hi (Nat.not_lt_zero i)⟩

theorem NameListHolds.add {nparams : NamedParams} {keys : List CString}
    (h : NameListHolds nparams keys) (name : CString) (hlen : keys.length < 8) :
    ∃ nparams', addToNamedParamList nparams name keys.length = some nparams' ∧
      NameListHolds nparams' (keys ++ [name]) := by
  have hroom : keys.length ≠ nparams.allocd := by rw [h.allocd]; omega
  have hwrite : 8 * keys.length + 8 ≤ nparams.bytes := by rw [h.bytes]; omega
  refine ⟨{ nparams with names := Function.update nparams.names keys.length (some name) }, ?_, ?_⟩
  · simp [addToNamedParamList, hroom, hwrite]
  · refine ⟨h.allocd, h.bytes, fun i hi => ?_⟩
    rw [List.length_append, List.length_singleton] at hi
    by_cases hlast : i = keys.length
    · subst hlast
      simp
    · have hi' : i < keys.length := by omega
      rw [List.getElem?_append_left hi', ← h.cell i hi']
      exact Function.update_of_ne hlast _ _

/-- The ninth name is written at byte 64 of a block of 16. -/
theorem NameListHolds.add_full {nparams : NamedParams} {keys : List CString}
    (h : NameListHolds nparams keys) (name : CString) (hlen : keys.length = 8) :
    addToNamedParamList nparams name keys.length = none := by
  have hfull : 8 = nparams.allocd := h.allocd.symm
  rw [hlen]
  simp [addToNamedParamList, ← hfull, NamedParams.realloc]

/-! ## The calls -/

/-- The calls by their names. -/
def namedCalls (inputs : List BindInput) : List (CString × BindInput) :=
  inputs.filterMap fun input => input.name.map fun name => (name, input)

theorem namedCalls_append {inputs : List BindInput} {input : BindInput} {name : CString}
    (hname : input.name = some name) :
    namedCalls (inputs ++ [input]) = namedCalls inputs ++ [(name, input)] := by
  simp [namedCalls, hname]

/-- What a statement has after calls with named inputs, for the names `keys`. -/
structure NamedHolds (s : BoundParams) (calls : List (CString × BindInput)) (keys : List CString) :
    Prop where
  nodup : keys.Nodup
  bound : ∀ k, k ∈ keys ↔ k ∈ calls.map Prod.fst
  short : ∀ k ∈ keys, Short k
  few : keys.length ≤ 8
  paramsLen : s.paramsLen = keys.length
  stored : s.params = none ∧ s.nameList = none ∧ calls = [] ∨
    ∃ treeMap nparams, s.params = some (.named treeMap) ∧ s.nameList = some nparams ∧
      MapHolds treeMap (lastSet calls) ∧ NameListHolds nparams keys

theorem namedHolds_init : NamedHolds noParams [] [] := by
  refine ⟨List.nodup_nil, by simp, by simp, by simp, rfl, Or.inl ⟨rfl, rfl, rfl⟩⟩

section Calls

variable {s : BoundParams} {calls : List (CString × BindInput)} {keys : List CString}
  {input : BindInput} {name : CString}

theorem NamedHolds.start (h : NamedHolds s calls keys) (hidx : input.idx = 0)
    (hname : input.name = some name) :
    ∃ treeMap nparams,
      startParams s input = (.named treeMap, { s with nameList := some nparams }) ∧
      MapHolds treeMap (lastSet calls) ∧ NameListHolds nparams keys := by
  obtain ⟨params, nameList, paramsLen⟩ := s
  rcases h.stored with ⟨hparams, -, rfl⟩ | ⟨treeMap, nparams, hparams, hlist, hmap, hnames⟩
  · obtain rfl : params = none := hparams
    obtain rfl : keys = [] := List.eq_nil_iff_forall_not_mem.mpr fun k hk => by
      simpa using (h.bound k).mp hk
    refine ⟨sfTreemapInit, allocateNamedParamList, ?_, mapHolds_init, nameListHolds_init⟩
    simp [startParams, sfParamStoreInit, hidx, hname]
  · obtain rfl : params = some (.named treeMap) := hparams
    obtain rfl : nameList = some nparams := hlist
    exact ⟨treeMap, nparams, rfl, hmap, hnames⟩

/-- A name without an end below the counter's bound: the call does not return. -/
theorem NamedHolds.bind_long (h : NamedHolds s calls keys) (hidx : input.idx = 0)
    (hname : input.name = some name) (hlong : ¬Short name) :
    snowflakeBindParam s input = none := by
  obtain ⟨treeMap, nparams, hstart, -, -⟩ := h.start hidx hname
  simp [snowflakeBindParam, hstart, sfParamStoreSet, sfTreemapSet, hname, getIndex_long hlong]

theorem NamedHolds.bind_again (h : NamedHolds s calls keys) (hidx : input.idx = 0)
    (hname : input.name = some name) (hshort : Short name) (hmem : name ∈ keys) :
    ∃ s', snowflakeBindParam s input = some (.success, s') ∧
      NamedHolds s' (calls ++ [(name, input)]) keys := by
  obtain ⟨treeMap, nparams, hstart, hmap, hnames⟩ := h.start hidx hname
  obtain ⟨treeMap', hset, hmap'⟩ := hmap.set hshort input
  rw [if_pos ((lastSet_isSome_iff _ _).mpr ((h.bound name).mp hmem))] at hset
  rw [← funext (lastSet_append calls name input)] at hmap'
  refine ⟨{ s with params := some (.named treeMap'), nameList := some nparams }, ?_, ?_⟩
  · simp [snowflakeBindParam, hstart, sfParamStoreSet, hname, hset]
  · refine ⟨h.nodup, ?_, h.short, h.few, h.paramsLen,
      Or.inr ⟨treeMap', nparams, rfl, rfl, hmap', hnames⟩⟩
    intro k
    rw [h.bound k, List.map_append, List.mem_append]
    refine ⟨Or.inl, fun hk => hk.elim id ?_⟩
    intro hk
    obtain rfl : k = name := by simpa using hk
    exact (h.bound k).mp hmem

theorem NamedHolds.bind_new (h : NamedHolds s calls keys) (hidx : input.idx = 0)
    (hname : input.name = some name) (hshort : Short name) (hmem : name ∉ keys)
    (hlen : keys.length < 8) :
    ∃ s', snowflakeBindParam s input = some (.success, s') ∧
      NamedHolds s' (calls ++ [(name, input)]) (keys ++ [name]) := by
  obtain ⟨treeMap, nparams, hstart, hmap, hnames⟩ := h.start hidx hname
  obtain ⟨treeMap', hset, hmap'⟩ := hmap.set hshort input
  obtain ⟨nparams', hadd, hnames'⟩ := hnames.add name hlen
  rw [if_neg (by rwa [lastSet_isSome_iff, ← h.bound name])] at hset
  rw [← funext (lastSet_append calls name input)] at hmap'
  refine ⟨⟨some (.named treeMap'), some nparams', keys.length + 1⟩, ?_, ?_⟩
  · have hmod : (keys.length + 1) % 2 ^ 32 = keys.length + 1 := Nat.mod_eq_of_lt (by omega)
    rw [snowflakeBindParam, hstart]
    simp only [sfParamStoreSet, hname, hset, h.paramsLen, Option.bind_eq_bind, Option.bind_some,
      hadd, hmod]
  · refine ⟨?_, ?_, ?_, ?_, ?_, Or.inr ⟨treeMap', nparams', rfl, rfl, hmap', hnames'⟩⟩
    · exact h.nodup.append (List.nodup_singleton name) (by simpa using hmem)
    · intro k
      simp [h.bound k]
    · intro k hk
      rcases List.mem_append.mp hk with hk | hk
      · exact h.short k hk
      · obtain rfl : k = name := by simpa using hk
        exact hshort
    · simpa using hlen
    · simp

theorem NamedHolds.bind_full (h : NamedHolds s calls keys) (hidx : input.idx = 0)
    (hname : input.name = some name) (hshort : Short name) (hmem : name ∉ keys)
    (hlen : keys.length = 8) : snowflakeBindParam s input = none := by
  obtain ⟨treeMap, nparams, hstart, hmap, hnames⟩ := h.start hidx hname
  obtain ⟨treeMap', hset, -⟩ := hmap.set hshort input
  rw [if_neg (by rwa [lastSet_isSome_iff, ← h.bound name])] at hset
  rw [snowflakeBindParam, hstart]
  simp only [sfParamStoreSet, hname, hset, h.paramsLen, Option.bind_eq_bind, Option.bind_some,
    hnames.add_full name hlen, Option.bind_none]

end Calls

/-- Calls that all return: no name too long, and no more than eight names. -/
structure FewNames (calls : List (CString × BindInput)) : Prop where
  short : ∀ call ∈ calls, Short call.1
  few : (calls.map Prod.fst).toFinset.card ≤ 8

theorem NamedHolds.card {s : BoundParams} {calls : List (CString × BindInput)}
    {keys : List CString} (h : NamedHolds s calls keys) :
    (calls.map Prod.fst).toFinset.card = keys.length := by
  rw [← List.toFinset_card_of_nodup h.nodup]
  congr 1
  ext k
  rw [List.mem_toFinset, List.mem_toFinset, h.bound k]

theorem NamedHolds.fewNames {s : BoundParams} {calls : List (CString × BindInput)}
    {keys : List CString} (h : NamedHolds s calls keys) : FewNames calls := by
  refine ⟨fun call hcall => ?_, h.card ▸ h.few⟩
  exact h.short call.1 ((h.bound call.1).mpr (List.mem_map_of_mem hcall))

theorem FewNames.of_append {calls : List (CString × BindInput)} {call : CString × BindInput}
    (h : FewNames (calls ++ [call])) : FewNames calls := by
  refine ⟨fun c hc => h.short c (List.mem_append_left _ hc), le_trans ?_ h.few⟩
  refine Finset.card_le_card fun k hk => ?_
  rw [List.mem_toFinset] at hk ⊢
  rw [List.map_append]
  exact List.mem_append_left _ hk

/-- One more call. -/
theorem NamedHolds.bind {s : BoundParams} {calls : List (CString × BindInput)}
    {keys : List CString} {input : BindInput} {name : CString} (h : NamedHolds s calls keys)
    (hidx : input.idx = 0) (hname : input.name = some name) :
    (∃ s' keys', snowflakeBindParam s input = some (.success, s') ∧
      NamedHolds s' (calls ++ [(name, input)]) keys') ∨
    (snowflakeBindParam s input = none ∧ ¬FewNames (calls ++ [(name, input)])) := by
  by_cases hshort : Short name
  · by_cases hmem : name ∈ keys
    · obtain ⟨s', hbind, h'⟩ := h.bind_again hidx hname hshort hmem
      exact Or.inl ⟨s', keys, hbind, h'⟩
    · rcases Nat.lt_or_eq_of_le h.few with hlen | hlen
      · obtain ⟨s', hbind, h'⟩ := h.bind_new hidx hname hshort hmem hlen
        exact Or.inl ⟨s', keys ++ [name], hbind, h'⟩
      · refine Or.inr ⟨h.bind_full hidx hname hshort hmem hlen, fun hfew => ?_⟩
        have hcard : ((calls ++ [(name, input)]).map Prod.fst).toFinset.card = keys.length + 1 := by
          have hnew : name ∉ (calls.map Prod.fst).toFinset := by
            rwa [List.mem_toFinset, ← h.bound name]
          rw [← h.card, ← Finset.card_insert_of_notMem hnew]
          congr 1
          ext k
          simp
        have := hfew.few
        omega
  · refine Or.inr ⟨h.bind_long hidx hname hshort, fun hfew => ?_⟩
    exact hshort (hfew.short (name, input) (by simp))

theorem bindAll_named (inputs : List BindInput)
    (hnamed : ∀ input ∈ inputs, input.idx = 0 ∧ input.name.isSome) :
    (∃ s keys, bindAll inputs noParams = some s ∧ NamedHolds s (namedCalls inputs) keys) ∨
      (bindAll inputs noParams = none ∧ ¬FewNames (namedCalls inputs)) := by
  induction inputs using List.reverseRecOn with
  | nil => exact Or.inl ⟨noParams, [], rfl, namedHolds_init⟩
  | append_singleton inputs input ih =>
    obtain ⟨hidx, hsome⟩ := hnamed input (by simp)
    obtain ⟨name, hname⟩ := Option.isSome_iff_exists.mp hsome
    rw [bindAll_append, namedCalls_append hname]
    rcases ih fun i hi => hnamed i (List.mem_append_left _ hi) with
      ⟨s, keys, hrun, h⟩ | ⟨hrun, hfew⟩
    · rcases h.bind hidx hname with ⟨s', keys', hbind, h'⟩ | ⟨hbind, hfew⟩
      · exact Or.inl ⟨s', keys', by simp [hrun, hbind], h'⟩
      · exact Or.inr ⟨by simp [hrun, hbind], hfew⟩
    · exact Or.inr ⟨by simp [hrun], fun hfew' => hfew hfew'.of_append⟩

/-! ## The loop -/

theorem namedBindings_eq {nparams : NamedParams} {treeMap : TreeMap BindInput}
    {m : CString → Option BindInput} {keys : List CString} (hmap : MapHolds treeMap m)
    (hnames : NameListHolds nparams keys) (hshort : ∀ k ∈ keys, Short k) {count i : Nat}
    (hi : i + count = keys.length) :
    namedBindings nparams treeMap count i = sendAll CString.bytes m (keys.drop i) := by
  induction count generalizing i with
  | zero => rw [List.drop_eq_nil_of_le (by omega)]; rfl
  | succ count ih =>
    have hlt : i < keys.length := by omega
    have hname : nparams.names i = some keys[i] := by
      rw [hnames.cell i hlt, List.getElem?_eq_getElem hlt]
    have hget := hmap.get (hshort keys[i] (List.getElem_mem hlt))
    rw [namedBindings, List.drop_eq_getElem_cons hlt]
    simp only [hname, hget, Option.bind_eq_bind, Option.bind_some]
    cases hm : m keys[i] with
    | none => simp [sendAll, hm, ih (i := i + 1) (by omega)]
    | some input => simp [sendAll, hm, ih (i := i + 1) (by omega)]

theorem NamedHolds.sent_iff {s : BoundParams} {calls : List (CString × BindInput)}
    {keys : List CString} (h : NamedHolds s calls keys) :
    BindsSent CString.bytes calls s ↔ ∀ k i, lastSet calls k = some i → Printable i.value := by
  rcases h.stored with ⟨hparams, -, rfl⟩ | ⟨treeMap, nparams, hparams, hlist, hmap, hnames⟩
  · exact ⟨fun _ k i hi => (by cases hi), fun _ => bindsSent_nil _ hparams⟩
  · have hexec : executeBindings s = (sendAll CString.bytes (lastSet calls) keys).map some := by
      have hloop := namedBindings_eq hmap hnames h.short (Nat.zero_add keys.length)
      simp [executeBindings, hparams, hlist, h.paramsLen, hloop]
    rw [bindsSent_iff _ (fun _ _ => CString.ext_bytes) h.nodup hexec]
    constructor
    · intro hall k i hi
      exact (hall k i hi).2
    · intro hprint k i hi
      have hset : (lastSet calls k).isSome := by rw [hi]; rfl
      exact ⟨(h.bound k).mpr ((lastSet_isSome_iff _ _).mp hset), hprint k i hi⟩

/-- Calls with named inputs write inside of the block of the names, and the bindings have their
inputs, if and only if there are at most eight names, none of them too long, and every input that is
left has a text. -/
theorem named_binds_sent_iff (inputs : List BindInput)
    (hnamed : ∀ input ∈ inputs, input.idx = 0 ∧ input.name.isSome) :
    (∃ s, bindAll inputs noParams = some s ∧ BindsSent CString.bytes (namedCalls inputs) s) ↔
      FewNames (namedCalls inputs) ∧
        ∀ k i, lastSet (namedCalls inputs) k = some i → Printable i.value := by
  rcases bindAll_named inputs hnamed with ⟨s, keys, hrun, h⟩ | ⟨hrun, hfew⟩
  · rw [← h.sent_iff]
    constructor
    · rintro ⟨s', hrun', hsent⟩
      obtain rfl : s = s' := Option.some.inj (hrun.symm.trans hrun')
      exact ⟨h.fewNames, hsent⟩
    · rintro ⟨-, hsent⟩
      exact ⟨s, hrun, hsent⟩
  · constructor
    · rintro ⟨s, hrun', -⟩
      rw [hrun] at hrun'
      cases hrun'
    · intro h
      exact absurd h.1 hfew

/-- The names `a`, `b` and again `a`. -/
theorem named_binds_sent_again :
    ∃ s, bindAll [⟨0, some ⟨[97], by decide⟩, .int64 7⟩, ⟨0, some ⟨[98], by decide⟩, .boolean 0⟩,
        ⟨0, some ⟨[97], by decide⟩, .string [120, 121, 0] 2⟩] noParams = some s ∧
      BindsSent CString.bytes (namedCalls [⟨0, some ⟨[97], by decide⟩, .int64 7⟩,
        ⟨0, some ⟨[98], by decide⟩, .boolean 0⟩,
        ⟨0, some ⟨[97], by decide⟩, .string [120, 121, 0] 2⟩]) s := by
  refine (named_binds_sent_iff _ (by decide)).mpr ⟨⟨by decide, by decide⟩, ?_⟩
  intro k i hi
  have hprint : ∀ call ∈ namedCalls [⟨0, some ⟨[97], by decide⟩, .int64 7⟩,
      ⟨0, some ⟨[98], by decide⟩, .boolean 0⟩,
      ⟨0, some ⟨[97], by decide⟩, .string [120, 121, 0] 2⟩],
      Printable call.2.value := by decide
  exact hprint (k, i) (mem_of_lastSet hi)

/-- An input for each of the names `a`, `b`, …, `i`. -/
def nineInputs : List BindInput :=
  [⟨0, some ⟨[97], by decide⟩, .int64 1⟩, ⟨0, some ⟨[98], by decide⟩, .int64 2⟩,
   ⟨0, some ⟨[99], by decide⟩, .int64 3⟩, ⟨0, some ⟨[100], by decide⟩, .int64 4⟩,
   ⟨0, some ⟨[101], by decide⟩, .int64 5⟩, ⟨0, some ⟨[102], by decide⟩, .int64 6⟩,
   ⟨0, some ⟨[103], by decide⟩, .int64 7⟩, ⟨0, some ⟨[104], by decide⟩, .int64 8⟩,
   ⟨0, some ⟨[105], by decide⟩, .int64 9⟩]

/-- The eighth call leaves a list that the ninth one writes outside of. -/
theorem named_ninth_outside :
    (∃ s nparams, bindAll (nineInputs.take 8) noParams = some s ∧ s.nameList = some nparams ∧
      addToNamedParamList nparams ⟨[105], by decide⟩ s.paramsLen = none) ∧
    ¬∃ s, bindAll nineInputs noParams = some s ∧
      BindsSent CString.bytes (namedCalls nineInputs) s := by
  constructor
  · rcases bindAll_named (nineInputs.take 8) (by decide) with ⟨s, keys, hrun, h⟩ | ⟨-, hfew⟩
    · have hlen : keys.length = 8 := by
        rw [← h.card]
        decide
      rcases h.stored with ⟨-, -, hnil⟩ | ⟨treeMap, nparams, -, hlist, -, hnames⟩
      · cases hnil
      · refine ⟨s, nparams, hrun, hlist, ?_⟩
        rw [h.paramsLen]
        exact hnames.add_full _ hlen
    · exact absurd ⟨by decide, by decide⟩ hfew
  · rintro ⟨s, hrun, -⟩
    rcases bindAll_named nineInputs (by decide) with ⟨s', keys, hrun', h⟩ | ⟨hrun', -⟩
    · have hfew := h.fewNames.few
      revert hfew
      decide
    · rw [hrun'] at hrun
      cases hrun

end Snowflake
