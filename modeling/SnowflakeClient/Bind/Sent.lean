import SnowflakeClient.Bind.Params

/-!
# What is sent of the bound inputs

The two loops of `_snowflake_execute_ex` go over keys, look them up and add an item for each one
that is there: `sendAll`. They agree with the calls of `snowflake_bind_param` (`Sends`) if and only
if every key of a call is among them and every input has a text (`sendAll_sends_iff`).
-/

namespace Snowflake

/-! ## The values with a text -/

/-- A value whose text can be made and freed: no timestamp, no buffer with a length beyond its end,
and no string without an end up to its length. -/
def Printable : BoundValue → Prop
  | .timestamp => False
  | .string buffer len => 0 ∈ buffer.take (len + 1)
  | .binary buffer len => len ≤ buffer.length
  | _ => True

instance (v : BoundValue) : Decidable (Printable v) := by
  cases v <;> unfold Printable <;> infer_instance

/-- A block is a text without NULs, or such a text, a NUL and more bytes. -/
theorem text_split (src : List UInt8) :
    0 ∉ src.takeWhile (· ≠ 0) ∧
      (src = src.takeWhile (· ≠ 0) ∨ ∃ rest, src = src.takeWhile (· ≠ 0) ++ 0 :: rest) := by
  refine ⟨fun h => by simpa using List.mem_takeWhile_imp h, ?_⟩
  have hsplit := (List.takeWhile_append_dropWhile (p := (· ≠ (0 : UInt8))) (l := src)).symm
  cases hrest : src.dropWhile (· ≠ 0) with
  | nil =>
    rw [hrest, List.append_nil] at hsplit
    exact Or.inl hsplit
  | cons b rest =>
    have hb : b = 0 := by
      have hhead := List.head?_dropWhile_not (· ≠ (0 : UInt8)) src
      rw [hrest] at hhead
      simpa using hhead
    rw [hrest, hb] at hsplit
    exact Or.inr ⟨rest, hsplit⟩

/-- The copy of a string has an end if and only if there is one among the bytes that are copied. -/
theorem textOf_strncpy_isSome_iff (src : List UInt8) (n : Nat) :
    ((strncpy src n).bind textOf).isSome ↔ 0 ∈ src.take n := by
  obtain ⟨hnul, hsplit⟩ := text_split src
  rw [strncpy]
  generalize src.takeWhile (· ≠ 0) = text at hnul hsplit
  rcases hsplit with rfl | ⟨rest, rfl⟩
  · have hend : 0 ∉ src.take n := fun h => hnul (List.mem_of_mem_take h)
    by_cases hn : n ≤ src.length <;> simp [hn, textOf, hend]
  · by_cases hn : n ≤ text.length
    · have hend : 0 ∉ text.take n := fun h => hnul (List.mem_of_mem_take h)
      simp [hn, textOf, hend, List.take_append_of_le_length hn]
    · obtain ⟨k, rfl⟩ : ∃ k, n = text.length + (k + 1) := ⟨n - text.length - 1, by omega⟩
      simp [textOf, List.take_append]

theorem makeBinding_isSome_iff (input : BindInput) :
    (makeBinding input).isSome ↔ Printable input.value := by
  obtain ⟨idx, name, value⟩ := input
  cases value with
  | string buffer len =>
    rw [Printable, ← textOf_strncpy_isSome_iff]
    cases hcopy : strncpy buffer (len + 1) with
    | none => simp [makeBinding, valueToString, hcopy]
    | some block => cases htext : textOf block <;> simp [makeBinding, valueToString, hcopy, htext]
  | binary buffer len =>
    by_cases hlen : len ≤ buffer.length <;>
      simp [makeBinding, valueToString, Printable, hlen, textOf]
  | _ => simp [makeBinding, valueToString, Printable, textOf]

/-! ## The loops -/

section Sends

variable {κ : Type} (text : κ → List UInt8)

/-- The items for `keys`, in this order. -/
def sendAll (input : κ → Option BindInput) : List κ → Option (List (List UInt8 × Binding))
  | [] => some []
  | k :: keys =>
    match input k with
    | none => sendAll input keys
    | some i => do
      let binding ← makeBinding i
      let rest ← sendAll input keys
      some ((text k, binding) :: rest)

/-- The item for one key, if it has one. -/
def entryOf (input : κ → Option BindInput) (k : κ) : Option (List UInt8 × Binding) :=
  (input k).bind fun i => (makeBinding i).map fun binding => (text k, binding)

theorem mem_entryOf_iff {input : κ → Option BindInput} {k : κ} {entry : List UInt8 × Binding} :
    entryOf text input k = some entry ↔
      ∃ i, input k = some i ∧ entry.1 = text k ∧ makeBinding i = some entry.2 := by
  obtain ⟨key, binding⟩ := entry
  constructor
  · intro h
    obtain ⟨i, hi, h⟩ := Option.bind_eq_some_iff.mp h
    obtain ⟨b, hb, h⟩ := Option.map_eq_some_iff.mp h
    cases h
    exact ⟨i, hi, rfl, hb⟩
  · rintro ⟨i, hi, rfl, hb⟩
    simp [entryOf, hi, hb]

theorem sendAll_eq_some_iff {input : κ → Option BindInput} {keys : List κ}
    {object : List (List UInt8 × Binding)} :
    sendAll text input keys = some object ↔
      (∀ k ∈ keys, ∀ i, input k = some i → Printable i.value) ∧
        object = keys.filterMap (entryOf text input) := by
  induction keys generalizing object with
  | nil => simp [sendAll, eq_comm]
  | cons k keys ih =>
    cases hk : input k with
    | none =>
      have hentry : entryOf text input k = none := by simp [entryOf, hk]
      simp [sendAll, hk, ih, List.filterMap_cons_none hentry]
    | some i =>
      cases hb : makeBinding i with
      | none =>
        have hprint : ¬Printable i.value := by simp [← makeBinding_isSome_iff, hb]
        simp [sendAll, hk, hb, hprint]
      | some binding =>
        have hprint : Printable i.value := by simp [← makeBinding_isSome_iff, hb]
        have hentry : entryOf text input k = some (text k, binding) := by simp [entryOf, hk, hb]
        rw [List.filterMap_cons_some hentry]
        constructor
        · intro h
          simp only [sendAll, hk, hb, Option.bind_eq_bind, Option.bind_some] at h
          obtain ⟨rest, hrest, h⟩ := Option.bind_eq_some_iff.mp h
          obtain ⟨hall, rfl⟩ := ih.mp hrest
          refine ⟨?_, (Option.some.inj h).symm⟩
          rintro k' hk' j hj
          rcases List.mem_cons.mp hk' with rfl | hk'
          · rw [hk] at hj
            cases hj
            exact hprint
          · exact hall k' hk' j hj
        · rintro ⟨hall, rfl⟩
          have hrest := ih.mpr ⟨fun k' hk' => hall k' (List.mem_cons_of_mem _ hk'), rfl⟩
          simp [sendAll, hk, hb, hrest]

/-- The object has an item for each key of the calls, made from the input of the last call with that
key, and nothing else. -/
structure Sends [DecidableEq κ] (calls : List (κ × BindInput))
    (object : List (List UInt8 × Binding)) : Prop where
  once : (object.map Prod.fst).Nodup
  each : ∀ k i, lastSet calls k = some i →
    ∃ binding, makeBinding i = some binding ∧ (text k, binding) ∈ object
  only : ∀ entry ∈ object, ∃ k i,
    lastSet calls k = some i ∧ entry.1 = text k ∧ makeBinding i = some entry.2

section

variable {text}

theorem entries_once (htext : Function.Injective text) (input : κ → Option BindInput)
    {keys : List κ} (hkeys : keys.Nodup) :
    ((keys.filterMap (entryOf text input)).map Prod.fst).Nodup := by
  rw [List.map_filterMap]
  refine hkeys.filterMap ?_
  intro k k' key hk hk'
  obtain ⟨entry, hentry, rfl⟩ := Option.map_eq_some_iff.mp hk
  obtain ⟨entry', hentry', hkey⟩ := Option.map_eq_some_iff.mp hk'
  obtain ⟨-, -, hfst, -⟩ := (mem_entryOf_iff text).mp hentry
  obtain ⟨-, -, hfst', -⟩ := (mem_entryOf_iff text).mp hentry'
  exact htext (by rw [← hfst, ← hfst', hkey])

/-- The loop over `keys` sends the inputs of the calls if and only if it goes over all of their keys
and they have texts. -/
theorem sendAll_sends_iff [DecidableEq κ] (htext : Function.Injective text)
    (calls : List (κ × BindInput)) {keys : List κ} (hkeys : keys.Nodup) :
    (∃ object, sendAll text (lastSet calls) keys = some object ∧ Sends text calls object) ↔
      ∀ k i, lastSet calls k = some i → k ∈ keys ∧ Printable i.value := by
  constructor
  · rintro ⟨object, hrun, hsends⟩ k i hi
    obtain ⟨hprint, rfl⟩ := (sendAll_eq_some_iff text).mp hrun
    obtain ⟨binding, -, hmem⟩ := hsends.each k i hi
    obtain ⟨k', hk', hentry⟩ := List.mem_filterMap.mp hmem
    obtain ⟨-, -, hkey, -⟩ := (mem_entryOf_iff text).mp hentry
    obtain rfl := htext hkey
    exact ⟨hk', hprint k hk' i hi⟩
  · intro h
    refine ⟨_, (sendAll_eq_some_iff text).mpr ⟨fun k _ i hi => (h k i hi).2, rfl⟩, ?_⟩
    constructor
    · exact entries_once htext _ hkeys
    · intro k i hi
      obtain ⟨hk, hprint⟩ := h k i hi
      obtain ⟨binding, hb⟩ := Option.isSome_iff_exists.mp ((makeBinding_isSome_iff i).mpr hprint)
      refine ⟨binding, hb, List.mem_filterMap.mpr ⟨k, hk, ?_⟩⟩
      exact (mem_entryOf_iff text).mpr ⟨i, hi, rfl, hb⟩
    · intro entry hmem
      obtain ⟨k, -, hentry⟩ := List.mem_filterMap.mp hmem
      exact ⟨k, (mem_entryOf_iff text).mp hentry⟩

end

/-- The bindings of the next request have the inputs of the calls. -/
def BindsSent [DecidableEq κ] (calls : List (κ × BindInput)) (s : BoundParams) : Prop :=
  ∃ object, executeBindings s = some object ∧ Sends text calls (object.getD [])

theorem bindsSent_nil [DecidableEq κ] {s : BoundParams} (hs : s.params = none) :
    BindsSent text [] s := by
  refine ⟨none, ?_, ?_⟩
  · simp [executeBindings, hs]
  · constructor
    · exact List.nodup_nil
    · intro k i hi
      cases hi
    · intro entry hentry
      cases hentry

theorem bindsSent_iff [DecidableEq κ] (htext : Function.Injective text)
    {calls : List (κ × BindInput)} {keys : List κ} (hkeys : keys.Nodup) {s : BoundParams}
    (hloop : executeBindings s = (sendAll text (lastSet calls) keys).map some) :
    BindsSent text calls s ↔ ∀ k i, lastSet calls k = some i → k ∈ keys ∧ Printable i.value := by
  rw [← sendAll_sends_iff htext calls hkeys, BindsSent, hloop]
  constructor
  · rintro ⟨object, hrun, hsends⟩
    obtain ⟨sent, hrun', rfl⟩ := Option.map_eq_some_iff.mp hrun
    exact ⟨sent, hrun', hsends⟩
  · rintro ⟨object, hrun, hsends⟩
    exact ⟨some object, by rw [hrun]; rfl, hsends⟩

end Sends

/-! ## The calls -/

theorem bindAll_append (inputs : List BindInput) (input : BindInput) (s : BoundParams) :
    bindAll (inputs ++ [input]) s = (bindAll inputs s).bind fun s =>
      (snowflakeBindParam s input).bind fun r => if r.1 = .success then some r.2 else none := by
  rw [bindAll, List.foldlM_append]
  simp [bindAll]

/-! ## The keys of positional parameters -/

theorem ofNat_toUInt8 {c : Char} (h : c.isDigit) : Char.ofNat c.toUInt8.toNat = c := by
  have hle : c.toNat ≤ 57 := (Char.isDigit_iff_toNat.mp h).2
  have hbyte : c.toUInt8.toNat = c.toNat := Nat.mod_eq_of_lt (Nat.lt_of_le_of_lt hle (by decide))
  rw [hbyte, Char.ofNat_toNat]

theorem chars_ascii {text : List Char} (h : ∀ c ∈ text, c.isDigit) :
    (ascii text).map (fun b => Char.ofNat b.toNat) = text := by
  have hid : ∀ c ∈ text, Char.ofNat c.toUInt8.toNat = id c := fun c hc => ofNat_toUInt8 (h c hc)
  rw [ascii, List.map_map]
  exact (List.map_congr_left hid).trans (List.map_id text)

theorem printUnsigned_injective : Function.Injective printUnsigned := by
  intro n m h
  have hdigit (k : Nat) : ∀ c ∈ Nat.toDigits 10 k, c.isDigit := fun c hc =>
    Nat.isDigit_of_mem_toDigits (by decide) (by decide) hc
  have hchars : Nat.toDigits 10 n = Nat.toDigits 10 m := by
    rw [← chars_ascii (hdigit n), ← chars_ascii (hdigit m)]
    exact congrArg (List.map _) h
  rw [← Nat.ofDigitChars_ten_toDigits (n := n), hchars, Nat.ofDigitChars_ten_toDigits]

end Snowflake
