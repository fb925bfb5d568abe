import SnowflakeClient.CJson.Print
import SnowflakeClient.CJson.Text

/-!
# What the printer writes

`render` is the text of an item, without a buffer. `printValue_ends`: whatever the room and the
memory, the printer stays in its buffer, and if it does not fail then the buffer holds this text; it
does not fail if there is room for the text and two more bytes.
-/

namespace Snowflake.CJSON

open Run CDouble

/-! ## The text of an item -/

/-- The text of a number. -/
def numberText : Binary64 → List Char
  | .finite d =>
    if (strtod (general 15 d).text).any fun test => test.1.equal (.finite d) then
      (general 15 d).text
    else (general 17 d).text
  | _ => ['n', 'u', 'l', 'l']

/-- A byte of a string. -/
def escape (b : UInt8) : List UInt8 :=
  if 31 < b ∧ b ≠ quote ∧ b ≠ backslash then [b]
  else backslash :: ((shortEscape b).map ([·])).getD (unicodeEscape b)

def quoted (s : CString) : List UInt8 := quote :: s.bytes.flatMap escape ++ [quote]

mutual

def render (format : Bool) : (depth : Nat) → Item → List UInt8
  | _, .null => nullText
  | _, .bool false => falseText
  | _, .bool true => trueText
  | _, .number d => ascii (numberText d)
  | _, .raw s => s.bytes
  | _, .string s => quoted s
  | depth, .array items => '['.toUInt8 :: renderElements format (depth + 1) items ++ [']'.toUInt8]
  | depth, .object members =>
    opening format ++ renderMembers format (depth + 1) members ++ closing format (depth + 1)

def renderElements (format : Bool) (depth : Nat) : List Item → List UInt8
  | [] => []
  | item :: rest =>
    render format depth item ++ (if rest.isEmpty then [] else separator format) ++
      renderElements format depth rest

def renderMembers (format : Bool) (depth : Nat) : List (CString × Item) → List UInt8
  | [] => []
  | (name, item) :: rest =>
    (if format then tabs depth else []) ++ quoted name ++ colon format ++
      render format depth item ++ memberEnd format (!rest.isEmpty) ++
      renderMembers format depth rest

end

/-! ## The buffer -/

/-- What no function changes, except for the depth, and the size of the buffer. -/
structure Keeps (base : Printbuffer) (depth : Nat) (p : Printbuffer) : Prop where
  depth : p.depth = depth
  format : p.format = base.format
  noalloc : p.noalloc = base.noalloc
  hooks : p.hooks = base.hooks
  length : base.noalloc = true → p.length = base.length
  fits : p.length ≤ p.buffer.size
  limit : p.length ≤ max base.length intMax

/-- The text `done` is written, and the next one is to be written after it. -/
structure At (base : Printbuffer) (depth : Nat) (done : List UInt8) (p : Printbuffer) : Prop
    extends Keeps base depth p where
  offset : p.offset = done.length
  valid : p.length = 0 ∨ p.offset < p.length
  written : ∃ free, p.buffer.bytes = done.map some ++ free

/-- After `done`, the buffer holds `text` as a C string, some of which may be stepped over. -/
structure Holds (base : Printbuffer) (depth : Nat) (done text : List UInt8) (p : Printbuffer) : Prop
    extends Keeps base depth p where
  offset : done.length ≤ p.offset ∧ p.offset ≤ (done ++ text).length
  room : (done ++ text).length < p.length
  written : ∃ free, p.buffer.bytes = (done ++ text).map some ++ some 0 :: free

/-- The allocator finds memory for every size that it is asked for. -/
def HasMemory (hooks : Nat → Nat → Bool) : Prop := ∀ k, ∀ n ≤ intMax, hooks k n = true

/-- There is room for a text of `total` bytes, or memory for it. -/
def Enough (base : Printbuffer) (total : Nat) : Prop :=
  total + 2 ≤ intMax ∧
    if base.noalloc then total + 2 ≤ base.length else HasMemory base.hooks

section Buffer

variable {base p : Printbuffer} {depth total : Nat} {done text : List UInt8}

theorem At.setDepth (h : At base depth done p) (depth' : Nat) :
    At base depth' done { p with depth := depth' } :=
  { h with depth := rfl }

theorem Holds.setDepth (h : Holds base depth done text p) (depth' : Nat) :
    Holds base depth' done text { p with depth := depth' } :=
  { h with depth := rfl }

/-- The text before may count as a part of the text. -/
theorem Holds.cons {front : List UInt8} (h : Holds base depth (done ++ front) text p) :
    Holds base depth done (front ++ text) p := by
  have hoffset := h.offset
  have hroom := h.room
  obtain ⟨free, hfree⟩ := h.written
  rw [List.append_assoc] at hoffset hroom hfree
  rw [List.length_append] at hoffset
  exact { h with offset := ⟨by omega, hoffset.2⟩, room := hroom, written := ⟨free, hfree⟩ }

theorem grow_ends {newsize needed : Nat} (h : At base depth done p) (halloc : base.noalloc = false)
    (hmax : newsize ≤ intMax) (hneeded : done.length + needed < newsize) :
    Ends (Enough base total)
      (fun p' => At base depth done p' ∧ done.length + needed < p'.length) (p.grow newsize) := by
  unfold Printbuffer.grow
  by_cases hhooks : p.hooks p.calls newsize = true
  · rw [if_pos hhooks, ends_returned]
    obtain ⟨free, hfree⟩ := h.written
    obtain ⟨free', hfree'⟩ := @Block.realloc_append (done.map some) free newsize
      (by rw [List.length_map]; omega)
    have hoffset := h.offset
    refine ⟨{ h with length := ?_, fits := ?_, limit := ?_, valid := ?_, written := ⟨free', ?_⟩ },
      hneeded⟩
    · rw [halloc]
      exact fun h => absurd h Bool.false_ne_true
    · exact (Block.size_realloc _ _).ge
    · exact hmax.trans (le_max_right _ _)
    · exact .inr (show p.offset < newsize by omega)
    · exact congrArg Block.bytes ((congrArg (fun b => Block.realloc (some ⟨b⟩) newsize) hfree).trans
        hfree')
  · rw [if_neg hhooks, ends_raised]
    rintro ⟨-, hmemory⟩
    rw [halloc] at hmemory
    exact hhooks (h.hooks ▸ hmemory p.calls newsize hmax)

theorem ensure_ends {needed : Nat} (h : At base depth done p)
    (hfit : done.length + needed ≤ total + 1) :
    Ends (Enough base total)
      (fun p' => At base depth done p' ∧ done.length + needed < p'.length) (p.ensure needed) := by
  have hoffset := h.offset
  have hmax : intMax / 2 * 2 ≤ intMax := Nat.div_mul_le_self _ _
  unfold Printbuffer.ensure
  rw [if_neg (by have := h.valid; omega)]
  by_cases hbig : intMax < needed
  · rw [if_pos hbig, ends_raised]
    rintro ⟨hlimit, -⟩
    omega
  rw [if_neg hbig]
  dsimp only
  by_cases hroom : needed + (p.offset + 1) ≤ p.length
  · rw [if_pos hroom, ends_returned]
    exact ⟨h, by omega⟩
  rw [if_neg hroom, h.noalloc]
  cases halloc : base.noalloc with
  | true =>
    rw [if_pos rfl, ends_raised]
    rintro ⟨-, hlength⟩
    rw [halloc, if_pos rfl, ← h.length halloc] at hlength
    omega
  | false =>
    rw [if_neg Bool.false_ne_true]
    by_cases hhalf : intMax / 2 < needed + (p.offset + 1)
    · rw [if_pos hhalf]
      by_cases hlimit : needed + (p.offset + 1) ≤ intMax
      · rw [if_pos hlimit]
        exact grow_ends h halloc le_rfl (by omega)
      · rw [if_neg hlimit, ends_raised]
        rintro ⟨hlimit', -⟩
        omega
    · rw [if_neg hhalf]
      exact grow_ends h halloc (by omega) (by omega)

/-- The buffer with these bytes, of which the first ones are written. -/
def Printbuffer.holding (p : Printbuffer) (written : List UInt8) (free : List (Option UInt8)) :
    Printbuffer :=
  { p with buffer := ⟨written.map some ++ free⟩ }

theorem At.holding (h : At base depth done p) : ∃ free, p = p.holding done free ∧
    p.length ≤ done.length + free.length := by
  obtain ⟨free, hfree⟩ := h.written
  have hfits := h.fits
  rw [Block.size, hfree, List.length_append, List.length_map] at hfits
  refine ⟨free, ?_, hfits⟩
  rw [Printbuffer.holding, ← hfree]

/-- A write right after what was written. -/
theorem put_holding {pos : Nat} {written values : List UInt8} {free : List (Option UInt8)}
    (hpos : p.offset + pos = written.length) (hfree : values.length ≤ free.length) :
    (p.holding written free).put pos values =
      .returned (p.holding (written ++ values) (free.drop values.length)) := by
  unfold Printbuffer.put Printbuffer.holding
  rw [Block.write_map_append hpos.symm hfree, returned_bind]

theorem Keeps.holding {written : List UInt8} {free : List (Option UInt8)} (h : Keeps base depth p)
    (hfits : p.length ≤ written.length + free.length) :
    Keeps base depth (p.holding written free) := by
  refine { h with fits := ?_ }
  rwa [Printbuffer.holding, Block.size, List.length_append, List.length_map]

theorem emit_ends {needed advance : Nat} (h : At base depth done p)
    (hfit : done.length + needed ≤ total + 1) (htext : text.length ≤ needed + 1) :
    Ends (Enough base total)
      (fun p' => Keeps base depth p' ∧ p'.offset = done.length + advance ∧
        done.length + needed < p'.length ∧
        ∃ free, p'.buffer.bytes = (done ++ text).map some ++ free)
      (p.emit needed text advance) := by
  refine (ensure_ends h hfit).bind fun p' ⟨h', hroom⟩ => ?_
  obtain ⟨free, hfree, hfits⟩ := h'.holding
  rw [hfree, put_holding (by rw [Nat.add_zero, h'.offset]) (by omega), returned_bind, ends_returned]
  have hkeeps : Keeps base depth (p'.holding (done ++ text) (free.drop text.length)) := by
    apply h'.toKeeps.holding
    rw [List.length_append, List.length_drop]
    omega
  exact ⟨{ hkeeps with }, congrArg (· + advance) h'.offset, hroom, _, rfl⟩

/-- A token that is stepped over. -/
theorem emit_at (text : List UInt8) {needed : Nat} {values : List UInt8} (h : At base depth done p)
    (hvalues : values = text ∨ values = text ++ [0]) (htext : text.length ≤ needed)
    (hfit : done.length + needed ≤ total + 1) :
    Ends (Enough base total) (At base depth (done ++ text)) (p.emit needed values text.length) := by
  obtain ⟨tail, rfl, htail⟩ : ∃ tail, values = text ++ tail ∧ tail.length ≤ 1 := by
    rcases hvalues with rfl | rfl
    · exact ⟨[], (List.append_nil _).symm, Nat.zero_le 1⟩
    · exact ⟨[0], rfl, le_rfl⟩
  refine (emit_ends h hfit (by rw [List.length_append]; omega)).imp ?_
  rintro p' ⟨hkeeps, hoffset, hroom, free, hfree⟩
  refine { hkeeps with offset := ?_, valid := .inr ?_, written := ⟨tail.map some ++ free, ?_⟩ }
  · rw [hoffset, List.length_append]
  · omega
  · rw [hfree, ← List.append_assoc, List.map_append, List.append_assoc]

/-- The last token of a text. -/
theorem emit_holds (text : List UInt8) {needed advance : Nat} (h : At base depth done p)
    (hadvance : advance ≤ text.length) (htext : text.length ≤ needed)
    (hfit : done.length + needed ≤ total + 1) :
    Ends (Enough base total) (Holds base depth done text)
      (p.emit needed (text ++ [0]) advance) := by
  refine (emit_ends h hfit (by rw [List.length_append]; exact Nat.succ_le_succ htext)).imp ?_
  rintro p' ⟨hkeeps, hoffset, hroom, free, hfree⟩
  refine { hkeeps with offset := ?_, room := ?_, written := ⟨free, ?_⟩ }
  · rw [hoffset, List.length_append]
    omega
  · rw [List.length_append]
    omega
  · rw [hfree, ← List.append_assoc, List.map_append, List.append_assoc]
    rfl

theorem updateOffset_holds {ok : Prop} (h : Holds base depth done text p) (hnul : 0 ∉ text) :
    Ends ok (fun p' => At base depth (done ++ text) p' ∧ Holds base depth done text p')
      p.updateOffset := by
  obtain ⟨free, hfree⟩ := h.written
  have hoffset := h.offset
  rw [List.length_append] at hoffset
  -- what was not stepped over yet
  obtain ⟨rest, front, hrest, htext⟩ : ∃ rest front : List UInt8,
      (done ++ front).length = p.offset ∧ text = front ++ rest :=
    ⟨text.drop (p.offset - done.length), text.take (p.offset - done.length),
      by rw [List.length_append, List.length_take]; omega, (List.take_append_drop _ _).symm⟩
  have hbytes : p.buffer = ⟨(done ++ front).map some ++ (rest.map some ++ some 0 :: free)⟩ := by
    rw [← List.append_assoc, ← List.map_append, List.append_assoc, ← htext, ← hfree]
  have hstrlen : (p.buffer.strlen p.offset : Run Unit Nat) = .returned rest.length := by
    rw [hbytes, Block.strlen_append ⟨rest, fun h => hnul (htext ▸ List.mem_append_right _ h)⟩ free
      ((List.length_map _).trans hrest)]
  rw [Printbuffer.updateOffset, hstrlen, returned_bind, ends_returned]
  have hend : p.offset + rest.length = (done ++ text).length := by
    rw [← hrest, htext]
    simp only [List.length_append]
    omega
  have hlength : done.length ≤ (done ++ text).length := by
    rw [List.length_append]
    omega
  exact ⟨{ h with offset := hend, valid := .inr (hend.trans_lt h.room),
                  written := ⟨some 0 :: free, hfree⟩ },
    { h with offset := ⟨hlength.trans hend.ge, hend.le⟩ }⟩

theorem updateOffset_at {ok : Prop} (h : Holds base depth done text p) (hnul : 0 ∉ text) :
    Ends ok (At base depth (done ++ text)) p.updateOffset :=
  (updateOffset_holds h hnul).imp fun _ h' => h'.1

end Buffer

/-! ## Strings and numbers -/

theorem shortEscape_eq_none_iff {b : UInt8} : shortEscape b = none ↔
    b ∉ [backslash, quote, 0x08, 0x0C, 0x0A, 0x0D, 0x09] := by
  unfold shortEscape
  rw [List.lookup_eq_none_iff]
  simp

theorem shortEscape_of_plain {b : UInt8} (h : 31 < b) (hquote : b ≠ quote) (hback : b ≠ backslash) :
    shortEscape b = none := by
  rw [shortEscape_eq_none_iff]
  intro hmem
  simp only [List.mem_cons, List.not_mem_nil, or_false] at hmem
  rcases hmem with rfl | rfl | rfl | rfl | rfl | rfl | rfl
  · exact hback rfl
  · exact hquote rfl
  all_goals exact absurd h (by decide)

theorem lt_of_shortEscape {b : UInt8} (h : ¬ (31 < b ∧ b ≠ quote ∧ b ≠ backslash))
    (hnone : shortEscape b = none) : b < 32 := by
  rw [shortEscape_eq_none_iff] at hnone
  by_contra hge
  refine h ⟨?_, ?_, ?_⟩
  · exact UInt8.lt_of_lt_of_le (show (31 : UInt8) < 32 by decide) (UInt8.not_lt.mp hge)
  · rintro rfl
    exact hnone (by simp)
  · rintro rfl
    exact hnone (by simp)

theorem mem_escapes_of_shortEscape {b e : UInt8} (h : shortEscape b = some e) :
    (e, b) ∈ escapes := by
  obtain ⟨before, after, hsplit, -⟩ := List.lookup_eq_some_iff.mp h
  have hmem : (b, e) ∈ before ++ (b, e) :: after := by simp
  rw [← hsplit] at hmem
  simp only [List.mem_cons, Prod.mk.injEq, List.not_mem_nil, or_false] at hmem
  rcases hmem with ⟨rfl, rfl⟩ | ⟨rfl, rfl⟩ | ⟨rfl, rfl⟩ | ⟨rfl, rfl⟩ | ⟨rfl, rfl⟩ | ⟨rfl, rfl⟩ |
    ⟨rfl, rfl⟩ <;> simp [escapes]

/-- The three ways to print a byte of a string. -/
theorem escape_cases (b : UInt8) :
    ((31 < b ∧ b ≠ quote ∧ b ≠ backslash) ∧ escape b = [b] ∧ escapeCharacters b = 0) ∨
    (¬ (31 < b ∧ b ≠ quote ∧ b ≠ backslash) ∧
      ((∃ e, shortEscape b = some e ∧ escape b = [backslash, e] ∧ escapeCharacters b = 1) ∨
      (shortEscape b = none ∧ b < 32 ∧ escape b = backslash :: unicodeEscape b ∧
        escapeCharacters b = 5))) := by
  unfold escape escapeCharacters
  by_cases hplain : 31 < b ∧ b ≠ quote ∧ b ≠ backslash
  · left
    have hge : (32 : UInt8) ≤ b := UInt8.le_iff_toNat_le.mpr (UInt8.lt_iff_toNat_lt.mp hplain.1)
    rw [if_pos hplain, shortEscape_of_plain hplain.1 hplain.2.1 hplain.2.2]
    exact ⟨hplain, rfl, if_neg (UInt8.not_lt.mpr hge)⟩
  · right
    rw [if_neg hplain]
    refine ⟨hplain, ?_⟩
    cases hshort : shortEscape b with
    | some e => exact .inl ⟨e, rfl, rfl, rfl⟩
    | none =>
      have hlt := lt_of_shortEscape hplain hshort
      exact .inr ⟨rfl, hlt, rfl, if_pos hlt⟩
theorem length_escape (b : UInt8) : (escape b).length = 1 + escapeCharacters b := by
  rcases escape_cases b with ⟨-, h, hcount⟩ | ⟨-, ⟨e, -, h, hcount⟩ | ⟨-, -, h, hcount⟩⟩ <;>
    rw [h, hcount] <;> rfl

theorem escape_of_escapeCharacters {b : UInt8} (h : escapeCharacters b = 0) : escape b = [b] := by
  rcases escape_cases b with ⟨-, hb, -⟩ | ⟨-, ⟨e, -, -, hcount⟩ | ⟨-, -, -, hcount⟩⟩
  · exact hb
  · omega
  · omega

theorem length_flatMap_escape (bytes : List UInt8) :
    (bytes.flatMap escape).length = bytes.length + (bytes.map escapeCharacters).sum := by
  induction bytes with
  | nil => rfl
  | cons b bytes ih =>
    rw [List.flatMap_cons, List.length_append, length_escape, ih, List.length_cons, List.map_cons,
      List.sum_cons]
    omega

theorem flatMap_escape_eq_self {bytes : List UInt8} (h : (bytes.map escapeCharacters).sum = 0) :
    bytes.flatMap escape = bytes := by
  induction bytes with
  | nil => rfl
  | cons b bytes ih =>
    rw [List.map_cons, List.sum_cons] at h
    rw [List.flatMap_cons, ih (by omega), escape_of_escapeCharacters (by omega),
      List.singleton_append]

section Copy

variable {p : Printbuffer} {pos : Nat} {written : List UInt8} {free : List (Option UInt8)}

theorem copyByte_eq (b : UInt8) (hpos : p.offset + pos = written.length)
    (hfree : (escape b).length < free.length) :
    ∃ free', copyByte b pos (p.holding written free) =
        .returned (p.holding (written ++ escape b) free', pos + (escape b).length) ∧
      free'.length + (escape b).length = free.length := by
  unfold copyByte
  rcases escape_cases b with ⟨hplain, hb, -⟩ | ⟨hplain, ⟨e, hshort, hb, -⟩ | ⟨hshort, -, hb, -⟩⟩
  · have hlen : [b].length = 1 := rfl
    rw [hb] at hfree
    rw [if_pos hplain, hb, put_holding hpos hfree.le, returned_bind]
    exact ⟨_, rfl, by rw [List.length_drop]; omega⟩
  · have hlen : (escape b).length = 2 := by rw [hb]; rfl
    rw [if_neg hplain, hshort, put_holding hpos (by rw [List.length_singleton]; omega),
      returned_bind]
    dsimp only
    rw [put_holding (by rw [List.length_append, List.length_singleton, ← hpos, Nat.add_assoc])
      (by rw [List.length_drop, List.length_singleton, List.length_singleton]; omega),
      returned_bind, List.append_assoc, hlen, hb]
    exact ⟨_, rfl, by simp only [List.length_drop, List.length_singleton]; omega⟩
  · have hlen : (escape b).length = 6 := by rw [hb]; rfl
    have hnul : (unicodeEscape b ++ [0]).length = 6 := rfl
    rw [if_neg hplain, hshort, put_holding hpos (by rw [List.length_singleton]; omega),
      returned_bind]
    dsimp only
    rw [put_holding (by rw [List.length_append, List.length_singleton, ← hpos, Nat.add_assoc])
      (by rw [List.length_drop, List.length_singleton, hnul]; omega), returned_bind, hlen, hb]
    refine ⟨some 0 :: (free.drop [backslash].length).drop (unicodeEscape b ++ [0]).length, ?_, ?_⟩
    · unfold Printbuffer.holding
      simp
    · simp only [List.length_cons, List.length_drop, List.length_nil, hnul]
      omega

theorem copyString_eq (input : List UInt8) (hpos : p.offset + pos = written.length)
    (hfree : (input.flatMap escape).length < free.length) :
    ∃ free', copyString input pos (p.holding written free) =
        .returned (p.holding (written ++ input.flatMap escape) free') ∧
      free'.length + (input.flatMap escape).length = free.length := by
  induction input generalizing pos written free with
  | nil => exact ⟨free, by rw [copyString, List.flatMap_nil, List.append_nil], rfl⟩
  | cons b input ih =>
    rw [List.flatMap_cons, List.length_append] at hfree ⊢
    obtain ⟨free₁, hbyte, hfree₁⟩ :=
      copyByte_eq b hpos (show (escape b).length < free.length by omega)
    obtain ⟨free₂, hrest, hfree₂⟩ := @ih (pos + (escape b).length) (written ++ escape b) free₁
      (by rw [List.length_append, ← hpos, Nat.add_assoc]) (by omega)
    refine ⟨free₂, ?_, by omega⟩
    rw [copyString, hbyte, returned_bind, ← List.append_assoc]
    exact hrest

theorem putInput_eq (input : List UInt8) (hpos : p.offset + 1 = written.length)
    (hfree : (input.flatMap escape).length < free.length) :
    ∃ free', putInput input (p.holding written free) =
        .returned (p.holding (written ++ input.flatMap escape) free') ∧
      free'.length + (input.flatMap escape).length = free.length := by
  unfold putInput
  by_cases hplain : (input.map escapeCharacters).sum = 0
  · rw [flatMap_escape_eq_self hplain] at hfree ⊢
    rw [if_pos hplain, put_holding hpos hfree.le]
    exact ⟨_, rfl, by rw [List.length_drop]; omega⟩
  · rw [if_neg hplain]
    exact copyString_eq input hpos hfree

end Copy

theorem length_quoted (s : CString) : (quoted s).length =
    s.bytes.length + (s.bytes.map escapeCharacters).sum + 2 := by
  rw [quoted, List.length_append, List.length_cons, length_flatMap_escape]
  rfl

section Values

variable {base p : Printbuffer} {depth total : Nat} {done : List UInt8}

theorem printStringPtr_ends (s : CString) (h : At base depth done p)
    (hfit : done.length + (quoted s).length ≤ total) :
    Ends (Enough base total) (Holds base depth done (quoted s)) (printStringPtr s p) := by
  have hlen := length_quoted s
  have hflat := length_flatMap_escape s.bytes
  have hquote : [quote].length = 1 := rfl
  unfold printStringPtr
  dsimp only
  generalize s.bytes.length + (s.bytes.map escapeCharacters).sum = outputLength at *
  refine (ensure_ends h (by omega)).bind fun p' ⟨h', hroom⟩ => ?_
  obtain ⟨free, hfree, hfits⟩ := h'.holding
  have hoffset := h'.offset
  rw [hfree, put_holding (by rw [Nat.add_zero, hoffset]) (by omega), returned_bind]
  obtain ⟨free', hcopy, hfree'⟩ := @putInput_eq p' (done ++ [quote]) (free.drop [quote].length)
    s.bytes (by rw [List.length_append, hoffset, hquote]) (by rw [List.length_drop]; omega)
  rw [List.length_drop] at hfree'
  have hwritten : done ++ [quote] ++ s.bytes.flatMap escape ++ [quote] = done ++ quoted s := by
    simp [quoted]
  rw [hcopy, returned_bind, put_holding (by simp only [List.length_append]; omega) (by omega),
    returned_bind, hwritten, put_holding (by rw [List.length_append]; omega) _, ends_returned]
  · have hkeeps : Keeps base depth
        (p'.holding (done ++ quoted s ++ [0]) ((free'.drop [quote].length).drop 1)) := by
      apply h'.toKeeps.holding
      simp only [List.length_append, List.length_drop, hquote, List.length_singleton]
      omega
    refine { hkeeps with offset := ⟨hoffset.ge, ?_⟩, room := ?_,
                         written := ⟨(free'.drop [quote].length).drop 1, ?_⟩ }
    · exact hoffset.le.trans (by rw [List.length_append]; omega)
    · show _ < p'.length
      rw [List.length_append]
      omega
    · unfold Printbuffer.holding
      rw [List.map_append, List.append_assoc]
      rfl
  · rw [List.length_drop, List.length_singleton]
    omega

theorem numberBuffer_eq (d : Binary64) : numberBuffer d = .returned (numberText d) ∧
    (numberText d).length < 26 := by
  cases d with
  | finite d =>
    have h15 := length_general (n := 15) (by norm_num) d
    have h17 := length_general (n := 17) (by norm_num) d
    have hshort : sprintf 26 (general 15 d).text = .returned (general 15 d).text :=
      if_pos (by omega)
    have hlong : sprintf 26 (general 17 d).text = .returned (general 17 d).text :=
      if_pos (by omega)
    unfold numberBuffer numberText
    dsimp only
    rw [hshort, hlong, returned_bind]
    by_cases hread : ((strtod (general 15 d).text).any fun test => test.1.equal (.finite d)) = true
    · rw [if_pos hread, if_pos hread]
      exact ⟨rfl, by omega⟩
    · rw [if_neg hread, if_neg hread]
      exact ⟨rfl, by omega⟩
  | inf neg => exact ⟨rfl, show 4 < 26 by decide⟩
  | nan => exact ⟨rfl, show 4 < 26 by decide⟩

theorem printNumber_ends (d : Binary64) (h : At base depth done p)
    (hfit : done.length + (numberText d).length ≤ total) :
    Ends (Enough base total) (Holds base depth done (ascii (numberText d))) (printNumber d p) := by
  obtain ⟨hbuffer, hlen⟩ := numberBuffer_eq d
  have hascii : (ascii (numberText d)).length = (numberText d).length := List.length_map _
  rw [printNumber, hbuffer, returned_bind, if_neg (by omega)]
  exact emit_holds _ h hascii.ge hascii.le (by omega)

/-! ## Arrays and objects -/

theorem printArray_ends {elements : Printbuffer → Run Unit Printbuffer} {text : List UInt8}
    (h : At base depth done p) (hfit : done.length + text.length + 2 ≤ total)
    (helements : ∀ p', At base (depth + 1) (done ++ ['['.toUInt8]) p' → Ends (Enough base total)
      (At base (depth + 1) (done ++ ['['.toUInt8] ++ text)) (elements p')) :
    Ends (Enough base total) (Holds base depth done ('['.toUInt8 :: text ++ [']'.toUInt8]))
      (printArray elements p) := by
  have hone : ['['.toUInt8].length = 1 := rfl
  unfold printArray
  refine (emit_at ['['.toUInt8] h (.inl rfl) le_rfl (by omega)).bind fun p₁ h₁ => ?_
  rw [h₁.depth]
  refine (helements _ (h₁.setDepth _)).bind fun p₂ h₂ => ?_
  refine (emit_holds [']'.toUInt8] h₂ (Nat.zero_le _) (Nat.le_succ 1)
    (by simp only [List.length_append]; omega)).bind fun p₃ h₃ => ?_
  rw [h₃.depth, ends_returned, List.cons_append, ← List.singleton_append]
  rw [List.append_assoc] at h₃
  exact (h₃.cons.setDepth depth)

theorem printObject_ends {members : Printbuffer → Run Unit Printbuffer} {text : List UInt8}
    (h : At base depth done p)
    (hfit : done.length + (opening base.format ++ text ++ closing base.format (depth + 1)).length ≤
      total)
    (hmembers : ∀ p', At base (depth + 1) (done ++ opening base.format) p' →
      Ends (Enough base total) (At base (depth + 1) (done ++ opening base.format ++ text))
        (members p')) :
    Ends (Enough base total)
      (Holds base depth done (opening base.format ++ text ++ closing base.format (depth + 1)))
      (printObject members p) := by
  have hclosing : (closing base.format (depth + 1)).length =
      if base.format then depth + 1 else 1 := by
    unfold closing tabs
    cases base.format <;> simp
  rw [List.length_append, List.length_append] at hfit
  unfold printObject
  rw [h.format]
  have hpos : 1 ≤ (closing base.format (depth + 1)).length := by rw [hclosing]; split <;> omega
  refine (emit_at (opening base.format) h (.inl rfl) (Nat.le_succ _) (by omega)).bind
    fun p₁ h₁ => ?_
  rw [h₁.depth]
  refine (hmembers _ (h₁.setDepth _)).bind fun p₂ h₂ => ?_
  rw [h₂.format, h₂.depth]
  refine (emit_holds (closing base.format (depth + 1)) h₂ (Nat.zero_le _) ?_ ?_).bind
    fun p₃ h₃ => ?_
  · rw [hclosing]
    split <;> omega
  · rw [hclosing] at hfit
    simp only [List.length_append]
    split at hfit <;> simp_all <;> omega
  · rw [h₃.depth, ends_returned]
    rw [List.append_assoc] at h₃
    exact h₃.cons.setDepth depth

/-! ## No text has a `NUL` -/

theorem hexDigit_digitChar {d : Nat} (h : d < 16) :
    hexDigit (Nat.digitChar d).toUInt8 = some d := by
  interval_cases d <;> decide

theorem zero_notMem_unicodeEscape (b : UInt8) : 0 ∉ unicodeEscape b := by
  have hdigit : ∀ d < 16, (Nat.digitChar d).toUInt8 ≠ 0 := by
    intro d hd h
    have hhex := hexDigit_digitChar hd
    rw [h] at hhex
    exact absurd hhex (by decide +revert)
  have hb := b.toNat_lt
  intro h
  rcases List.mem_cons.mp h with h | h
  · exact absurd h (by decide)
  · obtain ⟨d, hd, h⟩ := List.mem_map.mp h
    refine hdigit d ?_ h
    simp only [List.mem_cons, List.not_mem_nil, or_false] at hd
    omega

theorem zero_notMem_escape {b : UInt8} (hb : b ≠ 0) : 0 ∉ escape b := by
  have hback : (0 : UInt8) ≠ backslash := by decide
  rcases escape_cases b with ⟨-, h, -⟩ | ⟨-, ⟨e, hshort, h, -⟩ | ⟨-, -, h, -⟩⟩
  · rw [h, List.mem_singleton]
    exact hb.symm
  · have hall : ∀ p ∈ escapes, 0 ≠ p.1 := by
      simp only [escapes, List.forall_mem_cons]
      exact ⟨by decide, by decide, by decide, by decide, by decide, by decide, by decide, by decide,
        List.forall_mem_nil _⟩
    rw [h]
    simp only [List.mem_cons, List.not_mem_nil, or_false, not_or]
    exact ⟨hback, hall _ (mem_escapes_of_shortEscape hshort)⟩
  · rw [h, List.mem_cons, not_or]
    exact ⟨hback, zero_notMem_unicodeEscape b⟩

theorem zero_notMem_quoted (s : CString) : 0 ∉ quoted s := by
  have hquote : (0 : UInt8) ≠ quote := by decide
  simp only [quoted, List.cons_append, List.mem_cons, List.mem_append, List.mem_flatMap,
    List.not_mem_nil, or_false, not_or]
  refine ⟨hquote, ?_, hquote⟩
  rintro ⟨b, hb, h⟩
  refine zero_notMem_escape ?_ h
  rintro rfl
  exact s.noNul hb

theorem zero_notMem_text (l : Literal) : 0 ∉ ascii l.text := by
  intro h
  obtain ⟨c, hc, hzero⟩ := List.mem_map.mp h
  have hbyte := (isNumberChar_text l c hc).byte.2
  rw [hzero] at hbyte
  exact absurd hbyte (by decide)

theorem zero_notMem_numberText (d : Binary64) : 0 ∉ ascii (numberText d) := by
  cases d with
  | finite d =>
    unfold numberText
    dsimp only
    split
    · exact zero_notMem_text _
    · exact zero_notMem_text _
  | inf neg => exact (by decide : 0 ∉ nullText)
  | nan => exact (by decide : 0 ∉ nullText)

section Tokens

variable (format : Bool)

theorem zero_notMem_separator : 0 ∉ separator format := by
  cases format <;> decide

theorem zero_notMem_opening : 0 ∉ opening format := by
  cases format <;> decide

theorem zero_notMem_colon : 0 ∉ colon format := by
  cases format <;> decide

theorem zero_notMem_memberEnd (next : Bool) : 0 ∉ memberEnd format next := by
  cases format <;> cases next <;> decide

theorem zero_notMem_tabs (n : Nat) : 0 ∉ tabs n := by
  intro h
  exact absurd (List.eq_of_mem_replicate h) (by decide)

theorem zero_notMem_closing (depth : Nat) : 0 ∉ closing format depth := by
  have htabs := zero_notMem_tabs (depth - 1)
  have hbrace : (0 : UInt8) ≠ '}'.toUInt8 := by decide
  cases format <;> simp [closing, htabs, hbrace]

end Tokens

mutual

theorem zero_notMem_render (format : Bool) (depth : Nat) : (item : Item) →
    0 ∉ render format depth item
  | .null => by rw [render]; decide
  | .bool false => by rw [render]; decide
  | .bool true => by rw [render]; decide
  | .number d => by rw [render]; exact zero_notMem_numberText d
  | .raw s => by rw [render]; exact s.noNul
  | .string s => by rw [render]; exact zero_notMem_quoted s
  | .array items => by
    have hopen : (0 : UInt8) ≠ '['.toUInt8 := by decide
    have hclose : (0 : UInt8) ≠ ']'.toUInt8 := by decide
    have hitems := zero_notMem_renderElements format (depth + 1) items
    rw [render]
    simp [hopen, hclose, hitems]
  | .object members => by
    have hmembers := zero_notMem_renderMembers format (depth + 1) members
    rw [render]
    simp [zero_notMem_opening, zero_notMem_closing, hmembers]

theorem zero_notMem_renderElements (format : Bool) (depth : Nat) : (items : List Item) →
    0 ∉ renderElements format depth items
  | [] => by rw [renderElements]; exact List.not_mem_nil
  | item :: rest => by
    have hitem := zero_notMem_render format depth item
    have hrest := zero_notMem_renderElements format depth rest
    rw [renderElements]
    cases rest <;> simp [hitem, zero_notMem_separator, hrest]

theorem zero_notMem_renderMembers (format : Bool) (depth : Nat) :
    (members : List (CString × Item)) → 0 ∉ renderMembers format depth members
  | [] => by rw [renderMembers]; exact List.not_mem_nil
  | (name, item) :: rest => by
    have hitem := zero_notMem_render format depth item
    have hrest := zero_notMem_renderMembers format depth rest
    have htabs : 0 ∉ (if format then tabs depth else []) := by
      cases format <;> simp [zero_notMem_tabs]
    rw [renderMembers]
    simp [htabs, zero_notMem_quoted, zero_notMem_colon, hitem, zero_notMem_memberEnd, hrest]

end

/-! ## The printer -/

theorem printSeparator_ends (next : Bool) (h : At base depth done p)
    (hfit : done.length + (if next then separator base.format else []).length ≤ total) :
    Ends (Enough base total) (At base depth (done ++ if next then separator base.format else []))
      (printSeparator next p) := by
  unfold printSeparator
  cases next with
  | false =>
    rw [if_neg Bool.false_ne_true, if_neg Bool.false_ne_true, List.append_nil]
    exact h
  | true =>
    rw [if_pos rfl] at hfit ⊢
    rw [if_pos rfl, h.format]
    exact emit_at (separator base.format) h (.inr rfl) (Nat.le_succ _) (by omega)

theorem printTabs_ends (h : At base depth done p)
    (hfit : done.length + (if base.format then tabs depth else []).length ≤ total) :
    Ends (Enough base total) (At base depth (done ++ if base.format then tabs depth else []))
      (printTabs p) := by
  unfold printTabs
  rw [h.format]
  cases hformat : base.format with
  | false =>
    rw [if_neg Bool.false_ne_true, if_neg Bool.false_ne_true, List.append_nil]
    exact h
  | true =>
    have hlen : (tabs depth).length = depth := List.length_replicate
    rw [hformat, if_pos rfl] at hfit
    rw [if_pos rfl, if_pos rfl, h.depth]
    have hadvance : p.emit depth (tabs depth) depth =
        p.emit depth (tabs depth) (tabs depth).length := by rw [hlen]
    rw [hadvance]
    exact emit_at (tabs depth) h (.inl rfl) hlen.le (by omega)

theorem printKey_ends (name : CString) (h : At base depth done p)
    (hfit : done.length + ((if base.format then tabs depth else []) ++ quoted name ++
      colon base.format).length ≤ total) :
    Ends (Enough base total) (At base depth (done ++ ((if base.format then tabs depth else []) ++
      quoted name ++ colon base.format))) (printKey name p) := by
  simp only [List.length_append] at hfit
  unfold printKey
  refine (printTabs_ends h (by omega)).bind fun p₁ h₁ => ?_
  refine (printStringPtr_ends name h₁ (by rw [List.length_append]; omega)).bind fun p₂ h₂ => ?_
  refine (updateOffset_at h₂ (zero_notMem_quoted name)).bind fun p₃ h₃ => ?_
  rw [h₃.format, ← List.append_assoc, ← List.append_assoc]
  exact emit_at (colon base.format) h₃ (.inl rfl) le_rfl
    (by simp only [List.length_append]; omega)

theorem printMemberEnd_ends (next : Bool) (h : At base depth done p)
    (hfit : done.length + (memberEnd base.format next).length ≤ total) :
    Ends (Enough base total) (At base depth (done ++ memberEnd base.format next))
      (printMemberEnd next p) := by
  unfold printMemberEnd
  rw [h.format]
  exact emit_at (memberEnd base.format next) h (.inr rfl) (Nat.le_succ _) (by omega)

end Values

mutual

theorem printValue_ends {base : Printbuffer} {total : Nat} : (item : Item) → {p : Printbuffer} →
    {depth : Nat} → {done : List UInt8} → At base depth done p →
    done.length + (render base.format depth item).length ≤ total →
    Ends (Enough base total) (Holds base depth done (render base.format depth item))
      (printValue item p)
  | .null, _, _, _, h, hfit => by
    rw [render] at hfit ⊢
    rw [printValue]
    exact emit_holds nullText h (Nat.zero_le _) (Nat.le_succ 4) (Nat.succ_le_succ hfit)
  | .bool false, _, _, _, h, hfit => by
    rw [render] at hfit ⊢
    rw [printValue]
    exact emit_holds falseText h (Nat.zero_le _) (Nat.le_succ 5) (Nat.succ_le_succ hfit)
  | .bool true, _, _, _, h, hfit => by
    rw [render] at hfit ⊢
    rw [printValue]
    exact emit_holds trueText h (Nat.zero_le _) (Nat.le_succ 4) (Nat.succ_le_succ hfit)
  | .number d, _, _, _, h, hfit => by
    rw [render] at hfit ⊢
    rw [printValue]
    exact printNumber_ends d h (by rwa [List.length_map] at hfit)
  | .raw s, _, _, _, h, hfit => by
    rw [render] at hfit ⊢
    rw [printValue]
    exact emit_holds s.bytes h (Nat.zero_le _) (Nat.le_succ _) (Nat.succ_le_succ hfit)
  | .string s, _, _, _, h, hfit => by
    rw [render] at hfit ⊢
    rw [printValue]
    exact printStringPtr_ends s h hfit
  | .array items, _, depth, done, h, hfit => by
    rw [render] at hfit ⊢
    rw [printValue]
    have hlen :
        ('['.toUInt8 :: renderElements base.format (depth + 1) items ++ [']'.toUInt8]).length
        = (renderElements base.format (depth + 1) items).length + 2 := by simp
    refine printArray_ends h (by omega) fun p' h' => ?_
    exact printElements_ends items h'
      (by simp only [List.length_append, List.length_singleton]; omega)
  | .object members, _, depth, done, h, hfit => by
    rw [render] at hfit ⊢
    rw [printValue]
    refine printObject_ends h hfit fun p' h' => ?_
    simp only [List.length_append] at hfit
    exact printMembers_ends members h' (by simp only [List.length_append]; omega)

theorem printElements_ends {base : Printbuffer} {total : Nat} : (items : List Item) →
    {p : Printbuffer} → {depth : Nat} → {done : List UInt8} → At base depth done p →
    done.length + (renderElements base.format depth items).length ≤ total →
    Ends (Enough base total) (At base depth (done ++ renderElements base.format depth items))
      (printElements items p)
  | [], _, _, _, h, _ => by
    rw [printElements, renderElements, List.append_nil]
    exact h
  | item :: rest, _, depth, done, h, hfit => by
    have hsep : (if rest.isEmpty then [] else separator base.format) =
        if (!rest.isEmpty) = true then separator base.format else [] := by
      cases rest <;> rfl
    rw [renderElements, hsep] at hfit ⊢
    simp only [List.length_append] at hfit
    rw [printElements, ← List.append_assoc, ← List.append_assoc]
    refine (printValue_ends item h (by omega)).bind fun p₁ h₁ => ?_
    refine (updateOffset_at h₁ (zero_notMem_render _ _ _)).bind fun p₂ h₂ => ?_
    refine (printSeparator_ends _ h₂ (by rw [List.length_append]; omega)).bind fun p₃ h₃ => ?_
    exact printElements_ends rest h₃ (by simp only [List.length_append]; omega)

theorem printMembers_ends {base : Printbuffer} {total : Nat} : (members : List (CString × Item)) →
    {p : Printbuffer} → {depth : Nat} → {done : List UInt8} → At base depth done p →
    done.length + (renderMembers base.format depth members).length ≤ total →
    Ends (Enough base total) (At base depth (done ++ renderMembers base.format depth members))
      (printMembers members p)
  | [], _, _, _, h, _ => by
    rw [printMembers, renderMembers, List.append_nil]
    exact h
  | (name, item) :: rest, _, depth, done, h, hfit => by
    rw [renderMembers] at hfit ⊢
    simp only [List.length_append] at hfit
    rw [printMembers, ← List.append_assoc, ← List.append_assoc, ← List.append_assoc]
    refine (printKey_ends name h (by simp only [List.length_append]; omega)).bind fun p₁ h₁ => ?_
    refine (printValue_ends item h₁ (by simp only [List.length_append]; omega)).bind
      fun p₂ h₂ => ?_
    refine (updateOffset_at h₂ (zero_notMem_render _ _ _)).bind fun p₃ h₃ => ?_
    refine (printMemberEnd_ends _ h₃ (by simp only [List.length_append]; omega)).bind
      fun p₄ h₄ => ?_
    exact printMembers_ends rest h₄ (by simp only [List.length_append]; omega)

end

/-! ## The functions that print an item -/

theorem at_start {p : Printbuffer} (hoffset : p.offset = 0) (hfits : p.length ≤ p.buffer.size) :
    At p p.depth [] p where
  depth := rfl
  format := rfl
  noalloc := rfl
  hooks := rfl
  length _ := rfl
  fits := hfits
  limit := le_max_left _ _
  offset := hoffset
  valid := by omega
  written := ⟨p.buffer.bytes, rfl⟩

theorem enough_of_hooks {p : Printbuffer} {total : Nat} (hnoalloc : p.noalloc = false)
    (h : total + 2 ≤ intMax ∧ HasMemory p.hooks) : Enough p total := by
  refine ⟨h.1, ?_⟩
  rw [hnoalloc]
  exact h.2

theorem print_ends (item : Item) (format : Bool) (hooks : Nat → Nat → Bool) :
    Ends ((render format 0 item).length + 2 ≤ intMax ∧ HasMemory hooks)
      (fun printed => printed.bytes = render format 0 item) (print item format hooks) := by
  have hnul := zero_notMem_render format 0 item
  unfold print
  by_cases halloc : hooks 0 256 = true
  · rw [if_pos halloc]
    refine ((printValue_ends item (at_start rfl (Nat.zero_le _)) (Nat.zero_add _).le).weaken
      (enough_of_hooks rfl)).bind fun p h => ?_
    refine (updateOffset_holds h hnul).bind fun p' ⟨_, h'⟩ => ?_
    by_cases hrealloc : hooks p'.calls p'.length = true
    · obtain ⟨free, hfree⟩ := h'.written
      have hroom := h'.room
      obtain ⟨free', hfree'⟩ := @Block.realloc_append ((render format 0 item).map some ++ [some 0])
        free p'.length (by simpa using hroom)
      have hbytes : (Block.realloc (some p'.buffer) p'.length).bytes =
          (render format 0 item).map some ++ some 0 :: free' := by
        rw [List.append_assoc, List.singleton_append] at hfree'
        rw [show p'.buffer = ⟨(render format 0 item).map some ++ some 0 :: free⟩ by
          rw [← List.nil_append (render format 0 item), ← hfree], hfree', List.append_assoc]
        rfl
      rw [if_pos hrealloc, Block.string_zero ⟨_, hnul⟩ hbytes, ends_returned]
    · rw [if_neg hrealloc, ends_raised]
      exact fun hok => hrealloc (hok.2 _ _ (h'.limit.trans (max_le (Nat.zero_le _) le_rfl)))
  · rw [if_neg halloc, ends_raised]
    exact fun h => halloc (h.2 0 256 (by decide))

/-- `snowflake_cJSON_Print` and `snowflake_cJSON_PrintBuffered` stay in their buffer however often
it is reallocated, whether there is memory or not; what they return is the text of the item. They
do not fail if there is memory, and the text is not longer than an `int` can say. -/
theorem print_render (item : Item) (format : Bool) (hooks : Nat → Nat → Bool) {prebuffer : Nat}
    (hprebuffer : prebuffer ≤ intMax) :
    Ends ((render format 0 item).length + 2 ≤ intMax ∧ HasMemory hooks)
      (fun printed => printed.bytes = render format 0 item) (print item format hooks) ∧
    Ends ((render format 0 item).length + 2 ≤ intMax ∧ HasMemory hooks)
      (fun printed => printed.bytes = render format 0 item)
      (printBuffered item prebuffer format hooks) := by
  refine ⟨print_ends item format hooks, ?_⟩
  have hnul := zero_notMem_render format 0 item
  unfold printBuffered
  by_cases halloc : hooks 0 prebuffer = true
  · rw [if_pos halloc]
    refine ((printValue_ends item (at_start rfl (Block.size_realloc _ _).ge)
      (Nat.zero_add _).le).weaken (enough_of_hooks rfl)).bind fun p h => ?_
    obtain ⟨free, hfree⟩ := h.written
    rw [Block.string_zero ⟨_, hnul⟩ hfree, ends_returned]
  · rw [if_neg halloc, ends_raised]
    exact fun h => halloc (h.2 0 _ hprebuffer)

/-- The text `{"a":[true,null]}`. -/
def nestedText : CString :=
  ⟨ascii ['{', '"', 'a', '"', ':', '[', 't', 'r', 'u', 'e', ',', 'n', 'u', 'l', 'l', ']', '}'],
    by decide⟩

def nestedItem : Item := .object [(⟨ascii ['a'], by decide⟩, .array [.bool true, .null])]

/-- A buffer of one byte has to grow for `{"a":[true,null]}`. -/
theorem print_render_nested :
    (∃ printed, print nestedItem false (fun _ _ => true) = .returned printed ∧
      printed.bytes = nestedText.bytes) ∧
    ∃ printed, printBuffered nestedItem 1 false (fun _ _ => true) = .returned printed ∧
      printed.bytes = nestedText.bytes := by
  have hmemory : (render false 0 nestedItem).length + 2 ≤ intMax ∧ HasMemory fun _ _ => true :=
    ⟨by decide, fun _ _ _ => rfl⟩
  obtain ⟨hprint, hbuffered⟩ := print_render nestedItem false (fun _ _ => true)
    (show 1 ≤ intMax by decide)
  exact ⟨hprint.exists_returned hmemory, hbuffered.exists_returned hmemory⟩

/-- `snowflake_cJSON_PrintPreallocated` writes only to the `len` bytes of `buf`. If it returns true
then they begin with the text of the item and a `NUL`, and it does if there are two bytes more than
the text has. -/
theorem printPreallocated_render (item : Item) (buf : Block) (format : Bool)
    (hooks : Nat → Nat → Bool) :
    Ends ((render format 0 item).length + 2 ≤ buf.size ∧ buf.size ≤ intMax)
      (fun buf' => ∃ rest, buf'.bytes = (render format 0 item).map some ++ some 0 :: rest)
      (printPreallocated item buf buf.size format hooks) := by
  unfold printPreallocated
  refine ((printValue_ends item (at_start rfl le_rfl) (Nat.zero_add _).le).weaken ?_).bind
    fun p h => h.written
  exact fun hok => ⟨hok.1.trans hok.2, hok.1⟩

end Snowflake.CJSON
