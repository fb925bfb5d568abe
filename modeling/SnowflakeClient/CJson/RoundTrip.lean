import SnowflakeClient.CJson.Render

/-!
# What is printed can be read back

`value_render`: the text of an item is a JSON text for it, formatted or not, except that a number
that is not finite is printed as `null`. With what the printer writes and what the parser accepts,
this gives `parse_print` for every item that is not nested too deep, and so for every item that was
parsed (`parse_print_of_parse`).
-/

namespace Snowflake.CJSON

open Run CDouble

/-- An item with at most `levels` arrays and objects inside of each other, and no raw text. -/
inductive Printable : (levels : Nat) → Item → Prop where
  | null {levels : Nat} : Printable levels .null
  | bool {levels : Nat} (b : Bool) : Printable levels (.bool b)
  | number {levels : Nat} (d : Binary64) : Printable levels (.number d)
  | string {levels : Nat} (s : CString) : Printable levels (.string s)
  | array {levels : Nat} {items : List Item} (h : ∀ item ∈ items, Printable levels item) :
      Printable (levels + 1) (.array items)
  | object {levels : Nat} {members : List (CString × Item)}
      (h : ∀ member ∈ members, Printable levels member.2) :
      Printable (levels + 1) (.object members)

mutual

/-- The item with `null` for the numbers that are not finite. -/
def Item.normal : Item → Item
  | .number (.finite d) => .number (.finite d)
  | .number _ => .null
  | .array items => .array (normalElements items)
  | .object members => .object (normalMembers members)
  | item => item

def normalElements : List Item → List Item
  | [] => []
  | item :: rest => item.normal :: normalElements rest

def normalMembers : List (CString × Item) → List (CString × Item)
  | [] => []
  | (name, item) :: rest => (name, item.normal) :: normalMembers rest

end

/-! ## Strings and numbers -/

theorem utf8EncodeChar_ofUInt8 {b : UInt8} (h : b < 32) :
    String.utf8EncodeChar (Char.ofUInt8 b) = [b] := by
  have hb : b.toNat < 32 := UInt8.lt_iff_toNat_lt.mp h
  have hval : (Char.ofUInt8 b).val.toNat = b.toNat := rfl
  unfold String.utf8EncodeChar
  dsimp only
  rw [hval, if_pos (show b.toNat ≤ 0x7f by omega)]
  exact congrArg (fun b => [b]) (UInt8.ofNat_toNat)

theorem hex4_unicodeEscape (b : UInt8) : Hex4
    ([0, 0, b.toNat / 16, b.toNat % 16].map fun d => (Nat.digitChar d).toUInt8) b.toNat := by
  have hb := b.toNat_lt
  have hdigits := Hex4.digits (hexDigit_digitChar (show 0 < 16 by decide))
    (hexDigit_digitChar (show 0 < 16 by decide))
    (hexDigit_digitChar (show b.toNat / 16 < 16 by omega))
    (hexDigit_digitChar (show b.toNat % 16 < 16 by omega))
  have hvalue : ((0 * 16 + 0) * 16 + b.toNat / 16) * 16 + b.toNat % 16 = b.toNat := by omega
  rw [hvalue] at hdigits
  exact hdigits

theorem chars_escape {b : UInt8} {text bytes : List UInt8} (h : Chars text bytes) :
    Chars (escape b ++ text) (b :: bytes) := by
  rcases escape_cases b with
    ⟨⟨hgt, hquote, hback⟩, hb, -⟩ | ⟨-, ⟨e, hshort, hb, -⟩ | ⟨-, hlt, hb, -⟩⟩
  · rw [hb]
    exact .plain (UInt8.le_iff_toNat_le.mpr (UInt8.lt_iff_toNat_lt.mp hgt)) hquote hback h
  · rw [hb]
    exact .escape (mem_escapes_of_shortEscape hshort) h
  · have hchars := Chars.unicode (Char.ofUInt8 b) (hex4_unicodeEscape b) h
    rw [utf8EncodeChar_ofUInt8 hlt] at hchars
    rw [hb]
    exact hchars

theorem chars_flatMap_escape (bytes : List UInt8) : Chars (bytes.flatMap escape) bytes := by
  induction bytes with
  | nil => exact .nil
  | cons b bytes ih => exact chars_escape ih

theorem layout_int (n : Nat) (sign : CNumeral.Sign) (d : Nat) (e : Int) :
    (layout n sign d e).int.chars ≠ [] := by
  have hafter : ∀ (digits : Decimal.Numeral) (k : Nat) (e : Option Exponent),
      (pointAfter sign digits k e).int.chars ≠ [] := by
    intro digits k e h
    exact digits.nonempty ((List.take_eq_nil_iff.mp h).resolve_left (Nat.succ_ne_zero k))
  unfold layout
  split_ifs
  · exact hafter _ _ _
  · exact List.cons_ne_nil _ _
  · exact hafter _ _ _

theorem isNumber_general {n : Nat} (hn : 0 < n) (hn' : n ≤ 17) (x : Binary64.Finite) :
    IsNumber (general n x) where
  sign := by
    rw [general, layout_sign]
    cases x.neg <;> decide
  int := layout_int _ _ _ _
  length := by
    have hlen := length_general hn x
    omega

/-- The fifteen digits are printed only if they are read back. -/
theorem exists_literal (x : Binary64.Finite) : ∃ l : Literal, numberText (.finite x) = l.text ∧
    IsNumber l ∧ Binary64.ofRat l.negative l.abs = .finite x := by
  unfold numberText
  dsimp only
  by_cases hread : ((strtod (general 15 x).text).any fun test => test.1.equal (.finite x)) = true
  · rw [if_pos hread]
    refine ⟨_, rfl, isNumber_general (by norm_num) (by norm_num) x, ?_⟩
    rw [strtod_text, Option.any_some, general_negative] at hread
    rw [general_negative]
    exact Binary64.ofRat_of_equal hread
  · rw [if_neg hread]
    refine ⟨_, rfl, isNumber_general (by norm_num) le_rfl x, ?_⟩
    have hlong := strtod_general x
    rw [strtod_text] at hlong
    exact (Prod.mk.inj (Option.some.inj hlong)).1

theorem scalar_numberText (x : Binary64.Finite) :
    Scalar (ascii (numberText (.finite x))) (.number (.finite x)) := by
  obtain ⟨l, htext, hnumber, hvalue⟩ := exists_literal x
  rw [htext, ← hvalue]
  exact .number hnumber

/-! ## Arrays and objects -/

section Nested

variable {V : List UInt8 → Item → Prop} {format : Bool} {depth : Nat}

theorem elements_render {before : List UInt8} (hbefore : Blank before) {items : List Item}
    (hne : items ≠ []) (h : ∀ item ∈ items, V (render format depth item) item.normal) :
    Elements V (before ++ renderElements format depth items) (normalElements items) := by
  induction items generalizing before with
  | nil => exact absurd rfl hne
  | cons item rest ih =>
    have hitem := h item List.mem_cons_self
    rw [renderElements, normalElements]
    cases rest with
    | nil =>
      have helements := Elements.one hbefore hitem blank_nil
      rw [renderElements, normalElements]
      simpa using helements
    | cons next rest =>
      have hspace : Blank (if format then [' '.toUInt8] else []) := by
        cases format <;> simp [Blank]
      have hrest := ih hspace (List.cons_ne_nil _ _) fun i hi => h i (List.mem_cons_of_mem _ hi)
      have helements := Elements.cons hbefore hitem blank_nil hrest
      simpa [separator] using helements

theorem blank_append {a b : List UInt8} (ha : Blank a) (hb : Blank b) : Blank (a ++ b) :=
  fun c hc => (List.mem_append.mp hc).elim (ha c) (hb c)

theorem blank_tabs (n : Nat) : Blank (tabs n) := by
  intro b hb
  rw [List.eq_of_mem_replicate hb]
  simp

/-- White space that is printed only in a formatted text. -/
theorem blank_if (format : Bool) {text : List UInt8} (h : Blank text) :
    Blank (if format then text else []) := by
  cases format
  · exact blank_nil
  · exact h

theorem blank_newline : Blank ['\n'.toUInt8] := by simp [Blank]

theorem blank_tab : Blank ['\t'.toUInt8] := by simp [Blank]

theorem members_render {before after : List UInt8} (hbefore : Blank before) (hafter : Blank after)
    {members : List (CString × Item)} (hne : members ≠ [])
    (h : ∀ member ∈ members, V (render format depth member.2) member.2.normal) :
    Members V (before ++ (renderMembers format depth members ++ after))
      (normalMembers members) := by
  induction members generalizing before with
  | nil => exact absurd rfl hne
  | cons member rest ih =>
    obtain ⟨name, item⟩ := member
    have hitem : V (render format depth item) item.normal := h (name, item) List.mem_cons_self
    have hname := Name.mk (blank_append hbefore (blank_if format (blank_tabs depth)))
      (chars_flatMap_escape name.bytes) blank_nil
    have hnewline : Blank (if format then ['\n'.toUInt8] else []) := blank_if format blank_newline
    have htab : Blank (if format then ['\t'.toUInt8] else []) := blank_if format blank_tab
    rw [renderMembers, normalMembers]
    cases rest with
    | nil =>
      have hmembers := Members.one hname htab hitem (blank_append hnewline hafter)
      rw [renderMembers, normalMembers]
      simpa [colon, memberEnd, quoted, stringText] using hmembers
    | cons next rest =>
      have hrest := ih hnewline (List.cons_ne_nil _ _) fun m hm => h m (List.mem_cons_of_mem _ hm)
      have hmembers := Members.cons hname htab hitem blank_nil hrest
      simpa [colon, memberEnd, quoted, stringText] using hmembers

end Nested

theorem value_scalar {levels : Nat} {text : List UInt8} {item : Item} (h : Scalar text item) :
    Value levels text item := by
  cases levels with
  | zero => exact h
  | succ levels => exact .inl h

theorem value_render {levels : Nat} {item : Item} (h : Printable levels item) (format : Bool)
    (depth : Nat) : Value levels (render format depth item) item.normal := by
  induction h generalizing depth with
  | null => exact value_scalar .null
  | bool b => cases b <;> exact value_scalar (by constructor)
  | number d =>
    cases d with
    | finite d => exact value_scalar (scalar_numberText d)
    | inf neg => exact value_scalar .null
    | nan => exact value_scalar .null
  | string s => exact value_scalar (.string (chars_flatMap_escape s.bytes))
  | @array levels items _ ih =>
    right
    rw [render, Item.normal]
    by_cases hne : items = []
    · rw [hne]
      exact .emptyArray blank_nil
    · exact .array (elements_render blank_nil hne fun item hitem => ih item hitem (depth + 1))
  | @object levels members _ ih =>
    right
    have hopen : Blank (if format then ['\n'.toUInt8] else []) := blank_if format blank_newline
    have hclose : Blank (if format then tabs (depth + 1 - 1) else []) :=
      blank_if format (blank_tabs _)
    rw [render, Item.normal]
    by_cases hne : members = []
    · have hempty := @Nested.emptyObject (Value levels) _ (blank_append hopen hclose)
      rw [hne, renderMembers]
      simpa [opening, closing, normalMembers] using hempty
    · have hmembers := members_render hopen hclose hne fun member hmember =>
        ih member hmember (depth + 1)
      simpa [opening, closing] using Nested.object hmembers

/-! ## Round trips -/

theorem jsonText_render {levels : Nat} {item : Item} (h : Printable levels item) (format : Bool) :
    JsonText levels (render format 0 item) item.normal :=
  ⟨[], _, [], by rw [List.nil_append, List.append_nil], blank_nil, blank_nil,
    value_render h format 0⟩

/-- Whatever is printed is parsed to the item again, with `null` for the numbers that are not
finite; it is printed if there is memory, and parsed if no allocation fails. -/
theorem parse_print {item : Item} (h : Printable nestingLimit item) (format : Bool)
    (hooks : Nat → Nat → Bool) (requireNullTerminated : Bool) (parserHooks : Allocation → Bool) :
    Ends ((render format 0 item).length + 2 ≤ intMax ∧ HasMemory hooks)
      (fun printed => Ends (∀ call, parserHooks call = true) (fun r => r.1 = item.normal)
        (parseWithOpts printed requireNullTerminated parserHooks))
      (print item format hooks) := by
  refine (print_ends item format hooks).imp fun printed hprinted => ?_
  have htext := jsonText_render h format
  rw [← hprinted] at htext
  obtain ⟨parseEnd, hroot⟩ := parseRoot_eq htext requireNullTerminated
  exact parseWithOpts_ends hroot rfl

theorem nestedItem_printable : Printable nestingLimit nestedItem := by
  have hitems : ∀ item ∈ [Item.bool true, .null], Printable 998 item :=
    List.forall_mem_cons.mpr ⟨.bool true, List.forall_mem_singleton.mpr .null⟩
  exact .object (List.forall_mem_singleton.mpr (.array hitems))

/-- The formatted text of `{"a":[true,null]}`. -/
theorem parse_print_nested :
    ∃ printed, print nestedItem true (fun _ _ => true) = .returned printed ∧
      ∃ parseEnd, parseWithOpts printed true allocated = .returned (nestedItem, parseEnd) := by
  have hprint := parse_print nestedItem_printable true (fun _ _ => true) true allocated
  obtain ⟨printed, hprinted, hends⟩ :=
    hprint.exists_returned ⟨by decide, fun _ _ _ => rfl⟩
  obtain ⟨r, hrun, hitem⟩ := hends.exists_returned fun _ => rfl
  refine ⟨printed, hprinted, r.2, hrun.trans ?_⟩
  rw [show nestedItem = r.1 from hitem.symm]

/-! ## What the parser builds -/

/-- Every item that is returned has the property. -/
def Yields (P : Item → Prop) (value : Nat → Run Nat (Item × Nat)) : Prop :=
  ∀ offset item next, value offset = .returned (item, next) → P item

section Yields

variable {content : List UInt8} {hooks : Allocation → Bool} {P : Item → Prop}
  {value : Nat → Run Nat (Item × Nat)}

theorem parseElements_yields (hvalue : Yields P value) {fuel offset next : Nat} {items : List Item}
    (h : parseElements content hooks value fuel offset = .returned (items, next)) :
    ∀ item ∈ items, P item := by
  induction fuel generalizing offset next items with
  | zero => cases h
  | succ fuel ih =>
    rw [parseElements, bind_eq_returned] at h
    obtain ⟨-, -, h⟩ := h
    rw [bind_eq_returned] at h
    obtain ⟨⟨item, after⟩, hitem, h⟩ := h
    have hP := hvalue _ _ _ hitem
    dsimp only at h
    by_cases hcomma : content[bufferSkipWhitespace content after]? = some ','.toUInt8
    · rw [if_pos hcomma, bind_eq_returned] at h
      obtain ⟨⟨rest, after'⟩, hrest, h⟩ := h
      cases h
      exact List.forall_mem_cons.mpr ⟨hP, ih hrest⟩
    · rw [if_neg hcomma] at h
      cases h
      exact List.forall_mem_singleton.mpr hP

theorem parseMembers_yields (hvalue : Yields P value) {fuel offset next : Nat}
    {members : List (CString × Item)}
    (h : parseMembers content hooks value fuel offset = .returned (members, next)) :
    ∀ member ∈ members, P member.2 := by
  induction fuel generalizing offset next members with
  | zero => cases h
  | succ fuel ih =>
    rw [parseMembers, bind_eq_returned] at h
    obtain ⟨-, -, h⟩ := h
    rw [bind_eq_returned] at h
    obtain ⟨⟨name, colon⟩, -, h⟩ := h
    rw [bind_eq_returned] at h
    obtain ⟨⟨item, after⟩, hitem, h⟩ := h
    have hP := hvalue _ _ _ hitem
    dsimp only at h
    by_cases hcomma : content[bufferSkipWhitespace content after]? = some ','.toUInt8
    · rw [if_pos hcomma, bind_eq_returned] at h
      obtain ⟨⟨rest, after'⟩, hrest, h⟩ := h
      cases h
      exact List.forall_mem_cons.mpr ⟨hP, ih hrest⟩
    · rw [if_neg hcomma] at h
      cases h
      exact List.forall_mem_singleton.mpr hP

theorem parseArray_yields (hvalue : Yields P value) {offset next : Nat} {item : Item}
    (h : parseArray content hooks (some value) offset = .returned (item, next)) :
    ∃ items, item = .array items ∧ ∀ i ∈ items, P i := by
  rw [parseArray, bind_eq_returned] at h
  obtain ⟨c, -, h⟩ := h
  dsimp only at h
  split_ifs at h with hc hclose hend
  · cases h
    exact ⟨[], rfl, List.forall_mem_nil _⟩
  · rw [bind_eq_returned] at h
    obtain ⟨⟨items, after⟩, hitems, h⟩ := h
    dsimp only at h
    split_ifs at h
    cases h
    exact ⟨items, rfl, parseElements_yields hvalue hitems⟩

theorem parseObject_yields (hvalue : Yields P value) {offset next : Nat} {item : Item}
    (h : parseObject content hooks (some value) offset = .returned (item, next)) :
    ∃ members, item = .object members ∧ ∀ m ∈ members, P m.2 := by
  rw [parseObject] at h
  dsimp only at h
  split_ifs at h with hc hclose hend
  · cases h
    exact ⟨[], rfl, List.forall_mem_nil _⟩
  · rw [bind_eq_returned] at h
    obtain ⟨⟨members, after⟩, hmembers, h⟩ := h
    dsimp only at h
    split_ifs at h
    cases h
    exact ⟨members, rfl, parseMembers_yields hvalue hmembers⟩

theorem parseNumber_yields {offset next : Nat} {item : Item}
    (h : parseNumber content offset = .returned (item, next)) : ∃ d, item = .number d := by
  unfold parseNumber at h
  dsimp only at h
  split at h
  · cases h
  · cases h
    exact ⟨_, rfl⟩

/-- A value is no array or object, or one of values that are one level deeper. -/
theorem parseValueWith_yields {Q : Item → Prop} {value : Option (Nat → Run Nat (Item × Nat))}
    (hscalar : Q .null ∧ (∀ b, Q (.bool b)) ∧ (∀ d, Q (.number d)) ∧ ∀ s, Q (.string s))
    (harray : ∀ offset item next,
      parseArray content hooks value offset = .returned (item, next) → Q item)
    (hobject : ∀ offset item next,
      parseObject content hooks value offset = .returned (item, next) → Q item) :
    Yields Q (parseValueWith content hooks value) := by
  obtain ⟨hnull, hbool, hnumber, hstring⟩ := hscalar
  intro offset item next h
  unfold parseValueWith at h
  split_ifs at h
  · cases h
    exact hnull
  · cases h
    exact hbool false
  · cases h
    exact hbool true
  · cases hbyte : content[offset]? with
    | none =>
      rw [hbyte] at h
      cases h
    | some c =>
      rw [hbyte] at h
      dsimp only at h
      unfold parseOther at h
      split_ifs at h
      · obtain ⟨⟨s, after⟩, -, h⟩ := bind_eq_returned.mp h
        cases h
        exact hstring s
      · obtain ⟨d, rfl⟩ := parseNumber_yields h
        exact hnumber d
      · exact harray _ _ _ h
      · exact hobject _ _ _ h

end Yields

theorem parseValue_printable (content : List UInt8) (hooks : Allocation → Bool) (levels : Nat) :
    Yields (Printable levels) (parseValue content hooks levels) := by
  have hscalar : ∀ levels, Printable levels .null ∧ (∀ b, Printable levels (.bool b)) ∧
      (∀ d, Printable levels (.number d)) ∧ ∀ s, Printable levels (.string s) :=
    fun levels => ⟨.null, .bool, .number, .string⟩
  induction levels with
  | zero =>
    refine parseValueWith_yields (hscalar 0) ?_ ?_
    · intro offset item next h
      cases h
    · intro offset item next h
      cases h
  | succ levels ih =>
    refine parseValueWith_yields (hscalar (levels + 1)) ?_ ?_
    · intro offset item next h
      obtain ⟨items, rfl, hitems⟩ := parseArray_yields ih h
      exact .array hitems
    · intro offset item next h
      obtain ⟨members, rfl, hmembers⟩ := parseObject_yields ih h
      exact .object hmembers

theorem parseWithOpts_printable {text : CString} {requireNullTerminated : Bool}
    {hooks : Allocation → Bool} {item : Item} {parseEnd : Nat}
    (h : parseWithOpts text requireNullTerminated hooks = .returned (item, parseEnd)) :
    Printable nestingLimit item := by
  unfold parseWithOpts at h
  dsimp only at h
  cases hroot : parseRoot (text.bytes ++ [0]) hooks requireNullTerminated with
  | outside | raised e =>
    rw [hroot] at h
    cases h
  | returned r =>
    obtain ⟨item', parseEnd'⟩ := r
    rw [hroot] at h
    cases h
    rw [parseRoot, bind_eq_returned] at hroot
    obtain ⟨-, -, hroot⟩ := hroot
    obtain ⟨⟨value, offset⟩, hvalue, hroot⟩ := bind_eq_returned.mp hroot
    obtain ⟨_, -, hroot⟩ := bind_eq_returned.mp hroot
    cases hroot
    exact parseValue_printable _ _ _ _ _ _ hvalue

mutual

/-- The numbers that are not finite have the text of `null`. -/
theorem render_normal (format : Bool) : (depth : Nat) → (item : Item) →
    render format depth item.normal = render format depth item
  | _, .null => rfl
  | _, .bool _ => rfl
  | _, .number (.finite _) => rfl
  | _, .number (.inf _) => rfl
  | _, .number .nan => rfl
  | _, .string _ => rfl
  | _, .raw _ => rfl
  | depth, .array items => by
    rw [Item.normal, render, render, renderElements_normal format (depth + 1) items]
  | depth, .object members => by
    rw [Item.normal, render, render, renderMembers_normal format (depth + 1) members]

theorem renderElements_normal (format : Bool) (depth : Nat) : (items : List Item) →
    renderElements format depth (normalElements items) = renderElements format depth items
  | [] => rfl
  | item :: rest => by
    have hempty : (normalElements rest).isEmpty = rest.isEmpty := by cases rest <;> rfl
    rw [normalElements, renderElements, renderElements, render_normal format depth item, hempty,
      renderElements_normal format depth rest]

theorem renderMembers_normal (format : Bool) (depth : Nat) : (members : List (CString × Item)) →
    renderMembers format depth (normalMembers members) = renderMembers format depth members
  | [] => rfl
  | (name, item) :: rest => by
    have hempty : (normalMembers rest).isEmpty = rest.isEmpty := by
      rcases rest with - | ⟨⟨_, _⟩, _⟩ <;> rfl
    rw [normalMembers, renderMembers, renderMembers, render_normal format depth item, hempty,
      renderMembers_normal format depth rest]

end

/-- Whatever the parser builds can be printed, and what is printed can be parsed; to print that
again changes nothing any more. -/
theorem print_of_parse {text : CString} {requireNullTerminated : Bool}
    {parserHooks : Allocation → Bool} {item : Item} {parseEnd : Nat}
    (h : parseWithOpts text requireNullTerminated parserHooks = .returned (item, parseEnd))
    (format : Bool) (hooks hooks' : Nat → Nat → Bool) (parserHooks' : Allocation → Bool) :
    Ends ((render format 0 item).length + 2 ≤ intMax ∧ HasMemory hooks)
      (fun printed => Ends (∀ call, parserHooks' call = true)
        (fun r => Ends ((render format 0 item).length + 2 ≤ intMax ∧ HasMemory hooks')
          (fun printed' => printed' = printed) (print r.1 format hooks'))
        (parseWithOpts printed true parserHooks'))
      (print item format hooks) := by
  refine (print_ends item format hooks).imp fun printed hprinted => ?_
  have htext := jsonText_render (parseWithOpts_printable h) format
  rw [← hprinted] at htext
  obtain ⟨parseEnd', hroot⟩ := parseRoot_eq htext true
  have hagain := print_ends item.normal format hooks'
  rw [render_normal] at hagain
  exact parseWithOpts_ends hroot
    (hagain.imp fun printed' h' => CString.ext_bytes (h'.trans hprinted.symm))

/-- The text `{"a":[true,null]}`, formatted and parsed again. -/
theorem print_of_parse_nested :
    (∃ parseEnd, parseWithOpts nestedText true allocated = .returned (nestedItem, parseEnd)) ∧
    ∃ printed, print nestedItem true (fun _ _ => true) = .returned printed ∧
      ∃ item' parseEnd', parseWithOpts printed true allocated = .returned (item', parseEnd') ∧
        print item' true (fun _ _ => true) = .returned printed := by
  obtain ⟨parseEnd, hroot⟩ := parseRoot_eq (jsonText_render nestedItem_printable false) true
  have hparse : parseWithOpts nestedText true allocated = .returned (nestedItem, parseEnd) := by
    unfold parseWithOpts
    dsimp only
    rw [show nestedText.bytes = render false 0 nestedItem from rfl, hroot]
    rfl
  have hmemory : (render true 0 nestedItem).length + 2 ≤ intMax ∧ HasMemory fun _ _ => true :=
    ⟨by decide, fun _ _ _ => rfl⟩
  obtain ⟨printed, hprinted, hends⟩ := (print_of_parse hparse true (fun _ _ => true)
    (fun _ _ => true) allocated).exists_returned hmemory
  obtain ⟨⟨item', parseEnd'⟩, hrun, hagain⟩ := hends.exists_returned fun _ => rfl
  obtain ⟨printed', hprinted', rfl⟩ := hagain.exists_returned hmemory
  exact ⟨⟨parseEnd, hparse⟩, printed', hprinted, item', parseEnd', hrun, hprinted'⟩

end Snowflake.CJSON
