import SnowflakeClient.Connection.EncodeUrl

/-!
# The request id of a URL

The loop of `http_perform` (`lib/connection.c`) puts a new request id into the URL in every round,
in place: at the first `request_guid=` of the URL, which it looks for once. `encode_url` has put a
blank one there. The ids are those of `uuid4_generate_non_terminated` (`lib/uuid4.c`).

`guid_refreshed`: the rounds change the characters of the request id and nothing else, whatever the
values of the parameters are. They are escaped, and an escaped text has no `=` in it and has a `&`
after it, so no `request_guid=` begins or ends in one.
-/

namespace Snowflake
namespace Url

/-! ## The loop -/

/-- What `uuid4_generate_non_terminated` writes. -/
structure Guid where
  chars : List Char
  length : chars.length = 36
  noNul : '\x00' ∉ chars

def guidKey : List Char := "request_guid=".toList

/-- `REQUEST_GUID_KEY_SIZE`. -/
def requestGuidKeySize : Nat := 13

/-- `request_guid_ptr`, as an offset in the URL. -/
def requestGuidPtr (url : List Char) : Option Nat :=
  (CText.strstr guidKey url).map (· + requestGuidKeySize)

/-- The URL after the beginning of a round. -/
def refreshGuid (size : Nat) (ptr : Option Nat) (url : List Char) (guid : Guid) :
    Run Empty (List Char) :=
  match ptr with
  | none => .returned url
  | some off => CText.overwrite size url off guid.chars

/-- The URLs of the rounds, in a buffer of `size` bytes. There may be any number of rounds; one
whose request id cannot be generated ends the loop. -/
def refreshGuids (size : Nat) (ptr : Option Nat) :
    (url : List Char) → List Guid → Run Empty (List (List Char))
  | _, [] => .returned []
  | url, guid :: guids => do
    let url ← refreshGuid size ptr url guid
    let urls ← refreshGuids size ptr url guids
    .returned (url :: urls)

/-! ### `uuid4` -/

/-- `chars`. -/
def uuid4Char (n : Fin 16) : Char := "0123456789abcdef".toList.getD n '0'

/-- The loop over the template; `nibble` are the random numbers. -/
def uuid4Fill (nibble : Nat → Fin 16) : (i : Nat) → (template : List Char) → List Char
  | _, [] => []
  | i, p :: template =>
    if p = 'x' then uuid4Char (nibble i) :: uuid4Fill nibble (i + 1) template
    else if p = 'y' then
      uuid4Char (Fin.ofNat 16 ((nibble i).val % 4 + 8)) :: uuid4Fill nibble (i + 1) template
    else p :: uuid4Fill nibble i template

theorem length_uuid4Fill (nibble : Nat → Fin 16) (i : Nat) (template : List Char) :
    (uuid4Fill nibble i template).length = template.length := by
  induction template generalizing i with
  | nil => rfl
  | cons p template ih =>
    unfold uuid4Fill
    split_ifs <;> simp [ih]

theorem uuid4Char_ne_nul (n : Fin 16) : uuid4Char n ≠ '\x00' := by
  revert n
  decide

theorem nul_notMem_uuid4Fill (nibble : Nat → Fin 16) (i : Nat) {template : List Char}
    (h : '\x00' ∉ template) : '\x00' ∉ uuid4Fill nibble i template := by
  induction template generalizing i with
  | nil => exact h
  | cons p template ih =>
    rw [List.mem_cons, not_or] at h
    unfold uuid4Fill
    split_ifs
    · exact List.not_mem_cons_of_ne_of_not_mem (uuid4Char_ne_nul _).symm (ih _ h.2)
    · exact List.not_mem_cons_of_ne_of_not_mem (uuid4Char_ne_nul _).symm (ih _ h.2)
    · exact List.not_mem_cons_of_ne_of_not_mem h.1 (ih _ h.2)

/-- `uuid4_generate_non_terminated`. -/
def uuid4 (nibble : Nat → Fin 16) : Guid where
  chars := uuid4Fill nibble 0 "xxxxxxxx-xxxx-4xxx-yxxx-xxxxxxxxxxxx".toList
  length := length_uuid4Fill ..
  noNul := nul_notMem_uuid4Fill _ _ (by decide)

/-! ## Where the request id is -/

/-- The URL before the request id. -/
def beforeGuid (base : List Char) (vars : List UrlKeyValue) : List Char :=
  base ++ '?' :: vars.flatMap paramText

/-- The text of a parameter, each character with whether it is outside of the escaped value. -/
def markedParam (v : UrlKeyValue) : List (Char × Bool) :=
  v.formattedKey.map (·, true) ++ v.formattedValue.map (·, false) ++ [('&', true)]

/-- The URL before the request id, each character with whether it is outside of the escaped
values. -/
def markedBefore (base : List Char) (vars : List UrlKeyValue) : List (Char × Bool) :=
  base.map (·, true) ++ [('?', true)] ++ vars.flatMap markedParam

/-- The URL before the request id has a `request_guid=` outside of the escaped values. -/
def NamesGuid (base : List Char) (vars : List UrlKeyValue) : Prop :=
  guidKey.map (·, true) <:+: markedBefore base vars

theorem map_fst_markedBefore (base : List Char) (vars : List UrlKeyValue) :
    (markedBefore base vars).map Prod.fst = beforeGuid base vars := by
  have hparams : (vars.flatMap markedParam).map Prod.fst = vars.flatMap paramText := by
    rw [List.map_flatMap]
    apply List.flatMap_congr
    intro v _
    simp [markedParam, paramText, Function.comp_def]
  simp [markedBefore, beforeGuid, hparams, Function.comp_def]

/-- An escaped character is followed by another one or by `&`. -/
def GoesOn (x y : Char × Bool) : Prop := x.2 = false → y.2 = false ∨ y.1 = '&'

/-- Escaped texts end before the end of the text. -/
def Closed (text : List (Char × Bool)) : Prop :=
  text.IsChain GoesOn ∧ ∀ x ∈ text.getLast?, x.2 = true

theorem Closed.append {text text' : List (Char × Bool)} (h : Closed text) (h' : Closed text') :
    Closed (text ++ text') := by
  refine ⟨List.isChain_append.2 ⟨h.1, h'.1, fun x hx y _ hfalse => ?_⟩, fun x hx => ?_⟩
  · rw [h.2 x hx] at hfalse
    cases hfalse
  · rw [List.getLast?_append] at hx
    cases hlast : text'.getLast? with
    | none =>
      rw [hlast, Option.none_or] at hx
      exact h.2 x hx
    | some y =>
      rw [hlast, Option.some_or] at hx
      cases hx
      exact h'.2 x hlast

/-- A text outside of the escaped values. -/
theorem isChain_plain (text : List Char) : (text.map (·, true)).IsChain GoesOn := by
  rw [List.isChain_map]
  induction text with
  | nil => exact .nil
  | cons c text ih =>
    cases text with
    | nil => exact .singleton c
    | cons d text => exact .cons_cons (fun h => by cases h) ih

theorem isChain_escaped (text : List Char) :
    (text.map (·, false) ++ [('&', true)]).IsChain GoesOn := by
  induction text with
  | nil => exact .singleton _
  | cons c text ih =>
    cases text with
    | nil => exact .cons_cons (fun _ => .inr rfl) ih
    | cons d text => exact .cons_cons (fun _ => .inl rfl) ih

theorem closed_markedParam (v : UrlKeyValue) : Closed (markedParam v) := by
  unfold markedParam
  rw [List.append_assoc]
  refine ⟨List.isChain_append.2 ⟨isChain_plain _, isChain_escaped _, fun x hx y _ hfalse => ?_⟩, ?_⟩
  · obtain ⟨c, -, rfl⟩ := List.mem_map.1 (List.mem_of_getLast? hx)
    cases hfalse
  · intro x hx
    simp only [← List.append_assoc, List.getLast?_concat, Option.mem_some_iff] at hx
    rw [← hx]

theorem closed_markedBefore (base : List Char) (vars : List UrlKeyValue) :
    Closed (markedBefore base vars) := by
  have hbase : Closed (base.map (·, true) ++ [('?', true)]) := by
    refine ⟨?_, fun x hx => ?_⟩
    · have hplain := isChain_plain (base ++ ['?'])
      rwa [List.map_append] at hplain
    · rw [List.getLast?_concat] at hx
      cases hx
      rfl
  have hparams : Closed (vars.flatMap markedParam) := by
    induction vars with
    | nil => exact ⟨.nil, fun x hx => by cases hx⟩
    | cons v vars ih =>
      rw [List.flatMap_cons]
      exact (closed_markedParam v).append ih
  exact hbase.append hparams

/-- A part without `&` that ends outside of the escaped values is outside of them. -/
theorem all_plain {text : List (Char × Bool)} (hchain : text.IsChain GoesOn)
    (hamp : ∀ x ∈ text, x.1 ≠ '&') (hlast : ∀ x ∈ text.getLast?, x.2 = true) :
    ∀ x ∈ text, x.2 = true := by
  induction hchain with
  | nil => simp
  | singleton x =>
    intro y hy
    exact hlast y (by simpa using (List.mem_singleton.1 hy).symm)
  | @cons_cons x y text hgoes _ ih =>
    rw [List.getLast?_cons_cons] at hlast
    have hrest := ih (fun z hz => hamp z (List.mem_cons_of_mem _ hz)) hlast
    intro z hz
    rcases List.mem_cons.1 hz with rfl | hz
    · by_contra hfalse
      rcases hgoes (by simpa using hfalse) with hy | hy
      · rw [hrest y List.mem_cons_self] at hy
        cases hy
      · exact hamp y (by simp) hy
    · exact hrest z hz

/-- There is no `=` in an escaped value. -/
theorem eq_notMem_escaped {base : List Char} {vars : List UrlKeyValue} :
    ('=', false) ∉ markedBefore base vars := by
  intro h
  simp only [markedBefore, List.mem_append, List.mem_map, List.mem_flatMap, List.mem_singleton,
    Prod.mk.injEq, Bool.true_eq_false, and_false, exists_false, Bool.false_eq_true, or_false,
    false_or, markedParam] at h
  obtain ⟨v, -, c, hc, rfl, -⟩ := h
  unfold UrlKeyValue.formattedValue at hc
  split_ifs at hc
  · cases hc
  · rcases mem_curlEasyEscape hc with h | h
    · exact absurd h (by decide)
    · exact absurd h (by decide)

/-- A `request_guid=` before the request id is outside of the escaped values. -/
theorem namesGuid_of_occurs {base : List Char} {vars : List UrlKeyValue}
    (h : guidKey <:+: beforeGuid base vars) : NamesGuid base vars := by
  rw [← map_fst_markedBefore] at h
  obtain ⟨a, b, hab⟩ := h
  obtain ⟨front, rest, hsplit, hfront, hrest⟩ := List.map_eq_append_iff.1 hab.symm
  obtain ⟨a', key, rfl, rfl, hkey⟩ := List.map_eq_append_iff.1 hfront
  have hocc : key <:+: markedBefore base vars := ⟨a', rest, hsplit.symm⟩
  have hamp : ∀ x ∈ key, x.1 ≠ '&' := by
    intro x hx heq
    have hmem : x.1 ∈ guidKey := hkey ▸ List.mem_map_of_mem hx
    rw [heq] at hmem
    exact absurd hmem (by decide)
  have hlast : ∀ x ∈ key.getLast?, x.2 = true := by
    intro x hx
    have heq : x.1 = '=' := by
      have hlast := congrArg List.getLast? hkey
      rw [List.getLast?_map, Option.mem_def.1 hx] at hlast
      exact Option.some.inj hlast
    by_contra hfalse
    have hmem := hocc.subset (List.mem_of_getLast? hx)
    have hx : x = ('=', false) := Prod.ext heq (by simpa using hfalse)
    rw [hx] at hmem
    exact eq_notMem_escaped hmem
  have hchain := List.IsChain.infix (closed_markedBefore base vars).1 hocc
  have hplain := all_plain hchain hamp hlast
  have hmarked : guidKey.map (·, true) = key := by
    rw [← hkey, List.map_map]
    conv_rhs => rw [← List.map_id key]
    apply List.map_congr_left
    intro x hx
    exact Prod.ext rfl (hplain x hx).symm
  unfold NamesGuid
  rwa [hmarked]

theorem requestGuidPtr_eq {base : List Char} {vars : List UrlKeyValue}
    (h : ¬ NamesGuid base vars) (rest : List Char) :
    requestGuidPtr (beforeGuid base vars ++ (guidKey ++ rest)) =
      some (beforeGuid base vars ++ guidKey).length := by
  -- the text before the request id ends with `?` or `&`
  have hend : ∀ c ∈ (beforeGuid base vars).getLast?, c = '?' ∨ c = '&' := by
    intro c hc
    rcases List.eq_nil_or_concat vars with rfl | ⟨front, v, rfl⟩
    · left
      simpa [beforeGuid] using hc.symm
    · right
      simp only [beforeGuid, paramText, List.concat_eq_append, List.flatMap_append,
        List.flatMap_cons, List.flatMap_nil, List.append_nil, ← List.append_assoc,
        ← List.cons_append, List.getLast?_concat, Option.mem_some_iff] at hc
      exact hc.symm
  have hlast : ∀ c ∈ (beforeGuid base vars).getLast?, c ∉ guidKey := by
    intro c hc
    rcases hend c hc with rfl | rfl
    · decide
    · decide
  unfold requestGuidPtr
  rw [CText.strstr_append (fun hocc => h (namesGuid_of_occurs hocc)) hlast,
    List.length_append]
  rfl

/-! ## The rounds -/

/-- The URLs agree everywhere but in the 36 characters from `start` on. -/
def DiffersInGuid (start : Nat) (url url' : List Char) : Prop :=
  url'.length = url.length ∧ ∀ i, i < start ∨ start + 36 ≤ i → url'[i]? = url[i]?

theorem differsInGuid_mid {a b b' c : List Char} (hb : b.length = 36) (hb' : b'.length = 36) :
    DiffersInGuid a.length (a ++ b ++ c) (a ++ b' ++ c) := by
  refine ⟨by simp [hb, hb'], fun i hi => ?_⟩
  rcases hi with hi | hi
  · rw [List.append_assoc, List.append_assoc, List.getElem?_append_left hi,
      List.getElem?_append_left hi]
  · rw [List.getElem?_append_right (by simp [hb']; omega),
      List.getElem?_append_right (by simp [hb]; omega)]
    simp [hb, hb']

/-- From the URL `a ++ b ++ c` with the request id `b`, every round has the URL with its own. -/
theorem refreshGuids_eq {size : Nat} {a b c : List Char} (hb : b.length = 36)
    (hsize : (a ++ b ++ c).length < size) (guids : List Guid) :
    refreshGuids size (some a.length) (a ++ b ++ c) guids =
      .returned (guids.map fun guid => a ++ guid.chars ++ c) := by
  induction guids generalizing b with
  | nil => rfl
  | cons guid guids ih =>
    have hround : refreshGuid size (some a.length) (a ++ b ++ c) guid =
        .returned (a ++ guid.chars ++ c) :=
      CText.overwrite_mid (guid.length.trans hb.symm) hsize
    have hsize' : (a ++ guid.chars ++ c).length < size := by
      simp only [List.length_append, guid.length, hb] at hsize ⊢
      exact hsize
    rw [refreshGuids, hround, Run.returned_bind, ih guid.length hsize']
    rfl

theorem isChain_rounds {a b c : List Char} (hb : b.length = 36) (guids : List Guid) :
    List.IsChain (DiffersInGuid a.length)
      ((a ++ b ++ c) :: guids.map fun guid => a ++ guid.chars ++ c) := by
  induction guids generalizing b with
  | nil => exact .singleton _
  | cons guid guids ih =>
    exact .cons_cons (differsInGuid_mid hb guid.length) (ih guid.length)

/-- The URL of `encode_url`, around its blank request id. -/
theorem url_eq_guid (base : List Char) (vars : List UrlKeyValue) (extra : Option (List Char)) :
    base ++ '?' :: query vars extra =
      (beforeGuid base vars ++ guidKey) ++ requestGuid.formattedValue ++
        extraText vars.length extra := by
  have hkey : requestGuid.formattedKey = guidKey := rfl
  simp [query, guidText, beforeGuid, hkey]

/-- A URL of `encode_url` that has no `request_guid=` of its own: the rounds stay inside the buffer
of the URL, and each of them leaves the URL as it was but for the 36 characters of the id. -/
theorem guid_refreshed (protocol account : List Char) (host port : Option (List Char))
    (url : List Char) (vars : List UrlKeyValue) (extra : Option (List Char)) (guids : List Guid)
    (h : ¬ NamesGuid (baseUrl protocol account host port url).1 vars) :
    ∃ encodedUrl urls,
      encodeUrl protocol account host port url vars extra = .returned encodedUrl ∧
      (beforeGuid (baseUrl protocol account host port url).1 vars ++ guidKey) <+: encodedUrl ∧
      refreshGuids (encodedUrlSize (baseUrl protocol account host port url).2 vars extra)
        (requestGuidPtr encodedUrl) encodedUrl guids = .returned urls ∧
      urls.length = guids.length ∧
      (encodedUrl :: urls).IsChain (DiffersInGuid
        ((beforeGuid (baseUrl protocol account host port url).1 vars ++ guidKey).length)) := by
  have hsize := length_url_lt protocol account host port url vars extra
  have hencode := encodeUrl_eq protocol account host port url vars extra
  have hptr := requestGuidPtr_eq h (requestGuid.formattedValue ++ extraText vars.length extra)
  have hblank : requestGuid.formattedValue.length = 36 := by decide
  rw [url_eq_guid] at hsize hencode
  refine ⟨_, _, hencode, ⟨_, (List.append_assoc ..).symm⟩, ?_, List.length_map _,
    isChain_rounds hblank guids⟩
  rw [← List.append_assoc, ← List.append_assoc] at hptr
  rw [hptr]
  exact refreshGuids_eq hblank hsize guids

/-- A value with `request_guid=` in it. -/
theorem guid_refreshed_inValue :
    ¬ NamesGuid (baseUrl "https".toList "acc".toList none none "/queries".toList).1
        [⟨"requestId=".toList, some "request_guid=1".toList⟩] ∧
      ∃ encodedUrl urls,
        encodeUrl "https".toList "acc".toList none none "/queries".toList
          [⟨"requestId=".toList, some "request_guid=1".toList⟩] none = .returned encodedUrl ∧
        (beforeGuid (baseUrl "https".toList "acc".toList none none "/queries".toList).1
          [⟨"requestId=".toList, some "request_guid=1".toList⟩] ++ guidKey) <+: encodedUrl ∧
        refreshGuids
          (encodedUrlSize (baseUrl "https".toList "acc".toList none none "/queries".toList).2
            [⟨"requestId=".toList, some "request_guid=1".toList⟩] none)
          (requestGuidPtr encodedUrl) encodedUrl [uuid4 0, uuid4 1] = .returned urls ∧
        urls.length = [uuid4 0, uuid4 1].length ∧
        (encodedUrl :: urls).IsChain (DiffersInGuid
          ((beforeGuid (baseUrl "https".toList "acc".toList none none "/queries".toList).1
            [⟨"requestId=".toList, some "request_guid=1".toList⟩] ++ guidKey).length)) :=
  have h : ¬ NamesGuid (baseUrl "https".toList "acc".toList none none "/queries".toList).1
      [⟨"requestId=".toList, some "request_guid=1".toList⟩] := by
    unfold NamesGuid
    decide +kernel
  ⟨h, guid_refreshed "https".toList "acc".toList none none "/queries".toList
    [⟨"requestId=".toList, some "request_guid=1".toList⟩] none [uuid4 0, uuid4 1] h⟩

end Url
end Snowflake
