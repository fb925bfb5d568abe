import SnowflakeClient.CInt
import SnowflakeClient.Jwt.RoundTrip

/-!
# Claim sets as maps

What `CJSONClaimSet` (`cpp/jwt/ClaimSet.hpp`) answers after calls of `addClaim` and `removeClaim`.

The functions of `cJSON` that add, replace, delete and test a member take names in any case, those
behind the getters take the exact name, and all of them get the key and the value up to the first
NUL. A claim set is the map of its last calls as long as the keys are told apart that way and the
values have no NUL: the members with the name of a key, in any case, are then at most one
(`Reflects`), and the call on another key does not touch it.
-/

namespace Snowflake
namespace Jwt

/-! ## The getters -/

/-- `cJSON_GetObjectItemCaseSensitive`. -/
def getObjectItemCaseSensitive (members : Members) (key : String) : Option Json :=
  (members.find? fun m => key = m.1).map Prod.snd

def containsClaim (members : Members) (key : String) : Bool := hasObjectItem members (cStr key)

def getClaimInString (members : Members) (key : String) : String :=
  match getObjectItemCaseSensitive members (cStr key) with
  | some (.str value) => value
  | _ => ""

/-- The cast is undefined for a number that is no `long`. -/
def getClaimInLong (members : Members) (key : String) : Option Int :=
  match getObjectItemCaseSensitive members (cStr key) with
  | some (.num value) => CInt.checkI64 value
  | _ => some 0

/-! ## The map -/

/-- What `addClaim` takes. -/
inductive ClaimValue where
  | text (value : String)
  | number (value : Int)
  deriving DecidableEq, Repr

namespace ClaimCall

def key : ClaimCall → String
  | addString key _ => key
  | addLong key _ => key
  | removeClaim key => key

/-- The value that the key has after the call. -/
def value : ClaimCall → Option ClaimValue
  | addString _ value => some (.text value)
  | addLong _ number => some (.number number)
  | removeClaim _ => none

/-- A call with a key of `K`, and with a text of `V` or a number of at most 53 bits. -/
def Within (K V : Set String) (call : ClaimCall) : Prop :=
  call.key ∈ K ∧ (∀ text, call.value = some (.text text) → text ∈ V) ∧
    ∀ number, call.value = some (.number number) → -2 ^ 53 ≤ number ∧ number ≤ 2 ^ 53

end ClaimCall

/-- The value of the last call for exactly this key. -/
def lastClaim (calls : List ClaimCall) (k : String) : Option ClaimValue :=
  (calls.reverse.find? fun call => call.key = k).bind ClaimCall.value

/-- The three answers for a key. -/
structure Answers where
  contained : Bool
  text : String
  number : Option Int
  deriving DecidableEq, Repr

def answers (members : Members) (k : String) : Answers :=
  ⟨containsClaim members k, getClaimInString members k, getClaimInLong members k⟩

@[simp] theorem answers_contained (members : Members) (k : String) :
    (answers members k).contained = containsClaim members k := rfl

@[simp] theorem answers_text (members : Members) (k : String) :
    (answers members k).text = getClaimInString members k := rfl

/-- The answers of a map that has this value for the key: the default where it is none or of the
other type. -/
def answersOf : Option ClaimValue → Answers
  | none => ⟨false, "", some 0⟩
  | some (.text value) => ⟨true, value, some 0⟩
  | some (.number value) => ⟨true, "", some value⟩

/-- After any calls within `K` and `V` the answers for the keys of `K` are those of the map, and a
call for another key does not change them. -/
def ClaimsAreMap (K V : Set String) : Prop :=
  ∀ calls : List ClaimCall, (∀ call ∈ calls, call.Within K V) → ∀ k ∈ K,
    answers (buildClaimSet calls) k = answersOf (lastClaim calls k) ∧
      ∀ call : ClaimCall, call.Within K V → call.key ≠ k →
        answers (buildClaimSet (calls ++ [call])) k = answers (buildClaimSet calls) k

/-- Keys whose names are the same, in any case and up to a NUL, are the same. -/
def ToldApart (K : Set String) : Prop :=
  ∀ k ∈ K, ∀ k' ∈ K, Json.sameName (cStr k) (cStr k') → k = k'

theorem lastClaim_append (calls : List ClaimCall) (call : ClaimCall) (k : String) :
    lastClaim (calls ++ [call]) k = if call.key = k then call.value else lastClaim calls k := by
  rw [lastClaim, List.reverse_append, List.reverse_singleton, List.singleton_append,
    List.find?_cons]
  by_cases hk : call.key = k <;> simp [hk, lastClaim]

theorem lastClaim_number {K V : Set String} {calls : List ClaimCall}
    (hcalls : ∀ call ∈ calls, call.Within K V) {k : String} {number : Int}
    (h : lastClaim calls k = some (.number number)) : -2 ^ 53 ≤ number ∧ number ≤ 2 ^ 53 := by
  obtain ⟨call, hfind, hvalue⟩ := Option.bind_eq_some_iff.mp h
  exact (hcalls call (List.mem_reverse.mp (List.mem_of_find?_eq_some hfind))).2.2 number hvalue

theorem buildClaimSet_append (calls : List ClaimCall) (call : ClaimCall) :
    buildClaimSet (calls ++ [call]) = call.apply (buildClaimSet calls) := by
  rw [buildClaimSet, List.foldl_append, List.foldl_cons, List.foldl_nil, buildClaimSet]

/-! ## The members with a name -/

section Members

variable {members : Members} {key : String} {item : Json}

theorem sameName_iff {a b : String} :
    Json.sameName a b ↔ a.toList.map Char.toLower = b.toList.map Char.toLower := by
  rw [Json.sameName, beq_iff_eq]

theorem sameName_symm {a b : String} (h : Json.sameName a b) : Json.sameName b a :=
  sameName_iff.mpr (sameName_iff.mp h).symm

theorem sameName_trans {a b c : String} (h : Json.sameName a b) (h' : Json.sameName b c) :
    Json.sameName a c :=
  sameName_iff.mpr ((sameName_iff.mp h).trans (sameName_iff.mp h'))

/-- The members with a name, in any case. -/
def named (members : Members) (key : String) : Members :=
  members.filter fun m => Json.sameName key m.1

theorem named_cons (m : String × Json) (members : Members) (key : String) :
    named (m :: members) key =
      if Json.sameName key m.1 then m :: named members key else named members key :=
  List.filter_cons

theorem named_append (a b : Members) (key : String) :
    named (a ++ b) key = named a key ++ named b key := List.filter_append _ _

theorem hasObjectItem_eq (members : Members) (key : String) :
    hasObjectItem members key = !(named members key).isEmpty := by
  induction members with
  | nil => rfl
  | cons m members ih =>
    rw [named_cons, hasObjectItem, List.any_cons, ← hasObjectItem, ih]
    by_cases hm : Json.sameName key m.1 <;> simp [hm]

/-- An exact name is one of those. -/
theorem getObjectItemCaseSensitive_eq (members : Members) (key : String) :
    getObjectItemCaseSensitive members key =
      getObjectItemCaseSensitive (named members key) key := by
  rw [getObjectItemCaseSensitive, getObjectItemCaseSensitive, named, List.find?_filter]
  congr 2
  funext m
  by_cases hm : key = m.1
  · subst hm
    simp [sameName_self]
  · simp [hm]

theorem named_replaceItemInObject_self (h : named members key ≠ []) :
    named (replaceItemInObject members key item) key = (key, item) :: (named members key).tail := by
  induction members with
  | nil => exact absurd rfl h
  | cons m members ih =>
    unfold replaceItemInObject
    by_cases hm : Json.sameName key m.1
    · rw [if_pos hm, named_cons, if_pos (sameName_self key), named_cons, if_pos hm, List.tail_cons]
    · rw [named_cons, if_neg hm] at h
      rw [if_neg hm, named_cons, if_neg hm, ih h, named_cons, if_neg hm]

theorem named_deleteItemFromObject_self (members : Members) (key : String) :
    named (deleteItemFromObject members key) key = (named members key).tail := by
  induction members with
  | nil => rfl
  | cons m members ih =>
    unfold deleteItemFromObject
    by_cases hm : Json.sameName key m.1
    · rw [if_pos hm, named_cons, if_pos hm, List.tail_cons]
    · rw [if_neg hm, named_cons, if_neg hm, named_cons, if_neg hm, ih]

variable {other : String}

theorem named_replaceItemInObject_other (hother : ¬Json.sameName other key) :
    named (replaceItemInObject members key item) other = named members other := by
  induction members with
  | nil => rfl
  | cons m members ih =>
    unfold replaceItemInObject
    by_cases hm : Json.sameName key m.1
    · have hm' : ¬Json.sameName other m.1 := fun h => hother (sameName_trans h (sameName_symm hm))
      rw [if_pos hm, named_cons, if_neg hother, named_cons, if_neg hm']
    · rw [if_neg hm, named_cons, named_cons, ih]

theorem named_deleteItemFromObject_other (hother : ¬Json.sameName other key) :
    named (deleteItemFromObject members key) other = named members other := by
  induction members with
  | nil => rfl
  | cons m members ih =>
    unfold deleteItemFromObject
    by_cases hm : Json.sameName key m.1
    · have hm' : ¬Json.sameName other m.1 := fun h => hother (sameName_trans h (sameName_symm hm))
      rw [if_pos hm, named_cons, if_neg hm']
    · rw [if_neg hm, named_cons, named_cons, ih]

theorem named_addOrReplaceJSON_other (hother : ¬Json.sameName other key) :
    named (addOrReplaceJSON members key item) other = named members other := by
  unfold addOrReplaceJSON
  rw [named_replaceItemInObject_other hother]
  by_cases hhas : hasObjectItem members key
  · rw [if_pos hhas]
  · rw [if_neg hhas, named_append, named_cons, if_neg hother]
    exact List.append_nil _

/-- Where the name has at most one member, it has the new one. -/
theorem named_addOrReplaceJSON_self (h : (named members key).length ≤ 1) :
    named (addOrReplaceJSON members key item) key = [(key, item)] := by
  unfold addOrReplaceJSON
  by_cases hhas : hasObjectItem members key
  · rw [hasObjectItem_eq, Bool.not_eq_true', List.isEmpty_eq_false_iff] at hhas
    have htail : (named members key).tail = [] := by
      rw [← List.length_eq_zero_iff, List.length_tail]
      omega
    rw [hasObjectItem_eq, if_pos (by simpa using hhas), named_replaceItemInObject_self hhas, htail]
  · have hnone : named members key = [] := by
      rw [hasObjectItem_eq] at hhas
      simpa using hhas
    have hadd : named (members ++ [(key, item)]) key = [(key, item)] := by
      rw [named_append, hnone, named_cons, if_pos (sameName_self key)]
      rfl
    rw [if_neg hhas, named_replaceItemInObject_self (by rw [hadd]; exact List.cons_ne_nil _ _),
      hadd]
    rfl

end Members

/-! ## The invariant -/

theorem cStr_eq_self_iff {s : String} : cStr s = s ↔ '\x00' ∉ s.toList := by
  rw [← String.toList_inj, cStr, String.toList_ofList, List.takeWhile_eq_self_iff]
  simp only [decide_eq_true_eq]
  exact ⟨fun h hmem => h _ hmem rfl, fun h c hc heq => h (heq ▸ hc)⟩

/-- The item of a value. -/
def ClaimValue.item : ClaimValue → Json
  | text value => .str value
  | number value => .num value

/-- The members with the name of a key are the one with its value, or none. -/
def Reflects (K : Set String) (members : Members) (m : String → Option ClaimValue) : Prop :=
  ∀ k ∈ K, named members (cStr k) = (m k).toList.map fun v => (cStr k, v.item)

section Reflects

variable {K V : Set String} {members : Members} {m : String → Option ClaimValue}
  {calls : List ClaimCall}

theorem Reflects.length_le (h : Reflects K members m) {k : String} (hk : k ∈ K) :
    (named members (cStr k)).length ≤ 1 := by
  rw [h k hk, List.length_map, Option.length_toList]
  cases m k <;> simp

theorem Reflects.answers (h : Reflects K members m) {k : String} (hk : k ∈ K)
    (hnumber : ∀ number, m k = some (.number number) → -2 ^ 53 ≤ number ∧ number ≤ 2 ^ 53) :
    answers members k = answersOf (m k) := by
  have hnamed := h k hk
  unfold Jwt.answers containsClaim getClaimInString getClaimInLong
  rw [hasObjectItem_eq, getObjectItemCaseSensitive_eq, hnamed]
  rcases hvalue : m k with _ | (value | value)
  · simp [answersOf, getObjectItemCaseSensitive]
  · simp [answersOf, getObjectItemCaseSensitive, ClaimValue.item]
  · obtain ⟨hlow, hhigh⟩ := hnumber value hvalue
    have hlong : CInt.checkI64 value = some value := CInt.checkI64_of_lt (by omega) (by omega)
    simp [answersOf, getObjectItemCaseSensitive, ClaimValue.item, hlong]

theorem Reflects.apply (hkeys : ToldApart K) (hvalues : ∀ v ∈ V, '\x00' ∉ v.toList)
    {call : ClaimCall} (hcall : call.Within K V) (h : Reflects K members (lastClaim calls)) :
    Reflects K (call.apply members) (lastClaim (calls ++ [call])) := by
  intro k hk
  rw [lastClaim_append]
  by_cases hkey : call.key = k
  · have hone := h.length_le hk
    rw [if_pos hkey]
    subst hkey
    cases call with
    | addString key value =>
      have hvalue : cStr value = value :=
        cStr_eq_self_iff.mpr (hvalues value (hcall.2.1 value rfl))
      exact (named_addOrReplaceJSON_self hone).trans (by rw [hvalue]; rfl)
    | addLong key number =>
      have hnumber : toDouble number = number := toDouble_eq (hcall.2.2 number rfl)
      exact (named_addOrReplaceJSON_self hone).trans (by rw [hnumber]; rfl)
    | removeClaim key =>
      refine (named_deleteItemFromObject_self members (cStr key)).trans ?_
      exact List.length_eq_zero_iff.mp (by rw [List.length_tail]; exact Nat.sub_eq_zero_of_le hone)
  · have hother : ¬Json.sameName (cStr k) (cStr call.key) := fun hsame =>
      hkey (hkeys k hk call.key hcall.1 hsame).symm
    rw [if_neg hkey, ← h k hk]
    cases call with
    | addString key value => exact named_addOrReplaceJSON_other hother
    | addLong key number => exact named_addOrReplaceJSON_other hother
    | removeClaim key => exact named_deleteItemFromObject_other hother

theorem reflects_buildClaimSet (hkeys : ToldApart K) (hvalues : ∀ v ∈ V, '\x00' ∉ v.toList)
    (hcalls : ∀ call ∈ calls, call.Within K V) :
    Reflects K (buildClaimSet calls) (lastClaim calls) := by
  induction calls using List.reverseRecOn with
  | nil => exact fun k _ => rfl
  | append_singleton calls call ih =>
    rw [buildClaimSet_append]
    exact (ih fun c hc => hcalls c (List.mem_append_left _ hc)).apply hkeys hvalues
      (hcalls call (by simp))

end Reflects

theorem addOrReplaceJSON_nil (key : String) (item : Json) :
    addOrReplaceJSON [] key item = [(key, item)] := by
  simp [addOrReplaceJSON, hasObjectItem, replaceItemInObject, sameName_self]

theorem within_addLong {K V : Set String} {k : String} (hk : k ∈ K) :
    (ClaimCall.addLong k 1).Within K V := by
  refine ⟨hk, fun text htext => ?_, fun number hnumber => ?_⟩
  · cases htext
  · cases hnumber
    decide

theorem within_addString {K V : Set String} {k v : String} (hk : k ∈ K) (hv : v ∈ V) :
    (ClaimCall.addString k v).Within K V := by
  refine ⟨hk, fun text htext => ?_, fun number hnumber => ?_⟩
  · cases htext
    exact hv
  · cases hnumber

theorem containsClaim_of_sameName {k k' : String} (hsame : Json.sameName (cStr k) (cStr k')) :
    containsClaim (buildClaimSet [.addLong k 1]) k' = true := by
  rw [containsClaim, buildClaimSet, List.foldl_cons, List.foldl_nil, ClaimCall.apply,
    addOrReplaceJSON_nil, hasObjectItem_eq, named_cons, if_pos (sameName_symm hsame)]
  rfl

theorem getClaimInString_addString (k v : String) :
    getClaimInString (buildClaimSet [.addString k v]) k = cStr v := by
  rw [buildClaimSet, List.foldl_cons, List.foldl_nil, ClaimCall.apply, addOrReplaceJSON_nil]
  simp [getClaimInString, getObjectItemCaseSensitive]

theorem lastClaim_singleton (call : ClaimCall) (k : String) :
    lastClaim [call] k = if call.key = k then call.value else none := lastClaim_append [] call k

/-- A number for `k` is found by the test for a key with the same name. -/
theorem toldApart_of_map {K V : Set String} (h : ClaimsAreMap K V) : ToldApart K := by
  intro k hk k' hk' hsame
  by_contra hne
  have hanswer := (h [.addLong k 1] (by simpa using within_addLong hk) k' hk').1
  have hcontained := congrArg Answers.contained hanswer
  rw [answers_contained, containsClaim_of_sameName hsame, lastClaim_singleton, ClaimCall.key,
    if_neg hne] at hcontained
  cases hcontained

/-- The getter gives a text up to its NUL. -/
theorem no_nul_of_map {K V : Set String} (h : ClaimsAreMap K V) {k v : String} (hk : k ∈ K)
    (hv : v ∈ V) : '\x00' ∉ v.toList := by
  have hanswer := (h [.addString k v] (by simpa using within_addString hk hv) k hk).1
  have htext := congrArg Answers.text hanswer
  rw [answers_text, getClaimInString_addString, lastClaim_singleton, ClaimCall.key,
    if_pos rfl] at htext
  exact cStr_eq_self_iff.mp htext

/-- The claim sets over some keys and texts are maps if and only if the keys are told apart and the
texts have no NUL. -/
theorem claims_are_map_iff (K V : Set String) :
    ClaimsAreMap K V ↔
      (∀ k ∈ K, ∀ k' ∈ K, Json.sameName (cStr k) (cStr k') → k = k') ∧
        (K.Nonempty → ∀ v ∈ V, '\x00' ∉ v.toList) := by
  constructor
  · intro h
    exact ⟨toldApart_of_map h, fun ⟨k, hk⟩ v hv => no_nul_of_map h hk hv⟩
  · rintro ⟨hkeys, hvalues⟩ calls hcalls k hk
    have hvalues := hvalues ⟨k, hk⟩
    have hreflects := reflects_buildClaimSet hkeys hvalues hcalls
    have hanswers := hreflects.answers hk fun number => lastClaim_number hcalls
    refine ⟨hanswers, fun call hcall hkey => ?_⟩
    have hnext := hreflects.apply hkeys hvalues hcall
    have hlast : lastClaim (calls ++ [call]) k = lastClaim calls k := by
      rw [lastClaim_append, if_neg hkey]
    rw [buildClaimSet_append, hanswers, ← hlast]
    exact hnext.answers hk fun number h => lastClaim_number hcalls (hlast ▸ h)

/-- With all keys: a claim for `A` takes the place of the one for `a`, and the test for `A` finds
the claim for `a`. -/
theorem claims_are_no_map :
    ¬ClaimsAreMap Set.univ Set.univ ∧
      (getClaimInLong (buildClaimSet [.addLong "a" 1, .addLong "A" 2]) "a" = some 0 ∧
        lastClaim [.addLong "a" 1, .addLong "A" 2] "a" = some (.number 1)) ∧
      (containsClaim (buildClaimSet [.addLong "a" 1]) "A" = true ∧
        lastClaim [.addLong "a" 1] "A" = none) := by
  refine ⟨fun h => ?_, ⟨by decide, by decide⟩, by decide, by decide⟩
  exact absurd (toldApart_of_map h "a" trivial "A" trivial (by decide)) (by decide)

end Jwt
end Snowflake
