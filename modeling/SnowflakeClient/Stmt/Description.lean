import SnowflakeClient.CInt
import SnowflakeClient.Connection.Json
import SnowflakeClient.Run
import SnowflakeClient.Types

/-!
# Column descriptions

`set_description` (`lib/results.c`), `_snowflake_stmt_desc_reset`, and the lines of
`_snowflake_execute_ex` that replace the descriptions of one result by those of the next
(`lib/client.c`).

`_snowflake_stmt_desc_reset` goes by `total_fieldcount`, which by then counts the columns of the new
result. It clears the array of the old one if that has as many columns, and otherwise it reads past
its end or leaves names behind (`desc_reset_iff`).
-/

namespace Snowflake

/-- `SF_COLUMN_DESC`. -/
structure ColumnDesc where
  name : Option String
  idx : Nat
  type : DbType
  byteSize : Int
  internalSize : Int
  precision : Int
  scale : Int
  nullOk : Bool
  cType : CType

/-- `SF_STMT`: the array of descriptions, `none` if it is `NULL`, and the count of the columns. -/
structure DescStmt where
  desc : Option (List ColumnDesc)
  totalFieldcount : Int

/-- The body of the loop of `set_description`. A member that cannot be copied has its default. -/
def describeColumn (i : Nat) (column : Json) : ColumnDesc :=
  let precision := (jsonCopyInt (some column) "precision").toOption.getD 0
  let scale := (jsonCopyInt (some column) "scale").toOption.getD 0
  let type :=
    match Json.getObjectItem (some column) "type" with
    | some (.str type) => stringToSnowflakeType type
    | _ => .fixed
  { name := (jsonCopyString (some column) "name").toOption
    idx := i + 1
    type
    byteSize := (jsonCopyInt (some column) "byteLength").toOption.getD 0
    internalSize := (jsonCopyInt (some column) "length").toOption.getD 0
    precision
    scale
    nullOk := (jsonCopyBool (some column) "nullable").toOption.getD false
    cType := snowflakeToCType type precision scale }

/-- `set_description`: no columns, no array. -/
def setDescription (rowtype : List Json) : Option (List ColumnDesc) :=
  if rowtype = [] then none else some (rowtype.mapIdx describeColumn)

/-- The loop of `_snowflake_stmt_desc_reset`: the indices whose names it gives to `SF_FREE`, from
`i` on, in turn. -/
def freeNames (desc : List ColumnDesc) : (left i : Nat) → Run Empty (List Nat)
  | 0, _ => .returned []
  | left + 1, i => do
    let _ ← Run.ofRead desc[i]?
    let freed ← freeNames desc left (i + 1)
    .returned (i :: freed)

/-- `_snowflake_stmt_desc_reset`. -/
def stmtDescReset (s : DescStmt) : Run Empty (List Nat × DescStmt) :=
  match s.desc with
  | none => .returned ([], { s with desc := none })
  | some desc => do
    let freed ← freeNames desc s.totalFieldcount.toNat 0
    .returned (freed, { s with desc := none })

/-- The `rowtype` of a reply, if it is an array. -/
def rowtypeOf (data : Option Json) : Option (List Json) :=
  match Json.getObjectItem data "rowtype" with
  | some (.arr rowtype) => some rowtype
  | _ => none

/-- What `_snowflake_execute_ex` does to the descriptions: the names that were freed, if there was a
reset. -/
def executeDesc (data : Option Json) (s : DescStmt) : Run Empty (Option (List Nat) × DescStmt) :=
  match rowtypeOf data with
  | none => .returned (none, s)
  | some rowtype => do
    let (freed, s) ← stmtDescReset { s with totalFieldcount := rowtype.length }
    .returned (some freed, { s with desc := setDescription rowtype })

/-- What `_snowflake_stmt_reset` leaves. -/
def DescStmt.prepared : DescStmt := ⟨none, -1⟩

/-! ## One reset -/

section Reset

variable {desc : List ColumnDesc} {left i : Nat}

theorem freeNames_inside (h : i + left ≤ desc.length) :
    freeNames desc left i = .returned (List.range' i left) := by
  induction left generalizing i with
  | zero => rfl
  | succ left ih =>
    unfold freeNames
    rw [List.getElem?_eq_getElem (by omega), Run.ofRead_some, Run.returned_bind,
      ih (by omega), Run.returned_bind, List.range'_succ]

theorem freeNames_outside (h : desc.length < i + left) (hi : i ≤ desc.length) :
    freeNames desc left i = .outside := by
  induction left generalizing i with
  | zero => omega
  | succ left ih =>
    unfold freeNames
    by_cases hend : i = desc.length
    · rw [List.getElem?_eq_none (by omega), Run.ofRead_none, Run.outside_bind]
    · rw [List.getElem?_eq_getElem (by omega), Run.ofRead_some, Run.returned_bind,
        ih (by omega) (by omega), Run.outside_bind]

/-- An array of `n` entries is cleared: every index is inside, and each entry is freed once. -/
def Cleared (n : Nat) (freed : List Nat) : Prop :=
  (∀ i ∈ freed, i < n) ∧ ∀ i < n, freed.count i = 1

theorem cleared_range'_iff {n k : Nat} : Cleared n (List.range' 0 k) ↔ k = n := by
  have hmem (i : Nat) : i ∈ List.range' 0 k ↔ i < k := by
    rw [List.mem_range'_1]
    omega
  constructor
  · rintro ⟨hinside, honce⟩
    apply Nat.le_antisymm
    · by_contra hlt
      exact absurd (hinside n ((hmem n).2 (by omega))) (lt_irrefl n)
    · by_contra hlt
      have hcount := honce k (by omega)
      rw [List.count_eq_zero_of_not_mem (by rw [hmem]; exact lt_irrefl k)] at hcount
      exact absurd hcount (by decide)
  · rintro rfl
    refine ⟨fun i hi => (hmem i).1 hi, fun i hi => ?_⟩
    exact List.count_eq_one_of_mem List.nodup_range' ((hmem i).2 hi)

theorem stmtDescReset_inside {k : Nat} (h : k ≤ desc.length) :
    stmtDescReset ⟨some desc, k⟩ = .returned (List.range' 0 k, ⟨none, k⟩) := by
  unfold stmtDescReset
  dsimp only
  rw [Int.toNat_natCast, freeNames_inside (by omega), Run.returned_bind]

theorem stmtDescReset_outside {k : Nat} (h : desc.length < k) :
    stmtDescReset ⟨some desc, k⟩ = .outside := by
  unfold stmtDescReset
  dsimp only
  rw [Int.toNat_natCast, freeNames_outside (by omega) (Nat.zero_le _), Run.outside_bind]

end Reset

/-! ## Every execute of a statement -/

/-- Each reset clears the array that it finds. -/
def ClearsEach : DescStmt → List (Option Json) → Prop
  | _, [] => True
  | s, data :: replies => ∃ freed s', executeDesc data s = .returned (freed, s') ∧
      (∀ names ∈ freed, Cleared (s.desc.getD []).length names) ∧ ClearsEach s' replies

theorem clearsEach_cons (s : DescStmt) (data : Option Json) (replies : List (Option Json)) :
    ClearsEach s (data :: replies) ↔ ∃ freed s', executeDesc data s = .returned (freed, s') ∧
      (∀ names ∈ freed, Cleared (s.desc.getD []).length names) ∧ ClearsEach s' replies := Iff.rfl

/-- There are no columns to clear, or as many as the next result has. -/
def SameWidth (prev next : List Json) : Prop := prev = [] ∨ prev.length = next.length

section Executes

variable {prev next : List Json} {count : Int} {data : Option Json}

theorem executeDesc_skips (h : rowtypeOf data = none) (s : DescStmt) :
    executeDesc data s = .returned (none, s) := by
  unfold executeDesc
  rw [h]

theorem executeDesc_first (h : rowtypeOf data = some next) :
    executeDesc data ⟨none, count⟩ = .returned (some [], ⟨setDescription next, next.length⟩) := by
  unfold executeDesc
  rw [h]
  rfl

theorem executeDesc_inside {desc : List ColumnDesc} (h : rowtypeOf data = some next)
    (hlen : next.length ≤ desc.length) :
    executeDesc data ⟨some desc, count⟩ =
      .returned (some (List.range' 0 next.length), ⟨setDescription next, next.length⟩) := by
  unfold executeDesc
  rw [h]
  dsimp only
  rw [stmtDescReset_inside hlen, Run.returned_bind]

theorem executeDesc_outside {desc : List ColumnDesc} (h : rowtypeOf data = some next)
    (hlen : desc.length < next.length) : executeDesc data ⟨some desc, count⟩ = .outside := by
  unfold executeDesc
  rw [h]
  dsimp only
  rw [stmtDescReset_outside hlen, Run.outside_bind]

/-- The step: the array that is cleared came from `prev`. -/
theorem clearsEach_cons_iff (h : rowtypeOf data = some next) (replies : List (Option Json)) :
    ClearsEach ⟨setDescription prev, count⟩ (data :: replies) ↔
      SameWidth prev next ∧ ClearsEach ⟨setDescription next, next.length⟩ replies := by
  rw [clearsEach_cons]
  by_cases hprev : prev = []
  · have hnone : setDescription prev = none := if_pos hprev
    rw [hnone, executeDesc_first h]
    constructor
    · rintro ⟨freed, s, hrun, -, hrest⟩
      cases hrun
      exact ⟨.inl hprev, hrest⟩
    · rintro ⟨-, hrest⟩
      refine ⟨_, _, rfl, ?_, hrest⟩
      rintro names ⟨⟩
      exact cleared_range'_iff.2 rfl
  · have hsome : setDescription prev = some (prev.mapIdx describeColumn) := if_neg hprev
    have hlen : (prev.mapIdx describeColumn).length = prev.length := List.length_mapIdx
    rw [hsome]
    by_cases hle : next.length ≤ prev.length
    · rw [executeDesc_inside h (by omega)]
      constructor
      · rintro ⟨freed, s, hrun, hclear, hrest⟩
        cases hrun
        have hwidth := cleared_range'_iff.1 (hclear _ rfl)
        exact ⟨.inr (hlen ▸ hwidth.symm), hrest⟩
      · rintro ⟨hwidth, hrest⟩
        refine ⟨_, _, rfl, ?_, hrest⟩
        rintro names ⟨⟩
        exact cleared_range'_iff.2 ((hwidth.resolve_left hprev).symm.trans hlen.symm)
    · rw [executeDesc_outside h (by omega)]
      constructor
      · rintro ⟨freed, s, hrun, -⟩
        cases hrun
      · rintro ⟨hwidth, -⟩
        have hwidth := hwidth.resolve_left hprev
        omega

theorem clearsEach_skip_iff (h : rowtypeOf data = none) (s : DescStmt)
    (replies : List (Option Json)) : ClearsEach s (data :: replies) ↔ ClearsEach s replies := by
  rw [clearsEach_cons, executeDesc_skips h]
  constructor
  · rintro ⟨freed, s', hrun, -, hrest⟩
    cases hrun
    exact hrest
  · intro hrest
    exact ⟨_, _, rfl, by rintro names ⟨⟩, hrest⟩

theorem clearsEach_iff (prev : List Json) (count : Int) (replies : List (Option Json)) :
    ClearsEach ⟨setDescription prev, count⟩ replies ↔
      (prev :: replies.filterMap rowtypeOf).IsChain SameWidth := by
  induction replies generalizing prev count with
  | nil => simp [ClearsEach]
  | cons data replies ih =>
    cases h : rowtypeOf data with
    | none => rw [clearsEach_skip_iff h, ih, List.filterMap_cons_none h]
    | some next =>
      rw [clearsEach_cons_iff h, ih, List.filterMap_cons_some h, List.isChain_cons_cons]

end Executes

/-- Every reset in a sequence of executes stays in its array and frees each entry once, if and only
if no result has another number of columns than the one before it, which may have had none. -/
theorem desc_reset_iff (replies : List (Option Json)) :
    ClearsEach .prepared replies ↔ (replies.filterMap rowtypeOf).IsChain SameWidth := by
  have hstart := clearsEach_iff [] (-1) replies
  rw [show (⟨setDescription [], -1⟩ : DescStmt) = .prepared from rfl] at hstart
  rw [hstart]
  cases replies.filterMap rowtypeOf with
  | nil => simp
  | cons next rest => simp [List.isChain_cons_cons, SameWidth]

/-- The `data` of a reply with `n` columns. -/
def columnsReply (n : Nat) : Option Json :=
  some (.obj [("rowtype", .arr (List.replicate n (.obj [("name", .str "c")])))])

/-- A result with one column and then one with two: the second name is read past the array. A
result with one column after two leaves a name behind. -/
theorem desc_reset_widths :
    (∃ s, executeDesc (columnsReply 1) .prepared = .returned (some [], s) ∧
      executeDesc (columnsReply 2) s = .outside) ∧
    ∃ s freed s', executeDesc (columnsReply 2) .prepared = .returned (some [], s) ∧
      (s.desc.getD []).length = 2 ∧
      executeDesc (columnsReply 1) s = .returned (some freed, s') ∧ freed.count 1 = 0 := by
  refine ⟨⟨_, rfl, rfl⟩, _, _, _, rfl, rfl, rfl, rfl⟩

end Snowflake
