import SnowflakeClient.Stmt.Api
import SnowflakeClient.Stmt.Description

/-!
# Affected rows

`snowflake_affected_rows` (`lib/client.c`) between `snowflake_execute` and the first
`snowflake_fetch`.

For a DML statement the count is in the first row of the result. The function detaches that row from
the array that the fetches read, and does not count it out of `chunk_rowcount`: a second call counts
the next row, and the fetches begin one row later and end with a row that is `NULL`. A number of
calls can only be told from none if it is not zero and there is a row
(`affected_rows_read_only_iff`).

A fetch sees the chunk downloader as its threads have left it; what it sees is a parameter here.
-/

namespace Snowflake

open CInt

/-! ## Execute -/

/-- `detect_stmt_type`: `_SF_STMT_TYPE_DML` and what is made from it. -/
def detectStmtType (stmtTypeId : Int) : Bool :=
  [0x3000, 0x3000 + 0x100, 0x3000 + 0x200, 0x3000 + 0x300, 0x3000 + 0x400, 0x3000 + 0x500].contains
    stmtTypeId

/-- `SF_STMT`: the result, the columns and `is_dml`. -/
structure ResultStmt where
  stmt : Stmt Json
  columns : DescStmt
  isDml : Bool

/-- `_snowflake_execute_ex` at the data of a reply with `success: true`. -/
def executeResult (locks : Bool) (data : Option Json) (s : ResultStmt) :
    Run Empty (Option Status × ResultStmt) := do
  let isDml := (jsonCopyInt data "statementTypeId").toOption.elim false detectStmtType
  let (_, columns) ← executeDesc data s.columns
  let (status, stmt) := executeData 2 locks (queryReply data) s.stmt
  .returned (status, { stmt, columns, isDml })

/-- A DML statement after an execute that succeeds. -/
def ExecutedDml (s : ResultStmt) : Prop :=
  ∃ locks data before status, executeResult locks data before = .returned (status, s) ∧
    (status = none ∨ status = some .success) ∧ s.isDml = true

/-! ## The count -/

/-- The loop over the columns of the row. A column that is missing or that has no text is read
through `NULL`. -/
def sumColumns (row : Json) : (left i : Nat) → (ret : Int) → Run Empty Int
  | 0, _, ret => .returned ret
  | left + 1, i, ret => do
    let item ← Run.ofRead row.child[i]?
    let text ← Run.ofRead item.valuestring
    let ret ← Run.ofRead (checkI64 (ret + strtol text))
    sumColumns row left (i + 1) ret

/-- `(size_t) total_fieldcount`. -/
def ResultStmt.fields (s : ResultStmt) : Nat := (s.columns.totalFieldcount % 2 ^ 64).toNat

/-- The statement with other rows and another error code. -/
def ResultStmt.withRows (s : ResultStmt) (rows : Option (List Json)) (code : Status) :
    ResultStmt :=
  { s with stmt := { s.stmt with rawResults := rows, errorCode := code } }

/-- `snowflake_affected_rows`. -/
def affectedRows (s : ResultStmt) : Run Empty (Int × ResultStmt) :=
  match s.stmt.rawResults.getD [] with
  | [] => .returned (-1, s.withRows s.stmt.rawResults .errorApplicationError)
  | row :: rows =>
    if s.isDml then do
      let ret ← sumColumns row s.fields 0 0
      .returned (ret, s.withRows (some rows) .success)
    else .returned (s.stmt.totalRowcount, s.withRows s.stmt.rawResults .success)

/-- A number of calls, one after the other. -/
def affectedRowsCalls : Nat → ResultStmt → Run Empty (List Int × ResultStmt)
  | 0, s => .returned ([], s)
  | n + 1, s => do
    let (value, s) ← affectedRows s
    let (values, s) ← affectedRowsCalls n s
    .returned (value :: values, s)

/-! ## Fetches -/

/-- What a fetch sees of the chunk downloader: when it starts, and when it has the queue's lock and
does not wait any more; and if the signal to the producers can be sent. -/
structure FetchSees (Row : Type) where
  atEntry : Option (ChunkDownloader Row)
  atWake : ChunkDownloader Row
  signalled : Bool

/-- `snowflake_fetch` under the queue's lock. -/
def fetchLocked {Row : Type} (s : Stmt Row) (d : ChunkDownloader Row) (signalled : Bool) :
    Option (Status × Stmt Row) :=
  let s := { s with chunkDownloader := some d }
  if d.queueSize ≤ d.consumerHead then some (.eof, { s with rawResults := none })
  else
    (fetchSection s d d.consumerHead signalled).bind fun r => r.1.map fun status => (status, r.2)

/-- The statement at the start of a fetch. -/
def fetchEntered {Row : Type} (s : Stmt Row) (e : FetchSees Row) : Stmt Row :=
  fetchEnter { s with chunkDownloader := e.atEntry }

/-- `snowflake_fetch`. `none` if it does not return. -/
def fetch {Row : Type} (s : Stmt Row) (e : FetchSees Row) : Option (Status × Stmt Row) :=
  if e.atEntry.any (·.hasError) then some (.errorGeneral, fetchEntered s e)
  else if s.chunkRowcount = 0 then
    if e.atEntry.isSome then fetchLocked (fetchEntered s e) e.atWake e.signalled
    else some (.eof, fetchEntered s e)
  else some (.success, fetchRow (fetchEntered s e))

/-- The statuses and the rows of fetches, up to one that does not return. -/
def fetches {Row : Type} (s : Stmt Row) : List (FetchSees Row) → List (Status × Option Row)
  | [] => []
  | e :: es =>
    match fetch s e with
    | none => []
    | some (status, s) => (status, s.curRow) :: fetches s es

section Machine

variable (a : Api) (d : ChunkDownloader Json) (signalled : Bool)

/-- The machine of calls after the start of a fetch. -/
def Api.fetchStarted (a : Api) : Api := { a with stmt := fetchEnter a.stmt, pc := .fetching }

/-- A fetch of the machine that does not come to the lock. -/
theorem fetch_eq_fetchCheck :
    a.fetchStarted.fetchCheck.pc = .locking ∨
      ∃ status, a.fetchStarted.fetchCheck.pc = .returning .fetch status ∧
        fetch a.stmt ⟨a.stmt.chunkDownloader, d, signalled⟩ =
          some (status, a.fetchStarted.fetchCheck.stmt) := by
  have hd : a.fetchStarted.stmt.chunkDownloader = a.stmt.chunkDownloader := rfl
  have hcount : a.fetchStarted.stmt.chunkRowcount = a.stmt.chunkRowcount := rfl
  unfold Api.fetchCheck fetch
  dsimp only
  rw [hd, hcount]
  by_cases herror : a.stmt.chunkDownloader.any (·.hasError) = true
  · rw [if_pos herror, if_pos herror]
    exact .inr ⟨_, rfl, rfl⟩
  rw [if_neg herror, if_neg herror]
  by_cases hzero : a.stmt.chunkRowcount = 0
  · rw [if_pos hzero, if_pos hzero]
    cases hdown : a.stmt.chunkDownloader with
    | none =>
      have hsame : { a.stmt with chunkDownloader := none } = a.stmt := by rw [← hdown]
      refine .inr ⟨.eof, rfl, ?_⟩
      show some (Status.eof, fetchEnter { a.stmt with chunkDownloader := none }) = _
      rw [hsame]
      rfl
    | some _ => exact .inl rfl
  · rw [if_neg hzero, if_neg hzero]
    exact .inr ⟨_, rfl, rfl⟩

/-- One that comes to the lock, and finds `d` there. -/
theorem fetch_eq_fetchLock {b : Api} {outs : List Returned} {status : Status}
    (hcheck : a.fetchStarted.fetchCheck.pc = .locking)
    (hlock : (a.fetchStarted.setDownloader (some d)).callStep .locking (.fetchLock signalled) =
      some (b, outs)) (hpc : b.pc = .returning .fetch status) :
    fetch a.stmt ⟨a.stmt.chunkDownloader, d, signalled⟩ = some (status, b.stmt) := by
  have hfetch : fetch a.stmt ⟨a.stmt.chunkDownloader, d, signalled⟩ =
      fetchLocked (fetchEnter a.stmt) d signalled := by
    unfold Api.fetchCheck at hcheck
    unfold fetch
    split_ifs at hcheck ⊢ <;> grind [Api.returns, Api.fetchStarted, fetchEnter, fetchEntered]
  rw [hfetch]
  unfold fetchLocked
  unfold Api.callStep at hlock
  dsimp only [Api.setDownloader] at hlock
  cases hrec : a.fetchStarted.recording with
  | true =>
    rw [hrec] at hlock
    cases hlock
  | false =>
    rw [hrec] at hlock
    dsimp only at hlock ⊢
    split_ifs at hlock ⊢ with hend
    · cases hlock
      cases hpc
      rfl
    · obtain ⟨c, hat, hc⟩ := Option.map_eq_some_iff.1 hlock
      cases hc
      unfold Api.fetchAt at hat
      split at hat
      next => cases hat
      next =>
        cases hat
        cases hpc
      next status' s' hsection =>
        cases hat
        cases hpc
        have hsame : fetchSection { fetchEnter a.stmt with chunkDownloader := some d } d
            d.consumerHead signalled = some (some status, s') := hsection
        rw [hsame]
        rfl

end Machine

/-! ## What a count leaves -/

section Counts

variable {s s' : ResultStmt} {rows : List Json} {n : Nat} {value : Int}

/-- What a call returns at a row, or where there is none. -/
def countAt (s : ResultStmt) : Option Json → Run Empty Int
  | none => .returned (-1)
  | some row => sumColumns row s.fields 0 0

theorem affectedRows_eq (hdml : s.isDml = true) (hrows : s.stmt.rawResults = some rows) :
    ∃ code, affectedRows s = countAt s rows.head? >>= fun value =>
      .returned (value, s.withRows (some rows.tail) code) := by
  unfold affectedRows
  rw [hrows, Option.getD_some]
  cases rows with
  | nil => exact ⟨.errorApplicationError, rfl⟩
  | cons row rows =>
    refine ⟨.success, ?_⟩
    dsimp only
    rw [if_pos hdml]
    rfl

theorem affectedRowsCalls_rows (hdml : s.isDml = true) (hrows : s.stmt.rawResults = some rows)
    {values : List Int} (h : affectedRowsCalls n s = .returned (values, s')) :
    ∃ code, s' = s.withRows (some (rows.drop n)) code := by
  induction n generalizing s rows values with
  | zero =>
    cases h
    refine ⟨s'.stmt.errorCode, ?_⟩
    unfold ResultStmt.withRows
    rw [List.drop_zero, ← hrows]
  | succ n ih =>
    obtain ⟨code, heq⟩ := affectedRows_eq hdml hrows
    unfold affectedRowsCalls at h
    rw [heq] at h
    cases hcount : countAt s rows.head? with
    | outside =>
      rw [hcount] at h
      cases h
    | raised e => exact e.elim
    | returned value =>
      rw [hcount, Run.returned_bind, Run.returned_bind] at h
      obtain ⟨⟨values', s''⟩, hcalls, hlast⟩ := Run.bind_eq_returned.1 h
      cases hlast
      obtain ⟨code', rfl⟩ := ih (s := s.withRows (some rows.tail) code) hdml rfl hcalls
      refine ⟨code', ?_⟩
      rw [← List.drop_one, List.drop_drop, Nat.add_comm]
      rfl

/-- Calls return the same value if and only if the rows that they find give it. -/
theorem affectedRowsCalls_replicate_iff (hdml : s.isDml = true)
    (hrows : s.stmt.rawResults = some rows) :
    (∃ s', affectedRowsCalls n s = .returned (List.replicate n value, s')) ↔
      ∀ i < n, countAt s rows[i]? = .returned value := by
  induction n generalizing s rows with
  | zero => exact iff_of_true ⟨s, rfl⟩ fun i hi => absurd hi (Nat.not_lt_zero i)
  | succ n ih =>
    obtain ⟨code, heq⟩ := affectedRows_eq hdml hrows
    have hrest := ih (s := s.withRows (some rows.tail) code) hdml rfl
    unfold affectedRowsCalls
    rw [heq]
    constructor
    · rintro ⟨s', h⟩
      obtain ⟨⟨v, s₁⟩, hcall, h⟩ := Run.bind_eq_returned.1 h
      obtain ⟨v', hcount, hv⟩ := Run.bind_eq_returned.1 hcall
      cases hv
      obtain ⟨⟨vs, s₂⟩, hcalls, hlast⟩ := Run.bind_eq_returned.1 h
      cases hlast
      rintro (_ | i) hi
      · rw [← List.head?_eq_getElem?]
        exact hcount
      · rw [← List.getElem?_tail]
        exact hrest.1 ⟨_, hcalls⟩ i (by omega)
    · intro h
      have hfirst := h 0 (by omega)
      rw [← List.head?_eq_getElem?] at hfirst
      obtain ⟨s', hcalls⟩ := hrest.2 fun i hi => by
        rw [List.getElem?_tail]
        exact h (i + 1) (by omega)
      refine ⟨s', ?_⟩
      rw [hfirst, Run.returned_bind, Run.returned_bind]
      dsimp only
      rw [hcalls]
      rfl

end Counts

/-! ## What the fetches see of it -/

section Fetches

variable {Row : Type} {s : Stmt Row} {e : FetchSees Row}

theorem fetch_error (h : e.atEntry.any (·.hasError) = true) :
    fetch s e = some (.errorGeneral, fetchEntered s e) := if_pos h

theorem fetch_row (h : e.atEntry.any (·.hasError) = false) (hcount : s.chunkRowcount ≠ 0) :
    fetch s e = some (.success, fetchRow (fetchEntered s e)) := by
  unfold fetch
  rw [if_neg (by rw [h]; decide), if_neg hcount]

/-- An error code that was there does not matter. -/
theorem fetches_errorCode (s : Stmt Row) (code : Status) (es : List (FetchSees Row)) :
    fetches { s with errorCode := code } es = fetches s es := by
  cases es with
  | nil => rfl
  | cons e es => rfl

/-- A downloader that failed: no fetch looks at the rows. -/
theorem fetches_error {es : List (FetchSees Row)}
    (h : ∀ e ∈ es, e.atEntry.any (·.hasError) = true) (s : Stmt Row) :
    fetches s es = List.replicate es.length (.errorGeneral, none) := by
  induction es generalizing s with
  | nil => rfl
  | cons e es ih =>
    unfold fetches
    rw [fetch_error (h e List.mem_cons_self)]
    dsimp only
    rw [ih fun e' he' => h e' (List.mem_cons_of_mem e he')]
    rfl

/-- As many fetches as there are rows to count return the rows that there are. -/
theorem fetches_rows (h : e.atEntry.any (·.hasError) = false) (count : Nat) {rows : List Row}
    (hcount : s.chunkRowcount = count) (hrows : s.rawResults = some rows) :
    fetches s (List.replicate count e) =
      (List.range count).map fun i => (.success, rows[i]?) := by
  induction count generalizing s rows with
  | zero => rfl
  | succ count ih =>
    rw [List.replicate_succ, List.range_succ_eq_map, List.map_cons, List.map_map]
    unfold fetches
    rw [fetch_row h (by omega)]
    dsimp only
    have hnext : (fetchRow (fetchEntered s e)).chunkRowcount = count := by
      show s.chunkRowcount - 1 = count
      omega
    have htail : (fetchRow (fetchEntered s e)).rawResults = some rows.tail := by
      show s.rawResults.map List.tail = _
      rw [hrows, Option.map_some]
    have hhead : (fetchRow (fetchEntered s e)).curRow = rows[0]? := by
      show (s.rawResults.getD []).head? = _
      rw [hrows, Option.getD_some, List.head?_eq_getElem?]
    rw [ih hnext htail, hhead]
    congr 2
    funext i
    show (Status.success, rows.tail[i]?) = (.success, rows[i + 1]?)
    rw [List.getElem?_tail]

end Fetches

/-! ## Calls before the first fetch -/

/-- What the fetches see can follow from the statement: a downloader stays, and so does its
error. -/
def FetchSees.Follows (s : Stmt Json) (e : FetchSees Json) : Prop :=
  e.atEntry.isSome = s.chunkDownloader.isSome ∧
    (s.chunkDownloader.any (·.hasError) = true → e.atEntry.any (·.hasError) = true)

/-- `n` calls return the same value, and the fetches after them return what they return without the
calls. -/
def ReadOnly (s : ResultStmt) (n : Nat) : Prop :=
  ∃ value s', affectedRowsCalls n s = .returned (List.replicate n value, s') ∧
    ∀ es : List (FetchSees Json), (∀ e ∈ es, e.Follows s.stmt) →
      fetches s'.stmt es = fetches s.stmt es

/-- A downloader of an earlier execute failed, and the first `n` rows count the same. -/
def Hidden (s : ResultStmt) (n : Nat) : Prop :=
  s.stmt.chunkDownloader.any (·.hasError) = true ∧
    ∃ value, ∀ i < n, countAt s (s.stmt.rawResults.getD [])[i]? = .returned value

theorem executeData_success {locks : Bool} {r : Reply Json} {s s' : Stmt Json}
    {status : Option Status} (h : executeData 2 locks r s = (status, s'))
    (hok : status = none ∨ status = some .success) :
    ∃ rows, s'.rawResults = some rows ∧ s'.chunkRowcount = rows.length := by
  have hfails : ¬(some Status.errorGeneral = none ∨ some Status.errorGeneral = some .success) := by
    decide
  unfold executeData at h
  split at h
  next =>
    cases h
    exact absurd hok hfails
  next rows _ =>
    refine ⟨rows, ?_⟩
    dsimp only at h
    split at h
    next =>
      cases h
      exact ⟨rfl, rfl⟩
    next =>
      split_ifs at h
      · cases h
        exact absurd hok hfails
      · split at h
        next =>
          cases h
          exact absurd hok hfails
        next =>
          cases h
          exact ⟨rfl, rfl⟩

section ReadOnly

variable {s : ResultStmt} {rows : List Json} {n : Nat} {code : Status}

theorem ExecutedDml.rawResults (h : ExecutedDml s) :
    ∃ rows, s.stmt.rawResults = some rows ∧ s.stmt.chunkRowcount = rows.length := by
  obtain ⟨locks, data, before, status, hrun, hok, -⟩ := h
  unfold executeResult at hrun
  obtain ⟨⟨freed, columns⟩, -, hrun⟩ := Run.bind_eq_returned.1 hrun
  dsimp only at hrun
  cases hrun
  exact executeData_success rfl hok

/-- Fetches of all rows of the reply: the last one is there, and is not after `n` were detached. -/
theorem fetches_miss_row (hrows : s.stmt.rawResults = some rows)
    (hcount : s.stmt.chunkRowcount = rows.length)
    (hsound : s.stmt.chunkDownloader.any (·.hasError) = false) (hn : n ≠ 0) (hne : rows ≠ []) :
    ∃ es : List (FetchSees Json), (∀ e ∈ es, e.Follows s.stmt) ∧
      fetches (s.withRows (some (rows.drop n)) code).stmt es ≠ fetches s.stmt es := by
  let e : FetchSees Json := ⟨s.stmt.chunkDownloader, ⟨0, [], 0, 0, 0, false, false⟩, true⟩
  have hbefore := fetches_rows (e := e) hsound rows.length hcount hrows
  have hafter := fetches_rows (s := (s.withRows (some (rows.drop n)) code).stmt) (e := e)
    hsound rows.length hcount rfl
  refine ⟨List.replicate rows.length e, ?_, ?_⟩
  · intro e' he'
    rw [List.eq_of_mem_replicate he']
    exact ⟨rfl, id⟩
  · rw [hbefore, hafter]
    intro hsame
    have hpos : 0 < rows.length := List.length_pos_of_ne_nil hne
    have hlast := congrArg (·[rows.length - 1]?) hsame
    simp only [List.getElem?_map, List.getElem?_range (by omega : rows.length - 1 < rows.length),
      Option.map_some, Option.some.injEq, Prod.mk.injEq, true_and] at hlast
    rw [List.getElem?_eq_none (by rw [List.length_drop]; omega),
      List.getElem?_eq_getElem (by omega)] at hlast
    cases hlast

/-- The fetches do not tell if there was no row, or if the downloader has failed. -/
theorem fetches_same (hrows : s.stmt.rawResults = some rows)
    (h : rows = [] ∨ s.stmt.chunkDownloader.any (·.hasError) = true) {es : List (FetchSees Json)}
    (hes : ∀ e ∈ es, e.Follows s.stmt) :
    fetches (s.withRows (some (rows.drop n)) code).stmt es = fetches s.stmt es := by
  rcases h with rfl | hfailed
  · rw [← fetches_errorCode s.stmt code]
    unfold ResultStmt.withRows
    rw [List.drop_nil, hrows]
  · have hall : ∀ e ∈ es, e.atEntry.any (·.hasError) = true := fun e he => (hes e he).2 hfailed
    rw [fetches_error hall, fetches_error hall]

/-- The calls return the same value where the condition holds. -/
theorem exists_count (hrows : s.stmt.rawResults = some rows)
    (h : n = 0 ∨ s.stmt.rawResults = some [] ∨ Hidden s n) :
    ∃ value, ∀ i < n, countAt s rows[i]? = .returned value := by
  rcases h with rfl | hnone | ⟨-, hvalue⟩
  · exact ⟨0, fun i hi => absurd hi (Nat.not_lt_zero i)⟩
  · obtain rfl : rows = [] := Option.some.inj (hrows.symm.trans hnone)
    exact ⟨-1, fun i _ => rfl⟩
  · rwa [hrows, Option.getD_some] at hvalue

end ReadOnly

/-- After a DML statement was executed, calls for the number of affected rows change nothing if and
only if there are none, or there is no row, or nobody can see it. -/
theorem affected_rows_read_only_iff (s : ResultStmt) (h : ExecutedDml s) (n : Nat) :
    ReadOnly s n ↔ n = 0 ∨ s.stmt.rawResults = some [] ∨ Hidden s n := by
  obtain ⟨rows, hrows, hcount⟩ := h.rawResults
  have hdml : s.isDml = true := by
    obtain ⟨_, _, _, _, -, -, hdml⟩ := h
    exact hdml
  constructor
  · rintro ⟨value, s', hcalls, hsame⟩
    have hcounts := (affectedRowsCalls_replicate_iff hdml hrows).1 ⟨s', hcalls⟩
    obtain ⟨code, rfl⟩ := affectedRowsCalls_rows hdml hrows hcalls
    cases hfailed : s.stmt.chunkDownloader.any (·.hasError) with
    | true => exact .inr (.inr ⟨hfailed, value, by rwa [hrows, Option.getD_some]⟩)
    | false =>
      by_contra! hcond
      obtain ⟨hn, hne, -⟩ := hcond
      obtain ⟨es, hes, hdiffer⟩ := fetches_miss_row hrows hcount hfailed hn
        (by rintro rfl; exact hne hrows)
      exact hdiffer (hsame es hes)
  · intro hcond
    obtain ⟨value, hcounts⟩ := exists_count hrows hcond
    obtain ⟨s', hcalls⟩ := (affectedRowsCalls_replicate_iff hdml hrows).2 hcounts
    obtain ⟨code, rfl⟩ := affectedRowsCalls_rows hdml hrows hcalls
    refine ⟨value, _, hcalls, fun es hes => ?_⟩
    rcases hcond with rfl | hnone | ⟨hfailed, -⟩
    · have hstate : s = s.withRows (some (rows.drop 0)) code :=
        congrArg Prod.snd (Run.returned.inj hcalls)
      rw [← hstate]
    · exact fetches_same hrows (.inl (Option.some.inj (hrows.symm.trans hnone))) hes
    · exact fetches_same hrows (.inr hfailed) hes

/-- The data of a reply to an insert: one column, and these rows. -/
def insertReply (rows : List Json) : Json :=
  .obj [("statementTypeId", .num 0x3100), ("rowtype", .arr [.obj [("name", .str "inserted")]]),
    ("rowset", .arr rows)]

/-- A statement that was prepared, and then executed with the reply to an insert. -/
def inserted (rows : List Json) : ResultStmt where
  stmt := { stmtReset with
    rawResults := some rows
    totalRowcount := rows.length
    chunkRowcount := rows.length
    totalRowIndex := 0 }
  columns := ⟨setDescription [.obj [("name", .str "inserted")]], 1⟩
  isDml := true

theorem queryReply_insertReply (rows : List Json) :
    queryReply (some (insertReply rows)) = ⟨some rows, none, none⟩ := by
  simp [queryReply, chunksOf, jsonDetachArrayFromObject, jsonCopyInt, jsonCopy, Json.getObjectItem,
    Json.findMember, Json.sameName, insertReply, Except.toOption]

theorem inserted_executed (rows : List Json) : ExecutedDml (inserted rows) := by
  refine ⟨true, some (insertReply rows), ⟨stmtReset, .prepared, false⟩, some .success, ?_, .inr rfl,
    rfl⟩
  unfold executeResult
  rw [queryReply_insertReply]
  rfl

theorem affected_rows_read_only_empty : ReadOnly (inserted []) 2 :=
  (affected_rows_read_only_iff (inserted []) (inserted_executed []) 2).2 (.inr (.inl rfl))

/-- One row was inserted. The first call says so, the second does not; a fetch returns a row without
calls, and a success without a row after one. -/
theorem affected_rows_detaches :
    ExecutedDml (inserted [.arr [.str "1"]]) ∧
    (∃ s', affectedRowsCalls 2 (inserted [.arr [.str "1"]]) = .returned ([1, -1], s')) ∧
    (∃ s', affectedRowsCalls 1 (inserted [.arr [.str "1"]]) = .returned ([1], s') ∧
      ∀ d signalled, fetches s'.stmt [⟨none, d, signalled⟩] = [(.success, none)] ∧
        fetches (inserted [.arr [.str "1"]]).stmt [⟨none, d, signalled⟩] =
          [(.success, some (.arr [.str "1"]))]) :=
  ⟨inserted_executed _, ⟨_, rfl⟩, _, rfl, fun _ _ => ⟨rfl, rfl⟩⟩

end Snowflake
