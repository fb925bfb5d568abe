import SnowflakeClient.Conc.Machine
import SnowflakeClient.Connection.Connect

/-!
# The calls of a statement and its error struct

`snowflake_execute` and `snowflake_fetch` (`lib/client.c`) against everything that writes
`sfstmt->error`: the calls clear it when they start, requests and the calls themselves set it, and
the threads of the chunk downloader set it at any time, through the pointer `sf_error`.

* The calling thread's steps are the stretches between two accesses to what the other threads
  write. A call returns in a step of its own (`ret`), and what it returns is seen together with the
  error code at that moment.
* A thread that records an error holds `attr_lock`. It writes the error struct first (`copyError`)
  and sets `has_error` after that (`flagError`). `clear_snowflake_error` takes no lock, so a call
  can start between the two; whoever reads `has_error` or `is_shutdown` waits for the second.
  The error of a download is copied with its message, so a code of 0 (whose message is `NULL`)
  does not get this far.
* `background` and `freed` are anything else that the downloader's threads and the callers of
  `chunk_downloader_term` can do to the downloader. How they do it is the subject of
  `SnowflakeClient/Chunks/Model.lean`; `SnowflakeClient/Stmt/ApiClient.lean` shows that its steps
  are among these. The threads of a downloader that `snowflake_execute` has replaced still have
  the pointer to the error struct (`staleError`).
* Between two calls the application may use the other functions (`other`, `connection`,
  `prepare`).

A row is a `cJSON` tree. The threads that `chunk_downloader_init` creates are not counted here:
`created` and `createFails` are the two ends of its loop.
-/

namespace Snowflake

open Conc

/-! ## Execute -/

/-- An element of `chunks`, as `fill_queue` reads it. -/
def chunkJson (chunk : Json) : ChunkJson where
  url := (jsonCopyString (some chunk) "url").toOption
  rowCount := (jsonCopyInt (some chunk) "rowCount").toOption

/-- The member `chunks` of the data. `chunk_downloader_init` wants an array under exactly this
name, though the member was looked up in any case; an array that no `int` can count has no memory
for its queue. -/
def chunksOf (data : Option Json) : Option (Option ChunkArray) :=
  match Json.findMember data "chunks" with
  | some (name, .arr items) =>
    if h : items.length < 2 ^ 31 then
      if name = "chunks" then some (some ⟨items.map chunkJson, by rwa [List.length_map]⟩)
      else some none
    else some none
  | some _ => some none
  | none => none

/-- The data of a reply to a query. -/
def queryReply (data : Option Json) : Reply Json where
  rowset := (jsonDetachArrayFromObject data "rowset").toOption
  total := (jsonCopyInt data "total").toOption
  chunks := chunksOf data

/-- `create_chunk_headers` reads through `NULL` if the headers are no object. -/
def headersReadable (data : Option Json) : Bool :=
  match Json.getObjectItem data "chunkHeaders" with
  | none | some (.obj _) => true
  | some _ => false

/-- The member that `_set_current_objects` looks at. -/
def SessionObject.finalName : SessionObject → String
  | database => "finalDatabaseName"
  | schema => "finalSchemaName"
  | warehouse => "finalWarehouseName"
  | role => "finalRoleName"

/-- `_set_current_objects`. -/
def setCurrentObjects (sf : SfConnect) (data : Option Json) : SfConnect :=
  SessionObject.all.foldl (fun sf o =>
    match jsonCopyString data o.finalName with
    | .ok name => o.set sf (some name)
    | .error _ => sf) sf

/-- The result set of a reply with `success: true`. `none` for the status: the threads of the
downloader are created next. `locks` says if `init_locks` succeeds. -/
def executeData {Row : Type} (threadCount : Nat) (locks : Bool) (r : Reply Row) (s : Stmt Row) :
    Option Status × Stmt Row :=
  match r.rowset with
  | none => (some .errorGeneral, { s with errorCode := .errorBadJson })
  | some rowset =>
    let s := { s with
      rawResults := some rowset
      totalRowcount := r.total.getD rowset.length
      chunkRowcount := rowset.length
      totalRowIndex := 0 }
    match r.chunks with
    | none => (some .success, s)
    | some chunks =>
      if chunks.isSome && !locks then
        (some .errorGeneral, { s with chunkDownloader := none, errorCode := .errorPthread })
      else
        match chunkDownloaderInit threadCount 4 chunks with
        | none => (some .errorGeneral, { s with chunkDownloader := none })
        | some d => (none, { s with chunkDownloader := some d })

/-- `_snowflake_execute_ex` at a reply. `none` if it reads through a `NULL` pointer. -/
def executeResponse (isPutGetCommand locks : Bool) (resp : Option Json) (sf : SfConnect)
    (s : Stmt Json) : Option (Option Status × SfConnect × Stmt Json) :=
  match jsonCopyBool resp "success" with
  | .error _ => some (some .errorGeneral, sf, { s with errorCode := .errorBadJson })
  | .ok false =>
    match Json.getObjectItem resp "code" with
    | none => some (some .errorGeneral, sf, { s with errorCode := .server (-1) })
    | some code =>
      match code.valuestring with
      | none => none
      | some text => some (some .errorGeneral, sf, { s with errorCode := .server (strtol text) })
  | .ok true =>
    if isPutGetCommand then some (some .success, sf, s)
    else
      let data := Json.getObjectItem resp "data"
      -- a failed check of the session objects is ignored
      match resetConnectionParameters (setCurrentObjects sf data)
          (Json.getObjectItem data "parameters") (Json.getObjectItem data "sessionInfo") true with
      | none => none
      | some (sf, _) =>
        let reply := queryReply data
        if reply.rowset.isSome && reply.chunks.any Option.isSome && !headersReadable data then none
        else
          let r := executeData 2 locks reply s
          some (r.1, sf, r.2)

/-- The reply makes `snowflake_execute` store what `chunk_downloader_init` returns. -/
def replacesDownloader (isPutGetCommand : Bool) (resp : Option Json) : Bool :=
  match jsonCopyBool resp "success" with
  | .ok true =>
    let reply := queryReply (Json.getObjectItem resp "data")
    !isPutGetCommand && reply.rowset.isSome && reply.chunks.isSome
  | _ => false

/-! ## Fetch -/

/-- The locked region of `snowflake_fetch` from its wait loop on: `none` for the status if the
thread waits. -/
def fetchSection {Row : Type} (s : Stmt Row) (d : ChunkDownloader Row) (index : Nat)
    (signalled : Bool) : Option (Option Status × Stmt Row) :=
  match d.queue[index]? with
  | none => none
  | some item =>
    if item.chunk.isNone && !d.getShutdownOrError then some (none, s)
    else if d.hasError then some (some .errorGeneral, s)
    else if d.isShutdown then some (some .errorGeneral, s)
    else if signalled then some (some .success, fetchRow (takeChunk s d index item))
    else some (some .errorGeneral, { takeChunk s d index item with errorCode := .errorPthread })

/-! ## The machine -/

inductive ApiCall where
  | execute
  | fetch
  deriving DecidableEq, Repr

/-- Where the calling thread is. -/
inductive ApiPc where
  /-- Not in one of the two calls. -/
  | idle
  /-- In `snowflake_execute`, after the error was cleared. -/
  | executing
  /-- In the loop of `chunk_downloader_init`. -/
  | creating
  /-- In `snowflake_fetch`, after the error was cleared. -/
  | fetching
  /-- In `snowflake_fetch`, at the lock of the queue. -/
  | locking
  /-- In `_cond_wait(&consumer_cond, ..)` for chunk `index`. -/
  | waiting (index : Nat)
  /-- The call is over but for its return. -/
  | returning (call : ApiCall) (status : Status)
  deriving DecidableEq, Repr

/-- The statement, its connection, the calling thread, and whether some thread is between the two
writes of recording an error. -/
structure Api where
  sf : SfConnect
  stmt : Stmt Json
  pc : ApiPc
  recording : Bool

inductive ApiEvent where
  | executeEnter
  /-- The rest of `snowflake_execute`, up to the creation of threads: if the text is a PUT or GET
  command, what the network does, and if the locks can be made. -/
  | executeReply (isPutGetCommand : Bool) (fuel : Nat) (attempts : List Attempt) (locks : Bool)
  | created
  | createFails
  | fetchEnter
  | fetchCheck
  /-- The locked region. -/
  | fetchLock (signalled : Bool)
  /-- The thread wakes up in the locked region. -/
  | fetchWake (signalled : Bool)
  | ret
  | copyError (err : Status)
  | flagError
  | staleError (err : Status)
  | background (d : ChunkDownloader Json)
  | freed
  | prepare
  | other (errorCode : Status)
  | connection (sf : SfConnect)

/-- A call returned `status`; `errorCode` is `sfstmt->error.error_code` then. -/
structure Returned where
  call : ApiCall
  status : Status
  errorCode : Status
  deriving DecidableEq, Repr

namespace Api

/-- What the request of `snowflake_execute` starts from. -/
def session (a : Api) (attempts : List Attempt) : Session :=
  .start a.sf { SfError.cleared with errorCode := a.stmt.errorCode } attempts

def returns (a : Api) (call : ApiCall) (status : Status) (s : Stmt Json) : Api :=
  { a with stmt := s, pc := .returning call status }

/-- `_snowflake_execute_ex` after the error was cleared. -/
def executeReply (isPutGetCommand : Bool) (a : Api) (fuel : Nat) (attempts : List Attempt)
    (locks : Bool) : Option Api :=
  if isStringEmpty a.sf.directURL &&
      (isStringEmpty a.sf.masterToken || isStringEmpty a.sf.token) then
    some (a.returns .execute .errorGeneral
      { a.stmt with errorCode := .errorBadConnectionParams })
  else
    match requestPost fuel (a.session attempts) with
    | (none, _) => none
    | (some (false, _), s) =>
      some ({ a with sf := s.sf }.returns .execute .errorGeneral
        { a.stmt with errorCode := s.error.errorCode })
    | (some (true, resp), s) =>
      match executeResponse isPutGetCommand locks resp s.sf
          { a.stmt with errorCode := s.error.errorCode } with
      | none => none
      | some (status, sf, stmt) =>
        -- a thread of a downloader that was replaced sets the flag of the old one
        let recording := a.recording && !replacesDownloader isPutGetCommand resp
        match status with
        | some status => some ({ a with sf, recording }.returns .execute status stmt)
        | none => some { a with sf, stmt, recording, pc := .creating }

/-- `snowflake_fetch` after the error was cleared, up to the lock. -/
def fetchCheck (a : Api) : Api :=
  if a.stmt.chunkDownloader.any (·.hasError) then a.returns .fetch .errorGeneral a.stmt
  else if a.stmt.chunkRowcount = 0 then
    match a.stmt.chunkDownloader with
    | none => a.returns .fetch .eof a.stmt
    | some _ => { a with pc := .locking }
  else a.returns .fetch .success (fetchRow a.stmt)

/-- The wait loop of `snowflake_fetch` and what follows. -/
def fetchAt (a : Api) (d : ChunkDownloader Json) (index : Nat) (signalled : Bool) : Option Api :=
  match fetchSection a.stmt d index signalled with
  | none => none
  | some (none, _) => some { a with pc := .waiting index }
  | some (some status, s) => some (a.returns .fetch status s)

/-- A step of the calling thread in the two calls. -/
def callStep (a : Api) : ApiPc → ApiEvent → Option (Api × List Returned)
  | .idle, .executeEnter =>
    some ({ a with stmt := { a.stmt with errorCode := .success }, pc := .executing }, [])
  | .executing, .executeReply isPutGetCommand fuel attempts locks =>
    (a.executeReply isPutGetCommand fuel attempts locks).map fun a => (a, [])
  | .creating, .created => some (a.returns .execute .success a.stmt, [])
  | .creating, .createFails =>
    -- the threads that were created have been joined, and the downloader is gone
    if a.recording then none
    else
      some (a.returns .execute .errorGeneral
        { a.stmt with chunkDownloader := none, errorCode := .errorPthread }, [])
  | .idle, .fetchEnter => some ({ a with stmt := fetchEnter a.stmt, pc := .fetching }, [])
  | .fetching, .fetchCheck => if a.recording then none else some (a.fetchCheck, [])
  | .locking, .fetchLock signalled =>
    match a.recording, a.stmt.chunkDownloader with
    | false, some d =>
      if d.queueSize ≤ d.consumerHead then
        some (a.returns .fetch .eof { a.stmt with rawResults := none }, [])
      else (a.fetchAt d d.consumerHead signalled).map fun a => (a, [])
    | _, _ => none
  | .waiting index, .fetchWake signalled =>
    match a.recording, a.stmt.chunkDownloader with
    | false, some d => (a.fetchAt d index signalled).map fun a => (a, [])
    | _, _ => none
  | .returning call status, .ret =>
    some ({ a with pc := .idle }, [⟨call, status, a.stmt.errorCode⟩])
  | .idle, .prepare => if a.recording then none else some ({ a with stmt := stmtReset }, [])
  | .idle, .other errorCode => some ({ a with stmt := { a.stmt with errorCode } }, [])
  | .idle, .connection sf => some ({ a with sf }, [])
  | _, _ => none

/-- The statement with another downloader. -/
def setDownloader (a : Api) (d : Option (ChunkDownloader Json)) : Api :=
  { a with stmt := { a.stmt with chunkDownloader := d } }

def step (a : Api) (e : ApiEvent) : Option (Api × List Returned) :=
  match e, a.stmt.chunkDownloader with
  | .copyError err, some d =>
    if a.recording || d.hasError || err.code == 0 then none
    else some ({ a with stmt := { a.stmt with errorCode := err }, recording := true }, [])
  | .flagError, some d =>
    if a.recording then
      some ({ a.setDownloader (some { d with hasError := true }) with recording := false }, [])
    else none
  | .background d', some d =>
    if d'.hasError = d.hasError then some (a.setDownloader (some d'), []) else none
  | .freed, some _ => if a.recording then none else some (a.setDownloader none, [])
  | .staleError err, _ =>
    if err.code = 0 then none else some ({ a with stmt := { a.stmt with errorCode := err } }, [])
  | .copyError _, none | .flagError, none | .background _, none | .freed, none => none
  | e, _ => a.callStep a.pc e

end Api

/-- The machine of the calls of a statement. -/
def api : Machine Api ApiEvent Returned where
  step := Api.step

/-- A statement that was prepared. -/
def Api.prepared (sf : SfConnect) : Api where
  sf := sf
  stmt := stmtReset
  pc := .idle
  recording := false

end Snowflake
