import SnowflakeClient.CInt

/-!
# Statements and their results

The result part of `SF_STMT` (`include/snowflake/client.h`) and of `SF_CHUNK_DOWNLOADER`
(`lib/chunk_downloader.h`), and the parts of the code that run in one thread:

* `fillQueue`, `chunkDownloaderInit` (`lib/chunk_downloader.c`): the queue that a reply's `chunks`
  array gives, up to the loop that creates the threads.
* `executeEx` (`_snowflake_execute_ex`, `lib/client.c`): what a reply with `success: true` sets.
* `fetchEnter`, `takeChunk`, `fetchRow` (`snowflake_fetch`): the pieces of a fetch. The pieces
  that wait for another thread are put together in `SnowflakeClient/Chunks/Model.lean`.

A row (a `cJSON` array of columns) is any type `Row`: no code here looks inside. A `NULL` pointer
is `none`. The counters `chunk_rowcount`, `total_rowcount` and `total_row_index` are `Int`, and
`cJSON_GetArraySize` is the length of the list: no counter of rows comes near the end of its type.
The heads and sizes of the queue, whose difference the producers compare, are `uint64`.
-/

namespace Snowflake

open CInt

/-- `SF_STATUS`: the codes that the modelled functions return or record. `server` is a code that
the server sent. -/
inductive Status where
  | eof
  | success
  | errorGeneral
  | errorBadConnectionParams
  | errorBadRequest
  | errorBadResponse
  | errorBadJson
  | errorRetry
  | errorCurl
  | errorApplicationError
  | errorPthread
  | server (code : Int)
  deriving DecidableEq, Repr

/-- The number of a code. A `server` code went through a conversion to the 32-bit enumeration. -/
def Status.code : Status → Int
  | eof => -1
  | success => 0
  | errorGeneral => 240000
  | errorBadConnectionParams => 240005
  | errorBadRequest => 240008
  | errorBadResponse => 240009
  | errorBadJson => 240010
  | errorRetry => 240011
  | errorCurl => 240012
  | errorApplicationError => 240014
  | errorPthread => 240015
  | server code => Int.bmod code (2 ^ 32)

/-- `SF_QUEUE_ITEM`. `chunk` is `NULL` until a producer stored it, and again after the fetch took
it. -/
structure QueueItem (Row : Type) where
  url : String
  rowCount : Int
  chunk : Option (List Row)

/-- `SF_CHUNK_DOWNLOADER`, without its threads, its locks and what a download request needs. -/
structure ChunkDownloader (Row : Type) where
  threadCount : Nat
  queue : List (QueueItem Row)
  producerHead : Nat
  consumerHead : Nat
  queueSize : Nat
  isShutdown : Bool
  hasError : Bool

/-- `SF_STMT`, the fields of the result set. `errorCode` is `error.error_code`; the chunk
downloader's `sf_error` points to the same struct. -/
structure Stmt (Row : Type) where
  curRow : Option Row
  rawResults : Option (List Row)
  chunkRowcount : Int
  totalRowcount : Int
  totalRowIndex : Int
  errorCode : Status
  chunkDownloader : Option (ChunkDownloader Row)

/-- An element of a reply's `chunks` array: `none` for a member that is missing or of another
type (or when the element is not an object). -/
structure ChunkJson where
  url : Option String
  rowCount : Option Int

/-- A `chunks` array. `chunk_count` is an `int`. -/
structure ChunkArray where
  items : List ChunkJson
  length_lt : items.length < 2 ^ 31

/-- The `data` object of a reply with `success: true`. `rowset` is `none` if there is no such
array. `chunks` is `none` if there is no such member, and `some none` if it is not an array. -/
structure Reply (Row : Type) where
  rowset : Option (List Row)
  total : Option Int
  chunks : Option (Option ChunkArray)

variable {Row : Type}

/-! ## The chunk downloader's queue -/

namespace ChunkDownloader

/-- `get_shutdown_or_error`. -/
def getShutdownOrError (d : ChunkDownloader Row) : Bool := d.isShutdown || d.hasError

/-- The producers' wait loop (`chunk_downloader_thread`): as many chunks are out as there are
threads, there are items left, and nothing says stop. -/
def producerWaits (d : ChunkDownloader Row) : Bool :=
  decide (d.threadCount ≤ subU64 d.producerHead d.consumerHead) &&
    decide (d.producerHead < d.queueSize) && !d.getShutdownOrError

/-- After the wait loop: the producer leaves its loop. -/
def producerStops (d : ChunkDownloader Row) : Bool :=
  d.getShutdownOrError || decide (d.queueSize ≤ d.producerHead)

/-- `queue[i].chunk = chunk`. -/
def setChunk (d : ChunkDownloader Row) (i : Nat) (chunk : Option (List Row)) :
    ChunkDownloader Row :=
  { d with queue := d.queue.modify i fun item => { item with chunk := chunk } }

end ChunkDownloader

/-- `fill_queue`: each element needs its `url` and its `rowCount`. -/
def fillQueue : List ChunkJson → Option (List (QueueItem Row))
  | [] => some []
  | c :: chunks =>
    match c.url, c.rowCount with
    | some url, some rowCount =>
      (fillQueue chunks).map fun queue => { url, rowCount, chunk := none } :: queue
    | _, _ => none

/-- `chunk_downloader_init` up to the loop that creates the threads: `thread_count` is still 0. -/
def chunkDownloaderInit (threadCount fetchSlots : Nat) (chunks : Option ChunkArray) :
    Option (ChunkDownloader Row) :=
  if threadCount = 0 ∨ fetchSlots = 0 then none
  else
    match chunks with
    | none => none
    | some chunks =>
      match fillQueue chunks.items with
      | none => none
      | some queue =>
        some { threadCount := 0, queue, producerHead := 0, consumerHead := 0,
               queueSize := queue.length, isShutdown := false, hasError := false }

/-! ## Execute -/

/-- `_snowflake_stmt_reset`, as `snowflake_prepare` calls it. -/
def stmtReset : Stmt Row where
  curRow := none
  rawResults := none
  chunkRowcount := -1
  totalRowcount := -1
  totalRowIndex := -1
  errorCode := .success
  chunkDownloader := none

/-- `_snowflake_execute_ex` for a reply with `success: true`, up to the loop that creates the
downloader's threads. The code passes the thread count 2 and 4 fetch slots. The reply to a
PUT or GET command does not touch the result set. -/
def executeEx (threadCount : Nat) (isPutGetCommand : Bool) (r : Reply Row) (s : Stmt Row) :
    Status × Stmt Row :=
  let s := { s with errorCode := .success }
  if isPutGetCommand then (.success, s)
  else
    match r.rowset with
    | none => (.errorGeneral, { s with errorCode := .errorBadJson })
    | some rowset =>
      let s := { s with
        rawResults := some rowset
        totalRowcount := r.total.getD rowset.length
        chunkRowcount := rowset.length
        totalRowIndex := 0 }
      match r.chunks with
      | none => (.success, s)
      | some chunks =>
        match chunkDownloaderInit threadCount 4 chunks with
        | none => (.errorGeneral, { s with chunkDownloader := none })
        | some d => (.success, { s with chunkDownloader := some d })

/-! ## The pieces of a fetch -/

/-- The start of `snowflake_fetch`: clear the error, delete the last row. -/
def fetchEnter (s : Stmt Row) : Stmt Row := { s with errorCode := .success, curRow := none }

/-- Move chunk `index` from the queue to the statement. -/
def takeChunk (s : Stmt Row) (d : ChunkDownloader Row) (index : Nat) (item : QueueItem Row) :
    Stmt Row :=
  { s with
    rawResults := item.chunk
    chunkRowcount := item.rowCount
    chunkDownloader := some ({ d with consumerHead := incU64 d.consumerHead }.setChunk index none) }

/-- The end of a successful `snowflake_fetch`: detach the first row (`NULL` if there is none). -/
def fetchRow (s : Stmt Row) : Stmt Row :=
  { s with
    curRow := (s.rawResults.getD []).head?
    rawResults := s.rawResults.map List.tail
    chunkRowcount := s.chunkRowcount - 1
    totalRowIndex := s.totalRowIndex + 1 }

end Snowflake
