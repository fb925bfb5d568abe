import SnowflakeClient.Stmt.Basic
import SnowflakeClient.Conc.Machine
import SnowflakeClient.Conc.CondVar

/-!
# The statement and its chunk downloader as a machine

The parties: the `N` producer threads (`chunk_downloader_thread`), the fetching thread
(`snowflake_execute`, the thread creation loop of `chunk_downloader_init`, `snowflake_fetch`), and
`K` callers of `chunk_downloader_term`. A step is one critical section of `queue_lock`, or what a
thread does between two of them (a download, the creation of a thread). So:

* `_cond_wait` ends a step: the thread sleeps (`asleep`). A signal or broadcast makes it
  `notified`; a notified thread starts its next step by testing its wait loop again.
* `has_error` is set under `attr_lock` alone (`downloadFail`), between two critical sections.
* `thread_count` grows while earlier threads already run (`spawn`, `countThread`).
* A caller of `chunk_downloader_term` that leaves its section without the unlock keeps
  `queue_lock` locked for ever (`abandoned`): no section can start any more.

The lock instructions themselves are the subject of `SnowflakeClient/Chunks/Lock.lean`.

`download url` is the JSON array that a successful download of `url` gives. `http_perform` returns
true only with a parsed, non-`NULL` array. What an old downloader's threads do after
`snowflake_execute` replaced it is not part of the machine: the statement has no pointer to it.
-/

namespace Snowflake

open CInt Conc

/-- Where a producer thread is in `chunk_downloader_thread`. -/
inductive ProducerPc (Row : Type) where
  /-- Not created. -/
  | absent
  /-- At the lock at the top of its loop. -/
  | ready
  /-- In `_cond_wait(&producer_cond, ..)`, not notified. -/
  | asleep
  /-- Notified: it tests the wait loop again. -/
  | notified
  /-- It took `index` and dropped the lock. -/
  | downloading (index : Nat)
  /-- The download gave `chunk`; it is at the second lock. -/
  | downloaded (index : Nat) (chunk : List Row)
  /-- It left its loop. -/
  | exited

/-- Where the fetching thread is in `snowflake_fetch`. -/
inductive FetcherPc where
  /-- Not in a call. -/
  | idle
  /-- In `_cond_wait(&consumer_cond, ..)` for chunk `index`, not notified. -/
  | asleep (index : Nat)
  | notified (index : Nat)
  deriving DecidableEq

/-- Where the fetching thread is in the loop of `chunk_downloader_init`. -/
inductive InitPc where
  /-- It is going to create thread `i`. -/
  | create (i : Nat)
  /-- Thread `i` runs; `thread_count++` is next. -/
  | count (i : Nat)
  /-- Not in the loop: `chunk_downloader_init` returned. -/
  | done
  /-- `_thread_init` failed; it calls `chunk_downloader_term`. -/
  | failed
  deriving DecidableEq

/-- Where a caller of `chunk_downloader_term` is. -/
inductive TermPc where
  | idle
  /-- In the join loop, at thread `i`. -/
  | joining (i : Nat)
  | returned
  deriving DecidableEq

/-- The result of `_cond_signal(&producer_cond)`: success, with the sleeper that it wakes, or an
error code. -/
inductive SignalRc (N : Nat) where
  | ok (woken : Option (Fin N))
  | error

/-- The results of the two broadcasts of `chunk_downloader_term`, up to the first that fails. -/
inductive BroadcastRc where
  | ok
  | consumerFails
  | producerFails

/-- The state of all parties (module doc). -/
structure Client (N K : Nat) (Row : Type) where
  stmt : Stmt Row
  init : InitPc
  producers : Fin N → ProducerPc Row
  fetcher : FetcherPc
  terms : Fin K → TermPc
  abandoned : Bool

inductive Event (N K : Nat) (Row : Type) where
  /-- `snowflake_execute`, with the reply `r`. -/
  | execute (r : Reply Row)
  | spawn
  | spawnFail
  | countThread
  /-- A producer's first section: sleep, leave, or take an index. -/
  | check (t : Fin N)
  | downloadOk (t : Fin N)
  | downloadFail (t : Fin N) (err : Status)
  /-- A producer's second section: store the chunk and signal. -/
  | post (t : Fin N) (signalled : Bool)
  /-- A wake-up without a signal. -/
  | wakeProducer (t : Fin N)
  | wakeFetcher
  /-- A call of `snowflake_fetch`, up to its return or its first sleep. -/
  | fetch (rc : SignalRc N)
  /-- The notified fetching thread goes on. -/
  | resume (rc : SignalRc N)
  | term (k : Fin K) (rc : BroadcastRc)
  | join (k : Fin K)

/-- What an observer sees. -/
inductive Output (N : Nat) (Row : Type) where
  | executed (r : Reply Row)
  | indexTaken (t : Fin N) (index : Nat)
  | chunkTaken (index : Nat) (chunk : Option (List Row))
  | fetchReturns (status : Status) (row : Option Row)

variable {N K : Nat} {Row : Type}

/-- `producer_cond`. -/
def producerCond : CondVar (ProducerPc Row) where
  asleep p := match p with | .asleep => true | _ => false
  wake _ := .notified
  wake_awake _ := rfl

/-- The fetching thread after a signal or broadcast of `consumer_cond`. -/
def FetcherPc.notify : FetcherPc → FetcherPc
  | .asleep index => .notified index
  | p => p

namespace Client

/-! ## The fetching thread -/

/-- `snowflake_execute` returns. A reply with a `chunks` member replaces the downloader; a reply
without one leaves the old one where it is. -/
def execute (isPutGetCommand : Bool) (r : Reply Row) (c : Client N K Row) : Client N K Row :=
  let s := (executeEx N isPutGetCommand r c.stmt).2
  if !isPutGetCommand && r.rowset.isSome && r.chunks.isSome then
    { c with
      stmt := s
      producers := fun _ => .absent
      init := if s.chunkDownloader.isSome then .create 0 else .done
      abandoned := false }
  else { c with stmt := s }

/-- `snowflake_fetch` returns `status`. -/
def fetchReturn (c : Client N K Row) (s : Stmt Row) (status : Status) :
    Client N K Row × List (Output N Row) :=
  ({ c with stmt := s, fetcher := .idle }, [.fetchReturns status s.curRow])

/-- The locked region of `snowflake_fetch` from its wait loop on. `s` is the statement, `d` its
downloader. -/
def fetchChunk (c : Client N K Row) (s : Stmt Row) (d : ChunkDownloader Row) (index : Nat)
    (rc : SignalRc N) : Option (Client N K Row × List (Output N Row)) :=
  match d.queue[index]? with
  | none => none
  | some item =>
    if item.chunk.isNone && !d.getShutdownOrError then
      some ({ c with stmt := s, fetcher := .asleep index }, [])
    else if d.hasError then some (c.fetchReturn s .errorGeneral)
    else if d.isShutdown then some (c.fetchReturn s .errorGeneral)
    else
      match rc with
      | .error =>
        let r := c.fetchReturn { takeChunk s d index item with errorCode := .errorPthread }
          .errorGeneral
        some (r.1, .chunkTaken index item.chunk :: r.2)
      | .ok woken =>
        (producerCond.signal c.producers woken).map fun producers =>
          let r := { c with producers }.fetchReturn (fetchRow (takeChunk s d index item)) .success
          (r.1, .chunkTaken index item.chunk :: r.2)

/-- `snowflake_fetch`, up to its return or its first sleep. -/
def fetch (c : Client N K Row) (rc : SignalRc N) :
    Option (Client N K Row × List (Output N Row)) :=
  let s := fetchEnter c.stmt
  if s.chunkDownloader.any (·.hasError) then some (c.fetchReturn s .errorGeneral)
  else if s.chunkRowcount = 0 then
    match s.chunkDownloader with
    | none => some (c.fetchReturn s .eof)
    | some d =>
      if c.abandoned then none
      else if d.queueSize ≤ d.consumerHead then
        some (c.fetchReturn { s with rawResults := none } .eof)
      else c.fetchChunk s d d.consumerHead rc
  else some (c.fetchReturn (fetchRow s) .success)

/-! ## The producers -/

def setProducer (c : Client N K Row) (t : Fin N) (p : ProducerPc Row) : Client N K Row :=
  { c with producers := Function.update c.producers t p }

def setDownloader (c : Client N K Row) (d : ChunkDownloader Row) : Client N K Row :=
  { c with stmt := { c.stmt with chunkDownloader := some d } }

/-- Record an error, if none is recorded (`attr_lock`). -/
def recordError (c : Client N K Row) (d : ChunkDownloader Row) (err : Status) : Client N K Row :=
  if d.hasError then c.setDownloader d
  else
    { c with stmt := { c.stmt with
        errorCode := err
        chunkDownloader := some { d with hasError := true } } }

/-- A producer's first section. -/
def check (c : Client N K Row) (d : ChunkDownloader Row) (t : Fin N) :
    Client N K Row × List (Output N Row) :=
  if d.producerWaits then (c.setProducer t .asleep, [])
  else if d.producerStops then (c.setProducer t .exited, [])
  else
    ((c.setDownloader { d with producerHead := incU64 d.producerHead }).setProducer t
      (.downloading d.producerHead), [.indexTaken t d.producerHead])

/-- A producer's second section. -/
def post (c : Client N K Row) (d : ChunkDownloader Row) (t : Fin N) (index : Nat)
    (chunk : List Row) (signalled : Bool) : Client N K Row :=
  if d.hasError then c.setProducer t .exited
  else if signalled then
    { c.setDownloader (d.setChunk index (some chunk)) with fetcher := c.fetcher.notify }.setProducer
      t .ready
  else (c.recordError (d.setChunk index (some chunk)) .errorPthread).setProducer t .exited

/-! ## `chunk_downloader_term` -/

/-- The locked region of `chunk_downloader_term`. A failed broadcast skips what stands after it in
the `||`, the unlock included. -/
def term (c : Client N K Row) (d : ChunkDownloader Row) (k : Fin K) (rc : BroadcastRc) :
    Client N K Row :=
  if d.isShutdown then
    { c with terms := Function.update c.terms k .returned, abandoned := true }
  else
    let c := (c.setDownloader { d with isShutdown := true })
    let c := { c with terms := Function.update c.terms k (.joining 0) }
    match rc with
    | .ok =>
      { c with fetcher := c.fetcher.notify, producers := producerCond.broadcast c.producers }
    | .consumerFails =>
      { c.recordError { d with isShutdown := true } .errorPthread with abandoned := true }
    | .producerFails =>
      { c.recordError { d with isShutdown := true } .errorPthread with
        fetcher := c.fetcher.notify, abandoned := true }

/-- One round of the join loop, or, after it, the end of `chunk_downloader_term`. -/
def join (c : Client N K Row) (d : ChunkDownloader Row) (k : Fin K) (i : Nat) :
    Option (Client N K Row) :=
  if i < d.threadCount then
    if h : i < N then
      match c.producers ⟨i, h⟩ with
      | .exited => some { c with terms := Function.update c.terms k (.joining (i + 1)) }
      | _ => none
    else none
  else
    some { c with
      stmt := { c.stmt with chunkDownloader := none }
      terms := Function.update c.terms k .returned }

end Client

/-! ## The machine -/

section Machine

variable (download : String → List Row) (isPutGetCommand : Bool)

/-- A step with the current downloader `d`. -/
def Client.stepWith (c : Client N K Row) (d : ChunkDownloader Row) :
    Event N K Row → Option (Client N K Row × List (Output N Row))
  | .spawn =>
    match c.init with
    | .create i =>
      if h : i < N then
        some ({ c.setProducer ⟨i, h⟩ .ready with init := .count i }, [])
      else none
    | _ => none
  | .spawnFail =>
    match c.init with
    | .create _ => some ({ c with init := .failed }, [])
    | _ => none
  | .countThread =>
    match c.init with
    | .count i =>
      some ({ c.setDownloader { d with threadCount := incU64 d.threadCount } with
        init := if i + 1 < N then .create (i + 1) else .done }, [])
    | _ => none
  | .check t =>
    if c.abandoned then none
    else
      match c.producers t with
      | .ready | .notified => some (c.check d t)
      | _ => none
  | .downloadOk t =>
    match c.producers t with
    | .downloading index =>
      d.queue[index]?.map fun item => (c.setProducer t (.downloaded index (download item.url)), [])
    | _ => none
  | .downloadFail t err =>
    match c.producers t with
    | .downloading _ => some ((c.recordError d err).setProducer t .exited, [])
    | _ => none
  | .post t signalled =>
    if c.abandoned then none
    else
      match c.producers t with
      | .downloaded index chunk => some (c.post d t index chunk signalled, [])
      | _ => none
  | .wakeProducer t =>
    (producerCond.signal c.producers (some t)).map fun producers => ({ c with producers }, [])
  | .wakeFetcher =>
    match c.fetcher with
    | .asleep index => some ({ c with fetcher := .notified index }, [])
    | _ => none
  | .resume rc =>
    match c.fetcher with
    | .notified index => if c.abandoned then none else c.fetchChunk c.stmt d index rc
    | _ => none
  | .term k rc =>
    if c.abandoned then none
    else
      match c.terms k, c.init with
      | .idle, .done | .idle, .failed => some (c.term d k rc, [])
      | _, _ => none
  | .join k =>
    match c.terms k with
    | .joining i => (c.join d k i).map fun c => (c, [])
    | _ => none
  | .execute _ | .fetch _ => none

/-- The step function (module doc). -/
def Client.step (c : Client N K Row) (e : Event N K Row) :
    Option (Client N K Row × List (Output N Row)) :=
  match e with
  | .execute r =>
    match c.fetcher, c.init with
    | .idle, .done =>
      if ∀ k, c.terms k = .idle then some (c.execute isPutGetCommand r, [.executed r]) else none
    | _, _ => none
  | .fetch rc =>
    match c.fetcher, c.init with
    | .idle, .done => c.fetch rc
    | _, _ => none
  | e => c.stmt.chunkDownloader.bind fun d => c.stepWith download d e

def client (N K : Nat) : Machine (Client N K Row) (Event N K Row) (Output N Row) where
  step := Client.step download isPutGetCommand

end Machine

/-- The statement after `snowflake_prepare`. -/
def Client.prepared : Client N K Row where
  stmt := stmtReset
  init := .done
  producers _ := .absent
  fetcher := .idle
  terms _ := .idle
  abandoned := false

end Snowflake
