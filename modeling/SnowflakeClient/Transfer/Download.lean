import SnowflakeClient.Conc.Machine
import SnowflakeClient.Transfer.Basic
import SnowflakeClient.Util.ThreadPool

/-!
# A multi-part download

`SnowflakeS3Client::doMultiPartDownload` (`cpp/SnowflakeS3Client.cpp`) from its jobs on: the client
adds one job a part to the thread pool and waits for all of them; a job gets its part into the
buffer of its thread and appends it to the output stream with
`StreamAppender::WritePartToOutputStream` (`cpp/util/ByteArrayStreamBuf.cpp`), which waits until all
parts before it are written.

What S3 answers to the request of each part is fixed (`answers`), the schedule is not. A thread's
buffer and a part's context are touched by one job at a time, so the code of a job between two
critical sections is one step.
-/

namespace Snowflake

open Conc ThreadPool

/-- The answer to the `GetObject` of one part: the bytes that are in the buffer afterwards, and the
outcome. -/
structure Answer where
  received : List UInt8
  result : Except AwsError Unit

def Answer.outcome (answer : Answer) : RemoteStorageRequestOutcome := requestOutcome answer.result

def Answer.succeeded (answer : Answer) : Bool := answer.result.isOk

/-- Where the job of a part is. -/
inductive JobPc where
  /-- Before its request. -/
  | start (part : Nat)
  /-- The part is in the buffer; before the lock in `WritePartToOutputStream`. -/
  | filled (part : Nat)
  /-- In `_cond_wait(&m_streamCv)`, not notified. -/
  | asleep (part : Nat)
  /-- Notified, before it has the lock again. -/
  | notified (part : Nat)
  deriving DecidableEq, Repr

namespace JobPc

def part : JobPc → Nat
  | start k | filled k | asleep k | notified k => k

/-- The part is in the buffer. -/
def loaded : JobPc → Bool
  | start _ => false
  | _ => true

/-- The job can enter the critical section of `WritePartToOutputStream`. -/
def writes : JobPc → Bool
  | filled _ | notified _ => true
  | _ => false

def notify : JobPc → JobPc
  | asleep k => notified k
  | pc => pc

@[simp] theorem part_start (k : Nat) : (start k).part = k := rfl
@[simp] theorem part_asleep (k : Nat) : (asleep k).part = k := rfl

@[simp] theorem part_notify (pc : JobPc) : pc.notify.part = pc.part := by cases pc <;> rfl

@[simp] theorem loaded_notify (pc : JobPc) : pc.notify.loaded = pc.loaded := by cases pc <;> rfl

theorem loaded_of_writes {pc : JobPc} (h : pc.writes = true) : pc.loaded = true := by
  cases pc <;> first | rfl | cases h

end JobPc

/-- A worker whose job is notified. -/
def WorkerPc.notifyWriter : WorkerPc JobPc → WorkerPc JobPc
  | .running pc => .running pc.notify
  | pc => pc

theorem busyWeight_notifyWriter (pc : WorkerPc JobPc) :
    busyWeight pc.notifyWriter = busyWeight pc := by
  cases pc <;> rfl

theorem notifyWriter_ne_exited {pc : WorkerPc JobPc} (h : pc ≠ .exited) :
    pc.notifyWriter ≠ .exited := by
  cases pc with
  | exited => exact absurd rfl h
  | _ => nofun

theorem notifyWriter_ne_asleep {pc : WorkerPc JobPc} (h : pc ≠ .asleep) :
    pc.notifyWriter ≠ .asleep := by
  cases pc with
  | asleep => exact absurd rfl h
  | _ => nofun

/-- `m_streamCv`. -/
def streamCv : CondVar (WorkerPc JobPc) where
  asleep
    | .running (.asleep _) => true
    | _ => false
  wake := WorkerPc.notifyWriter
  wake_awake pc := by
    cases pc with
    | running job => cases job <;> rfl
    | _ => rfl

@[simp] theorem streamCv_notify (pc : WorkerPc JobPc) : streamCv.notify pc = pc.notifyWriter := by
  cases pc with
  | running job => cases job <;> rfl
  | _ => rfl

/-- `doMultiPartDownload` with the pool and the `StreamAppender`. A buffer that is not allocated
yet is empty. -/
structure Download (T : Nat) where
  pool : ThreadPool T Nat JobPc
  /-- `i` of the loop that adds the jobs. -/
  added : Nat
  /-- `m_currentPartIndex`. -/
  currentPartIndex : Nat
  /-- `m_buffers`. -/
  buffers : Fin T → List UInt8
  /-- `m_outcome` of each part; it is not initialised. -/
  outcomes : Nat → Option RemoteStorageRequestOutcome
  /-- What `doMultiPartDownload` returned. -/
  result : Option (Option RemoteStorageRequestOutcome)

/-- The loop over `downloadParts` at the end. `none`: an outcome that was never set is read. -/
def readOutcomes : List (Option RemoteStorageRequestOutcome) → Option RemoteStorageRequestOutcome
  | [] => some .success
  | none :: _ => none
  | some outcome :: rest => if outcome = .success then readOutcomes rest else some outcome

inductive DownloadEvent (T : Nat) where
  /-- The client adds the next job; the signal wakes the worker `w`. -/
  | addJob (w : Option (Fin T))
  /-- A critical section of the client in `WaitAll`, and the end of the function after it. -/
  | waitAll
  /-- A critical section of a worker in `execute_thread`. -/
  | execute (t : Fin T)
  /-- The request of the job of a worker. -/
  | getObject (t : Fin T)
  /-- A critical section of the job of a worker in `WritePartToOutputStream`. -/
  | writePart (t : Fin T)
  /-- Wake-ups that nobody asked for. -/
  | wakeWorker (t : Fin T)
  | wakeWriter (t : Fin T)
  | wakeClient
  deriving DecidableEq, Repr

def DownloadEvent.spurious {T : Nat} : DownloadEvent T → Bool
  | .wakeWorker _ | .wakeWriter _ | .wakeClient => true
  | _ => false

inductive DownloadOutput (T : Nat) where
  /-- The buffer of thread `t` was filled for a part. -/
  | filled (t : Fin T) (part : Nat)
  /-- The buffer of thread `t` was written to the stream for a part. -/
  | write (t : Fin T) (part : Nat) (bytes : List UInt8)
  | flush
  | returned (outcome : Option RemoteStorageRequestOutcome)
  deriving DecidableEq, Repr

namespace Download

variable {T : Nat}

/-- At the first `AddJob`. -/
def start : Download T where
  pool := .new
  added := 0
  currentPartIndex := 0
  buffers _ := []
  outcomes _ := none
  result := none

def setWorker (s : Download T) (t : Fin T) (pc : WorkerPc JobPc) : Download T :=
  { s with pool := s.pool.setWorker t pc }

/-- The job up to `WritePartToOutputStream`, or to its end if the request failed. -/
def getObject (answers : Nat → Answer) (s : Download T) (t : Fin T) (part : Nat) : Download T :=
  { s with
    buffers := Function.update s.buffers t (answers part).received
    outcomes := Function.update s.outcomes part (some (answers part).outcome)
    pool := s.pool.setWorker t
      (if (answers part).succeeded then .running (.filled part) else .enter) }

/-- The rest of `WritePartToOutputStream` after its loop: the next part is up, every writer is
notified and the job is done. -/
def appended (s : Download T) (t : Fin T) : Download T :=
  { s with
    currentPartIndex := s.currentPartIndex + 1
    pool := { s.pool with
      workers := streamCv.broadcast (Function.update s.pool.workers t .enter) } }

/-- A critical section of `WritePartToOutputStream` with `n` parts in all. -/
def writePart (n : Nat) (s : Download T) (t : Fin T) (part : Nat) :
    Download T × List (DownloadOutput T) :=
  if s.currentPartIndex < part then (s.setWorker t (.running (.asleep part)), [])
  else (s.appended t,
    .write t part (s.buffers t) :: if part + 1 = n then [.flush] else [])

def step (answers : Nat → Answer) (n : Nat) (s : Download T) :
    DownloadEvent T → Option (Download T × List (DownloadOutput T))
  | .addJob w =>
    if s.added < n then
      (s.pool.addJob s.added w).map fun pool => ({ s with pool, added := s.added + 1 }, [])
    else none
  | .waitAll =>
    if s.added = n ∧ s.result = none then
      match s.pool.waitAll with
      | none => none
      | some (pool, false) => some ({ s with pool }, [])
      | some (pool, true) =>
        let outcome := readOutcomes ((List.range n).map s.outcomes)
        some ({ s with pool, result := some outcome }, [.returned outcome])
    else none
  | .execute t => (s.pool.executeThread .start t).map fun pool => ({ s with pool }, [])
  | .getObject t =>
    match s.pool.workers t with
    | .running (.start part) => some (s.getObject answers t part, [.filled t part])
    | _ => none
  | .writePart t =>
    match s.pool.workers t with
    | .running pc => if pc.writes then some (s.writePart n t pc.part) else none
    | _ => none
  | .wakeWorker t =>
    if s.pool.workers t = .asleep then some (s.setWorker t .notified, []) else none
  | .wakeWriter t =>
    match s.pool.workers t with
    | .running (.asleep part) => some (s.setWorker t (.running (.notified part)), [])
    | _ => none
  | .wakeClient =>
    if s.pool.waiter = .asleep then
      some ({ s with pool := { s.pool with waiter := .notified } }, [])
    else none

end Download

/-- The download of `n` parts with `T` threads. -/
def download (answers : Nat → Answer) (n T : Nat) :
    Machine (Download T) (DownloadEvent T) (DownloadOutput T) :=
  ⟨Download.step answers n⟩

/-! ## The moves -/

/-- A step, with what it needs. -/
inductive DownloadMove {T : Nat} (answers : Nat → Answer) (n : Nat) (s : Download T) :
    DownloadEvent T → Download T → List (DownloadOutput T) → Prop
  | addJob {w : Option (Fin T)} {pool : ThreadPool T Nat JobPc} :
      s.added < n → s.pool.addJob s.added w = some pool →
      DownloadMove answers n s (.addJob w) { s with pool, added := s.added + 1 } []
  | waitSleep {pool : ThreadPool T Nat JobPc} :
      s.added = n → s.result = none → s.pool.waitAll = some (pool, false) →
      DownloadMove answers n s .waitAll { s with pool } []
  | waitReturn {pool : ThreadPool T Nat JobPc} :
      s.added = n → s.result = none → s.pool.waitAll = some (pool, true) →
      DownloadMove answers n s .waitAll
        { s with pool, result := some (readOutcomes ((List.range n).map s.outcomes)) }
        [.returned (readOutcomes ((List.range n).map s.outcomes))]
  | execute {t : Fin T} {pool : ThreadPool T Nat JobPc} :
      s.pool.executeThread .start t = some pool →
      DownloadMove answers n s (.execute t) { s with pool } []
  | getObject {t : Fin T} {part : Nat} :
      s.pool.workers t = .running (.start part) →
      DownloadMove answers n s (.getObject t) (s.getObject answers t part) [.filled t part]
  | writeSleep {t : Fin T} {pc : JobPc} :
      s.pool.workers t = .running pc → pc.writes = true → s.currentPartIndex < pc.part →
      DownloadMove answers n s (.writePart t) (s.setWorker t (.running (.asleep pc.part))) []
  | write {t : Fin T} {pc : JobPc} :
      s.pool.workers t = .running pc → pc.writes = true → pc.part ≤ s.currentPartIndex →
      DownloadMove answers n s (.writePart t) (s.appended t)
        (.write t pc.part (s.buffers t) :: if pc.part + 1 = n then [.flush] else [])
  | wakeWorker {t : Fin T} :
      s.pool.workers t = .asleep →
      DownloadMove answers n s (.wakeWorker t) (s.setWorker t .notified) []
  | wakeWriter {t : Fin T} {part : Nat} :
      s.pool.workers t = .running (.asleep part) →
      DownloadMove answers n s (.wakeWriter t) (s.setWorker t (.running (.notified part))) []
  | wakeClient :
      s.pool.waiter = .asleep →
      DownloadMove answers n s .wakeClient
        { s with pool := { s.pool with waiter := .notified } } []

theorem download_move {T : Nat} {answers : Nat → Answer} {n : Nat} {s s' : Download T}
    {e : DownloadEvent T} {o : List (DownloadOutput T)}
    (h : (download answers n T).step s e = some (s', o)) : DownloadMove answers n s e s' o := by
  have h : s.step answers n e = some (s', o) := h
  cases e with
  | addJob w =>
    simp only [Download.step] at h
    split at h
    · next hadded =>
      obtain ⟨pool, hpool, heq⟩ := Option.map_eq_some_iff.mp h
      cases heq
      exact .addJob hadded hpool
    · cases h
  | waitAll =>
    simp only [Download.step] at h
    split at h
    · next hcall =>
      split at h
      · cases h
      · next hpool =>
        cases h
        exact .waitSleep hcall.1 hcall.2 hpool
      · next hpool =>
        cases h
        exact .waitReturn hcall.1 hcall.2 hpool
    · cases h
  | execute t =>
    obtain ⟨pool, hpool, heq⟩ := Option.map_eq_some_iff.mp h
    cases heq
    exact .execute hpool
  | getObject t =>
    simp only [Download.step] at h
    split at h
    · next hpc =>
      cases h
      exact .getObject hpc
    · cases h
  | writePart t =>
    simp only [Download.step] at h
    split at h
    · next hpc =>
      split at h
      · next hwrites =>
        simp only [Option.some.injEq, Download.writePart] at h
        split at h
        · next hlt =>
          cases h
          exact .writeSleep hpc hwrites hlt
        · next hle =>
          cases h
          exact .write hpc hwrites (Nat.le_of_not_lt hle)
      · cases h
    · cases h
  | wakeWorker t =>
    simp only [Download.step] at h
    split at h
    · next hpc =>
      cases h
      exact .wakeWorker hpc
    · cases h
  | wakeWriter t =>
    simp only [Download.step] at h
    split at h
    · next hpc =>
      cases h
      exact .wakeWriter hpc
    · cases h
  | wakeClient =>
    simp only [Download.step] at h
    split at h
    · next hw =>
      cases h
      exact .wakeClient hw
    · cases h

/-- Each move is a step. -/
theorem DownloadMove.step {T : Nat} {answers : Nat → Answer} {n : Nat} {s s' : Download T}
    {e : DownloadEvent T} {o : List (DownloadOutput T)} (h : DownloadMove answers n s e s' o) :
    (download answers n T).step s e = some (s', o) := by
  show s.step answers n e = some (s', o)
  cases h with
  | addJob hadded hpool =>
    simp only [Download.step, if_pos hadded, hpool, Option.map_some]
  | waitSleep hadded hnone hpool | waitReturn hadded hnone hpool =>
    simp only [Download.step, if_pos (And.intro hadded hnone), hpool]
  | execute hpool => simp only [Download.step, hpool, Option.map_some]
  | getObject hpc => simp only [Download.step, hpc]
  | writeSleep hpc hwrites hlt =>
    simp only [Download.step, hpc, hwrites, if_true, Download.writePart, if_pos hlt]
  | write hpc hwrites hle =>
    simp only [Download.step, hpc, hwrites, if_true, Download.writePart,
      if_neg (Nat.not_lt_of_le hle)]
  | wakeWorker hpc => simp only [Download.step, if_pos hpc]
  | wakeWriter hpc => simp only [Download.step, hpc]
  | wakeClient hw => simp only [Download.step, if_pos hw]

end Snowflake
