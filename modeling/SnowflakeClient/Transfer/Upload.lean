import SnowflakeClient.Transfer.Basic
import SnowflakeClient.Util.PoolJobs

/-!
# A multi-part upload

`SnowflakeS3Client::doMultiPartUpload` (`cpp/SnowflakeS3Client.cpp`) from its jobs on. The client
adds one job a part to the thread pool and waits for all of them. A job does not know its part: it
asks the `StreamSplitter` (`cpp/util/ByteArrayStreamBuf.cpp`) for the next one, which reads it into
the buffer of the thread (`FillAndGetBuf`, one critical section of `streamMutex`), puts the buffer
into the context of the part, and sends what is in the buffer of the context.

`m_currentPartIndex` and the part number of a request are of type `int`; beyond its range they wrap
around, as on every supported compiler.
`uploadParts[partId]` with an index that is not in the vector is undefined behaviour: the job has no
step then.
-/

namespace Snowflake

open Conc ThreadPool CInt

/-- `MultiUploadCtx`. `buf` is the thread whose buffer it points to. -/
structure MultiUploadCtx (T : Nat) where
  buf : Option (Fin T)
  partNumber : Nat
  outcome : Option RemoteStorageRequestOutcome

/-- What the jobs of an upload share: the splitter (what is left of its stream, its counter and its
buffers) and the contexts. -/
structure UploadState (T : Nat) where
  input : List UInt8
  currentPartIndex : Int
  buffers : Fin T → List UInt8
  uploadParts : List (MultiUploadCtx T)

/-- Where a job is. -/
inductive UploadPc where
  | start
  /-- `FillAndGetBuf` returned. -/
  | filled (partId : Int)
  /-- The context has its buffer. -/
  | attached (partId : Int)
  deriving DecidableEq, Repr

inductive UploadOutput where
  | obtained (partId : Int)
  /-- The `UploadPart` request of the job with the index `partId`. -/
  | uploaded (partId partNumber : Int) (bytes : List UInt8)
  deriving DecidableEq, Repr

variable {T : Nat}

namespace UploadState

/-- `StreamSplitter::FillAndGetBuf`. `read` and `gcount` give what is left if that is less than a
part. -/
def fillAndGetBuf (partMaxSize : Nat) (s : UploadState T) (t : Fin T) : UploadState T × Int :=
  let partIndex := toI32 (s.currentPartIndex + 1)
  ({ s with
      input := s.input.drop partMaxSize
      buffers := Function.update s.buffers t (s.input.take partMaxSize)
      currentPartIndex := partIndex }, partIndex)

/-- `uploadParts[partId]`. -/
def ctx? (s : UploadState T) (partId : Int) : Option (MultiUploadCtx T) :=
  if 0 ≤ partId then s.uploadParts[partId.toNat]? else none

def setCtx (s : UploadState T) (partId : Int) (ctx : MultiUploadCtx T) : UploadState T :=
  { s with uploadParts := s.uploadParts.set partId.toNat ctx }

end UploadState

/-- The job of a part. `answers` is what S3 answers, by part number. -/
def uploadCode (partMaxSize : Nat) (answers : Nat → Except AwsError Unit) :
    JobCode T (UploadState T) Unit UploadPc UploadOutput where
  start _ := .start
  step s t
    | .start =>
      let r := s.fillAndGetBuf partMaxSize t
      some (r.1, some (.filled r.2), [.obtained r.2])
    | .filled partId =>
      (s.ctx? partId).map fun ctx =>
        (s.setCtx partId { ctx with buf := some t }, some (.attached partId), [])
    | .attached partId =>
      (s.ctx? partId).bind fun ctx => ctx.buf.map fun buf =>
        (s.setCtx partId { ctx with outcome := some (requestOutcome (answers ctx.partNumber)) },
          none, [.uploaded partId (toI32 ctx.partNumber) (s.buffers buf)])

/-- `StreamSplitter::getTotalParts` with any part size. -/
def totalParts (partMaxSize streamSize : Nat) : Nat := toU32 (streamSize / partMaxSize + 1)

theorem getTotalParts_eq (streamSize : Nat) :
    getTotalParts streamSize = totalParts dataSizeThreshold streamSize :=
  rfl

/-- The calls on the pool. -/
def uploadCalls (parts : Nat) : List (Call Unit) :=
  List.replicate parts (.addJob ()) ++ [.waitAll]

/-- `uploadParts` when the jobs are added. -/
def uploadContexts (parts : Nat) : List (MultiUploadCtx T) :=
  (List.range parts).map fun i => { buf := none, partNumber := i + 1, outcome := none }

abbrev Upload (T : Nat) := PoolClient T (UploadState T) Unit UploadPc

def startUpload (partMaxSize : Nat) (stream : List UInt8) : Upload T :=
  PoolClient.start (uploadCalls (totalParts partMaxSize stream.length))
    { input := stream
      currentPartIndex := -1
      buffers := fun _ => []
      uploadParts := uploadContexts (totalParts partMaxSize stream.length) }

/-! ## What is sent -/

/-- The indices that the jobs obtained. -/
def obtainedParts (log : List (Nat × UploadOutput)) : List (Nat × Int) :=
  log.filterMap fun
    | (k, .obtained partId) => some (k, partId)
    | _ => none

/-- An `UploadPart` request, and which job sent it. -/
structure Sent where
  job : Nat
  partId : Int
  partNumber : Int
  bytes : List UInt8
  deriving DecidableEq, Repr

def sentParts (log : List (Nat × UploadOutput)) : List Sent :=
  log.filterMap fun
    | (k, .uploaded partId partNumber bytes) => some ⟨k, partId, partNumber, bytes⟩
    | _ => none

/-- The bodies that were sent under a part number. -/
def sentAs (partNumber : Int) (sent : List Sent) : List (List UInt8) :=
  (sent.filter fun r => r.partNumber = partNumber).map Sent.bytes

/-- The bytes `k * partMaxSize` to `min ((k + 1) * partMaxSize) n` of a stream of length `n`. -/
def streamPart (partMaxSize : Nat) (stream : List UInt8) (k : Nat) : List UInt8 :=
  (stream.drop (k * partMaxSize)).take partMaxSize

/-- Each request carries the part whose index its job obtained. -/
def SendsOwnPart (partMaxSize : Nat) (stream : List UInt8) (log : List (Nat × UploadOutput)) :
    Prop :=
  ∀ r ∈ sentParts log, (r.job, r.partId) ∈ obtainedParts log ∧ 0 ≤ r.partId ∧
    r.partNumber = r.partId + 1 ∧ r.bytes = streamPart partMaxSize stream r.partId.toNat

/-- Each of the first `parts` indices was obtained once, each part was sent once, and together they
are the stream. -/
def SendsAll (partMaxSize parts : Nat) (stream : List UInt8) (log : List (Nat × UploadOutput)) :
    Prop :=
  (obtainedParts log).map Prod.snd = (List.range parts).map Int.ofNat ∧
    (∀ k < parts, sentAs (k + 1) (sentParts log) = [streamPart partMaxSize stream k]) ∧
    ((List.range parts).flatMap fun k : Nat => (sentAs (k + 1) (sentParts log)).flatten) = stream

/-- The jobs of an upload split the stream without loss. -/
structure SplitsWithoutLoss (T partMaxSize : Nat) (stream : List UInt8)
    (answers : Nat → Except AwsError Unit) : Prop where
  own : ∀ (outs : List (PoolOutput T UploadOutput)) (s : Upload T),
    (poolClient (uploadCode partMaxSize answers)).Run Machine.Any (startUpload partMaxSize stream)
      outs s → SendsOwnPart partMaxSize stream (jobOutputs outs)
  /-- When `WaitAll` has returned. -/
  all : ∀ (outs : List (PoolOutput T UploadOutput)) (s : Upload T),
    (poolClient (uploadCode partMaxSize answers)).Run Machine.Any (startUpload partMaxSize stream)
      outs s → s.calls = [] →
    SendsAll partMaxSize (totalParts partMaxSize stream.length) stream (jobOutputs outs)
  returns : ∀ (outs : List (PoolOutput T UploadOutput)) (s : Upload T),
    (poolClient (uploadCode partMaxSize answers)).Run Machine.Any (startUpload partMaxSize stream)
      outs s →
    (poolClient (uploadCode partMaxSize answers)).Inevitable PoolScheduled PoolClient.Done s

end Snowflake
