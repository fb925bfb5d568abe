import SnowflakeClient.CInt
import SnowflakeClient.Prog
import SnowflakeClient.Transfer.Agent
import SnowflakeClient.Util.PoolBatch

/-!
# The transfer of the files

`FileTransferAgent::upload` and `download` (`cpp/FileTransferAgent.cpp`) with the arrays of
`FileTransferExecutionResult`: the large files are transferred one after the other, by a loop whose
index goes back by one when the token has expired; the small ones by the jobs of a thread pool, each
in a loop of its own.

The files are numbered, the large ones first. What the storage answers to each attempt for each file
is given (`answers`), the schedule is not. An array index is an `unsigned int`, and so is the size
of the arrays; a write beyond the end is undefined, and the code does not go on after it. It does
not go on after an exception either: in the loop it leaves the function, in a job it ends the
process.

The critical section of `m_parallelTokRenewMutex` is one step, and so is an attempt together with
the write of its outcome. The metadata are written by the client only and read by nobody, so the
write and the `AddJob` after it are one step too.
-/

namespace Snowflake
namespace ParallelTransfer

open Conc CInt

/-- An attempt to transfer a file, and its outcome. -/
structure Attempt where
  file : Nat
  outcome : RemoteStorageRequestOutcome
  deriving DecidableEq, Repr

/-- The arrays of `FileTransferExecutionResult`; an entry that was not written is `none`. -/
structure ResultTable where
  fileMetadatas : List (Option TransferFile)
  outcomes : List (Option RemoteStorageRequestOutcome)

/-- The constructor, with `unsigned int resultEntryNum`. -/
def ResultTable.new (resultEntryNum : Nat) : ResultTable where
  fileMetadatas := List.replicate (toU32 resultEntryNum) none
  outcomes := List.replicate (toU32 resultEntryNum) none

/-- `array[index] = value`. -/
def writeAt {α : Type} (array : List α) (index : Nat) (value : α) : Option (List α) :=
  if index < array.length then some (array.set index value) else none

/-- What the storage answers, by file and attempt. -/
abbrev Answers := Nat → Nat → RemoteStorageRequestOutcome

/-! ## The large files -/

structure TransferState extends ResultTable where
  agent : FileTransferAgent
  log : List Attempt

/-- `SetFileMetadata`. -/
def setFileMetadata (file : TransferFile) (index : Nat) : Prog TransferState Unit := fun s =>
  match writeAt s.fileMetadatas index (some file) with
  | some fileMetadatas => (some (), { s with fileMetadatas })
  | none => (none, s)

/-- `uploadSingleFile` and `downloadSingleFile`, as far as the result shows them. -/
def transferSingleFile (answers : Answers) (file attempt index : Nat) :
    Prog TransferState RemoteStorageRequestOutcome := fun s =>
  let outcome := answers file attempt
  match writeAt s.outcomes index (some outcome) with
  | some outcomes => (some outcome, { s with outcomes, log := s.log ++ [⟨file, outcome⟩] })
  | none => (none, s)

def renewToken (env : AgentEnv) : Prog TransferState Unit := fun s =>
  match s.agent.renewToken env with
  | (.ok (), agent) => (some (), { s with agent })
  | (.error _, agent) => (none, { s with agent })

/-- The loop over the large files from `size_t i` on, when `attempt` attempts were made for the file
`i`. -/
def transferLargeFiles (env : AgentEnv) (answers : Answers) (largeFilesMeta : List TransferFile) :
    (fuel i attempt : Nat) → Prog TransferState Unit
  | 0, _, _ => .stop
  | fuel + 1, i, attempt =>
    match largeFilesMeta[i]? with
    | none => pure ()
    | some file => do
      setFileMetadata file (toU32 i)
      let outcome ← transferSingleFile answers i attempt (toU32 i)
      if outcome = .tokenExpired then
        renewToken env
        -- `i--`, and the loop adds one again
        transferLargeFiles env answers largeFilesMeta fuel (incU64 (subU64 i 1)) (attempt + 1)
      else transferLargeFiles env answers largeFilesMeta fuel (incU64 i) 0

/-! ## The small files -/

/-- What a job has captured. -/
structure TransferJob where
  /-- The number of the file that `metadata` points to. -/
  file : Nat
  resultIndex : Nat
  deriving DecidableEq, Repr

/-- Where a job is, in which attempt. -/
inductive TransferPc where
  | transfer (job : TransferJob) (attempt : Nat)
  /-- The token has expired; before the lock. -/
  | renew (job : TransferJob) (attempt : Nat)
  deriving DecidableEq, Repr

/-- What the jobs share. -/
structure TransferShared where
  outcomes : List (Option RemoteStorageRequestOutcome)
  agent : FileTransferAgent

def transferCode (T : Nat) (env : AgentEnv) (answers : Answers) :
    JobCode T TransferShared TransferJob TransferPc Attempt where
  start job := .transfer job 0
  step s _
    | .transfer job attempt =>
      let outcome := answers job.file attempt
      (writeAt s.outcomes job.resultIndex (some outcome)).map fun outcomes =>
        ({ s with outcomes }, if outcome = .tokenExpired then some (.renew job attempt) else none,
          [⟨job.file, outcome⟩])
    | .renew job attempt =>
      match s.agent.renewToken env with
      | (.ok (), agent) => some ({ s with agent }, some (.transfer job (attempt + 1)), [])
      | (.error _, _) => none

/-- The job of the small file `i`. -/
def smallJob (large i : Nat) : TransferJob := ⟨large + i, toU32 (i + large)⟩

abbrev Client (T : Nat) := PoolClient T TransferShared TransferJob TransferPc

/-- `SetFileMetadata` before an `AddJob`. -/
def setJobMetadata (files : List TransferFile) {T : Nat} (s : Client T) (e : PoolEvent T)
    (fileMetadatas : List (Option TransferFile)) : Option (List (Option TransferFile)) :=
  match e, s.calls with
  | .addJob _, .addJob job :: _ => writeAt fileMetadatas job.resultIndex files[job.file]?
  | _, _ => some fileMetadatas

/-- `uploadFilesInParallel` and `downloadFilesInParallel`, up to the return of `WaitAll`: the client
and the pool, and the metadata of the result. -/
def transferInParallel (T : Nat) (env : AgentEnv) (answers : Answers) (files : List TransferFile) :
    Machine (Client T × List (Option TransferFile)) (PoolEvent T) (PoolOutput T Attempt) :=
  (poolClient (transferCode T env answers)).attach (setJobMetadata files)

/-! ## Both -/

section Transfer

variable (T : Nat) (env : AgentEnv) (answers : Answers) (a : FileTransferAgent)

/-- The files of a command, in the order of the rows. -/
def files : List TransferFile := a.largeFilesMeta ++ a.smallFilesMeta

/-- The state before the large files. -/
def startTransfer : TransferState where
  toResultTable := .new (a.largeFilesMeta.length + a.smallFilesMeta.length)
  agent := a
  log := []

/-- The state before the small files, after the large ones have left `st`. -/
def startParallel (st : TransferState) : Client T × List (Option TransferFile) :=
  (.start (batchCalls (smallJob a.largeFilesMeta.length) 0 a.smallFilesMeta.length)
    ⟨st.outcomes, st.agent⟩, st.fileMetadatas)

/-- The large files are transferred, with the state `st` after them. -/
def LargeDone (st : TransferState) : Prop :=
  ∃ fuel, transferLargeFiles env answers a.largeFilesMeta fuel 0 0 (startTransfer a) = (some (), st)

/-- The transfer of all files can return, with this result and after these attempts. -/
inductive Transferred : ResultTable → List Attempt → Prop
  | large {st : TransferState} : LargeDone env answers a st → a.smallFilesMeta = [] →
      Transferred st.toResultTable st.log
  | parallel {st : TransferState} {outs : List (PoolOutput T Attempt)} {client : Client T}
      {fileMetadatas : List (Option TransferFile)} :
      LargeDone env answers a st → a.smallFilesMeta ≠ [] →
      (transferInParallel T env answers (files a)).Run Machine.Any (startParallel T a st) outs
        (client, fileMetadatas) → client.calls = [] →
      Transferred ⟨fileMetadatas, client.shared.outcomes⟩
        (st.log ++ (jobOutputs outs).map Prod.snd)

/-- `upload` can return with this result. -/
def UploadReturns (table : ResultTable) (log : List Attempt) : Prop :=
  Transferred T env answers a table log

/-- `download` can return with this result: it creates the local directory first. -/
def DownloadReturns (table : ResultTable) (log : List Attempt) : Prop :=
  env.createDirectory a.response.localLocation = 0 ∧ Transferred T env answers a table log

end Transfer

/-! ## What the rows should be -/

/-- The outcomes of the attempts for a file. -/
def attemptsFor (file : Nat) (log : List Attempt) : List RemoteStorageRequestOutcome :=
  (log.filter fun attempt => attempt.file = file).map Attempt.outcome

/-- The token had expired in the first `attempt` attempts for a file. -/
def Expired (answers : Answers) (file attempt : Nat) : Prop :=
  ∀ k < attempt, answers file k = .tokenExpired

/-- The row of a file has the metadata of the file and the outcome of the last attempt for it, which
is not that the token has expired; in all attempts before it was. -/
structure RowFinal (files : List TransferFile) (answers : Answers) (table : ResultTable)
    (log : List Attempt) (row : Nat) : Prop where
  metadata : table.fileMetadatas[row]? = some files[row]?
  outcome : ∃ last, attemptsFor row log = (List.range (last + 1)).map (answers row) ∧
    table.outcomes[row]? = some (some (answers row last)) ∧ Expired answers row last ∧
    answers row last ≠ .tokenExpired

/-- For each file the token expires in finitely many attempts. -/
def FinitelyExpired (answers : Answers) : Prop :=
  ∀ file, {attempt | answers file attempt = .tokenExpired}.Finite

/-- The token can be renewed. -/
def Renews (env : AgentEnv) : Prop := ∀ a : FileTransferAgent, (a.renewToken env).1 = .ok ()

/-- With `T` threads, whatever the storage answers and in every schedule. -/
structure EveryRowFinal (T : Nat) (a : FileTransferAgent) : Prop where
  upload : ∀ env answers, FinitelyExpired answers → ∀ table log,
    UploadReturns T env answers a table log →
    ∀ row < (files a).length, RowFinal (files a) answers table log row
  download : ∀ env answers, FinitelyExpired answers → ∀ table log,
    DownloadReturns T env answers a table log →
    ∀ row < (files a).length, RowFinal (files a) answers table log row
  /-- The transfers return: the large files, and then the small ones in every schedule. -/
  large : ∀ env answers, FinitelyExpired answers → Renews env → ∃ st, LargeDone env answers a st
  parallel : ∀ env answers, FinitelyExpired answers → Renews env →
    ∀ st, LargeDone env answers a st → ∀ outs s,
    (transferInParallel T env answers (files a)).Run Machine.Any (startParallel T a st) outs s →
    (transferInParallel T env answers (files a)).Inevitable (fun s => PoolScheduled s.1)
      (fun s => s.1.Done) s

end ParallelTransfer
end Snowflake
