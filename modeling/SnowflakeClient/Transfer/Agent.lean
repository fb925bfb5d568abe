import SnowflakeClient.Transfer.Basic
import SnowflakeClient.Transfer.PutGet

/-!
# The file transfer agent

`FileTransferAgent` (`cpp/FileTransferAgent.cpp`) executes PUT and GET commands: it lets the
statement parse the command, collects the metadata of the files (`initFileMetadata`), large and
small ones apart, and transfers them, each file with a row of the result. Whenever the storage
answers that the token has expired, the command is parsed again (`renewToken`) and the request is
repeated.

What is outside of the agent is its environment, `AgentEnv`; calls of the statement and of the
clock are numbered. A job of a small file writes its own row only, so the small files are
transferred one after the other here; `Parallel` has the jobs, and `FinalRows` that the rows are the
same.
-/

namespace Snowflake

/-- Why a command does not return a result. -/
inductive Stop where
  /-- `SnowflakeTransferException` with `INTERNAL_ERROR`. -/
  | internalError (message : String)
  | unsupportedFeature (message : String)
  | mkdirError (directory : String) (ret : Int)
  | dirOpenError (path : String)
  /-- `std::out_of_range`. -/
  | outOfRange
  /-- A null pointer is read: the statement has no response. -/
  | nullResponse
  /-- A request to the storage is never answered. -/
  | noAnswer
  deriving DecidableEq, Repr

/-- A file of the command: the part of `FileMetadata` that the result shows. -/
structure TransferFile where
  srcFileName : String
  destFileName : String
  srcFileSize : Nat
  deriving DecidableEq, Repr

/-- The answer to `GetRemoteFileMetadata`. -/
structure MetadataAnswer where
  outcome : RemoteStorageRequestOutcome
  srcFileSize : Nat
  deriving DecidableEq, Repr

/-- The environment (module doc). -/
structure AgentEnv where
  /-- `IStatementPutGet::parsePutGetCommand` at its `k`-th call. -/
  parse : Nat → PutGetParseResponse → Option (PutGetParseResponse × Bool)
  /-- `time` at its `k`-th call. -/
  time : Nat → Int
  /-- `sf_create_directory_if_not_exists`. -/
  createDirectory : String → Int
  /-- The files that `populateSrcLocUploadMetadata` finds for a location. -/
  uploadFiles : String → Except Stop (List TransferFile)

/-- The members of the agent, and how often the statement and the clock were called. -/
structure FileTransferAgent where
  response : PutGetParseResponse
  largeFilesMeta : List TransferFile
  smallFilesMeta : List TransferFile
  lastRefreshTokenSec : Int
  parses : Nat
  times : Nat

/-- A row of `FileTransferExecutionResult`. -/
structure ResultRow where
  file : TransferFile
  outcome : RemoteStorageRequestOutcome
  deriving DecidableEq, Repr

/-- `fromOutcomeToStr`. -/
def fromOutcomeToStr (command : CommandType) : RemoteStorageRequestOutcome → String
  | .success => if command = .upload then "UPLOADED" else "DOWNLOADED"
  | .skipUploadFile => "SKIPPED"
  | _ => "ERROR"

/-- `StorageClientFactory::getClient`. -/
def getClient (stageInfo : StageInfo) : Except Stop Unit :=
  match stageInfo.stageType with
  | .s3 | .mocked => .ok ()
  | .azure => .error (.unsupportedFeature "File transfer to Azure is not supported yet.")
  | .localFs => .error (.unsupportedFeature "Remote storage not supported.")

namespace FileTransferAgent

/-- The constructor. The members of `response` are not initialized; the vectors are empty. -/
def new (response : PutGetParseResponse) : FileTransferAgent where
  response := { response with srcLocations := [], encryptionMaterials := [] }
  largeFilesMeta := []
  smallFilesMeta := []
  lastRefreshTokenSec := 0
  parses := 0
  times := 0

def reset (a : FileTransferAgent) : FileTransferAgent :=
  { a with largeFilesMeta := [], smallFilesMeta := [] }

/-- A call of the statement. -/
def parse (env : AgentEnv) (a : FileTransferAgent) : Except Stop (FileTransferAgent × Bool) :=
  match env.parse a.parses a.response with
  | none => .error .nullResponse
  | some (response, parsed) => .ok ({ a with response, parses := a.parses + 1 }, parsed)

/-- `renewToken`: nothing if the token was renewed in the last 10 minutes. -/
def renewToken (env : AgentEnv) (a : FileTransferAgent) : Except Stop Unit × FileTransferAgent :=
  let now := env.time a.times
  let a := { a with times := a.times + 1 }
  if now - a.lastRefreshTokenSec > 10 * 60 then
    match a.parse env with
    | .error stop => (.error stop, a)
    | .ok (a, _) =>
      match getClient a.response.stageInfo with
      | .error stop => (.error stop, a)
      | .ok () => (.ok (), { a with lastRefreshTokenSec := now })
  else (.ok (), a)

/-- A file is pushed to the vector for its size. -/
def push (a : FileTransferAgent) (file : TransferFile) : FileTransferAgent :=
  if file.srcFileSize > dataSizeThreshold then
    { a with largeFilesMeta := a.largeFilesMeta ++ [file] }
  else { a with smallFilesMeta := a.smallFilesMeta ++ [file] }

/-- What follows the last `/` of a path. -/
def fileName (path : String) : String :=
  String.ofList (path.toList.reverse.takeWhile (· ≠ '/')).reverse

/-- `populateSrcLocDownloadMetadata`, with the answer of the storage, where `decryptFileKey`
(`Crypto/FileKey.lean`) does not fail. -/
def populateSrcLocDownloadMetadata (a : FileTransferAgent) (sourceLocation : String)
    (answer : MetadataAnswer) : FileTransferAgent :=
  let fullPath := a.response.stageInfo.location ++ sourceLocation
  if answer.outcome = .success then
    a.push
      { srcFileName := fullPath
        destFileName := fileName fullPath
        srcFileSize := answer.srcFileSize }
  else a

def populateSrcLocUploadMetadata (env : AgentEnv) (a : FileTransferAgent)
    (sourceLocation : String) : Except Stop FileTransferAgent :=
  (env.uploadFiles sourceLocation).map fun files => files.foldl push a

/-- The loop of `initFileMetadata` from the index `i` on. The answers are those of the storage to
the requests of the loop. -/
def initFileMetadata (env : AgentEnv) :
    Nat → List MetadataAnswer → FileTransferAgent → Except Stop FileTransferAgent
  | i, answers, a =>
    match a.response.srcLocations[i]? with
    | none => .ok a
    | some sourceLocation =>
      match a.response.command with
      | .unknown => .error (.internalError "Invalid command type.")
      | .upload =>
        (a.response.srcLocations.drop i).foldlM (populateSrcLocUploadMetadata env) a
      | .download =>
        match a.response.encryptionMaterials[i]? with
        | none => .error .outOfRange
        | some _ =>
          match answers with
          | [] => .error .noAnswer
          | answer :: answers =>
            let a := a.populateSrcLocDownloadMetadata sourceLocation answer
            if answer.outcome = .tokenExpired then
              -- `i--`, and the loop adds one again.
              match a.renewToken env with
              | (.error stop, _) => .error stop
              | (.ok (), a) => initFileMetadata env i answers a
            else initFileMetadata env (i + 1) answers a

/-- The attempts to transfer one file, and the outcome that its row gets. -/
def transferFile (env : AgentEnv) : List RemoteStorageRequestOutcome → FileTransferAgent →
    Except Stop (FileTransferAgent × RemoteStorageRequestOutcome)
  | [], _ => .error .noAnswer
  | outcome :: attempts, a =>
    if outcome = .tokenExpired then
      match a.renewToken env with
      | (.error stop, _) => .error stop
      | (.ok (), a) => transferFile env attempts a
    else .ok (a, outcome)

/-- The files from the row `i` on. `attempts` are the outcomes of the attempts, by row. -/
def transferFiles (env : AgentEnv) (attempts : Nat → List RemoteStorageRequestOutcome) :
    Nat → List TransferFile → FileTransferAgent → Except Stop (List ResultRow)
  | _, [], _ => .ok []
  | i, file :: files, a =>
    match transferFile env (attempts i) a with
    | .error stop => .error stop
    | .ok (a, outcome) => (transferFiles env attempts (i + 1) files a).map ({ file, outcome } :: ·)

def upload (env : AgentEnv) (attempts : Nat → List RemoteStorageRequestOutcome)
    (a : FileTransferAgent) : Except Stop (List ResultRow) :=
  transferFiles env attempts 0 (a.largeFilesMeta ++ a.smallFilesMeta) a

def download (env : AgentEnv) (attempts : Nat → List RemoteStorageRequestOutcome)
    (a : FileTransferAgent) : Except Stop (List ResultRow) :=
  let ret := env.createDirectory a.response.localLocation
  if ret ≠ 0 then .error (.mkdirError a.response.localLocation ret)
  else transferFiles env attempts 0 (a.largeFilesMeta ++ a.smallFilesMeta) a

def execute (env : AgentEnv) (answers : List MetadataAnswer)
    (attempts : Nat → List RemoteStorageRequestOutcome) (a : FileTransferAgent) :
    Except Stop (List ResultRow) :=
  match a.reset.parse env with
  | .error stop => .error stop
  | .ok (_, false) => .error (.internalError "Failed to parse response.")
  | .ok (a, true) =>
    match getClient a.response.stageInfo with
    | .error stop => .error stop
    | .ok () =>
      match initFileMetadata env 0 answers a with
      | .error stop => .error stop
      | .ok a =>
        match a.response.command with
        | .upload => a.upload env attempts
        | .download => a.download env attempts
        | .unknown => .error (.internalError "Invalid command type.")

end FileTransferAgent

end Snowflake
