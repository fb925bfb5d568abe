import SnowflakeClient.CInt
import SnowflakeClient.Util.Base64

/-!
# File transfer: the S3 client

`SnowflakeS3Client` (`cpp/SnowflakeS3Client.cpp`) up to the requests it sends: what S3 answers is
an argument, `S3`. A multi-part transfer sends its parts from a thread pool; the outcome of a part
is written by its own job only, so after `WaitAll` the outcomes are a list.
-/

namespace Snowflake

/-- `RemoteStorageRequestOutcome`. -/
inductive RemoteStorageRequestOutcome where
  | success
  | failed
  | tokenExpired
  | skipUploadFile
  deriving DecidableEq, Repr

/-- `Aws::Client::AWSError`. -/
structure AwsError where
  exceptionName : String
  deriving DecidableEq, Repr

def handleError (error : AwsError) : RemoteStorageRequestOutcome :=
  if error.exceptionName = "ExpiredToken" then .tokenExpired else .failed

/-- The outcome of a request that only reports success. -/
def requestOutcome : Except AwsError Unit → RemoteStorageRequestOutcome
  | .ok () => .success
  | .error error => handleError error

/-- The loop over the outcomes of the parts: the first one that is not `SUCCESS`. -/
def firstFailure : List RemoteStorageRequestOutcome → RemoteStorageRequestOutcome
  | [] => .success
  | outcome :: rest => if outcome = .success then firstFailure rest else outcome

/-- `DATA_SIZE_THRESHOLD`. -/
def dataSizeThreshold : Nat := 5242880

/-- `std::map<std::string, std::string>`: the user metadata of an object. -/
abbrev UserMetadata := List (String × List Char)

/-- `EncryptionMetadata`, without the keys. -/
structure EncryptionMetadata where
  iv : List UInt8
  enKekEncoded : List Char
  matDesc : List Char
  cipherStreamSize : Nat
  deriving DecidableEq, Repr

/-- `FileMetadata`: `srcFileToUpload` is the content of the file of that name. -/
structure FileMetadata where
  srcFileSize : Nat
  srcFileToUpload : List UInt8
  encryptionMetadata : EncryptionMetadata
  sha256Digest : List Char
  deriving DecidableEq, Repr

/-- What S3 answers to the requests of one upload. A part is asked for by its number, from 1 on. -/
structure S3 where
  headObject : Except AwsError UserMetadata
  putObject : Except AwsError Unit
  createMultipartUpload : Except AwsError Unit
  uploadPart : Nat → Except AwsError Unit
  completeMultipartUpload : Except AwsError Unit

def addUserMetadata (fileMetadata : FileMetadata) : UserMetadata :=
  [("x-amz-key", fileMetadata.encryptionMetadata.enKekEncoded),
    ("x-amz-matdesc", fileMetadata.encryptionMetadata.matDesc),
    ("x-amz-iv", Base64.encode fileMetadata.encryptionMetadata.iv),
    ("sfc-digest", fileMetadata.sha256Digest)]

def doSingleUpload (s3 : S3) : RemoteStorageRequestOutcome := requestOutcome s3.putObject

/-- `StreamSplitter::getTotalParts`, an `unsigned int`. -/
def getTotalParts (streamSize : Nat) : Nat := CInt.toU32 (streamSize / dataSizeThreshold + 1)

def doMultiPartUpload (s3 : S3) (fileMetadata : FileMetadata) : RemoteStorageRequestOutcome :=
  match s3.createMultipartUpload with
  | .error error => handleError error
  | .ok () =>
    let totalParts := getTotalParts fileMetadata.encryptionMetadata.cipherStreamSize
    let uploadParts := (List.range totalParts).map fun i => requestOutcome (s3.uploadPart (i + 1))
    match firstFailure uploadParts with
    | .success => requestOutcome s3.completeMultipartUpload
    | outcome => outcome

/-- `SnowflakeS3Client::upload`. `none`: `at` throws `std::out_of_range`, the object has no
`sfc-digest`. -/
def upload (s3 : S3) (fileMetadata : FileMetadata) : Option RemoteStorageRequestOutcome :=
  let send :=
    if fileMetadata.srcFileSize > dataSizeThreshold then doMultiPartUpload s3 fileMetadata
    else doSingleUpload s3
  match s3.headObject with
  | .ok metadata =>
    match metadata.lookup "sfc-digest" with
    | none => none
    | some sfcDigest =>
      if sfcDigest = fileMetadata.sha256Digest then some .skipUploadFile else some send
  | .error _ => some send

/-! ## When an upload is skipped -/

theorem handleError_ne_skip (error : AwsError) : handleError error ≠ .skipUploadFile := by
  unfold handleError
  split <;> simp

theorem requestOutcome_ne_skip (answer : Except AwsError Unit) :
    requestOutcome answer ≠ .skipUploadFile := by
  cases answer with
  | ok _ => simp [requestOutcome]
  | error error => exact handleError_ne_skip error

theorem firstFailure_mem {outcomes : List RemoteStorageRequestOutcome}
    (h : firstFailure outcomes ≠ .success) : firstFailure outcomes ∈ outcomes := by
  induction outcomes with
  | nil => exact absurd rfl h
  | cons outcome rest ih =>
    rw [firstFailure] at h ⊢
    split at h
    · next hs => rw [if_pos hs]; exact List.mem_cons_of_mem _ (ih h)
    · next hs => rw [if_neg hs]; exact List.mem_cons_self

theorem doMultiPartUpload_ne_skip (s3 : S3) (fileMetadata : FileMetadata) :
    doMultiPartUpload s3 fileMetadata ≠ .skipUploadFile := by
  unfold doMultiPartUpload
  split
  · exact handleError_ne_skip _
  · dsimp only
    split
    · exact requestOutcome_ne_skip _
    · next hfail =>
      intro hskip
      obtain ⟨i, -, hi⟩ := List.mem_map.mp (firstFailure_mem hfail)
      exact requestOutcome_ne_skip _ (hi.trans hskip)

/-- Only an equal digest on the remote object skips an upload. -/
theorem upload_eq_skip_iff (s3 : S3) (fileMetadata : FileMetadata) :
    upload s3 fileMetadata = some .skipUploadFile ↔
      ∃ metadata, s3.headObject = .ok metadata ∧
        metadata.lookup "sfc-digest" = some fileMetadata.sha256Digest := by
  have hsend : (if fileMetadata.srcFileSize > dataSizeThreshold then
      doMultiPartUpload s3 fileMetadata else doSingleUpload s3) ≠ .skipUploadFile := by
    split
    · exact doMultiPartUpload_ne_skip s3 fileMetadata
    · exact requestOutcome_ne_skip _
  unfold upload
  dsimp only
  cases hhead : s3.headObject with
  | error error => simpa using hsend
  | ok metadata =>
    dsimp only
    cases hdigest : metadata.lookup "sfc-digest" with
    | none => simp [hdigest]
    | some sfcDigest =>
      dsimp only
      split
      · next heq => simp [hdigest, heq]
      · next hne => simpa [hdigest, hne] using hsend

end Snowflake
