import SnowflakeClient.Transfer.Basic

/-!
# The digest of a file to upload

`FileTransferAgent::updateFileDigest` (`cpp/FileTransferAgent.cpp`) hashes the file in blocks of
64 KiB. The loop tests `read`, which fails for a block that is not full: the last, partial block
of a file is not hashed.

* `hashedBytes_eq_self_iff`: the whole file is hashed iff its length is a multiple of 64 KiB.
* `digest_covers_iff`: what this means for an upload that is skipped.
-/

namespace Snowflake

/-- `CHUNK_SIZE`. -/
def chunkSize : Nat := 16 * 4 * 1024

/-- The blocks that `while (fs.read(sourceFileBuffer, CHUNK_SIZE))` gives to the hash context. -/
def digestBlocks (content : List UInt8) : List (List UInt8) :=
  if chunkSize ≤ content.length then
    content.take chunkSize :: digestBlocks (content.drop chunkSize)
  else
    []
termination_by content.length
decreasing_by
  rw [List.length_drop]
  have : 0 < chunkSize := by decide
  omega

/-- The bytes that are hashed, in order. -/
def hashedBytes (content : List UInt8) : List UInt8 := (digestBlocks content).flatten

/-- `FileTransferAgent::updateFileDigest`. The hash context gives the digest of all the bytes it
has got, `sha256`. -/
def updateFileDigest (sha256 : List UInt8 → List UInt8) (fileMetadata : FileMetadata) :
    FileMetadata :=
  { fileMetadata with
    sha256Digest := Base64.encode (sha256 (hashedBytes fileMetadata.srcFileToUpload)) }

/-! ## The bytes that are hashed -/

theorem hashedBytes_eq_take (content : List UInt8) :
    hashedBytes content = content.take (content.length / chunkSize * chunkSize) := by
  have hpos : 0 < chunkSize := by decide
  fun_induction digestBlocks content with
  | case1 content hfull ih =>
    have hdiv : content.length / chunkSize = (content.length - chunkSize) / chunkSize + 1 := by
      rw [← Nat.sub_add_cancel hfull, Nat.add_div_right _ hpos, Nat.add_sub_cancel]
    rw [hashedBytes] at ih ⊢
    rw [digestBlocks, if_pos hfull, List.flatten_cons, ih, List.length_drop, hdiv, Nat.add_mul,
      Nat.one_mul, Nat.add_comm _ chunkSize, List.take_add]
  | case2 content hpart =>
    rw [hashedBytes, digestBlocks, if_neg hpart, Nat.div_eq_of_lt (by omega), Nat.zero_mul,
      List.take_zero, List.flatten_nil]

/-- The partial block at the end of a file is the one that is not hashed. -/
theorem hashedBytes_eq_self_iff (content : List UInt8) :
    hashedBytes content = content ↔ chunkSize ∣ content.length := by
  have hle := Nat.div_mul_le_self content.length chunkSize
  rw [hashedBytes_eq_take, Nat.dvd_iff_div_mul_eq]
  constructor
  · intro heq
    have hlen := congrArg List.length heq
    rwa [List.length_take, Nat.min_eq_left hle] at hlen
  · intro heq
    rw [heq, List.take_length]

/-! ## Skipped uploads -/

theorem lookup_addUserMetadata (fileMetadata : FileMetadata) :
    (addUserMetadata fileMetadata).lookup "sfc-digest" = some fileMetadata.sha256Digest := by
  simp [addUserMetadata, List.lookup]

section Skip

variable {sha256 : List UInt8 → List UInt8} (hlen : ∀ bytes, (sha256 bytes).length = 32)
include hlen

/-- An object that this client has uploaded makes it skip the files with the same hash. -/
theorem upload_skips_iff {s3 : S3} {file remote : FileMetadata}
    (hhead : s3.headObject = .ok (addUserMetadata (updateFileDigest sha256 remote))) :
    upload s3 (updateFileDigest sha256 file) = some .skipUploadFile ↔
      sha256 (hashedBytes file.srcFileToUpload) = sha256 (hashedBytes remote.srcFileToUpload) := by
  rw [upload_eq_skip_iff, hhead]
  constructor
  · rintro ⟨metadata, hmetadata, hdigest⟩
    cases hmetadata
    rw [lookup_addUserMetadata] at hdigest
    refine Base64.encode_inj ((hlen _).trans (hlen _).symm) ?_
    exact (Option.some.inj hdigest).symm
  · intro heq
    refine ⟨_, rfl, ?_⟩
    rw [lookup_addUserMetadata, updateFileDigest, updateFileDigest, heq]

/-- The digest of both files covers their whole content, and only an equal file is skipped, iff
both lengths are multiples of the block size. `hinj`: SHA-256 has no collision here. -/
theorem digest_covers_iff (s3 : S3) (file remote : FileMetadata)
    (hinj :
      sha256 (hashedBytes file.srcFileToUpload) = sha256 (hashedBytes remote.srcFileToUpload) →
        hashedBytes file.srcFileToUpload = hashedBytes remote.srcFileToUpload)
    (hhead : s3.headObject = .ok (addUserMetadata (updateFileDigest sha256 remote))) :
    (hashedBytes file.srcFileToUpload = file.srcFileToUpload ∧
      hashedBytes remote.srcFileToUpload = remote.srcFileToUpload ∧
      (upload s3 (updateFileDigest sha256 file) = some .skipUploadFile →
        file.srcFileToUpload = remote.srcFileToUpload)) ↔
    chunkSize ∣ file.srcFileToUpload.length ∧ chunkSize ∣ remote.srcFileToUpload.length := by
  rw [← hashedBytes_eq_self_iff, ← hashedBytes_eq_self_iff]
  constructor
  · rintro ⟨hfile, hremote, -⟩
    exact ⟨hfile, hremote⟩
  · rintro ⟨hfile, hremote⟩
    refine ⟨hfile, hremote, fun hskip => ?_⟩
    have hbytes := hinj ((upload_skips_iff hlen hhead).mp hskip)
    rwa [hfile, hremote] at hbytes

end Skip

/-- A file with this content, all else as small as possible. -/
def plainFile (content : List UInt8) : FileMetadata where
  srcFileSize := content.length
  srcFileToUpload := content
  encryptionMetadata := ⟨[], [], [], content.length⟩
  sha256Digest := []

/-- S3 with the object of an earlier upload of `remote`. -/
def holding (sha256 : List UInt8 → List UInt8) (remote : FileMetadata) : S3 where
  headObject := .ok (addUserMetadata (updateFileDigest sha256 remote))
  putObject := .ok ()
  createMultipartUpload := .ok ()
  uploadPart := fun _ => .ok ()
  completeMultipartUpload := .ok ()

/-- SHA-256 on two inputs: no bytes, and one block of sevens. -/
def sampleSha256 (bytes : List UInt8) : List UInt8 :=
  if bytes = [] then
    [0xe3, 0xb0, 0xc4, 0x42, 0x98, 0xfc, 0x1c, 0x14, 0x9a, 0xfb, 0xf4, 0xc8, 0x99, 0x6f,
      0xb9, 0x24, 0x27, 0xae, 0x41, 0xe4, 0x64, 0x9b, 0x93, 0x4c, 0xa4, 0x95, 0x99, 0x1b,
      0x78, 0x52, 0xb8, 0x55]
  else
    [0x07, 0xdc, 0xb6, 0xd1, 0x1a, 0x03, 0x62, 0x48, 0x31, 0x51, 0x36, 0x72, 0xff, 0xdb,
      0x84, 0xd6, 0xb1, 0x73, 0x0f, 0x54, 0xe9, 0x0a, 0xaa, 0xce, 0x44, 0x4f, 0xe3, 0xa8,
      0xea, 0x9b, 0x21, 0x63]

/-- A file of one full block is not taken for the empty one. -/
theorem digest_covers_iff_fullBlock :
    (∀ bytes, (sampleSha256 bytes).length = 32) ∧
      upload (holding sampleSha256 (plainFile []))
        (updateFileDigest sampleSha256 (plainFile (List.replicate chunkSize 7))) ≠
      some .skipUploadFile := by
  have hlen : ∀ bytes, (sampleSha256 bytes).length = 32 := by
    intro bytes
    unfold sampleSha256
    split <;> rfl
  have hfull : hashedBytes (List.replicate chunkSize 7) = List.replicate chunkSize 7 := by
    refine (hashedBytes_eq_self_iff _).mpr ?_
    simp only [List.length_replicate, Nat.dvd_refl]
  have hempty : hashedBytes [] = [] := (hashedBytes_eq_self_iff _).mpr (Nat.dvd_zero _)
  have hne : List.replicate chunkSize (7 : UInt8) ≠ [] := by
    rw [← List.length_pos_iff, List.length_replicate]
    decide
  have hinj : sampleSha256 (hashedBytes (List.replicate chunkSize 7)) =
      sampleSha256 (hashedBytes []) →
      hashedBytes (List.replicate chunkSize 7) = hashedBytes [] := by
    intro hhash
    rw [hfull, hempty, sampleSha256, sampleSha256, if_neg hne, if_pos rfl] at hhash
    exact absurd hhash (by decide)
  have hcovers := digest_covers_iff hlen (holding sampleSha256 (plainFile []))
    (plainFile (List.replicate chunkSize 7)) (plainFile []) hinj rfl
  refine ⟨hlen, fun hskip => hne ?_⟩
  exact (hcovers.mpr ⟨(hashedBytes_eq_self_iff _).mp hfull, Nat.dvd_zero _⟩).2.2 hskip

/-- Two different files of one byte have one digest, the one of no bytes: the second is skipped. -/
theorem digest_misses_partial_block :
    hashedBytes [1] ≠ [1] ∧ ∀ sha256 : List UInt8 → List UInt8,
      upload (holding sha256 (plainFile [2])) (updateFileDigest sha256 (plainFile [1])) =
        some .skipUploadFile := by
  have hshort : ∀ byte : UInt8, hashedBytes [byte] = [] := by
    intro byte
    rw [hashedBytes_eq_take, List.length_singleton, Nat.div_eq_of_lt (by decide), Nat.zero_mul,
      List.take_zero]
  refine ⟨by simp [hshort], fun sha256 => ?_⟩
  rw [upload_eq_skip_iff]
  refine ⟨_, rfl, ?_⟩
  rw [lookup_addUserMetadata]
  simp only [updateFileDigest, plainFile, hshort]

end Snowflake
