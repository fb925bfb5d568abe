import SnowflakeClient.Streambuf

/-!
# The cipher stream

`CipherStreamBuf` (`cpp/crypto/CipherStreamBuf.cpp`) encrypts or decrypts what is read from or
written to another stream buffer, in batches of `m_blockSize` bytes, through a `CipherContext`
(`cpp/crypto/CipherContext.cpp`). OpenSSL's functions on a cipher context are an argument, `Evp`.

The stream below gives the bytes of `source` and keeps what is written in `sink`. One object is
used to read or to write, not for both: the two directions share `m_srcBuffer`.
-/

namespace Snowflake

/-- `CryptoOperation`. -/
inductive CryptoOperation where
  | invalid
  | encrypt
  | decrypt
  deriving DecidableEq, Repr

/-- The functions of OpenSSL on a cipher context with the states `σ`, for one key and
initialization vector: `EVP_EncryptInit_ex`, `EVP_EncryptUpdate` and `EVP_EncryptFinal_ex`, or those
for decryption. `none` is a failure. -/
structure Evp (σ : Type) where
  init : CryptoOperation → σ
  update : CryptoOperation → σ → List UInt8 → Option (σ × List UInt8)
  final : CryptoOperation → σ → Option (List UInt8)

variable {σ : Type}

/-- `CipherContext`. -/
structure CipherContext (σ : Type) where
  op : CryptoOperation
  ctx : σ

namespace CipherContext

/-- `CipherContext::initialize`. -/
def init (evp : Evp σ) (op : CryptoOperation) : CipherContext σ := { op, ctx := evp.init op }

/-- `next`: the bytes that it puts into `out`. -/
def next (evp : Evp σ) (c : CipherContext σ) (data : List UInt8) :
    Option (CipherContext σ × List UInt8) :=
  match c.op with
  | .invalid => none
  | op => (evp.update op c.ctx data).map fun r => ({ c with ctx := r.1 }, r.2)

/-- After `finalize` the context cannot be used any more. -/
def finalize (evp : Evp σ) (c : CipherContext σ) : Option (CipherContext σ × List UInt8) :=
  match c.op with
  | .invalid => none
  | op => (evp.final op c.ctx).map fun out => ({ c with op := .invalid }, out)

end CipherContext

/-- `CipherStreamBuf`. `result` is the get area, from `gptr` to `egptr`; `pending` is what is in the
put area, from `pbase` to `pptr`. -/
structure CipherStreamBuf (σ : Type) where
  source : List UInt8
  sink : List UInt8
  blockSize : Nat
  cipherCtx : CipherContext σ
  result : List UInt8
  pending : List UInt8
  readReachEnds : Bool
  finalized : Bool
  blockSize_pos : 0 < blockSize

namespace CipherStreamBuf

def new (evp : Evp σ) (op : CryptoOperation) (source : List UInt8) (blockSize : Nat)
    (h : 0 < blockSize) : CipherStreamBuf σ where
  source
  sink := []
  blockSize
  cipherCtx := .init evp op
  result := []
  pending := []
  readReachEnds := false
  finalized := false
  blockSize_pos := h

/-- How much the loop of `underflow` has to read. -/
def toRead (b : CipherStreamBuf σ) : Nat := if b.readReachEnds then 0 else b.source.length + 1

/-- A batch leaves less to read, or it was the last one. -/
theorem toRead_lt (b : CipherStreamBuf σ) (h : b.readReachEnds = false)
    (cipherCtx : CipherContext σ) (result : List UInt8) :
    toRead
      { b with
        source := b.source.drop b.blockSize
        cipherCtx
        result
        readReachEnds := (b.source.take b.blockSize).length < b.blockSize } < b.toRead := by
  have hpos := b.blockSize_pos
  simp only [toRead, h, List.length_take, List.length_drop]
  split
  · simp
  · next hfull =>
    simp only [decide_eq_true_eq] at hfull
    simp
    omega

/-- The loop of `underflow`. -/
def fill (evp : Evp σ) (b : CipherStreamBuf σ) : Option (CipherStreamBuf σ) :=
  if _h : b.result = [] ∧ b.readReachEnds = false then
    let srcBuffer := b.source.take b.blockSize
    match b.cipherCtx.next evp srcBuffer with
    | none => none
    | some (cipherCtx, result) =>
      fill evp
        { b with
          source := b.source.drop b.blockSize
          cipherCtx
          result
          readReachEnds := srcBuffer.length < b.blockSize }
  else some b
termination_by b.toRead
decreasing_by exact b.toRead_lt _h.2 _ _

def underflow (evp : Evp σ) (b : CipherStreamBuf σ) : Option (CipherStreamBuf σ) :=
  match b.fill evp with
  | none => none
  | some b =>
    if b.result = [] ∧ b.readReachEnds = true ∧ b.finalized = false then
      (b.cipherCtx.finalize evp).map fun r =>
        { b with cipherCtx := r.1, result := r.2, finalized := true }
    else some b

/-- `overflow`, with `none` for `eof`. The stream below takes all that is written to it. `false` is
the result `eof`. -/
def overflow (evp : Evp σ) (b : CipherStreamBuf σ) (ch : Option UInt8) :
    Option (CipherStreamBuf σ × Bool) :=
  if 0 < b.pending.length then
    match b.cipherCtx.next evp b.pending with
    | none => none
    | some (cipherCtx, next) =>
      match ch with
      | none =>
        (cipherCtx.finalize evp).map fun r =>
          ({ b with cipherCtx := r.1, sink := b.sink ++ (next ++ r.2), pending := [] }, true)
      | some ch => some ({ b with cipherCtx, sink := b.sink ++ next, pending := [ch] }, true)
  else some (b, false)

/-- `sync`: 0, or -1 if `overflow` returned `eof`. -/
def sync (evp : Evp σ) (b : CipherStreamBuf σ) : Option (CipherStreamBuf σ × Int) :=
  (b.overflow evp none).map fun r => (r.1, if r.2 then 0 else -1)

/-- The reading side. -/
def getter (evp : Evp σ) : Streambuf.Getter (CipherStreamBuf σ) UInt8 where
  area b := b.result
  setArea b result := { b with result }
  underflow b := b.underflow evp

/-- The writing side. -/
def putter (evp : Evp σ) : Streambuf.Putter (CipherStreamBuf σ) UInt8 where
  room b := b.blockSize - b.pending.length
  put b bytes := { b with pending := b.pending ++ bytes }
  overflow b ch := b.overflow evp (some ch)

end CipherStreamBuf

/-- `cryptoAlgoBlockSize(CryptoAlgo::AES)`. -/
def aesBlockSize : Nat := 16

/-- `encryptionMetadata.cipherStreamSize`, as `initEncryptionMetadata` computes it
(`cpp/FileMetadataInitializer.cpp`). -/
def cipherStreamSize (srcFileToUploadSize : Nat) : Nat :=
  (srcFileToUploadSize + aesBlockSize) / aesBlockSize * aesBlockSize

end Snowflake
