import SnowflakeClient.CInt
import SnowflakeClient.Run
import SnowflakeClient.Util.Base64Decode
import SnowflakeClient.Crypto.Ecb

/-!
# The file key under the stage master key

`EncryptionProvider::encryptFileKey` and `decryptFileKey` (`cpp/EncryptionProvider.cpp`), with
`CryptoKey` (`cpp/crypto/CryptoTypes.hpp`), `getCipher` (`cpp/crypto/Cryptor.cpp`) and
`CipherContext` (`cpp/crypto/CipherContext.cpp`). Both decode the master key of the stage into a
`CryptoKey` on the stack and run AES-ECB over the file key. They ask for no padding, and get it all
the same (`Crypto/Ecb.lean`).

AES is an argument, `Aes`. What the buffers on the stack hold before they are written, and how far
they are from each other, are arguments too. A write outside of a buffer is `outside`; each `throw;`
is a `CipherFailure`.

* `transform_encrypt`, `transform_decrypt` and the lemmas before them: what the cipher writes for
  each length of its input, and when it fails.
* `decode_spec`, `masterCipher_eq`: which texts are decoded into their buffers, and which of them
  give a cipher.
-/

namespace Snowflake

structure CryptoKey where
  nbBits : Nat
  data : Buffer UInt8 32

/-- The call on a `CipherContext` that failed. -/
inductive CipherFailure where
  | init
  | next
  | finalize
  deriving DecidableEq, Repr

/-- How far two objects of 32 bytes or more are from each other. -/
structure Distance where
  bytes : Nat
  le_bytes : 32 ≤ bytes

/-- `getCipher` for AES and ECB. A cipher is known by its number of bits; the null pointer is
`none`. -/
def getCipher (nbBits : Nat) : Option Nat :=
  if nbBits = 128 ∨ nbBits = 192 ∨ nbBits = 256 then some nbBits else none

/-- The constructor of `CipherContext` and `initialize`, which fails without a cipher. The cipher
reads the bytes of the key that it needs. -/
def Aes.evpFor (aes : Aes) (padding : CryptoPadding) (key : CryptoKey) :
    Run CipherFailure (EvpCalls (EvpCtx Unit)) :=
  let flags := CtxFlags.new.setPadding (padding = .pkcs5)
  match getCipher key.nbBits with
  | none => .raised .init
  | some bits => .returned (flags.cipherInit.evp (aes.ecb (key.data.val.take (bits / 8))))

namespace CipherContext

variable {σ : Type} {n : Nat}

/-- `next` of the first `len` bytes of `input`, with `out` at the beginning of a buffer: the
context, the buffer and the count. The length is an `int` for OpenSSL, which refuses buffers that
are not as far from each other (`is_partially_overlapping`). -/
def nextBuffer (evp : EvpCalls σ) (c : CipherContext σ) (apart : Distance) (out : Buffer UInt8 n)
    (input : List UInt8) (len : Nat) : Run CipherFailure (CipherContext σ × Buffer UInt8 n × Nat) :=
  let inl := CInt.toI32 len
  if c.op = .invalid ∨ apart.bytes < inl then .raised .next
  else if input.length < inl then .outside
  else do
    let r := evp.update c.op c.ctx input inl
    let out ← out.write 0 r.written
    if r.success then .returned ({ c with ctx := r.ctx }, out, r.outl) else .raised .next

/-- `finalize` with `out` at `off` in a buffer. -/
def finalizeBuffer (evp : EvpCalls σ) (c : CipherContext σ) (out : Buffer UInt8 n) (off : Nat) :
    Run CipherFailure (CipherContext σ × Buffer UInt8 n × Nat) :=
  if c.op = .invalid then .raised .finalize
  else do
    let r := evp.final c.op c.ctx
    let out ← out.write off r.written
    if r.success then .returned ({ c with op := .invalid }, out, r.outl) else .raised .finalize

end CipherContext

/-- `next` and `finalize`, with the output one after the other in `out`. -/
def transform {n : Nat} (evp : EvpCalls (EvpCtx Unit)) (op : CryptoOperation) (apart : Distance)
    (out : Buffer UInt8 n) (input : List UInt8) (len : Nat) :
    Run CipherFailure (Buffer UInt8 n × Nat) := do
  let context : CipherContext (EvpCtx Unit) := { op, ctx := evp.init op }
  let (context, out, nextSize) ← context.nextBuffer evp apart out input len
  let (_, out, finalizeSize) ← context.finalizeBuffer evp out nextSize
  .returned (out, nextSize + finalizeSize)

/-- `decodedLength` of two arguments as a `size_t`. -/
def decodedSize (text : List UInt8) : Nat := (Base64.decodedLength text).getD (2 ^ 64 - 1)

/-- The master key as both functions read it. The number that `decode` returns is not used. -/
def CryptoKey.decode (key : CryptoKey) (text : List UInt8) : Run CipherFailure CryptoKey := do
  let (_, dst) ← .ofRead (Base64.decode text)
  let data ← key.data.write 0 dst
  .returned { nbBits := decodedSize text * 8 % 2 ^ 64, data }

/-- The cipher for the master key in `qsmkEncoded`. -/
def masterCipher (aes : Aes) (queryStageMasterKey : CryptoKey) (qsmkEncoded : List UInt8) :
    Run CipherFailure (EvpCalls (EvpCtx Unit)) := do
  let queryStageMasterKey ← queryStageMasterKey.decode qsmkEncoded
  aes.evpFor .none queryStageMasterKey

/-- `EncryptionProvider::encryptFileKey`: the new `enKekEncoded`. `queryStageMasterKey`,
`encryptedFileKey` and `encryptedFileKeyEncoded` are the variables on the stack, `qsmkEncoded` the
encryption material. -/
def encryptFileKey (aes : Aes) (apart : Distance) (queryStageMasterKey : CryptoKey)
    (encryptedFileKey : Buffer UInt8 32) (encryptedFileKeyEncoded : Buffer Char 64)
    (fileKey : CryptoKey) (qsmkEncoded : List UInt8) : Run CipherFailure (List Char) := do
  let evp ← masterCipher aes queryStageMasterKey qsmkEncoded
  let (encryptedFileKey, finalizeSize) ←
    transform evp .encrypt apart encryptedFileKey fileKey.data.val (fileKey.nbBits / 8)
  let encryptedFileKeyEncoded ←
    encryptedFileKeyEncoded.write 0 (Base64.encode (encryptedFileKey.val.take finalizeSize))
  .returned (encryptedFileKeyEncoded.val.take (Base64.encodedLength finalizeSize))

/-- `EncryptionProvider::decryptFileKey`: the new `fileKey`. -/
def decryptFileKey (aes : Aes) (apart : Distance) (queryStageMasterKey : CryptoKey)
    (encryptedFileKey : Buffer UInt8 128) (fileKey : CryptoKey)
    (enKekEncoded qsmkEncoded : List UInt8) : Run CipherFailure CryptoKey := do
  let (_, dst) ← .ofRead (Base64.decode enKekEncoded)
  let encryptedFileKey ← encryptedFileKey.write 0 dst
  let evp ← masterCipher aes queryStageMasterKey qsmkEncoded
  let (data, size) ←
    transform evp .decrypt apart fileKey.data encryptedFileKey.val (decodedSize enKekEncoded)
  .returned { nbBits := size * 8, data }

/-- `Cryptor::generateKey`, with the bytes that the random device gives. -/
def generateKey (key : CryptoKey) (nbBits : Nat) (device : Nat → UInt8) :
    Run CipherFailure CryptoKey := do
  let data ← (Buffer.replicate 32 0).write 0 ((List.range (nbBits / 8)).map device)
  .returned { key with nbBits, data }

/-- The file key of `EncryptionProvider::populateFileKeyAndIV`. -/
def populateFileKey (fileKey : CryptoKey) (device : Nat → UInt8) (qsmkEncoded : List UInt8) :
    Run CipherFailure CryptoKey :=
  let nbBits := decodedSize qsmkEncoded * 8 % 2 ^ 64
  generateKey { fileKey with nbBits } nbBits device

/-! ## The cipher -/

section Transform

variable (aes : Aes) (key : List UInt8) {op : CryptoOperation} (apart : Distance) {n : Nat}
  (out : Buffer UInt8 n) (input : List UInt8) {len m : Nat}

theorem not_refused (hop : op ≠ .invalid) {inl : Int} (h : inl ≤ apart.bytes) :
    ¬(op = .invalid ∨ apart.bytes < inl) := by
  rintro (hinvalid | hlt)
  · exact hop hinvalid
  · omega

/-- OpenSSL refuses a length that is negative as an `int`. -/
theorem transform_negative (hop : op ≠ .invalid) (h : CInt.toI32 len < 0) :
    transform (openssl (aes.ecb key)) op apart out input len = .raised .next := by
  have hvalid := not_refused apart hop (show CInt.toI32 len ≤ apart.bytes by omega)
  have hin : ¬(input.length : Int) < CInt.toI32 len := by omega
  simp [transform, CipherContext.nextBuffer, hvalid, hin, update_negative aes key op h]

/-- The buffers seem to overlap. -/
theorem transform_overlapping (h : apart.bytes < CInt.toI32 len) :
    transform (openssl (aes.ecb key)) op apart out input len = .raised .next := by
  simp only [transform, CipherContext.nextBuffer, if_pos (Or.inr h), Run.raised_bind]

variable (hop : op ≠ .invalid) (hm : CInt.toI32 len = m) (hapart : m ≤ apart.bytes)
include hop hm hapart

/-- The input is longer than its buffer. -/
theorem transform_reads_outside (h : input.length < m) :
    transform (openssl (aes.ecb key)) op apart out input len = .outside := by
  have hvalid := not_refused apart hop (Int.ofNat_le.mpr hapart)
  simp only [transform, CipherContext.nextBuffer, hm, if_neg hvalid, if_pos (Int.ofNat_lt.mpr h),
    Run.outside_bind]

/-- The two calls on the cipher and what they write, for an input that is in its buffer. -/
theorem transform_eq (h : m ≤ input.length) {r l : EvpOutput (EvpCtx Unit)}
    (hr : (openssl (aes.ecb key)).update op ((openssl (aes.ecb key)).init op) input m = r)
    (hsuccess : r.success = true) (hl : (openssl (aes.ecb key)).final op r.ctx = l) :
    transform (openssl (aes.ecb key)) op apart out input len =
      out.write 0 r.written >>= fun out => out.write r.outl l.written >>= fun out =>
        if l.success then .returned (out, r.outl + l.outl) else .raised .finalize := by
  have hvalid := not_refused apart hop (Int.ofNat_le.mpr hapart)
  have hin : ¬(input.length : Int) < m := by omega
  have hnext : CipherContext.nextBuffer (openssl (aes.ecb key))
      ⟨op, (openssl (aes.ecb key)).init op⟩ apart out input len =
      out.write 0 r.written >>= fun out => .returned (⟨op, r.ctx⟩, out, r.outl) := by
    simp only [CipherContext.nextBuffer, hm, if_neg hvalid, if_neg hin, hr, hsuccess, if_true]
  rw [transform, hnext, bind_assoc]
  refine congrArg (_ >>= ·) (funext fun out => ?_)
  simp only [Run.returned_bind, CipherContext.finalizeBuffer, if_neg hop, hl, bind_assoc]
  cases l.success <;> rfl

/-- The last call fails and writes nothing. -/
theorem transform_final_fails (h : m ≤ input.length) {r : EvpOutput (EvpCtx Unit)}
    (hr : (openssl (aes.ecb key)).update op ((openssl (aes.ecb key)).init op) input m = r)
    (hsuccess : r.success = true)
    (hl : (openssl (aes.ecb key)).final op r.ctx =
      { ctx := r.ctx, written := [], outl := 0, success := false })
    (hfirst : 0 + r.written.length ≤ n) (houtl : r.outl ≤ n) :
    transform (openssl (aes.ecb key)) op apart out input len = .raised .finalize := by
  rw [transform_eq aes key apart out input hop hm hapart h hr hsuccess hl,
    Buffer.write_of_le _ hfirst, Run.returned_bind, Buffer.write_nil _ houtl, Run.returned_bind]
  rfl

end Transform

/-- The bytes with their padding, up to a whole block. -/
def withPadding (data : List UInt8) : List UInt8 :=
  let n := 16 - data.length % 16
  data ++ List.replicate n (UInt8.ofNat n)

theorem length_withPadding (data : List UInt8) :
    (withPadding data).length = 16 * (data.length / 16) + 16 := by
  rw [withPadding, List.length_append, List.length_replicate]
  omega

theorem length_encrypt_withPadding (aes : Aes) (key data : List UInt8) :
    (aesEcbCipher (aes.encrypt key) (withPadding data)).length = 16 * (data.length / 16) + 16 := by
  rw [length_aesEcbCipher (aes.length_encrypt key), length_withPadding]

theorem decrypt_encrypt_withPadding (aes : Aes) (key data : List UInt8) :
    aesEcbCipher (aes.decrypt key) (aesEcbCipher (aes.encrypt key) (withPadding data)) =
      withPadding data := by
  refine aesEcbCipher_inverse (aes.length_encrypt key) (aes.decrypt_encrypt key) ?_
  rw [length_withPadding]
  omega

/-- The last block ends with its padding. -/
theorem padded_withPadding (data : List UInt8) :
    let block := (withPadding data).drop (16 * (data.length / 16))
    Padded block ∧ (block.getLastD 0).toNat = 16 - data.length % 16 := by
  obtain ⟨k, hk⟩ : ∃ k, 16 - data.length % 16 = k + 1 := ⟨15 - data.length % 16, by omega⟩
  have hvalue : (UInt8.ofNat (k + 1)).toNat = k + 1 :=
    UInt8.toNat_ofNat_of_lt' (show k + 1 < 256 by omega)
  have hblock : (withPadding data).drop (16 * (data.length / 16)) =
      data.drop (16 * (data.length / 16)) ++ List.replicate (k + 1) (UInt8.ofNat (k + 1)) := by
    rw [withPadding, hk]
    exact List.drop_append_of_le_length (Nat.mul_div_le _ 16)
  have hlast : (((withPadding data).drop (16 * (data.length / 16))).getLastD 0).toNat = k + 1 := by
    rw [hblock, List.replicate_succ', ← List.append_assoc, List.getLastD_concat, hvalue]
  refine ⟨⟨?_, ?_⟩, by rw [hlast, hk]⟩
  · rw [hlast]
    omega
  · rw [hlast, hblock, List.drop_left' (by rw [List.length_drop]; omega), List.all_replicate,
      hvalue]
    simp

section Encrypt

variable (aes : Aes) (key : List UInt8) (apart : Distance) {n : Nat} (out : Buffer UInt8 n)
  (input : List UInt8) {len m : Nat} (hm : CInt.toI32 len = m) (hapart : m ≤ apart.bytes)
  (h : m ≤ input.length)
include hm hapart h

/-- There is no room for the block with the padding. -/
theorem transform_encrypt_outside (hroom : n < 16 * (m / 16) + 16) :
    transform (openssl (aes.ecb key)) .encrypt apart out input len = .outside := by
  obtain ⟨-, hlen, houtl, hsuccess, -⟩ := update_encrypt aes key h
  generalize hr : (openssl (aes.ecb key)).update .encrypt ((openssl (aes.ecb key)).init .encrypt)
    input m = r at hlen houtl hsuccess
  obtain ⟨-, hlast, -, -⟩ := final_encrypt aes key r.ctx
  rw [transform_eq aes key apart out input (by decide) hm hapart h hr hsuccess rfl]
  by_cases hfits : 0 + r.written.length ≤ n
  · rw [Buffer.write_of_le _ hfits, Run.returned_bind, Buffer.write_of_lt _ (by omega),
      Run.outside_bind]
  · rw [Buffer.write_of_lt _ (Nat.not_le.mp hfits), Run.outside_bind]

/-- The input is encrypted with its padding. -/
theorem transform_encrypt (hroom : 16 * (m / 16) + 16 ≤ n) :
    ∃ written : Buffer UInt8 n,
      written.val.take (16 * (m / 16) + 16) =
        aesEcbCipher (aes.encrypt key) (withPadding (input.take m)) ∧
      transform (openssl (aes.ecb key)) .encrypt apart out input len =
        .returned (written, 16 * (m / 16) + 16) := by
  have htake : (input.take m).length = m := by
    rw [List.length_take]
    omega
  obtain ⟨hnext, hlen, houtl, hsuccess, hbuf⟩ := update_encrypt aes key h
  generalize hr : (openssl (aes.ecb key)).update .encrypt ((openssl (aes.ecb key)).init .encrypt)
    input m = r at hnext hlen houtl hsuccess hbuf
  have hbuflen : r.ctx.buf.length = m % 16 := by
    rw [hbuf, List.length_drop, htake]
    omega
  obtain ⟨hlast, hlastLen, hlastOutl, hlastSuccess⟩ := final_encrypt aes key r.ctx
  generalize hl : (openssl (aes.ecb key)).final .encrypt r.ctx = l
    at hlast hlastLen hlastOutl hlastSuccess
  have hfirst : 0 + r.written.length ≤ n := by omega
  have hsecond : r.outl + l.written.length ≤ n := by omega
  -- the two outputs are those of the whole blocks and of the last one
  have hsplit : withPadding (input.take m) = input.take (16 * (m / 16)) ++
      (r.ctx.buf ++ List.replicate (16 - r.ctx.buf.length)
        (UInt8.ofNat (16 - r.ctx.buf.length))) := by
    have hwhole : input.take (16 * (m / 16)) = (input.take m).take (16 * (m / 16)) := by
      rw [List.take_take, Nat.min_eq_left (Nat.mul_div_le m 16)]
    rw [withPadding, htake, hbuflen, hbuf, hwhole, ← List.append_assoc, List.take_append_drop]
  have hblocks : (input.take (16 * (m / 16))).length % 16 = 0 := by
    rw [List.length_take]
    omega
  refine ⟨(out.set 0 r.written hfirst).set r.outl l.written hsecond, ?_, ?_⟩
  · rw [hsplit, aesEcbCipher_append _ hblocks, ← hnext, ← hlast,
      Buffer.set_set_val _ hfirst (houtl.trans hlen.symm) hsecond]
    exact List.take_left' (by rw [List.length_append]; omega)
  · have hcount : r.outl + l.outl = 16 * (m / 16) + 16 := by omega
    rw [transform_eq aes key apart out input (by decide) hm hapart h hr hsuccess hl,
      Buffer.write_of_le _ hfirst, Run.returned_bind, Buffer.write_of_le _ hsecond,
      Run.returned_bind, if_pos hlastSuccess, hcount]

end Encrypt

section Decrypt

variable (aes : Aes) (key : List UInt8) (apart : Distance) {n : Nat} (out : Buffer UInt8 n)
  (input : List UInt8) {len m : Nat} (hm : CInt.toI32 len = m) (hapart : m ≤ apart.bytes)
include hm hapart

/-- The whole blocks are longer than the output buffer. -/
theorem transform_decrypt_outside (hroom : n < 16 * (m / 16)) :
    transform (openssl (aes.ecb key)) .decrypt apart out input len = .outside := by
  by_cases h : input.length < m
  · exact transform_reads_outside aes key apart out input (by decide) hm hapart h
  · obtain ⟨-, hlen, hsuccess, -, -⟩ := update_decrypt aes key (Nat.not_lt.mp h) (by omega)
    rw [transform_eq aes key apart out input (by decide) hm hapart (Nat.not_lt.mp h) rfl hsuccess
      rfl, Buffer.write_of_lt _ (by omega), Run.outside_bind]

variable (h : m ≤ input.length)
include h

/-- There is nothing to decrypt, or the last block is not whole. -/
theorem transform_decrypt_not_whole (hroom : 16 * (m / 16) ≤ n) (hmod : m = 0 ∨ m % 16 ≠ 0) :
    transform (openssl (aes.ecb key)) .decrypt apart out input len = .raised .finalize := by
  rcases Nat.eq_zero_or_pos m with rfl | hpos
  · exact transform_final_fails aes key apart out input (by decide) hm hapart h
      (update_zero aes key .decrypt) rfl (final_decrypt_none aes key rfl) (Nat.zero_le n)
      (Nat.zero_le n)
  · have hne : m % 16 ≠ 0 := hmod.resolve_left hpos.ne'
    obtain ⟨-, hlen, hsuccess, -, hrest⟩ := update_decrypt aes key h hpos
    obtain ⟨houtl, hfinal⟩ := hrest hne
    exact transform_final_fails aes key apart out input (by decide) hm hapart h rfl hsuccess
      (final_decrypt_none aes key hfinal) (by omega) (by omega)

variable (hpos : 0 < m) (hmod : m % 16 = 0) (hroom : m ≤ n)
include hpos hmod hroom

/-- The last block does not end with a padding. -/
theorem transform_decrypt_not_padded
    (hpadded : ¬Padded ((aesEcbCipher (aes.decrypt key) (input.take m)).drop (m - 16))) :
    transform (openssl (aes.ecb key)) .decrypt apart out input len = .raised .finalize := by
  have hwhole : 16 * (m / 16) = m := by omega
  obtain ⟨-, hlen, hsuccess, hrest, -⟩ := update_decrypt aes key h hpos
  obtain ⟨houtl, hbuf, hfinal⟩ := hrest hmod
  rw [hwhole] at hlen hfinal
  exact transform_final_fails aes key apart out input (by decide) hm hapart h rfl hsuccess
    (final_decrypt_not_padded aes key hbuf hfinal hpadded) (by omega) (by omega)

/-- The input is decrypted, and what is counted ends before its padding. The last call writes the
bytes that are there already. -/
theorem transform_decrypt
    (hpadded : Padded ((aesEcbCipher (aes.decrypt key) (input.take m)).drop (m - 16))) :
    let plain := aesEcbCipher (aes.decrypt key) (input.take m)
    ∃ written : Buffer UInt8 n, written.val = plain ++ out.val.drop m ∧
      transform (openssl (aes.ecb key)) .decrypt apart out input len =
        .returned (written, m - ((plain.drop (m - 16)).getLastD 0).toNat) := by
  have hwhole : 16 * (m / 16) = m := by omega
  obtain ⟨hnext, hlen, hsuccess, hrest, -⟩ := update_decrypt aes key h hpos
  obtain ⟨houtl, hbuf, hfinal⟩ := hrest hmod
  rw [hwhole] at hnext hlen hfinal
  have hl := final_decrypt_padded aes key hbuf hfinal hpadded
  generalize hr : (openssl (aes.ecb key)).update .decrypt ((openssl (aes.ecb key)).init .decrypt)
    input m = r at hnext hlen hsuccess houtl hbuf hfinal hl
  rw [hnext] at hlen
  intro plain
  have hplain : plain.length = m := hlen
  have hpad : ¬(((plain.drop (m - 16)).getLastD 0).toNat = 0 ∨
      16 < ((plain.drop (m - 16)).getLastD 0).toNat) := hpadded.1
  generalize hk : ((plain.drop (m - 16)).getLastD 0).toNat = k at hpad
  have hfirst : 0 + r.written.length ≤ n := by
    rw [hnext, hlen]
    omega
  have hlast : ((plain.drop (m - 16)).take (16 - k)).length = 16 - k := by
    rw [List.length_take, List.length_drop]
    omega
  have hsecond : r.outl + ((plain.drop (m - 16)).take (16 - k)).length ≤ n := by omega
  have hfilled : (out.set 0 r.written hfirst).val = plain ++ out.val.drop m := by
    rw [Buffer.set_zero_val, hnext, hlen]
  have hsame : (((out.set 0 r.written hfirst).val.drop r.outl).take
      ((plain.drop (m - 16)).take (16 - k)).length) = (plain.drop (m - 16)).take (16 - k) := by
    rw [hfilled, houtl, hlast, List.drop_append_of_le_length (by omega),
      List.take_append_of_le_length (by rw [List.length_drop]; omega)]
  have hcount : r.outl + (16 - k) = m - k := by omega
  refine ⟨out.set 0 r.written hfirst, hfilled, ?_⟩
  rw [transform_eq aes key apart out input (by decide) hm hapart h hr hsuccess hl,
    Buffer.write_of_le _ hfirst, Run.returned_bind]
  dsimp only
  rw [hk, Buffer.write_of_le _ hsecond, Run.returned_bind, Buffer.set_of_eq _ hsecond hsame, hcount]
  rfl

end Decrypt

/-! ## Key texts -/

/-- The text decodes to `3 * blocks` bytes or more, before a character that is refused. -/
def TooLong (blocks : Nat) (text : List UInt8) : Prop :=
  text.length % 4 = 0 ∧ Base64.StartsWithDigits Base64.base64Index (4 * blocks) text

/-- The text is Base64. -/
def IsBase64 (text : List UInt8) : Prop :=
  text.length % 4 = 0 ∧ Base64.WellFormed Base64.base64Index text

/-- The size of the text is that of a key of 16, 24 or 32 bytes. The number of bits is a
`size_t`. -/
def KeySized (text : List UInt8) : Prop :=
  decodedSize text % 2 ^ 61 = 16 ∨ decodedSize text % 2 ^ 61 = 24 ∨ decodedSize text % 2 ^ 61 = 32

/-- `decode` did not return `-1`. -/
def DecodeSucceeds (text : List UInt8) : Prop :=
  ∃ n dst, Base64.decode text = some (some n, dst)

theorem decode_spec (text : List UInt8) :
    ∃ count dst, Base64.decode text = some (count, dst) ∧ (count ≠ none ↔ IsBase64 text) ∧
      ∀ k, dst.length ≤ 3 * k + 2 ↔ ¬TooLong (k + 1) text := by
  obtain ⟨count, dst, hdecode, hcount, -, -⟩ :=
    Base64.decides_of_reversible Base64.base64Index_reversible text
  refine ⟨count, dst, hdecode, hcount, fun k => ?_⟩
  by_cases hlen : text.length % 4 = 0
  · rw [Base64.decodeHelper_eq _ hlen, Option.some.injEq] at hdecode
    have hwritten := Base64.decodeBlocks_written_le_iff Base64.base64Index_reversible text hlen [] k
    rw [hdecode, List.length_nil, Nat.zero_add] at hwritten
    rw [hwritten, TooLong, Nat.mul_add]
    exact not_congr ⟨fun h => ⟨hlen, h⟩, fun h => h.2⟩
  · rw [Base64.decodeHelper, if_pos hlen, Option.some.injEq, Prod.mk.injEq] at hdecode
    rw [← hdecode.2]
    exact iff_of_true (Nat.zero_le _) fun h => hlen h.1

theorem decodeSucceeds_iff (text : List UInt8) : DecodeSucceeds text ↔ IsBase64 text := by
  obtain ⟨count, dst, hdecode, hcount, -⟩ := decode_spec text
  rw [← hcount, DecodeSucceeds, hdecode]
  cases count <;> simp

theorem getCipher_eq (text : List UInt8) :
    (getCipher (decodedSize text * 8 % 2 ^ 64)).isSome ↔ KeySized text := by
  unfold getCipher KeySized
  generalize decodedSize text = size
  split
  · exact iff_of_true rfl (by omega)
  · exact iff_of_false (by simp) (by omega)

/-- What a buffer holds after a text was decoded into it. -/
def decodedInto {n : Nat} (buffer : Buffer UInt8 n) (text : List UInt8) : List UInt8 :=
  match Base64.decode text with
  | none => buffer.val
  | some (_, dst) => dst ++ buffer.val.drop dst.length

theorem decodedInto_eq {n : Nat} (buffer : Buffer UInt8 n) {text dst : List UInt8}
    {count : Option Nat} (hdecode : Base64.decode text = some (count, dst))
    (hfits : 0 + dst.length ≤ n) : decodedInto buffer text = (buffer.set 0 dst hfits).val := by
  rw [decodedInto, hdecode, Buffer.set_zero_val]

/-- The bytes of the master key that the cipher reads. -/
def masterKey (queryStageMasterKey : CryptoKey) (qsmkEncoded : List UInt8) : List UInt8 :=
  (decodedInto queryStageMasterKey.data qsmkEncoded).take (decodedSize qsmkEncoded % 2 ^ 61)

theorem masterCipher_outside (aes : Aes) (scratch : CryptoKey) {text : List UInt8}
    (h : TooLong 11 text) : masterCipher aes scratch text = .outside := by
  obtain ⟨count, dst, hdecode, -, hwritten⟩ := decode_spec text
  have hlong : 32 < 0 + dst.length := by
    have := (hwritten 10).mp.mt (not_not_intro h)
    omega
  simp only [masterCipher, CryptoKey.decode, hdecode, Run.ofRead_some, Run.returned_bind,
    Buffer.write_of_lt scratch.data hlong, Run.outside_bind]

theorem masterCipher_eq (aes : Aes) (scratch : CryptoKey) {text : List UInt8}
    (h : ¬TooLong 11 text) :
    (KeySized text ∧
        masterCipher aes scratch text = .returned (openssl (aes.ecb (masterKey scratch text)))) ∨
      (¬KeySized text ∧ masterCipher aes scratch text = .raised .init) := by
  obtain ⟨count, dst, hdecode, -, hwritten⟩ := decode_spec text
  have hfits : 0 + dst.length ≤ 32 := by
    have := (hwritten 10).mpr h
    omega
  have hrun : masterCipher aes scratch text = aes.evpFor .none
      ⟨decodedSize text * 8 % 2 ^ 64, scratch.data.set 0 dst hfits⟩ := by
    simp only [masterCipher, CryptoKey.decode, hdecode, Run.ofRead_some, Run.returned_bind,
      Buffer.write_of_le scratch.data hfits]
  rw [hrun, Aes.evpFor, ← getCipher_eq, masterKey, decodedInto_eq _ hdecode hfits]
  dsimp only
  cases hbits : getCipher (decodedSize text * 8 % 2 ^ 64) with
  | none => exact .inr ⟨by simp, rfl⟩
  | some bits =>
    have hsize : bits / 8 = decodedSize text % 2 ^ 61 := by
      unfold getCipher at hbits
      split at hbits
      · cases hbits
        generalize decodedSize text = size
        omega
      · cases hbits
    refine .inl ⟨rfl, ?_⟩
    dsimp only
    rw [CtxFlags.evp_cipherInit, hsize]

end Snowflake
