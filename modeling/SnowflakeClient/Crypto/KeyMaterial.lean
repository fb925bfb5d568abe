import SnowflakeClient.Crypto.FileKey

/-!
# Key material from outside

The two texts that reach `encryptFileKey` and `decryptFileKey` are not the client's own: the master
key of the stage comes with the server's reply, the encrypted file key with the metadata of the
object.

* `encryptFileKey_contained_iff`, `decryptFileKey_contained_iff`: for which texts all writes are in
  their buffers, and no key is used whose text was refused.
* `file_key_round_trip_iff`: a file key comes back from its encrypted text, but for keys of 32
  bytes: the cipher pads them to 48 bytes, and there is room for 32.
* `populated_key_contained_iff`: so it is for the key that is made for an upload.
-/

namespace Snowflake

/-- The code raises an error, or it returns, with all writes in their buffers, and `decode` accepted
all of `texts`. -/
def Contained {α : Type} (run : Run CipherFailure α) (texts : List (List UInt8)) : Prop :=
  (∃ e, run = .raised e) ∨ (∃ a, run = .returned a) ∧ ∀ text ∈ texts, DecodeSucceeds text

section Contained

variable {α : Type} {texts : List (List UInt8)}

theorem not_contained_outside : ¬Contained (.outside : Run CipherFailure α) texts := by
  rintro (⟨e, h⟩ | ⟨⟨a, h⟩, -⟩) <;> cases h

theorem contained_raised (e : CipherFailure) : Contained (.raised e : Run _ α) texts :=
  .inl ⟨e, rfl⟩

theorem contained_returned_iff (a : α) :
    Contained (.returned a) texts ↔ ∀ text ∈ texts, IsBase64 text := by
  simp only [Contained, ← decodeSucceeds_iff]
  constructor
  · rintro (⟨e, h⟩ | ⟨-, h⟩)
    · cases h
    · exact h
  · exact fun h => .inr ⟨⟨a, rfl⟩, h⟩

end Contained

/-! ## Encryption -/

/-- The bytes that the file key announces are less than 32, so that there is room for the block with
the padding, and the master key is Base64. A length that is negative as an `int` is refused by
OpenSSL, and so is one that reaches from one buffer to the other. -/
def EncryptionFits (apart : Distance) (fileKey : CryptoKey) (qsmkEncoded : List UInt8) : Prop :=
  let len := CInt.toI32 (fileKey.nbBits / 8 : Nat)
  (len < 32 ∨ apart.bytes < len) ∧ (0 ≤ len → len < 32 → IsBase64 qsmkEncoded)

section Encryption

variable (aes : Aes) (apart : Distance) (queryStageMasterKey : CryptoKey)
  (encryptedFileKey : Buffer UInt8 32) (encryptedFileKeyEncoded : Buffer Char 64)
  (fileKey : CryptoKey) {qsmkEncoded : List UInt8} {key : List UInt8} {m : Nat}

/-- What is encrypted, with a key that is there. -/
theorem encryptFileKey_returned
    (hcipher : masterCipher aes queryStageMasterKey qsmkEncoded = .returned (openssl (aes.ecb key)))
    (hm : CInt.toI32 (fileKey.nbBits / 8 : Nat) = m) (hlt : m < 32) :
    encryptFileKey aes apart queryStageMasterKey encryptedFileKey encryptedFileKeyEncoded fileKey
        qsmkEncoded =
      .returned (Base64.encode
        (aesEcbCipher (aes.encrypt key) (withPadding (fileKey.data.val.take m)))) := by
  have hdata := fileKey.data.property
  have hapart := apart.le_bytes
  obtain ⟨written, hwritten, hrun⟩ := transform_encrypt aes key apart encryptedFileKey
    fileKey.data.val hm (by omega) (by omega) (by omega)
  have hlen : (aesEcbCipher (aes.encrypt key) (withPadding (fileKey.data.val.take m))).length =
      16 * (m / 16) + 16 := by
    rw [length_encrypt_withPadding, List.length_take]
    omega
  have htext := Base64.length_encodeHelper Base64.base64Index
    (aesEcbCipher (aes.encrypt key) (withPadding (fileKey.data.val.take m)))
  rw [hlen, ← Base64.encode] at htext
  have hfits : 0 + (Base64.encode
      (aesEcbCipher (aes.encrypt key) (withPadding (fileKey.data.val.take m)))).length ≤ 64 := by
    rw [htext, Base64.encodedLength]
    omega
  rw [encryptFileKey, hcipher, Run.returned_bind, hrun, Run.returned_bind]
  dsimp only
  rw [hwritten, Buffer.write_of_le _ hfits, Run.returned_bind, Buffer.set_zero_val, ← htext,
    List.take_left]

/-- A file key of 32 bytes or more is written past the end of `encryptedFileKey`. -/
theorem encryptFileKey_outside
    (hcipher : masterCipher aes queryStageMasterKey qsmkEncoded = .returned (openssl (aes.ecb key)))
    (hm : CInt.toI32 (fileKey.nbBits / 8 : Nat) = m) (hle : 32 ≤ m) (hapart : m ≤ apart.bytes) :
    encryptFileKey aes apart queryStageMasterKey encryptedFileKey encryptedFileKeyEncoded fileKey
        qsmkEncoded = .outside := by
  have hdata := fileKey.data.property
  rw [encryptFileKey, hcipher, Run.returned_bind]
  by_cases hin : m ≤ fileKey.data.val.length
  · rw [transform_encrypt_outside aes key apart _ _ hm hapart hin (by omega), Run.outside_bind]
  · rw [transform_reads_outside aes key apart _ _ (by decide) hm hapart (Nat.not_le.mp hin),
      Run.outside_bind]

theorem encryptFileKey_contained_iff :
    Contained (encryptFileKey aes apart queryStageMasterKey encryptedFileKey
        encryptedFileKeyEncoded fileKey qsmkEncoded) [qsmkEncoded] ↔
      ¬TooLong 11 qsmkEncoded ∧
        (KeySized qsmkEncoded → EncryptionFits apart fileKey qsmkEncoded) := by
  have hapart := apart.le_bytes
  by_cases hlong : TooLong 11 qsmkEncoded
  · rw [encryptFileKey, masterCipher_outside aes queryStageMasterKey hlong, Run.outside_bind]
    exact iff_of_false not_contained_outside fun h => h.1 hlong
  rcases masterCipher_eq aes queryStageMasterKey hlong with ⟨hsized, hcipher⟩ | ⟨hsized, hcipher⟩
  · rw [and_iff_right hlong, imp_iff_right hsized, EncryptionFits]
    rcases Int.lt_or_le (CInt.toI32 (fileKey.nbBits / 8 : Nat)) 0 with hneg | hpos
    · rw [encryptFileKey, hcipher, Run.returned_bind,
        transform_negative aes _ apart _ _ (by decide) hneg, Run.raised_bind]
      exact iff_of_true (contained_raised _) ⟨.inl (by omega), fun h => absurd h (by omega)⟩
    obtain ⟨m, hm⟩ := Int.eq_ofNat_of_zero_le hpos
    by_cases hlt : m < 32
    · rw [encryptFileKey_returned aes apart _ _ _ _ hcipher hm hlt, contained_returned_iff]
      simp only [List.mem_singleton, forall_eq, hm]
      exact ⟨fun h => ⟨.inl (by omega), fun _ _ => h⟩, fun h => h.2 (by omega) (by omega)⟩
    by_cases hover : apart.bytes < m
    · rw [encryptFileKey, hcipher, Run.returned_bind,
        transform_overlapping aes _ apart _ _ (by omega), Run.raised_bind]
      exact iff_of_true (contained_raised _) ⟨.inr (by omega), fun _ h => absurd h (by omega)⟩
    · rw [encryptFileKey_outside aes apart _ _ _ _ hcipher hm (by omega) (by omega)]
      exact iff_of_false not_contained_outside fun h => h.1.elim (by omega) (by omega)
  · rw [encryptFileKey, hcipher, Run.raised_bind]
    exact iff_of_true (contained_raised _) ⟨hlong, fun h => absurd h hsized⟩

end Encryption

/-! ## Decryption -/

/-- What the encrypted file key is decrypted to, up to the length `m`. -/
def decrypted (aes : Aes) (queryStageMasterKey : CryptoKey) (encryptedFileKey : Buffer UInt8 128)
    (enKekEncoded qsmkEncoded : List UInt8) (m : Nat) : List UInt8 :=
  aesEcbCipher (aes.decrypt (masterKey queryStageMasterKey qsmkEncoded))
    ((decodedInto encryptedFileKey enKekEncoded).take m)

/-- The whole blocks of the encrypted file key are in the buffer of the file key. If there are one
or two of them and nothing else, and the last one ends with its padding, then both texts are
Base64. -/
def DecryptionFits (aes : Aes) (apart : Distance) (queryStageMasterKey : CryptoKey)
    (encryptedFileKey : Buffer UInt8 128) (enKekEncoded qsmkEncoded : List UInt8) : Prop :=
  let len := CInt.toI32 (decodedSize enKekEncoded)
  (len < 48 ∨ apart.bytes < len) ∧
    ∀ m : Nat, len = m → m = 16 ∨ m = 32 →
      Padded ((decrypted aes queryStageMasterKey encryptedFileKey enKekEncoded qsmkEncoded m).drop
        (m - 16)) →
      IsBase64 qsmkEncoded ∧ IsBase64 enKekEncoded

section Decryption

variable (aes : Aes) (apart : Distance) (queryStageMasterKey : CryptoKey)
  (encryptedFileKey : Buffer UInt8 128) (fileKey : CryptoKey)
  {enKekEncoded qsmkEncoded dst : List UInt8} {key : List UInt8} {count : Option Nat}

theorem decryptFileKey_outside (hdecode : Base64.decode enKekEncoded = some (count, dst))
    (hlong : 128 < 0 + dst.length) :
    decryptFileKey aes apart queryStageMasterKey encryptedFileKey fileKey enKekEncoded qsmkEncoded =
      .outside := by
  rw [decryptFileKey, hdecode, Run.ofRead_some, Run.returned_bind]
  dsimp only
  rw [Buffer.write_of_lt _ hlong, Run.outside_bind]

/-- The run after the encrypted file key is decoded into its buffer. -/
theorem decryptFileKey_eq (hdecode : Base64.decode enKekEncoded = some (count, dst))
    (hfits : 0 + dst.length ≤ 128) :
    decryptFileKey aes apart queryStageMasterKey encryptedFileKey fileKey enKekEncoded qsmkEncoded =
      masterCipher aes queryStageMasterKey qsmkEncoded >>= fun evp =>
        transform evp .decrypt apart fileKey.data (decodedInto encryptedFileKey enKekEncoded)
          (decodedSize enKekEncoded) >>= fun r => .returned ⟨r.2 * 8, r.1⟩ := by
  rw [decryptFileKey, hdecode, Run.ofRead_some, Run.returned_bind,
    decodedInto_eq _ hdecode hfits]
  dsimp only
  rw [Buffer.write_of_le _ hfits, Run.returned_bind]

theorem decryptFileKey_contained_iff :
    Contained (decryptFileKey aes apart queryStageMasterKey encryptedFileKey fileKey enKekEncoded
        qsmkEncoded) [qsmkEncoded, enKekEncoded] ↔
      ¬TooLong 43 enKekEncoded ∧ ¬TooLong 11 qsmkEncoded ∧
        (KeySized qsmkEncoded → DecryptionFits aes apart queryStageMasterKey encryptedFileKey
          enKekEncoded qsmkEncoded) := by
  have hapart := apart.le_bytes
  obtain ⟨count, dst, hdecode, -, hwritten⟩ := decode_spec enKekEncoded
  by_cases hkek : TooLong 43 enKekEncoded
  · have hout : 128 < 0 + dst.length := by
      have := (hwritten 42).mp.mt (not_not_intro hkek)
      omega
    rw [decryptFileKey_outside aes apart _ _ _ hdecode hout]
    exact iff_of_false not_contained_outside fun h => h.1 hkek
  have hfits : 0 + dst.length ≤ 128 := by
    have := (hwritten 42).mpr hkek
    omega
  have hbuffer : (decodedInto encryptedFileKey enKekEncoded).length = 128 := by
    rw [decodedInto_eq _ hdecode hfits]
    exact (encryptedFileKey.set 0 dst hfits).property
  rw [and_iff_right hkek, decryptFileKey_eq aes apart _ _ _ hdecode hfits]
  by_cases hlong : TooLong 11 qsmkEncoded
  · rw [masterCipher_outside aes queryStageMasterKey hlong, Run.outside_bind]
    exact iff_of_false not_contained_outside fun h => h.1 hlong
  rcases masterCipher_eq aes queryStageMasterKey hlong with ⟨hsized, hcipher⟩ | ⟨hsized, hcipher⟩
  · rw [and_iff_right hlong, imp_iff_right hsized, DecryptionFits, hcipher, Run.returned_bind]
    rcases Int.lt_or_le (CInt.toI32 (decodedSize enKekEncoded)) 0 with hneg | hpos
    · rw [transform_negative aes _ apart _ _ (by decide) hneg, Run.raised_bind]
      exact iff_of_true (contained_raised _)
        ⟨.inl (by omega), fun m hm => absurd hneg (by omega)⟩
    obtain ⟨m, hm⟩ := Int.eq_ofNat_of_zero_le hpos
    simp only [hm, Nat.cast_inj, forall_eq']
    by_cases hover : apart.bytes < m
    · rw [transform_overlapping aes _ apart _ _ (by omega), Run.raised_bind]
      exact iff_of_true (contained_raised _) ⟨.inr (by omega), fun h => absurd h (by omega)⟩
    by_cases hlt : m < 48
    · by_cases hwhole : m = 16 ∨ m = 32
      · by_cases hpadded : Padded ((decrypted aes queryStageMasterKey encryptedFileKey enKekEncoded
          qsmkEncoded m).drop (m - 16))
        · obtain ⟨written, -, hrun⟩ := transform_decrypt aes _ apart fileKey.data _ hm (by omega)
            (by omega) (by omega) (by omega) (by omega) hpadded
          rw [hrun, Run.returned_bind, contained_returned_iff]
          simp only [List.mem_cons, List.not_mem_nil, or_false, forall_eq_or_imp, forall_eq]
          exact ⟨fun h => ⟨.inl (by omega), fun _ _ => h⟩, fun h => h.2 hwhole hpadded⟩
        · rw [transform_decrypt_not_padded aes _ apart _ _ hm (by omega) (by omega) (by omega)
            (by omega) (by omega) hpadded, Run.raised_bind]
          exact iff_of_true (contained_raised _)
            ⟨.inl (by omega), fun _ h => absurd h hpadded⟩
      · rw [transform_decrypt_not_whole aes _ apart _ _ hm (by omega) (by omega) (by omega)
          (by omega), Run.raised_bind]
        exact iff_of_true (contained_raised _) ⟨.inl (by omega), fun h => absurd h hwhole⟩
    · rw [transform_decrypt_outside aes _ apart _ _ hm (by omega) (by omega), Run.outside_bind]
      exact iff_of_false not_contained_outside fun h => h.1.elim (by omega) (by omega)
  · rw [hcipher, Run.raised_bind]
    exact iff_of_true (contained_raised _) ⟨hlong, fun h => absurd h hsized⟩

end Decryption

/-- Both functions keep to their buffers and use no key whose text was refused, exactly when neither
text is too long for its buffer and, with a master key of a size that there is a cipher for, the
file key and the encrypted file key fit. -/
theorem key_material_contained_iff (aes : Aes) (apart apart' : Distance)
    (queryStageMasterKey : CryptoKey) (encryptedFileKey : Buffer UInt8 32)
    (encryptedFileKeyEncoded : Buffer Char 64) (encryptedFileKey' : Buffer UInt8 128)
    (fileKey : CryptoKey) (enKekEncoded qsmkEncoded : List UInt8) :
    (Contained (encryptFileKey aes apart queryStageMasterKey encryptedFileKey
          encryptedFileKeyEncoded fileKey qsmkEncoded) [qsmkEncoded] ∧
        Contained (decryptFileKey aes apart' queryStageMasterKey encryptedFileKey' fileKey
          enKekEncoded qsmkEncoded) [qsmkEncoded, enKekEncoded]) ↔
      ¬TooLong 11 qsmkEncoded ∧ ¬TooLong 43 enKekEncoded ∧
        (KeySized qsmkEncoded →
          EncryptionFits apart fileKey qsmkEncoded ∧
          DecryptionFits aes apart' queryStageMasterKey encryptedFileKey' enKekEncoded
            qsmkEncoded) := by
  rw [encryptFileKey_contained_iff, decryptFileKey_contained_iff]
  constructor
  · rintro ⟨⟨hqsmk, henc⟩, hkek, -, hdec⟩
    exact ⟨hqsmk, hkek, fun h => ⟨henc h, hdec h⟩⟩
  · rintro ⟨hqsmk, hkek, hfits⟩
    exact ⟨⟨hqsmk, fun h => (hfits h).1⟩, hkek, hqsmk, fun h => (hfits h).2⟩

/-! ### A cipher for examples -/

theorem map_xor_map_xor (c : UInt8) (data : List UInt8) :
    (data.map (· ^^^ c)).map (· ^^^ c) = data := by
  rw [List.map_map]
  refine List.map_id'' (fun x => ?_) data
  rw [Function.comp_apply, UInt8.xor_assoc, UInt8.xor_self, UInt8.xor_zero]

/-- It adds the first byte of the key to every byte. -/
def xorAes : Aes where
  encrypt key block := block.map (· ^^^ key.headD 0)
  decrypt key block := block.map (· ^^^ key.headD 0)
  length_encrypt _ _ h := (List.length_map _).trans h
  length_decrypt _ _ h := (List.length_map _).trans h
  decrypt_encrypt _ block _ := map_xor_map_xor _ block

/-- A key of zero bytes. -/
def zeroKey (bytes : Nat) : CryptoKey := ⟨bytes * 8, .replicate 32 0⟩

def farApart : Distance := ⟨1000, by decide⟩

/-- Six blocks, of which the last has a character that is not a digit. -/
def refusedKey : List UInt8 := List.replicate 21 'A'.toUInt8 ++ ['*', '=', '='].map Char.toUInt8

theorem decode_refusedKey : Base64.decode refusedKey = some (none, List.replicate 15 0) := by
  decide +kernel

/-- 44 digits are 33 bytes, one more than the master key has room for. In the second text a
character is refused, and the key is used with what was decoded before it. -/
theorem key_material_escapes :
    encryptFileKey xorAes farApart (zeroKey 16) (.replicate 32 0) (.replicate 64 'A') (zeroKey 16)
        (List.replicate 44 'A'.toUInt8) = .outside ∧
      (∃ text, encryptFileKey xorAes farApart (zeroKey 16) (.replicate 32 0) (.replicate 64 'A')
        (zeroKey 16) refusedKey = .returned text) ∧ ¬DecodeSucceeds refusedKey := by
  have hlong : TooLong 11 (List.replicate 44 'A'.toUInt8) := by
    refine ⟨by decide, by decide, ?_⟩
    intro c hc
    rw [List.eq_of_mem_replicate (List.mem_of_mem_take hc)]
    decide
  refine ⟨?_, ?_, ?_⟩
  · rw [encryptFileKey, masterCipher_outside xorAes _ hlong, Run.outside_bind]
  · have hshort : ¬TooLong 11 refusedKey := fun h => absurd h.2.1 (by decide)
    rcases masterCipher_eq xorAes (zeroKey 16) hshort with ⟨-, hcipher⟩ | ⟨hsized, -⟩
    · exact ⟨_, encryptFileKey_returned xorAes farApart _ _ _ _ hcipher (m := 16) (by decide)
        (by decide)⟩
    · exact absurd (.inl (by decide)) hsized
  · rintro ⟨n, dst, h⟩
    rw [decode_refusedKey] at h
    cases h

/-! ## The round trip -/

section RoundTrip

variable (aes : Aes) (apart apart' : Distance) {bytes : List UInt8}

theorem decode_encode (bytes : List UInt8) :
    Base64.decode ((Base64.encode bytes).map Char.toUInt8) = some (some bytes.length, bytes) :=
  (Base64.comesBack_of_reversible Base64.base64Index_reversible bytes).2.1

theorem decodedSize_encode (bytes : List UInt8) :
    decodedSize ((Base64.encode bytes).map Char.toUInt8) = bytes.length := by
  have hsize : Base64.decodedLength ((Base64.encode bytes).map Char.toUInt8) = some bytes.length :=
    (Base64.comesBack_of_reversible Base64.base64Index_reversible bytes).2.2.2
  rw [decodedSize, hsize, Option.getD_some]

theorem decodedInto_encode {n : Nat} (buffer : Buffer UInt8 n) (bytes : List UInt8) :
    decodedInto buffer ((Base64.encode bytes).map Char.toUInt8) =
      bytes ++ buffer.val.drop bytes.length := by
  rw [decodedInto, decode_encode]

/-- A key of one of the three sizes, back from its text. -/
theorem masterCipher_encode (scratch : CryptoKey)
    (hsize : bytes.length = 16 ∨ bytes.length = 24 ∨ bytes.length = 32) :
    masterCipher aes scratch ((Base64.encode bytes).map Char.toUInt8) =
      .returned (openssl (aes.ecb bytes)) := by
  have hfits : 0 + bytes.length ≤ 32 := by omega
  have hbits : getCipher (bytes.length * 8 % 2 ^ 64) = some (bytes.length * 8) := by
    rw [Nat.mod_eq_of_lt (by omega)]
    exact if_pos (by omega)
  have hkey : (scratch.data.set 0 bytes hfits).val.take (bytes.length * 8 / 8) = bytes := by
    rw [Buffer.set_zero_val, Nat.mul_div_cancel _ (by omega), List.take_left]
  rw [masterCipher, CryptoKey.decode, decode_encode, Run.ofRead_some, Run.returned_bind]
  dsimp only
  rw [Buffer.write_of_le _ hfits, Run.returned_bind, Run.returned_bind, Aes.evpFor]
  simp only [decodedSize_encode, hbits, hkey, CtxFlags.evp_cipherInit]

/-- The length of the file key, as OpenSSL gets it. -/
theorem toI32_keyBytes {key : CryptoKey} (hbits : key.nbBits = bytes.length * 8)
    (hsize : bytes.length = 16 ∨ bytes.length = 24 ∨ bytes.length = 32) :
    CInt.toI32 (key.nbBits / 8 : Nat) = bytes.length := by
  rw [hbits, Nat.mul_div_cancel _ (by omega), CInt.toI32_of_lt (by omega) (by omega)]

/-- `fileKey` is encrypted under the master key `bytes` to a text from which every file key gets its
bits and its bytes. -/
def KeyComesBack (queryStageMasterKey : CryptoKey) (encryptedFileKey : Buffer UInt8 32)
    (encryptedFileKeyEncoded : Buffer Char 64) (encryptedFileKey' : Buffer UInt8 128)
    (bytes : List UInt8) (fileKey : CryptoKey) : Prop :=
  let qsmkEncoded := (Base64.encode bytes).map Char.toUInt8
  ∃ text, encryptFileKey aes apart queryStageMasterKey encryptedFileKey encryptedFileKeyEncoded
      fileKey qsmkEncoded = .returned text ∧
    ∀ before, ∃ after, decryptFileKey aes apart' queryStageMasterKey encryptedFileKey' before
        (text.map Char.toUInt8) qsmkEncoded = .returned after ∧
      after.nbBits = fileKey.nbBits ∧
      after.data.val.take bytes.length = fileKey.data.val.take bytes.length

variable (queryStageMasterKey : CryptoKey) (encryptedFileKey : Buffer UInt8 32)
  (encryptedFileKeyEncoded : Buffer Char 64) (encryptedFileKey' : Buffer UInt8 128)
  (fileKey : CryptoKey)

/-- The bytes of the encrypted file key, back from their text and through the cipher. The padding is
written behind them. -/
theorem decryptFileKey_encode (before : CryptoKey) {data : List UInt8}
    (hsize : bytes.length = 16 ∨ bytes.length = 24 ∨ bytes.length = 32) (hdata : data.length < 32) :
    ∃ after, decryptFileKey aes apart' queryStageMasterKey encryptedFileKey' before
        ((Base64.encode (aesEcbCipher (aes.encrypt bytes) (withPadding data))).map Char.toUInt8)
        ((Base64.encode bytes).map Char.toUInt8) = .returned after ∧
      after.nbBits = data.length * 8 ∧
      after.data.val = withPadding data ++ before.data.val.drop (withPadding data).length := by
  have hapart := apart'.le_bytes
  have hlen := length_encrypt_withPadding aes bytes data
  have hback := decrypt_encrypt_withPadding aes bytes data
  generalize aesEcbCipher (aes.encrypt bytes) (withPadding data) = kek at hlen hback
  have hint : CInt.toI32 (decodedSize ((Base64.encode kek).map Char.toUInt8)) = kek.length := by
    rw [decodedSize_encode, CInt.toI32_of_lt (by omega) (by omega)]
  have hplain : aesEcbCipher (aes.decrypt bytes) ((decodedInto encryptedFileKey'
      ((Base64.encode kek).map Char.toUInt8)).take kek.length) = withPadding data := by
    rw [decodedInto_encode, List.take_left, hback]
  have hlast : kek.length - 16 = 16 * (data.length / 16) := by omega
  obtain ⟨hpad, hcount⟩ := padded_withPadding data
  rw [← hlast] at hpad hcount
  obtain ⟨written, hwritten, hrun⟩ := transform_decrypt aes bytes apart' before.data
    (decodedInto encryptedFileKey' ((Base64.encode kek).map Char.toUInt8)) hint (by omega)
    (by rw [decodedInto_encode, List.length_append]; omega) (by omega) (by omega) (by omega)
    (by rw [hplain]; exact hpad)
  rw [hplain] at hwritten hrun
  rw [length_withPadding, ← hlen]
  refine ⟨⟨data.length * 8, written⟩, ?_, rfl, hwritten⟩
  have hsum : kek.length - (16 - data.length % 16) = data.length := by omega
  rw [decryptFileKey_eq aes apart' _ _ _ (decode_encode _) (by omega),
    masterCipher_encode aes _ hsize, Run.returned_bind, hrun, Run.returned_bind, hcount, hsum]

/-- A file key of the size of its master key comes back, unless that size is 32: then the padding
takes a third block. -/
theorem file_key_round_trip_iff
    (hsize : bytes.length = 16 ∨ bytes.length = 24 ∨ bytes.length = 32)
    (hbits : fileKey.nbBits = bytes.length * 8) :
    KeyComesBack aes apart apart' queryStageMasterKey encryptedFileKey encryptedFileKeyEncoded
      encryptedFileKey' bytes fileKey ↔ bytes.length ≠ 32 := by
  have hfull := fileKey.data.property
  have hapart := apart.le_bytes
  have hcipher := masterCipher_encode aes queryStageMasterKey hsize
  have hint := toI32_keyBytes hbits hsize
  constructor
  · rintro ⟨text, htext, -⟩ h32
    rw [encryptFileKey_outside aes apart _ _ _ _ hcipher hint (by omega) (by omega)] at htext
    cases htext
  · intro h32
    have hencrypt := encryptFileKey_returned aes apart queryStageMasterKey encryptedFileKey
      encryptedFileKeyEncoded fileKey hcipher hint (by omega)
    refine ⟨_, hencrypt, fun before => ?_⟩
    have htake : (fileKey.data.val.take bytes.length).length = bytes.length := by
      rw [List.length_take]
      omega
    obtain ⟨after, hrun, hnbBits, hval⟩ := decryptFileKey_encode aes apart' queryStageMasterKey
      encryptedFileKey' before hsize
      (by omega : (fileKey.data.val.take bytes.length).length < 32)
    rw [htake] at hnbBits
    refine ⟨after, hrun, hnbBits.trans hbits.symm, ?_⟩
    rw [hval, withPadding, List.append_assoc]
    exact List.take_left' htake

end RoundTrip

/-- Keys of 16 and of 24 bytes. -/
theorem file_key_round_trip_both :
    KeyComesBack xorAes farApart farApart (zeroKey 16) (.replicate 32 0) (.replicate 64 'A')
        (.replicate 128 0) (List.replicate 16 7) (zeroKey 16) ∧
      KeyComesBack xorAes farApart farApart (zeroKey 16) (.replicate 32 0) (.replicate 64 'A')
        (.replicate 128 0) (List.replicate 24 7) (zeroKey 24) :=
  ⟨(file_key_round_trip_iff xorAes _ _ _ _ _ _ (zeroKey 16) (.inl List.length_replicate)
      (by decide)).mpr (by decide),
    (file_key_round_trip_iff xorAes _ _ _ _ _ _ (zeroKey 24) (.inr (.inl List.length_replicate))
      (by decide)).mpr (by decide)⟩

/-- A key of 32 bytes is written past the end of `encryptedFileKey`. -/
theorem file_key_32_bytes_overflows :
    encryptFileKey xorAes farApart (zeroKey 16) (.replicate 32 0) (.replicate 64 'A') (zeroKey 32)
      ((Base64.encode (List.replicate 32 7)).map Char.toUInt8) = .outside :=
  encryptFileKey_outside xorAes farApart _ _ _ _
    (masterCipher_encode xorAes _ (.inr (.inr List.length_replicate))) (m := 32) (by decide)
    (by decide) (by decide)

/-! ## The file key of an upload -/

section Populated

variable (fileKey : CryptoKey) (device : Nat → UInt8) {bytes : List UInt8}

/-- `populateFileKeyAndIV` makes a key of the size of the master key. -/
theorem populateFileKey_encode
    (hsize : bytes.length = 16 ∨ bytes.length = 24 ∨ bytes.length = 32) :
    ∃ key, populateFileKey fileKey device ((Base64.encode bytes).map Char.toUInt8) =
        .returned key ∧
      key.nbBits = bytes.length * 8 ∧
      key.data.val.take bytes.length = (List.range bytes.length).map device := by
  have hbits : bytes.length * 8 % 2 ^ 64 = bytes.length * 8 := Nat.mod_eq_of_lt (by omega)
  have hbytes : bytes.length * 8 / 8 = bytes.length := Nat.mul_div_cancel _ (by omega)
  have hlen : ((List.range bytes.length).map device).length = bytes.length := by
    rw [List.length_map, List.length_range]
  have hfits : 0 + ((List.range bytes.length).map device).length ≤ 32 := by omega
  refine ⟨⟨bytes.length * 8, (Buffer.replicate 32 0).set 0 _ hfits⟩, ?_, rfl, ?_⟩
  · rw [populateFileKey, decodedSize_encode, hbits, generateKey, hbytes,
      Buffer.write_of_le _ hfits, Run.returned_bind]
  · rw [Buffer.set_zero_val]
    exact List.take_left' hlen

/-- The key that is made for an upload has the size of the master key, so that it is encrypted
inside of the buffers for all sizes but 32. -/
theorem populated_key_contained_iff (aes : Aes) (apart : Distance) (queryStageMasterKey : CryptoKey)
    (encryptedFileKey : Buffer UInt8 32) (encryptedFileKeyEncoded : Buffer Char 64)
    (hsize : bytes.length = 16 ∨ bytes.length = 24 ∨ bytes.length = 32) :
    let qsmkEncoded := (Base64.encode bytes).map Char.toUInt8
    ∃ key, populateFileKey fileKey device qsmkEncoded = .returned key ∧
      key.nbBits = bytes.length * 8 ∧
      key.data.val.take bytes.length = (List.range bytes.length).map device ∧
      (Contained (encryptFileKey aes apart queryStageMasterKey encryptedFileKey
        encryptedFileKeyEncoded key qsmkEncoded) [qsmkEncoded] ↔ bytes.length ≠ 32) := by
  have hapart := apart.le_bytes
  obtain ⟨key, hrun, hbits, hdata⟩ := populateFileKey_encode fileKey device hsize
  have hcipher := masterCipher_encode aes queryStageMasterKey hsize
  have hint := toI32_keyBytes hbits hsize
  refine ⟨key, hrun, hbits, hdata, ?_⟩
  by_cases h32 : bytes.length = 32
  · rw [encryptFileKey_outside aes apart _ _ _ _ hcipher hint (by omega) (by omega)]
    exact iff_of_false not_contained_outside (not_not_intro h32)
  · rw [encryptFileKey_returned aes apart _ _ _ _ hcipher hint (by omega), contained_returned_iff]
    refine iff_of_true (fun text htext => ?_) h32
    rw [List.mem_singleton.mp htext, ← decodeSucceeds_iff]
    exact ⟨_, _, decode_encode bytes⟩

end Populated

/-- A master key of 24 bytes. -/
theorem populated_key_24_contained :
    ∃ key, populateFileKey (zeroKey 16) (fun _ => 5)
        ((Base64.encode (List.replicate 24 7)).map Char.toUInt8) = .returned key ∧
      Contained (encryptFileKey xorAes farApart (zeroKey 16) (.replicate 32 0) (.replicate 64 'A')
        key ((Base64.encode (List.replicate 24 7)).map Char.toUInt8))
        [(Base64.encode (List.replicate 24 7)).map Char.toUInt8] := by
  obtain ⟨key, hrun, -, -, hcontained⟩ := populated_key_contained_iff (zeroKey 16) (fun _ => 5)
    xorAes farApart (zeroKey 16) (.replicate 32 0) (.replicate 64 'A')
    (.inr (.inl (List.length_replicate (a := (7 : UInt8)))))
  exact ⟨key, hrun, hcontained.mpr (by decide)⟩

end Snowflake
