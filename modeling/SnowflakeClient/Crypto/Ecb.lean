import SnowflakeClient.Crypto.Evp

/-!
# AES-ECB as OpenSSL runs it

`aes_ecb_cipher` (`crypto/evp/e_aes.c` of OpenSSL) under the functions of `Crypto/Evp.lean`, with
the flag `EVP_CIPH_NO_PADDING`. `CipherContext` sets the flag in its constructor, for
`CryptoPadding::NONE`. But `EVP_CipherInit_ex` comes after it and clears all flags but one, so that
the cipher pads whatever padding was asked for (`evp_cipherInit`).

* `update_encrypt`, `final_encrypt`: the two calls write the encrypted bytes with their padding.
* `update_decrypt`, `final_decrypt_padded`, `final_decrypt_not_padded`: the first call writes all
  whole blocks, and the second one the last of them without its padding, or it fails.
-/

namespace Snowflake

inductive CryptoPadding where
  | none
  | pkcs5
  deriving DecidableEq, Repr

/-- The flags of an `EVP_CIPHER_CTX` that matter here. -/
structure CtxFlags where
  noPadding : Bool
  wrapAllow : Bool
  deriving DecidableEq, Repr

namespace CtxFlags

/-- `EVP_CIPHER_CTX_new`. -/
def new : CtxFlags := ⟨false, false⟩

/-- `EVP_CIPHER_CTX_set_padding`. -/
def setPadding (flags : CtxFlags) (pad : Bool) : CtxFlags := { flags with noPadding := !pad }

/-- `EVP_CipherInit_ex` with a cipher: "Preserve wrap enable flag, zero everything else". -/
def cipherInit (flags : CtxFlags) : CtxFlags where
  noPadding := false
  wrapAllow := flags.wrapAllow

end CtxFlags

/-- The functions with `EVP_CIPH_NO_PADDING`: both updates are `EVP_EncryptUpdate`, and the last
calls write nothing and fail if a part of a block is left. -/
def opensslUnpadded {κ : Type} (cipher : BlockCipher κ) : EvpCalls (EvpCtx κ) :=
  { openssl cipher with
    update := fun op ctx input inl =>
      if inl ≤ 0 then { ctx, written := [], outl := 0, success := inl = 0 }
      else
        let r := ctx.encryptUpdate cipher op (input.take inl.toNat)
        { ctx := r.1, written := r.2, outl := r.2.length, success := true }
    final := fun _ ctx => { ctx, written := [], outl := 0, success := ctx.buf.isEmpty } }

/-- OpenSSL's functions on a context with the flags. -/
def CtxFlags.evp {κ : Type} (flags : CtxFlags) (cipher : BlockCipher κ) : EvpCalls (EvpCtx κ) :=
  if flags.noPadding then opensslUnpadded cipher else openssl cipher

/-- The padding of the constructor does not outlive the initialization. -/
theorem CtxFlags.evp_cipherInit {κ : Type} (flags : CtxFlags) (cipher : BlockCipher κ) :
    flags.cipherInit.evp cipher = openssl cipher := rfl

/-! ## The mode ECB -/

/-- The loop of `aes_ecb_cipher`, for `n` blocks. -/
def ecbBlocks (block : List UInt8 → List UInt8) : Nat → List UInt8 → List UInt8
  | 0, data => data
  | n + 1, data => block (data.take 16) ++ ecbBlocks block n (data.drop 16)

/-- `aes_ecb_cipher`. It is called with whole blocks only. -/
def aesEcbCipher (block : List UInt8 → List UInt8) (data : List UInt8) : List UInt8 :=
  ecbBlocks block (data.length / 16) data

section Ecb

variable {block : List UInt8 → List UInt8}

theorem length_ecbBlocks (hblock : ∀ b, b.length = 16 → (block b).length = 16) (n : Nat)
    {data : List UInt8} (h : 16 * n ≤ data.length) :
    (ecbBlocks block n data).length = data.length := by
  induction n generalizing data with
  | zero => rfl
  | succ n ih =>
    have hfirst : (data.take 16).length = 16 := by
      rw [List.length_take]
      omega
    have hrest : 16 * n ≤ (data.drop 16).length := by
      rw [List.length_drop]
      omega
    rw [ecbBlocks, List.length_append, hblock _ hfirst, ih hrest, List.length_drop]
    omega

theorem ecbBlocks_append (k n : Nat) {front : List UInt8} (back : List UInt8)
    (h : front.length = 16 * k) :
    ecbBlocks block (k + n) (front ++ back) =
      ecbBlocks block k front ++ ecbBlocks block n back := by
  induction k generalizing front with
  | zero =>
    rw [List.length_eq_zero_iff.mp h, Nat.zero_add, List.nil_append]
    rfl
  | succ k ih =>
    have hle : 16 ≤ front.length := by omega
    have hrest : (front.drop 16).length = 16 * k := by
      rw [List.length_drop]
      omega
    rw [Nat.succ_add, ecbBlocks, ecbBlocks, List.take_append_of_le_length hle,
      List.drop_append_of_le_length hle, ih hrest, List.append_assoc]

theorem length_aesEcbCipher (hblock : ∀ b, b.length = 16 → (block b).length = 16)
    (data : List UInt8) : (aesEcbCipher block data).length = data.length :=
  length_ecbBlocks hblock _ (Nat.mul_div_le data.length 16)

theorem aesEcbCipher_append {front : List UInt8} (back : List UInt8)
    (h : front.length % 16 = 0) :
    aesEcbCipher block (front ++ back) = aesEcbCipher block front ++ aesEcbCipher block back := by
  have hfront : front.length = 16 * (front.length / 16) := by omega
  have hsum : (front ++ back).length / 16 = front.length / 16 + back.length / 16 := by
    rw [List.length_append]
    omega
  rw [aesEcbCipher, hsum, ecbBlocks_append _ _ back hfront]
  rfl

theorem ecbBlocks_inverse {inverse : List UInt8 → List UInt8}
    (hblock : ∀ b, b.length = 16 → (block b).length = 16)
    (hinverse : ∀ b, b.length = 16 → inverse (block b) = b) (n : Nat) {data : List UInt8}
    (h : data.length = 16 * n) : ecbBlocks inverse n (ecbBlocks block n data) = data := by
  induction n generalizing data with
  | zero => rfl
  | succ n ih =>
    have hfirst : (data.take 16).length = 16 := by
      rw [List.length_take]
      omega
    have hrest : (data.drop 16).length = 16 * n := by
      rw [List.length_drop]
      omega
    have hout := hblock _ hfirst
    rw [ecbBlocks, ecbBlocks, List.take_left' hout, List.drop_left' hout, hinverse _ hfirst,
      ih hrest, List.take_append_drop]

theorem aesEcbCipher_inverse {inverse : List UInt8 → List UInt8}
    (hblock : ∀ b, b.length = 16 → (block b).length = 16)
    (hinverse : ∀ b, b.length = 16 → inverse (block b) = b) {data : List UInt8}
    (h : data.length % 16 = 0) : aesEcbCipher inverse (aesEcbCipher block data) = data := by
  rw [aesEcbCipher, length_aesEcbCipher hblock]
  exact ecbBlocks_inverse hblock hinverse _ (by omega)

end Ecb

/-! ## AES -/

/-- AES for a key, on blocks of 16 bytes: decryption undoes encryption. -/
structure Aes where
  encrypt : (key block : List UInt8) → List UInt8
  decrypt : (key block : List UInt8) → List UInt8
  length_encrypt : ∀ key block, block.length = 16 → (encrypt key block).length = 16
  length_decrypt : ∀ key block, block.length = 16 → (decrypt key block).length = 16
  decrypt_encrypt : ∀ key block, block.length = 16 → decrypt key (encrypt key block) = block

namespace Aes

/-- What is done to one block. -/
def onBlock (aes : Aes) (key : List UInt8) : CryptoOperation → List UInt8 → List UInt8
  | .encrypt => aes.encrypt key
  | .decrypt => aes.decrypt key
  | .invalid => id

theorem length_onBlock (aes : Aes) (key : List UInt8) (op : CryptoOperation) (block : List UInt8)
    (h : block.length = 16) : (aes.onBlock key op block).length = 16 := by
  cases op with
  | invalid => exact h
  | encrypt => exact aes.length_encrypt key block h
  | decrypt => exact aes.length_decrypt key block h

/-- `EVP_aes_128_ecb`, `EVP_aes_192_ecb` or `EVP_aes_256_ecb` with a key. The blocks are not
chained. -/
def ecb (aes : Aes) (key : List UInt8) : BlockCipher Unit where
  start _ := ()
  doCipher op _ blocks := ((), aesEcbCipher (aes.onBlock key op) blocks)
  length_doCipher op _ blocks := length_aesEcbCipher (aes.length_onBlock key op) blocks

end Aes

/-- The block ends with its padding: with `n` bytes that have the value `n`. -/
def Padded (block : List UInt8) : Prop :=
  let n := (block.getLastD 0).toNat
  ¬(n = 0 ∨ 16 < n) ∧ (block.drop (16 - n)).all (·.toNat = n)

/-! ## The calls on a fresh context -/

section Calls

variable (aes : Aes) (key : List UInt8) (op : CryptoOperation) {input : List UInt8} {m : Nat}

/-- `EVP_EncryptUpdate` of `m` bytes on a context that carries nothing: the whole blocks are
written, and the rest is carried. -/
theorem encryptUpdate_fresh {ctx : EvpCtx Unit} (hbuf : ctx.buf = []) (hm : m ≤ input.length) :
    let r := ctx.encryptUpdate (aes.ecb key) op (input.take m)
    r.2 = aesEcbCipher (aes.onBlock key op) (input.take (16 * (m / 16))) ∧
      r.2.length = 16 * (m / 16) ∧ r.1.buf = (input.take m).drop (16 * (m / 16)) := by
  have hlen : (input.take m).length = m := by
    rw [List.length_take]
    omega
  have hout : (ctx.encryptUpdate (aes.ecb key) op (input.take m)).2 =
      aesEcbCipher (aes.onBlock key op) (input.take (16 * (m / 16))) ∧
      (ctx.encryptUpdate (aes.ecb key) op (input.take m)).1.buf =
        (input.take m).drop (16 * (m / 16)) := by
    rw [EvpCtx.encryptUpdate, if_pos hbuf, hlen]
    by_cases hwhole : m % 16 = 0
    · have hall : 16 * (m / 16) = m := by omega
      rw [if_pos hwhole, hall, List.drop_eq_nil_iff.mpr hlen.le]
      exact ⟨rfl, hbuf⟩
    · have hinl : m - m % 16 = 16 * (m / 16) := by omega
      rw [if_neg hwhole, EvpCtx.wholeBlocks]
      simp only [hlen, hinl, and_true, List.take_take, Nat.min_eq_left (Nat.mul_div_le m 16)]
      split_ifs with hpos
      · rfl
      · have hnone : 16 * (m / 16) = 0 := by omega
        rw [hnone, List.take_zero]
        rfl
  refine ⟨hout.1, ?_, hout.2⟩
  rw [hout.1, length_aesEcbCipher (aes.length_onBlock key op), List.length_take]
  omega

theorem update_zero : (openssl (aes.ecb key)).update op ((openssl (aes.ecb key)).init op) input 0 =
    { ctx := (openssl (aes.ecb key)).init op, written := [], outl := 0, success := true } := rfl

theorem update_negative {ctx : EvpCtx Unit} {inl : Int} (h : inl < 0) :
    (openssl (aes.ecb key)).update op ctx input inl =
      { ctx, written := [], outl := 0, success := false } := by
  simp only [openssl, EvpCtx.update, if_pos h.le, decide_eq_false h.ne]

/-- The whole blocks are written and counted, and the rest is carried. -/
theorem update_encrypt (hm : m ≤ input.length) :
    let r := (openssl (aes.ecb key)).update .encrypt ((openssl (aes.ecb key)).init .encrypt) input m
    r.written = aesEcbCipher (aes.encrypt key) (input.take (16 * (m / 16))) ∧
      r.written.length = 16 * (m / 16) ∧ r.outl = 16 * (m / 16) ∧ r.success = true ∧
      r.ctx.buf = (input.take m).drop (16 * (m / 16)) := by
  rcases Nat.eq_zero_or_pos m with rfl | hpos
  · rw [Nat.cast_zero, update_zero]
    exact ⟨by rw [Nat.zero_div, Nat.mul_zero, List.take_zero]; rfl, rfl, rfl, rfl, rfl⟩
  · obtain ⟨hout, hlen, hbuf⟩ := encryptUpdate_fresh aes key .encrypt
      (rfl : ((openssl (aes.ecb key)).init .encrypt).buf = []) hm
    have hupdate : (openssl (aes.ecb key)).update .encrypt
        ((openssl (aes.ecb key)).init .encrypt) input m =
        let r := ((openssl (aes.ecb key)).init .encrypt).encryptUpdate (aes.ecb key) .encrypt
          (input.take m)
        { ctx := r.1, written := r.2, outl := r.2.length, success := true } := by
      show EvpCtx.update _ _ _ _ _ = _
      rw [EvpCtx.update, if_neg (by omega), if_neg (by decide), Int.toNat_natCast]
    rw [hupdate]
    exact ⟨hout, hlen, hlen, rfl, hbuf⟩

/-- The last call writes one block, with the padding. -/
theorem final_encrypt (ctx : EvpCtx Unit) :
    let n := 16 - ctx.buf.length
    let r := (openssl (aes.ecb key)).final .encrypt ctx
    r.written = aesEcbCipher (aes.encrypt key) (ctx.buf ++ List.replicate n (UInt8.ofNat n)) ∧
      r.written.length = 16 ∧ r.outl = 16 ∧ r.success = true := by
  have hlt := ctx.buf_lt
  refine ⟨rfl, ?_, rfl, rfl⟩
  show (aesEcbCipher (aes.onBlock key .encrypt) _).length = 16
  rw [length_aesEcbCipher (aes.length_onBlock key .encrypt), List.length_append,
    List.length_replicate]
  omega

/-- The whole blocks are written. If there are only whole blocks, the last of them is kept and not
counted. -/
theorem update_decrypt (hm : m ≤ input.length) (hpos : 0 < m) :
    let whole := aesEcbCipher (aes.decrypt key) (input.take (16 * (m / 16)))
    let r := (openssl (aes.ecb key)).update .decrypt ((openssl (aes.ecb key)).init .decrypt) input m
    r.written = whole ∧ r.written.length = 16 * (m / 16) ∧ r.success = true ∧
      (m % 16 = 0 → r.outl = m - 16 ∧ r.ctx.buf = [] ∧ r.ctx.final = some (whole.drop (m - 16))) ∧
      (m % 16 ≠ 0 → r.outl = 16 * (m / 16) ∧ r.ctx.final = none) := by
  obtain ⟨hout, hlen, hbuf⟩ := encryptUpdate_fresh aes key .decrypt
    (rfl : ((openssl (aes.ecb key)).init .decrypt).buf = []) hm
  have hrest : (input.take m).drop (16 * (m / 16)) = [] ↔ m % 16 = 0 := by
    rw [List.drop_eq_nil_iff, List.length_take]
    omega
  have hupdate : (openssl (aes.ecb key)).update .decrypt
      ((openssl (aes.ecb key)).init .decrypt) input m =
      ((openssl (aes.ecb key)).init .decrypt).decryptUpdate (aes.ecb key) (input.take m) := by
    show EvpCtx.update _ _ _ _ _ = _
    rw [EvpCtx.update, if_neg (by omega), if_pos rfl, Int.toNat_natCast]
  rw [hupdate, EvpCtx.decryptUpdate]
  by_cases hmod : m % 16 = 0
  · have hempty := hbuf.trans (hrest.mpr hmod)
    have hlast : 16 * (m / 16) - 16 = m - 16 := by omega
    rw [if_pos hempty]
    refine ⟨hout, hlen, rfl, fun _ => ⟨?_, hempty, ?_⟩, fun h => absurd hmod h⟩
    · exact (congrArg (· - 16) hlen).trans hlast
    · dsimp only
      rw [hlen, hlast, hout]
      rfl
  · rw [if_neg fun h => hmod (hrest.mp (hbuf.symm.trans h))]
    exact ⟨hout, hlen, rfl, fun h => absurd h hmod, fun _ => ⟨hlen, rfl⟩⟩

section FinalDecrypt

variable {ctx : EvpCtx Unit} {block : List UInt8}

/-- Nothing was decrypted, or not only whole blocks. -/
theorem final_decrypt_none (h : ctx.final = none) :
    (openssl (aes.ecb key)).final .decrypt ctx =
      { ctx, written := [], outl := 0, success := false } := by
  show ctx.decryptFinal = _
  rw [EvpCtx.decryptFinal, h]

/-- The last block is written without its padding. -/
theorem final_decrypt_padded (hbuf : ctx.buf = []) (h : ctx.final = some block)
    (hpadded : Padded block) :
    let n := (block.getLastD 0).toNat
    (openssl (aes.ecb key)).final .decrypt ctx =
      { ctx, written := block.take (16 - n), outl := 16 - n, success := true } := by
  show ctx.decryptFinal = _
  rw [EvpCtx.decryptFinal, h]
  dsimp only
  rw [if_neg (not_not_intro hbuf), if_neg hpadded.1, if_pos hpadded.2]

theorem final_decrypt_not_padded (hbuf : ctx.buf = []) (h : ctx.final = some block)
    (hpadded : ¬Padded block) :
    (openssl (aes.ecb key)).final .decrypt ctx =
      { ctx, written := [], outl := 0, success := false } := by
  show ctx.decryptFinal = _
  rw [EvpCtx.decryptFinal, h]
  dsimp only
  rw [if_neg (not_not_intro hbuf)]
  split_ifs with hn hall
  · rfl
  · exact absurd ⟨hn, hall⟩ hpadded
  · rfl

end FinalDecrypt

end Calls

end Snowflake
