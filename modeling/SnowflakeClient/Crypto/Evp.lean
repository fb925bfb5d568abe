import SnowflakeClient.CInt
import SnowflakeClient.Crypto.CipherStream

/-!
# What OpenSSL writes

`EVP_EncryptUpdate`, `EVP_DecryptUpdate` and the last calls (`crypto/evp/evp_enc.c` of OpenSSL),
with the bytes that they put at `out` and the count that they give in `outl`. The two differ when a
context decrypts: the last whole block is written, but it is held back and not counted, and the next
update writes it again before its own output.

`EvpCalls` is such functions, and `EvpCalls.Bounded` says how much they write. `openssl` is the code
of OpenSSL for a block cipher with padding, and `openssl_bounded` that it keeps to those bounds.
-/

namespace Snowflake

/-- What a call does: the context after it, the bytes from `out` on that it writes, `outl`, and if
it succeeds. -/
structure EvpOutput (σ : Type) where
  ctx : σ
  written : List UInt8
  outl : Nat
  success : Bool

/-- OpenSSL's functions on a cipher context, with what they write. `inl` is an `int`. -/
structure EvpCalls (σ : Type) where
  init : CryptoOperation → σ
  update : CryptoOperation → σ → (input : List UInt8) → (inl : Int) → EvpOutput σ
  final : CryptoOperation → σ → EvpOutput σ

namespace EvpCalls

variable {σ : Type}

/-- The functions as they are seen by a caller that takes `outl` bytes of what is written. -/
def toEvp (evp : EvpCalls σ) : Evp σ where
  init := evp.init
  update op ctx input :=
    let r := evp.update op ctx input (CInt.toI32 input.length)
    if r.success then some (r.ctx, r.written.take r.outl) else none
  final op ctx :=
    let r := evp.final op ctx
    if r.success then some (r.written.take r.outl) else none

/-- The bytes of the block that is held back. -/
def heldBytes (held : σ → Bool) (op : CryptoOperation) (ctx : σ) : Nat :=
  if op = .decrypt ∧ held ctx = true then 16 else 0

/-- One update on `inl` bytes, with `carried ctx` bytes of an incomplete block: it writes the whole
blocks, after the one that was held back, and counts those that it does not hold back. -/
structure UpdateBounds (carried : σ → Nat) (held : σ → Bool) (op : CryptoOperation) (ctx : σ)
    (inl : Int) (r : EvpOutput σ) : Prop where
  written : r.written.length ≤ 16 * ((carried ctx + inl.toNat) / 16) + heldBytes held op ctx
  outl : r.success = true → r.outl + heldBytes held op r.ctx ≤
    16 * ((carried ctx + inl.toNat) / 16) + heldBytes held op ctx
  carried_ctx : r.success = true → carried r.ctx = (carried ctx + inl.toNat) % 16
  /-- Where whole blocks were decrypted, the last of them is held back. -/
  held_ctx : r.success = true → op = .decrypt → 0 < inl → carried r.ctx = 0 → held r.ctx = true

/-- How much the functions write. -/
structure Bounded (evp : EvpCalls σ) (carried : σ → Nat) (held : σ → Bool) : Prop where
  carried_init : ∀ op, carried (evp.init op) = 0
  update : ∀ op ctx (input : List UInt8) (inl : Int), inl ≤ input.length →
    UpdateBounds carried held op ctx inl (evp.update op ctx input inl)
  final_encrypt : ∀ ctx, (evp.final .encrypt ctx).written.length ≤ 16
  final_decrypt : ∀ ctx, (evp.final .decrypt ctx).written.length ≤ 15

end EvpCalls

/-! ## The code -/

/-- A block cipher in a mode that chains its blocks, for one key: `do_cipher`, on whole blocks. -/
structure BlockCipher (κ : Type) where
  start : CryptoOperation → κ
  doCipher : CryptoOperation → κ → List UInt8 → κ × List UInt8
  length_doCipher : ∀ op k blocks, (doCipher op k blocks).2.length = blocks.length

/-- `EVP_CIPHER_CTX`: `buf` up to `buf_len`, and `final` while it is used. -/
structure EvpCtx (κ : Type) where
  cipher : κ
  buf : List UInt8
  final : Option (List UInt8)
  buf_lt : buf.length < 16
  final_le : ∀ block ∈ final, block.length ≤ 16

namespace EvpCtx

variable {κ : Type} (cipher : BlockCipher κ) (op : CryptoOperation)

/-- The end of `EVP_EncryptUpdate`: the whole blocks of the input; what is left goes to `buf`. -/
def wholeBlocks (ctx : EvpCtx κ) (input : List UInt8) : EvpCtx κ × List UInt8 :=
  let inl := input.length - input.length % 16
  let r := if 0 < inl then cipher.doCipher op ctx.cipher (input.take inl) else (ctx.cipher, [])
  ({ ctx with
    cipher := r.1
    buf := input.drop inl
    buf_lt := by rw [List.length_drop]; omega }, r.2)

/-- `EVP_EncryptUpdate` for a positive length: the context and what is written, which is counted in
`outl`. -/
def encryptUpdate (ctx : EvpCtx κ) (input : List UInt8) : EvpCtx κ × List UInt8 :=
  if ctx.buf = [] then
    if input.length % 16 = 0 then
      let r := cipher.doCipher op ctx.cipher input
      ({ ctx with cipher := r.1 }, r.2)
    else wholeBlocks cipher op ctx input
  else if _h : input.length < 16 - ctx.buf.length then
    ({ ctx with
      buf := ctx.buf ++ input
      buf_lt := by rw [List.length_append]; omega }, [])
  else
    let j := 16 - ctx.buf.length
    let first := cipher.doCipher op ctx.cipher (ctx.buf ++ input.take j)
    let r := wholeBlocks cipher op { ctx with cipher := first.1 } (input.drop j)
    (r.1, first.2 ++ r.2)

/-- `EVP_DecryptUpdate` for a positive length. -/
def decryptUpdate (ctx : EvpCtx κ) (input : List UInt8) : EvpOutput (EvpCtx κ) :=
  let fix := ctx.final.getD []
  let r := encryptUpdate cipher .decrypt ctx input
  if r.1.buf = [] then
    { ctx := { r.1 with
        final := some (r.2.drop (r.2.length - 16))
        final_le := by
          rintro _ ⟨⟩
          rw [List.length_drop]
          omega }
      written := fix ++ r.2
      outl := r.2.length - 16 + fix.length
      success := true }
  else
    { ctx := { r.1 with
        final := none
        final_le := by rintro _ ⟨⟩ }
      written := fix ++ r.2
      outl := r.2.length + fix.length
      success := true }

/-- The updates, with the check of the length. -/
def update (ctx : EvpCtx κ) (input : List UInt8) (inl : Int) : EvpOutput (EvpCtx κ) :=
  if inl ≤ 0 then { ctx, written := [], outl := 0, success := inl = 0 }
  else if op = .decrypt then decryptUpdate cipher ctx (input.take inl.toNat)
  else
    let r := encryptUpdate cipher op ctx (input.take inl.toNat)
    { ctx := r.1, written := r.2, outl := r.2.length, success := true }

/-- `EVP_EncryptFinal_ex`. -/
def encryptFinal (ctx : EvpCtx κ) : EvpOutput (EvpCtx κ) :=
  let n := 16 - ctx.buf.length
  let r := cipher.doCipher .encrypt ctx.cipher (ctx.buf ++ List.replicate n (UInt8.ofNat n))
  { ctx := { ctx with cipher := r.1 }, written := r.2, outl := 16, success := true }

/-- `EVP_DecryptFinal_ex`. -/
def decryptFinal (ctx : EvpCtx κ) : EvpOutput (EvpCtx κ) :=
  let failed : EvpOutput (EvpCtx κ) := { ctx, written := [], outl := 0, success := false }
  match ctx.final with
  | none => failed
  | some block =>
    let n := (block.getLastD 0).toNat
    if ctx.buf ≠ [] then failed
    else if n = 0 ∨ 16 < n then failed
    else if (block.drop (16 - n)).all (·.toNat = n) then
      { ctx, written := block.take (16 - n), outl := 16 - n, success := true }
    else failed

end EvpCtx

/-- OpenSSL's functions for the cipher. -/
def openssl {κ : Type} (cipher : BlockCipher κ) : EvpCalls (EvpCtx κ) where
  init op := ⟨cipher.start op, [], none, by decide, by rintro _ ⟨⟩⟩
  update op ctx input inl := ctx.update cipher op input inl
  final op ctx := if op = .decrypt then ctx.decryptFinal else ctx.encryptFinal cipher

/-! ## The bounds -/

namespace EvpCtx

variable {κ : Type} {cipher : BlockCipher κ} {op : CryptoOperation} {ctx : EvpCtx κ}
  {input : List UInt8}

theorem wholeBlocks_length (cipher : BlockCipher κ) (op : CryptoOperation) (ctx : EvpCtx κ)
    (input : List UInt8) :
    (wholeBlocks cipher op ctx input).2.length = 16 * (input.length / 16) ∧
      (wholeBlocks cipher op ctx input).1.buf.length = input.length % 16 := by
  refine ⟨?_, ?_⟩
  · unfold wholeBlocks
    dsimp only
    split_ifs with hpos
    · rw [cipher.length_doCipher, List.length_take]
      omega
    · rw [List.length_nil]
      omega
  · unfold wholeBlocks
    rw [List.length_drop]
    omega

/-- The whole blocks of what was carried and of the input are written, and the rest is carried. -/
theorem encryptUpdate_length (cipher : BlockCipher κ) (op : CryptoOperation) (ctx : EvpCtx κ)
    (input : List UInt8) :
    (encryptUpdate cipher op ctx input).2.length = 16 * ((ctx.buf.length + input.length) / 16) ∧
      (encryptUpdate cipher op ctx input).1.buf.length =
        (ctx.buf.length + input.length) % 16 := by
  have hlt := ctx.buf_lt
  unfold encryptUpdate
  by_cases hbuf : ctx.buf = []
  · have hempty : ctx.buf.length = 0 := by rw [hbuf, List.length_nil]
    rw [if_pos hbuf]
    by_cases hwhole : input.length % 16 = 0
    · rw [if_pos hwhole]
      dsimp only
      rw [cipher.length_doCipher]
      omega
    · rw [if_neg hwhole, hempty, Nat.zero_add]
      exact wholeBlocks_length cipher op ctx input
  · have hpos : 0 < ctx.buf.length := List.length_pos_iff.mpr hbuf
    rw [if_neg hbuf]
    by_cases hshort : input.length < 16 - ctx.buf.length
    · rw [dif_pos hshort]
      dsimp only
      rw [List.length_nil, List.length_append]
      omega
    · rw [dif_neg hshort]
      dsimp only
      obtain ⟨hout, hrest⟩ := wholeBlocks_length cipher op
        { ctx with
          cipher := (cipher.doCipher op ctx.cipher
            (ctx.buf ++ input.take (16 - ctx.buf.length))).1 }
        (input.drop (16 - ctx.buf.length))
      rw [List.length_append, cipher.length_doCipher, List.length_append, List.length_take, hout,
        hrest, List.length_drop]
      omega

/-- What the updates do to a positive number of bytes, in the terms of `Bounded`. -/
theorem decryptUpdate_spec (cipher : BlockCipher κ) (ctx : EvpCtx κ) {input : List UInt8}
    (hinput : input ≠ []) :
    let r := decryptUpdate cipher ctx input
    let fix := (ctx.final.getD []).length
    r.written.length = 16 * ((ctx.buf.length + input.length) / 16) + fix ∧
      r.outl + (if r.ctx.final.isSome then 16 else 0) =
        16 * ((ctx.buf.length + input.length) / 16) + fix ∧
      r.ctx.buf.length = (ctx.buf.length + input.length) % 16 ∧
      (r.ctx.buf.length = 0 ↔ r.ctx.final.isSome) := by
  obtain ⟨hout, hbuf⟩ := encryptUpdate_length cipher .decrypt ctx input
  have hpos := List.length_pos_iff.mpr hinput
  unfold decryptUpdate
  by_cases hempty : (encryptUpdate cipher .decrypt ctx input).1.buf = []
  · rw [if_pos hempty]
    rw [hempty, List.length_nil] at hbuf
    simp only [List.length_append, hout, hempty, List.length_nil, Option.isSome_some, if_true]
    exact ⟨by omega, by omega, hbuf, by simp⟩
  · rw [if_neg hempty]
    have hne := List.length_pos_iff.mpr hempty
    simp only [List.length_append, hout, Option.isSome_none, Bool.false_eq_true, if_false]
    exact ⟨by omega, by omega, hbuf, by simpa using hempty⟩

theorem decryptFinal_written_le (ctx : EvpCtx κ) : ctx.decryptFinal.written.length ≤ 15 := by
  unfold decryptFinal
  cases ctx.final with
  | none => simp
  | some block =>
    dsimp only
    split_ifs with hbuf hn hpad
    · simp
    · simp
    · rw [List.length_take]
      omega
    · simp

theorem heldBytes_decrypt (ctx : EvpCtx κ) :
    EvpCalls.heldBytes (fun ctx : EvpCtx κ => ctx.final.isSome) .decrypt ctx =
      if ctx.final.isSome then 16 else 0 := by
  simp [EvpCalls.heldBytes]

theorem length_final_le (ctx : EvpCtx κ) :
    (ctx.final.getD []).length ≤ if ctx.final.isSome then 16 else 0 := by
  have hle := ctx.final_le
  cases hfinal : ctx.final with
  | none => simp
  | some block => exact hle block hfinal

theorem update_bounds (cipher : BlockCipher κ) (op : CryptoOperation) (ctx : EvpCtx κ)
    {input : List UInt8} {inl : Int} (hinl : inl ≤ input.length) :
    EvpCalls.UpdateBounds (fun ctx => ctx.buf.length) (fun ctx => ctx.final.isSome) op ctx inl
      (ctx.update cipher op input inl) := by
  have hlt := ctx.buf_lt
  unfold update
  by_cases hpos : inl ≤ 0
  · have hzero : inl.toNat = 0 := Int.toNat_eq_zero.mpr hpos
    rw [if_pos hpos]
    exact ⟨Nat.zero_le _, fun _ => by dsimp only; omega, fun _ => by dsimp only; omega,
      fun _ _ h => by omega⟩
  · have hlen : (input.take inl.toNat).length = inl.toNat := by
      rw [List.length_take]
      omega
    rw [if_neg hpos]
    by_cases hop : op = .decrypt
    · subst hop
      have hne : input.take inl.toNat ≠ [] := List.length_pos_iff.mp (by omega)
      obtain ⟨hwritten, houtl, hbuf, hheld⟩ := decryptUpdate_spec cipher ctx hne
      have hfix := length_final_le ctx
      rw [hlen] at hwritten houtl hbuf
      rw [if_pos rfl]
      refine ⟨?_, fun _ => ?_, fun _ => hbuf, fun _ _ _ => hheld.mp⟩
      · rw [heldBytes_decrypt]
        omega
      · rw [heldBytes_decrypt, heldBytes_decrypt]
        omega
    · obtain ⟨hout, hbuf⟩ := encryptUpdate_length cipher op ctx (input.take inl.toNat)
      rw [hlen] at hout hbuf
      rw [if_neg hop]
      have hheld (ctx : EvpCtx κ) :
          EvpCalls.heldBytes (fun ctx : EvpCtx κ => ctx.final.isSome) op ctx = 0 :=
        if_neg fun h => hop h.1
      refine ⟨?_, fun _ => ?_, fun _ => hbuf, fun _ h => absurd h hop⟩
      · rw [hheld]
        exact hout.le
      · rw [hheld, hheld]
        exact hout.le

end EvpCtx

/-- The code keeps to the bounds, with the length of `buf` and the flag `final_used`. -/
theorem openssl_bounded {κ : Type} (cipher : BlockCipher κ) :
    (openssl cipher).Bounded (fun ctx => ctx.buf.length) (fun ctx => ctx.final.isSome) where
  carried_init op := rfl
  update op ctx input inl hinl := ctx.update_bounds cipher op hinl
  final_encrypt ctx := by
    have hlt := ctx.buf_lt
    show (cipher.doCipher _ _ _).2.length ≤ 16
    rw [cipher.length_doCipher, List.length_append, List.length_replicate]
    omega
  final_decrypt ctx := ctx.decryptFinal_written_le

end Snowflake
