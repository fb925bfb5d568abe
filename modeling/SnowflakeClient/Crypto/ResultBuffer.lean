import SnowflakeClient.Block
import SnowflakeClient.Crypto.Evp
import SnowflakeClient.Crypto.RoundTrip

/-!
# The result buffer of the cipher stream

`CipherStreamBuf` with the block behind `m_resultBuffer`, which has one AES block more than a batch.
`next` and `finalize` write to it, and a write past its end is `outside`.

All batches but the last have the full size. If that is a multiple of 16, nothing is carried over
from them, so that a batch gives no more than its own bytes and the block that was held back. The
count that `next` returns leaves room for the last call: a batch that ends with a whole block holds
that block back, and any other is shorter than the buffer (`next_fits`).
-/

namespace Snowflake

open Streambuf

variable {σ : Type}

/-! ## The code -/

namespace CipherContext

/-- `next` with `out` at `off` in a block: the context, the block, the count and the counted
bytes. -/
def nextInto (evp : EvpCalls σ) (c : CipherContext σ) (out : Block) (off : Nat)
    (data : List UInt8) : Run Unit (CipherContext σ × Block × Nat × List UInt8) :=
  if c.op = .invalid then .raised ()
  else do
    let r := evp.update c.op c.ctx data (CInt.toI32 data.length)
    let out ← out.write off r.written
    if r.success then .returned ({ c with ctx := r.ctx }, out, r.outl, r.written.take r.outl)
    else .raised ()

/-- `finalize` with `out` at `off` in a block. -/
def finalizeInto (evp : EvpCalls σ) (c : CipherContext σ) (out : Block) (off : Nat) :
    Run Unit (CipherContext σ × Block × List UInt8) :=
  if c.op = .invalid then .raised ()
  else do
    let r := evp.final c.op c.ctx
    let out ← out.write off r.written
    if r.success then .returned ({ c with op := .invalid }, out, r.written.take r.outl)
    else .raised ()

end CipherContext

/-- A `CipherStreamBuf` and the block at `m_resultBuffer`. -/
structure CipherStreamMem (σ : Type) where
  stream : CipherStreamBuf σ
  resultBuffer : Block

namespace CipherStreamMem

/-- The constructor. `block_size` bytes were allocated before, so the sum is no more than a
`size_t` can be. -/
def new (evp : EvpCalls σ) (op : CryptoOperation) (source : List UInt8) (blockSize : Nat)
    (h : 0 < blockSize) : CipherStreamMem σ where
  stream := .new evp.toEvp op source blockSize h
  resultBuffer := ⟨List.replicate (blockSize + aesBlockSize) none⟩

/-- The loop of `underflow`. -/
def fill (evp : EvpCalls σ) (b : CipherStreamMem σ) : Run Unit (CipherStreamMem σ) :=
  if _h : b.stream.result = [] ∧ b.stream.readReachEnds = false then do
    let srcBuffer := b.stream.source.take b.stream.blockSize
    let (cipherCtx, resultBuffer, _, result) ←
      b.stream.cipherCtx.nextInto evp b.resultBuffer 0 srcBuffer
    fill evp
      { stream :=
          { b.stream with
            source := b.stream.source.drop b.stream.blockSize
            cipherCtx
            result
            readReachEnds := srcBuffer.length < b.stream.blockSize }
        resultBuffer }
  else .returned b
termination_by b.stream.toRead
decreasing_by exact b.stream.toRead_lt _h.2 _ _

def underflow (evp : EvpCalls σ) (b : CipherStreamMem σ) : Run Unit (CipherStreamMem σ) := do
  let b ← b.fill evp
  if b.stream.result = [] ∧ b.stream.readReachEnds = true ∧ b.stream.finalized = false then do
    let (cipherCtx, resultBuffer, result) ←
      b.stream.cipherCtx.finalizeInto evp b.resultBuffer 0
    .returned { stream := { b.stream with cipherCtx, result, finalized := true }, resultBuffer }
  else .returned b

/-- `overflow`, with `none` for `eof`: the last call writes behind what `next` counts. -/
def overflow (evp : EvpCalls σ) (b : CipherStreamMem σ) (ch : Option UInt8) :
    Run Unit (CipherStreamMem σ × Bool) :=
  if 0 < b.stream.pending.length then do
    let (cipherCtx, resultBuffer, nextSize, next) ←
      b.stream.cipherCtx.nextInto evp b.resultBuffer 0 b.stream.pending
    match ch with
    | none => do
      let (cipherCtx, resultBuffer, last) ← cipherCtx.finalizeInto evp resultBuffer nextSize
      .returned
        ({ stream :=
            { b.stream with cipherCtx, sink := b.stream.sink ++ (next ++ last), pending := [] }
           resultBuffer }, true)
    | some ch =>
      .returned
        ({ stream := { b.stream with cipherCtx, sink := b.stream.sink ++ next, pending := [ch] }
           resultBuffer }, true)
  else .returned (b, false)

/-- `sync`. -/
def sync (evp : EvpCalls σ) (b : CipherStreamMem σ) : Run Unit (CipherStreamMem σ × Int) := do
  let (b, taken) ← b.overflow evp none
  .returned (b, if taken then 0 else -1)

/-- The stream after a call and what it returned, which is `false` if it did not return. -/
def ended :
    Run Unit (CipherStreamMem σ × Bool) → Run Unit (CipherStreamMem σ) × Bool
  | .returned (b, taken) => (.returned b, taken)
  | .raised e => (.raised e, false)
  | .outside => (.outside, false)

/-- The reading side. A stream that was left by an exception, or that wrote outside of its buffer,
stays as it is. -/
def getter (evp : EvpCalls σ) : Getter (Run Unit (CipherStreamMem σ)) UInt8 where
  area
    | .returned b => b.stream.result
    | _ => []
  setArea r result := do
    let b ← r
    .returned { b with stream := { b.stream with result } }
  underflow r := some (r >>= underflow evp)

/-- The writing side. -/
def putter (evp : EvpCalls σ) : Putter (Run Unit (CipherStreamMem σ)) UInt8 where
  room
    | .returned b => b.stream.blockSize - b.stream.pending.length
    | _ => 0
  put r bytes := do
    let b ← r
    .returned { b with stream := { b.stream with pending := b.stream.pending ++ bytes } }
  overflow r ch := some (ended (r >>= fun b => b.overflow evp (some ch)))

end CipherStreamMem

/-! ## The stream without the block

What returns here is a step of the stream of `CipherStreamBuf` over the same functions. -/

section Stream

variable {evp : EvpCalls σ}

namespace CipherContext

variable {c : CipherContext σ} {out : Block} {off : Nat}

theorem next_of_nextInto {data : List UInt8} {r : CipherContext σ × Block × Nat × List UInt8}
    (h : c.nextInto evp out off data = .returned r) :
    c.next evp.toEvp data = some (r.1, r.2.2.2) := by
  unfold nextInto at h
  by_cases hop : c.op = .invalid
  · rw [if_pos hop] at h
    cases h
  · rw [if_neg hop] at h
    obtain ⟨out', -, h⟩ := Run.bind_eq_returned.mp h
    by_cases hsuccess : (evp.update c.op c.ctx data (CInt.toI32 data.length)).success = true
    · rw [if_pos hsuccess] at h
      cases h
      exact next_eq rfl hop (if_pos hsuccess)
    · rw [if_neg hsuccess] at h
      cases h

theorem finalize_of_finalizeInto {r : CipherContext σ × Block × List UInt8}
    (h : c.finalizeInto evp out off = .returned r) :
    c.finalize evp.toEvp = some (r.1, r.2.2) := by
  unfold finalizeInto at h
  by_cases hop : c.op = .invalid
  · rw [if_pos hop] at h
    cases h
  · rw [if_neg hop] at h
    obtain ⟨out', -, h⟩ := Run.bind_eq_returned.mp h
    by_cases hsuccess : (evp.final c.op c.ctx).success = true
    · rw [if_pos hsuccess] at h
      cases h
      exact finalize_eq rfl hop (if_pos hsuccess)
    · rw [if_neg hsuccess] at h
      cases h

end CipherContext

namespace CipherStreamMem

variable {b b' : CipherStreamMem σ}

theorem stream_fill (h : b.fill evp = .returned b') :
    b.stream.fill evp.toEvp = some b'.stream := by
  induction hn : b.stream.toRead using Nat.strongRecOn generalizing b with
  | _ n ih =>
    subst hn
    rw [fill] at h
    rw [CipherStreamBuf.fill]
    by_cases hloop : b.stream.result = [] ∧ b.stream.readReachEnds = false
    · rw [dif_pos hloop] at h ⊢
      obtain ⟨⟨cipherCtx, resultBuffer, nextSize, result⟩, hnext, h⟩ := Run.bind_eq_returned.mp h
      simp only [CipherContext.next_of_nextInto hnext]
      exact ih _ (b.stream.toRead_lt hloop.2 cipherCtx result) h rfl
    · rw [dif_neg hloop] at h ⊢
      cases h
      rfl

theorem stream_underflow (h : b.underflow evp = .returned b') :
    b.stream.underflow evp.toEvp = some b'.stream := by
  obtain ⟨b₁, hfill, h⟩ := Run.bind_eq_returned.mp h
  rw [CipherStreamBuf.underflow, stream_fill hfill]
  dsimp only
  by_cases hlast : b₁.stream.result = [] ∧ b₁.stream.readReachEnds = true ∧
      b₁.stream.finalized = false
  · rw [if_pos hlast] at h ⊢
    obtain ⟨⟨cipherCtx, resultBuffer, result⟩, hfinal, h⟩ := Run.bind_eq_returned.mp h
    cases h
    rw [CipherContext.finalize_of_finalizeInto hfinal]
    rfl
  · rw [if_neg hlast] at h ⊢
    cases h
    rfl

theorem stream_overflow {ch : Option UInt8} {taken : Bool}
    (h : b.overflow evp ch = .returned (b', taken)) :
    b.stream.overflow evp.toEvp ch = some (b'.stream, taken) := by
  unfold overflow at h
  unfold CipherStreamBuf.overflow
  by_cases hpending : 0 < b.stream.pending.length
  · rw [if_pos hpending] at h ⊢
    obtain ⟨⟨cipherCtx, resultBuffer, nextSize, next⟩, hnext, h⟩ := Run.bind_eq_returned.mp h
    simp only [CipherContext.next_of_nextInto hnext]
    cases ch with
    | none =>
      obtain ⟨⟨cipherCtx', resultBuffer', last⟩, hfinal, h⟩ := Run.bind_eq_returned.mp h
      cases h
      dsimp only
      rw [CipherContext.finalize_of_finalizeInto hfinal]
      rfl
    | some ch =>
      cases h
      rfl
  · rw [if_neg hpending] at h ⊢
    cases h
    rfl

theorem stream_sync {result : Int} (h : b.sync evp = .returned (b', result)) :
    b.stream.sync evp.toEvp = some (b'.stream, result) := by
  obtain ⟨⟨b₁, taken⟩, hoverflow, h⟩ := Run.bind_eq_returned.mp h
  cases h
  rw [CipherStreamBuf.sync, stream_overflow hoverflow]
  rfl

end CipherStreamMem

end Stream

/-! ## One batch -/

variable {evp : EvpCalls σ} {carried : σ → Nat} {held : σ → Bool}

/-- How much the last call writes. -/
def finalMax (op : CryptoOperation) : Nat := if op = .decrypt then 15 else 16

theorem EvpCalls.heldBytes_le (held : σ → Bool) (op : CryptoOperation) (ctx : σ) :
    EvpCalls.heldBytes held op ctx ≤ 16 := by
  unfold EvpCalls.heldBytes
  split_ifs <;> omega

namespace EvpCalls.Bounded

theorem final_le (hb : evp.Bounded carried held) {op : CryptoOperation} (hop : op ≠ .invalid)
    (ctx : σ) : (evp.final op ctx).written.length ≤ finalMax op := by
  cases op with
  | invalid => exact absurd rfl hop
  | encrypt => exact hb.final_encrypt ctx
  | decrypt => exact hb.final_decrypt ctx

/-- The room behind what a decrypting update on `n` bytes counts. -/
theorem room_for_last {n batch outl before after : Nat} (hn : n ≤ batch) (hbatch : batch % 16 = 0)
    (hpos : 0 < batch) (hbefore : before ≤ 16) (houtl : outl + after ≤ 16 * (n / 16) + before)
    (hback : 0 < n → n % 16 = 0 → after = 16) : outl + 15 ≤ batch + 16 := by
  rcases Nat.eq_zero_or_pos n with rfl | hn0
  · omega
  · by_cases hwhole : n % 16 = 0
    · have hafter := hback hn0 hwhole
      omega
    · omega

/-- A batch of at most `batch` bytes after whole blocks: it stays within the buffer, the count
leaves room for the last call, and a full batch leaves nothing to carry. -/
theorem next_fits (hb : evp.Bounded carried held) {op : CryptoOperation} {ctx : σ}
    {data : List UInt8} {batch : Nat} (hctx : carried ctx = 0) (hbatch : batch % 16 = 0)
    (hpos : 0 < batch) (hdata : data.length ≤ batch) {r : EvpOutput σ}
    (hr : evp.update op ctx data (CInt.toI32 data.length) = r) :
    r.written.length ≤ batch + 16 ∧ (r.success = true → r.outl + finalMax op ≤ batch + 16) ∧
      (r.success = true → data.length = batch → carried r.ctx = 0) := by
  have hle := CInt.toNat_toI32_le data.length
  have hbounds := hb.update op ctx data (CInt.toI32 data.length) (by omega)
  rw [hr] at hbounds
  obtain ⟨hwritten, houtl, hcarried, hheld⟩ := hbounds
  have hctxHeld := heldBytes_le held op ctx
  rw [hctx, Nat.zero_add] at hwritten houtl hcarried
  refine ⟨by omega, fun hsuccess => ?_, fun hsuccess hfull => ?_⟩
  · by_cases hop : op = .decrypt
    · have hback : 0 < (CInt.toI32 data.length).toNat → (CInt.toI32 data.length).toNat % 16 = 0 →
          heldBytes held op r.ctx = 16 := fun hn hwhole =>
        if_pos ⟨hop, hheld hsuccess hop (Int.lt_toNat.mp hn) ((hcarried hsuccess).trans hwhole)⟩
      have hroom := room_for_last (hle.trans hdata) hbatch hpos hctxHeld (houtl hsuccess) hback
      rwa [finalMax, if_pos hop]
    · have hnone : heldBytes held op ctx = 0 := if_neg fun h => hop h.1
      have hcount := houtl hsuccess
      rw [hnone, Nat.add_zero] at hcount
      have hwhole := Nat.mul_div_le (CInt.toI32 data.length).toNat 16
      rw [finalMax, if_neg hop]
      exact Nat.add_le_add_right ((Nat.le_add_right _ _).trans
        (hcount.trans (hwhole.trans (hle.trans hdata)))) 16
  · rw [hcarried hsuccess]
    exact CInt.toNat_toI32_mod (by rw [hfull, hbatch])

end EvpCalls.Bounded

namespace CipherContext

variable {c : CipherContext σ} {out : Block} {batch : Nat} {data : List UInt8}

/-- `next` at the beginning of the buffer. -/
theorem nextInto_inside (hb : evp.Bounded carried held) (hctx : carried c.ctx = 0)
    (hbatch : batch % 16 = 0) (hpos : 0 < batch) (hdata : data.length ≤ batch)
    (hout : out.size = batch + 16) :
    Run.Inside (fun r => r.1.op = c.op ∧ (data.length = batch → carried r.1.ctx = 0) ∧
      r.2.1.size = batch + 16 ∧ r.2.2.1 + finalMax c.op ≤ batch + 16)
      (c.nextInto evp out 0 data) := by
  unfold nextInto
  by_cases hop : c.op = .invalid
  · rw [if_pos hop]
    trivial
  · rw [if_neg hop]
    generalize hr : evp.update c.op c.ctx data (CInt.toI32 data.length) = r
    obtain ⟨hwritten, houtl, hcarried⟩ := hb.next_fits hctx hbatch hpos hdata hr
    refine (Block.write_inside (by omega)).bind fun out' hsize => ?_
    by_cases hsuccess : r.success = true
    · rw [if_pos hsuccess]
      exact ⟨rfl, hcarried hsuccess, hsize.trans hout, houtl hsuccess⟩
    · rw [if_neg hsuccess]
      trivial

/-- `finalize` where there is room for it. -/
theorem finalizeInto_inside (hb : evp.Bounded carried held) {off : Nat}
    (hoff : off + finalMax c.op ≤ out.size) :
    Run.Inside (fun r => r.2.1.size = out.size) (c.finalizeInto evp out off) := by
  unfold finalizeInto
  by_cases hop : c.op = .invalid
  · rw [if_pos hop]
    trivial
  · have hle := hb.final_le hop c.ctx
    rw [if_neg hop]
    refine (Block.write_inside (by omega)).bind fun out' hsize => ?_
    by_cases hsuccess : (evp.final c.op c.ctx).success = true
    · rw [if_pos hsuccess]
      exact hsize
    · rw [if_neg hsuccess]
      trivial

end CipherContext

theorem finalMax_le (op : CryptoOperation) : finalMax op ≤ 16 := by
  unfold finalMax
  split_ifs <;> omega

/-! ## Whole runs -/

namespace CipherStreamMem

variable {b : CipherStreamMem σ}

/-- A buffer of the size that the constructor gives it, for batches of whole blocks. -/
structure Sized (b : CipherStreamMem σ) : Prop where
  size : b.resultBuffer.size = b.stream.blockSize + 16
  whole : b.stream.blockSize % 16 = 0

theorem sized_new (evp : EvpCalls σ) (op : CryptoOperation) (source : List UInt8) {batch : Nat}
    (hpos : 0 < batch) (hbatch : batch % 16 = 0) : (new evp op source batch hpos).Sized :=
  ⟨List.length_replicate, hbatch⟩

/-- Up to the end of the source, whole blocks were read. -/
structure Reads (carried : σ → Nat) (b : CipherStreamMem σ) : Prop extends Sized b where
  carried_ctx : b.stream.readReachEnds = false → carried b.stream.cipherCtx.ctx = 0

theorem fill_inside (hb : evp.Bounded carried held) (h : b.Reads carried) :
    Run.Inside (Reads carried) (b.fill evp) := by
  induction hn : b.stream.toRead using Nat.strongRecOn generalizing b with
  | _ n ih =>
    subst hn
    rw [fill]
    by_cases hloop : b.stream.result = [] ∧ b.stream.readReachEnds = false
    · rw [dif_pos hloop]
      have hdata : (b.stream.source.take b.stream.blockSize).length ≤ b.stream.blockSize :=
        List.length_take_le _ _
      refine (CipherContext.nextInto_inside hb (h.carried_ctx hloop.2) h.whole
        b.stream.blockSize_pos hdata h.size).bind fun r hr => ?_
      obtain ⟨cipherCtx, resultBuffer, nextSize, result⟩ := r
      obtain ⟨-, hcarried, hsize, -⟩ := hr
      refine ih _ (b.stream.toRead_lt hloop.2 cipherCtx result) ⟨⟨hsize, h.whole⟩, ?_⟩ rfl
      intro hmore
      have hfull : ¬(b.stream.source.take b.stream.blockSize).length < b.stream.blockSize := by
        simpa using hmore
      exact hcarried (by omega)
    · rw [dif_neg hloop]
      exact h

theorem underflow_inside (hb : evp.Bounded carried held) (h : b.Reads carried) :
    Run.Inside (Reads carried) (b.underflow evp) := by
  refine (fill_inside hb h).bind fun b₁ h₁ => ?_
  by_cases hlast : b₁.stream.result = [] ∧ b₁.stream.readReachEnds = true ∧
      b₁.stream.finalized = false
  · rw [if_pos hlast]
    have hmax := finalMax_le b₁.stream.cipherCtx.op
    have hroom : 0 + finalMax b₁.stream.cipherCtx.op ≤ b₁.resultBuffer.size := by
      rw [h₁.size]
      omega
    refine (CipherContext.finalizeInto_inside hb hroom).bind fun r hr => ?_
    refine ⟨⟨hr.trans h₁.size, h₁.whole⟩, fun hmore => ?_⟩
    exact absurd (hlast.2.1.symm.trans hmore) (by decide)
  · rw [if_neg hlast]
    exact h₁

theorem getter_keeps (hb : evp.Bounded carried held) :
    (getter evp).Keeps (Run.Inside (Reads carried)) where
  setArea _ _ h := h.bind fun _ hr => ⟨⟨hr.size, hr.whole⟩, hr.carried_ctx⟩
  underflow _ h := ⟨_, rfl, h.bind fun _ hr => underflow_inside hb hr⟩

/-- Whole blocks were passed on, and the put area is no longer than a batch. -/
structure Writes (carried : σ → Nat) (b : CipherStreamMem σ) : Prop extends Sized b where
  carried_ctx : carried b.stream.cipherCtx.ctx = 0
  pending_le : b.stream.pending.length ≤ b.stream.blockSize

/-- `overflow` of a full put area. -/
theorem overflow_inside (hb : evp.Bounded carried held) (h : b.Writes carried)
    (hfull : b.stream.pending.length = b.stream.blockSize) (ch : UInt8) :
    Run.Inside (fun r => r.1.Writes carried) (b.overflow evp (some ch)) := by
  have hpos := b.stream.blockSize_pos
  unfold overflow
  rw [if_pos (by omega)]
  refine (CipherContext.nextInto_inside hb h.carried_ctx h.whole hpos h.pending_le h.size).bind
    fun r hr => ?_
  obtain ⟨-, hcarried, hsize, -⟩ := hr
  exact ⟨⟨hsize, h.whole⟩, hcarried hfull, hpos⟩

/-- `sync`: the last call comes behind the bytes that `next` counts. -/
theorem sync_inside (hb : evp.Bounded carried held) (h : b.Writes carried) :
    Run.Inside (fun _ => True) (b.sync evp) := by
  have hpos := b.stream.blockSize_pos
  refine Run.Inside.bind (P := fun _ => True) ?_ fun _ _ => trivial
  unfold overflow
  by_cases hpending : 0 < b.stream.pending.length
  · rw [if_pos hpending]
    refine (CipherContext.nextInto_inside hb h.carried_ctx h.whole hpos h.pending_le h.size).bind
      fun r hr => ?_
    obtain ⟨hop, -, hsize, hroom⟩ := hr
    have hroom' : r.2.2.1 + finalMax r.1.op ≤ r.2.1.size := by rwa [hop, hsize]
    exact (CipherContext.finalizeInto_inside hb hroom').bind fun _ _ => trivial
  · rw [if_neg hpending]
    trivial

theorem ended_inside {P : CipherStreamMem σ → Prop} {r : Run Unit (CipherStreamMem σ × Bool)}
    (h : Run.Inside (fun r => P r.1) r) : Run.Inside P (ended r).1 := by
  cases r with
  | returned result => exact h
  | raised e => trivial
  | outside => exact h.elim

theorem putter_keeps (hb : evp.Bounded carried held) :
    (putter evp).Keeps (Run.Inside (Writes carried)) where
  room_put r bytes := by
    cases r with
    | returned b =>
      show b.stream.blockSize - (b.stream.pending ++ bytes).length = _
      rw [List.length_append, Nat.sub_add_eq]
      rfl
    | raised e => exact (Nat.zero_sub _).symm
    | outside => exact (Nat.zero_sub _).symm
  put r bytes h hroom := by
    cases r with
    | returned b =>
      have h : b.Writes carried := h
      have hroom : bytes.length ≤ b.stream.blockSize - b.stream.pending.length := hroom
      have hle := h.pending_le
      refine ⟨⟨h.size, h.whole⟩, h.carried_ctx, ?_⟩
      show (b.stream.pending ++ bytes).length ≤ b.stream.blockSize
      rw [List.length_append]
      omega
    | raised e => trivial
    | outside => exact h.elim
  overflow r ch h hroom := by
    cases r with
    | returned b =>
      have h : b.Writes carried := h
      have hroom : b.stream.blockSize - b.stream.pending.length = 0 := hroom
      have hle := h.pending_le
      exact ⟨_, _, rfl, ended_inside (overflow_inside hb h (by omega) ch)⟩
    | raised e => exact ⟨_, _, rfl, trivial⟩
    | outside => exact h.elim

end CipherStreamMem

/-- Batches of whole blocks, both operations, and any reads, or any writes and one `sync`: the
result buffer is not exceeded. -/
theorem result_buffer_kept (evp : EvpCalls σ) {carried : σ → Nat} {held : σ → Bool}
    (hb : evp.Bounded carried held) (op : CryptoOperation) (source : List UInt8) (batch : Nat)
    (hpos : 0 < batch) (hbatch : 16 ∣ batch) :
    (∀ calls, ∃ got r,
      (CipherStreamMem.getter evp).reads calls (.returned (.new evp op source batch hpos)) =
        some (got, r) ∧ r ≠ .outside) ∧
      ∀ calls, ∃ r taken,
        (CipherStreamMem.putter evp).writes calls (.returned (.new evp op source batch hpos)) =
          some (r, taken) ∧ r ≠ .outside ∧ r >>= CipherStreamMem.sync evp ≠ .outside := by
  have hsized := CipherStreamMem.sized_new evp op source hpos (Nat.mod_eq_zero_of_dvd hbatch)
  refine ⟨fun calls => ?_, fun calls => ?_⟩
  · have hstart : Run.Inside (CipherStreamMem.Reads carried)
        (.returned (.new evp op source batch hpos) : Run Unit (CipherStreamMem σ)) :=
      ⟨hsized, fun _ => hb.carried_init op⟩
    obtain ⟨got, r, hreads, hr⟩ := (CipherStreamMem.getter_keeps hb).reads calls hstart
    exact ⟨got, r, hreads, hr.ne_outside⟩
  · have hstart : Run.Inside (CipherStreamMem.Writes carried)
        (.returned (.new evp op source batch hpos) : Run Unit (CipherStreamMem σ)) :=
      ⟨hsized, hb.carried_init op, Nat.zero_le _⟩
    obtain ⟨r, taken, hwrites, hr⟩ := (CipherStreamMem.putter_keeps hb).writes calls hstart
    refine ⟨r, taken, hwrites, hr.ne_outside, ?_⟩
    exact (hr.bind fun b h => CipherStreamMem.sync_inside hb h).ne_outside

/-- A cipher that leaves the blocks as they are. -/
def copyCipher : BlockCipher Unit := ⟨fun _ => (), fun _ _ blocks => ((), blocks), fun _ _ _ => rfl⟩

/-- OpenSSL's code with such a cipher, which decrypts two and a half blocks in batches of one. -/
theorem result_buffer_kept_copy :
    (∀ calls, ∃ got r,
      (CipherStreamMem.getter (openssl copyCipher)).reads calls
        (.returned (.new (openssl copyCipher) .decrypt (List.replicate 40 7) 16 (by decide))) =
          some (got, r) ∧ r ≠ .outside) ∧
      ∀ calls, ∃ r taken,
        (CipherStreamMem.putter (openssl copyCipher)).writes calls
          (.returned (.new (openssl copyCipher) .decrypt (List.replicate 40 7) 16 (by decide))) =
            some (r, taken) ∧ r ≠ .outside ∧
              r >>= CipherStreamMem.sync (openssl copyCipher) ≠ .outside :=
  result_buffer_kept (openssl copyCipher) (openssl_bounded copyCipher) .decrypt
    (List.replicate 40 7) 16 (by decide) (by decide)

end Snowflake
