import SnowflakeClient.Crypto.CipherStream

/-!
# The cipher stream round trip

OpenSSL is assumed to be a streaming AES-CBC cipher (`AesCbc`): however the input is split, the
outputs of the updates and of the last call make up the encryption, or decryption, of the whole.
Then a `CipherStreamBuf` gives the same bytes whatever its batch size and whatever the sizes of the
reads and writes are (`Reading`, `Writing`), and decryption gives back what was encrypted
(`cipher_round_trip`).
-/

namespace Snowflake

open Streambuf

variable {σ : Type} {evp : Evp σ} {op : CryptoOperation} {data out : List UInt8} {c : σ}

/-! ## Updates -/

namespace Evp

/-- The context after the updates with `inputs`, and their outputs. -/
def updates (evp : Evp σ) (op : CryptoOperation) : σ → List (List UInt8) → Option (σ × List UInt8)
  | c, [] => some (c, [])
  | c, input :: inputs =>
    match evp.update op c input with
    | none => none
    | some (c, out) => (evp.updates op c inputs).map fun r => (r.1, out ++ r.2)

/-- The outputs of the updates with `inputs` and of the last call. -/
def output (evp : Evp σ) (op : CryptoOperation) (inputs : List (List UInt8)) :
    Option (List UInt8) :=
  match evp.updates op (evp.init op) inputs with
  | none => none
  | some (c, out) => (evp.final op c).map fun last => out ++ last

theorem updates_append (xs ys : List (List UInt8)) :
    evp.updates op c (xs ++ ys) = (evp.updates op c xs).bind fun s =>
      (evp.updates op s.1 ys).map fun r => (r.1, s.2 ++ r.2) := by
  induction xs generalizing c with
  | nil => simp [updates]
  | cons x xs ih =>
    simp only [List.cons_append, updates]
    cases evp.update op c x with
    | none => rfl
    | some r =>
      simp only [ih]
      cases evp.updates op r.1 xs with
      | none => rfl
      | some s => cases h : evp.updates op s.1 ys <;> simp [h]

theorem updates_singleton (x : List UInt8) :
    evp.updates op c [x] = evp.update op c x := by
  rw [updates]
  cases evp.update op c x with
  | none => rfl
  | some r => simp [updates]

/-- However `data` is split, the output is `out`. -/
def Transforms (evp : Evp σ) (op : CryptoOperation) (data out : List UInt8) : Prop :=
  ∀ inputs : List (List UInt8), inputs.flatten = data → evp.output op inputs = some out

namespace Transforms

variable {fed : List (List UInt8)} {before : List UInt8}

/-- The updates with a part of the data succeed, and their outputs are a part of `out`. -/
theorem updates_prefix (h : evp.Transforms op data out) (hfed : fed.flatten <+: data) :
    ∃ c o, evp.updates op (evp.init op) fed = some (c, o) ∧ o <+: out := by
  obtain ⟨rest, hrest⟩ := hfed
  have hout := h (fed ++ [rest]) (by simpa using hrest)
  rw [output, updates_append] at hout
  cases hu : evp.updates op (evp.init op) fed with
  | none => simp [hu] at hout
  | some r =>
    rw [hu, Option.bind_some] at hout
    refine ⟨r.1, r.2, rfl, ?_⟩
    cases hlast : evp.updates op r.1 [rest] with
    | none => simp [hlast] at hout
    | some r' =>
      simp only [hlast, Option.map_some, Option.map_eq_some_iff] at hout
      obtain ⟨last, -, rfl⟩ := hout
      exact ⟨r'.2 ++ last, by simp⟩

/-- The next update succeeds. -/
theorem update (h : evp.Transforms op data out) {input : List UInt8}
    (hfed : evp.updates op (evp.init op) fed = some (c, before))
    (hdata : fed.flatten ++ input <+: data) :
    ∃ c' o, evp.update op c input = some (c', o) ∧
      evp.updates op (evp.init op) (fed ++ [input]) = some (c', before ++ o) := by
  have hfed' : (fed ++ [input]).flatten <+: data := by simpa using hdata
  obtain ⟨c', o, hall, -⟩ := h.updates_prefix hfed'
  rw [updates_append, hfed, Option.bind_some, updates_singleton] at hall
  obtain ⟨⟨c₁, o₁⟩, hup, heq⟩ := Option.map_eq_some_iff.mp hall
  refine ⟨c₁, o₁, hup, ?_⟩
  rw [updates_append, hfed, Option.bind_some, updates_singleton, hup]
  rfl

/-- After the last update the rest of the output comes. -/
theorem final (h : evp.Transforms op data out)
    (hfed : evp.updates op (evp.init op) fed = some (c, before)) (hdata : fed.flatten = data) :
    ∃ o, evp.final op c = some o ∧ before ++ o = out := by
  have hout := h fed hdata
  rw [output, hfed] at hout
  exact Option.map_eq_some_iff.mp hout

end Transforms

end Evp

namespace CipherContext

theorem next_eq {ctx : CipherContext σ} (hop : ctx.op = op) (hne : op ≠ .invalid) {c' : σ}
    {input o : List UInt8} (h : evp.update op ctx.ctx input = some (c', o)) :
    ctx.next evp input = some ({ op, ctx := c' }, o) := by
  subst hop
  unfold next
  split
  · next hinv => exact absurd hinv hne
  · rw [h]
    rfl

theorem finalize_eq {ctx : CipherContext σ} (hop : ctx.op = op) (hne : op ≠ .invalid)
    {o : List UInt8} (h : evp.final op ctx.ctx = some o) :
    ctx.finalize evp = some ({ ctx with op := .invalid }, o) := by
  subst hop
  unfold finalize
  split
  · next hinv => exact absurd hinv hne
  · rw [h]
    rfl

end CipherContext

/-! ## Reading -/

/-- `rest` is what is still to be read of the output `out` for `data`. -/
inductive Reading (evp : Evp σ) (op : CryptoOperation) (data out : List UInt8) :
    List UInt8 → CipherStreamBuf σ → Prop
  | active {b : CipherStreamBuf σ} {fed : List (List UInt8)} {got rest : List UInt8} :
      b.cipherCtx.op = op → b.finalized = false →
      evp.updates op (evp.init op) fed = some (b.cipherCtx.ctx, got ++ b.result) →
      fed.flatten ++ b.source = data → (b.readReachEnds = true → b.source = []) →
      out = got ++ rest → Reading evp op data out rest b
  | done {b : CipherStreamBuf σ} {rest : List UInt8} :
      b.finalized = true → b.readReachEnds = true → rest = b.result →
      Reading evp op data out rest b

namespace Reading

variable {rest : List UInt8} {b : CipherStreamBuf σ}

/-- The loop of `underflow` ends with something to read, or when the source is used up. -/
theorem fill (ht : evp.Transforms op data out) (hne : op ≠ .invalid) {fed : List (List UInt8)}
    {got : List UInt8} (hop : b.cipherCtx.op = op) (hfin : b.finalized = false)
    (hfed : evp.updates op (evp.init op) fed = some (b.cipherCtx.ctx, got ++ b.result))
    (hdata : fed.flatten ++ b.source = data) (hends : b.readReachEnds = true → b.source = []) :
    ∃ b' fed', b.fill evp = some b' ∧ b'.cipherCtx.op = op ∧ b'.finalized = false ∧
      evp.updates op (evp.init op) fed' = some (b'.cipherCtx.ctx, got ++ b'.result) ∧
      fed'.flatten ++ b'.source = data ∧ (b'.readReachEnds = true → b'.source = []) ∧
      (b'.result = [] → b'.readReachEnds = true) := by
  induction hn : b.toRead using Nat.strongRecOn generalizing b fed with
  | _ n ih =>
    subst hn
    rw [CipherStreamBuf.fill]
    by_cases hloop : b.result = [] ∧ b.readReachEnds = false
    · rw [dif_pos hloop]
      have hsplit := List.take_append_drop b.blockSize b.source
      have hpre : fed.flatten ++ b.source.take b.blockSize <+: data :=
        ⟨b.source.drop b.blockSize, by rw [List.append_assoc, hsplit, hdata]⟩
      obtain ⟨c', o, hup, hall⟩ := ht.update hfed hpre
      rw [hloop.1, List.append_nil] at hall
      simp only [CipherContext.next_eq hop hne hup]
      refine ih _ ?_ rfl hfin hall ?_ ?_ rfl
      · exact b.toRead_lt hloop.2 _ _
      · simpa using hdata
      · intro hshort
        have hlt : (b.source.take b.blockSize).length < b.blockSize := by simpa using hshort
        rw [List.length_take] at hlt
        exact List.drop_of_length_le (by omega)
    · rw [dif_neg hloop]
      refine ⟨b, fed, rfl, hop, hfin, hfed, hdata, hends, fun hnil => ?_⟩
      by_contra hmore
      exact hloop ⟨hnil, by simpa using hmore⟩

theorem underflow (ht : evp.Transforms op data out) (hne : op ≠ .invalid)
    (h : Reading evp op data out rest b) :
    ∃ b', b.underflow evp = some b' ∧ Reading evp op data out rest b' ∧
      (b'.result = [] → rest = []) := by
  cases h with
  | @active _ fed got rest hop hfin hfed hdata hends hout =>
    obtain ⟨b₁, fed₁, hfill, hop₁, hfin₁, hfed₁, hdata₁, hends₁, hstop⟩ :=
      fill ht hne hop hfin hfed hdata hends
    rw [CipherStreamBuf.underflow, hfill]
    by_cases hlast : b₁.result = []
    · -- All was read, so the last call is made.
      have hreach := hstop hlast
      rw [hends₁ hreach, List.append_nil] at hdata₁
      rw [hlast, List.append_nil] at hfed₁
      obtain ⟨o, hfinal, hall⟩ := ht.final hfed₁ hdata₁
      have hrest : o = rest := List.append_cancel_left (hall.trans hout)
      dsimp only
      rw [if_pos ⟨hlast, hreach, hfin₁⟩, CipherContext.finalize_eq hop₁ hne hfinal]
      exact ⟨_, rfl, .done rfl hreach hrest.symm, fun heq => hrest.symm.trans heq⟩
    · dsimp only
      rw [if_neg fun hall => hlast hall.1]
      exact ⟨b₁, rfl, .active hop₁ hfin₁ hfed₁ hdata₁ hends₁ hout, fun heq => absurd heq hlast⟩
  | done hfin hreach hrest =>
    rw [CipherStreamBuf.underflow, CipherStreamBuf.fill, dif_neg (by simp [hreach])]
    dsimp only
    rw [if_neg (by simp [hfin])]
    exact ⟨b, rfl, .done hfin hreach hrest, fun heq => hrest.trans heq⟩

/-- A cipher stream gives the output. -/
theorem delivers (ht : evp.Transforms op data out) (hne : op ≠ .invalid) :
    (CipherStreamBuf.getter evp).Delivers (Reading evp op data out) where
  area_setArea _ _ := rfl
  area rest b h := by
    cases h with
    | @active _ fed got rest hop hfin hfed hdata hends hout =>
      obtain ⟨c', o, hup, hpre⟩ := ht.updates_prefix ⟨b.source, hdata⟩
      rw [hfed] at hup
      cases hup
      rw [hout] at hpre
      exact (List.prefix_append_right_inj got).mp hpre
    | done hfin hreach hrest =>
      rw [hrest]
      exact List.prefix_refl _
  advance rest b n h hle := by
    have hle : n ≤ b.result.length := hle
    cases h with
    | @active _ fed got rest hop hfin hfed hdata hends hout =>
      obtain ⟨c', o, hup, hpre⟩ := ht.updates_prefix ⟨b.source, hdata⟩
      rw [hfed] at hup
      cases hup
      rw [hout] at hpre
      obtain ⟨tail, rfl⟩ := (List.prefix_append_right_inj got).mp hpre
      have hsplit := List.take_append_drop n b.result
      rw [List.drop_append_of_le_length hle]
      have hfed' : evp.updates op (evp.init op) fed =
          some (b.cipherCtx.ctx, got ++ b.result.take n ++ b.result.drop n) := by
        rw [List.append_assoc, hsplit]
        exact hfed
      refine .active hop hfin hfed' hdata hends ?_
      rw [hout, List.append_assoc, ← List.append_assoc (b.result.take n), hsplit]
    | done hfin hreach hrest => exact .done hfin hreach (congrArg (List.drop n) hrest)
  underflow rest b h _ := h.underflow ht hne

end Reading

/-! ## Writing -/

/-- The bytes of `written` were written; the last of them are in the put area. -/
def Writing (evp : Evp σ) (op : CryptoOperation) (written : List UInt8) (b : CipherStreamBuf σ) :
    Prop :=
  ∃ fed, b.cipherCtx.op = op ∧
    evp.updates op (evp.init op) fed = some (b.cipherCtx.ctx, b.sink) ∧
    fed.flatten ++ b.pending = written ∧ (written ≠ [] → b.pending ≠ [])

namespace Writing

variable {written : List UInt8} {b : CipherStreamBuf σ}

theorem accepts (ht : evp.Transforms op data out) (hne : op ≠ .invalid) :
    (CipherStreamBuf.putter evp).Accepts data (Writing evp op) where
  room_put b bytes := by
    show b.blockSize - (b.pending ++ bytes).length = b.blockSize - b.pending.length - bytes.length
    rw [List.length_append, Nat.sub_add_eq]
  put written b bytes h _ := by
    obtain ⟨fed, hop, hfed, rfl, hpending⟩ := h
    refine ⟨fed, hop, hfed, (List.append_assoc ..).symm, fun hwritten hnil => ?_⟩
    obtain ⟨hpnil, rfl⟩ := List.append_eq_nil_iff.mp hnil
    rw [List.append_nil] at hwritten
    exact hpending hwritten hpnil
  overflow written b ch h hroom hgoal := by
    obtain ⟨fed, hop, hfed, rfl, -⟩ := h
    have hroom : b.blockSize - b.pending.length = 0 := hroom
    have hpos := b.blockSize_pos
    obtain ⟨c', o, hup, hall⟩ := ht.update hfed ((List.prefix_append _ [ch]).trans hgoal)
    refine ⟨{ b with cipherCtx := { op, ctx := c' }, sink := b.sink ++ o, pending := [ch] }, ?_,
      fed ++ [b.pending], rfl, hall, ?_, fun _ => List.cons_ne_nil ch []⟩
    · show b.overflow evp (some ch) = _
      rw [CipherStreamBuf.overflow, if_pos (by omega), CipherContext.next_eq hop hne hup]
    · simp

/-- `sync` after all was written. -/
theorem sync (ht : evp.Transforms op data out) (hne : op ≠ .invalid) (hdata : data ≠ [])
    (h : Writing evp op data b) : ∃ b', b.sync evp = some (b', 0) ∧ b'.sink = out := by
  obtain ⟨fed, hop, hfed, hall, hpending⟩ := h
  have hpos : 0 < b.pending.length := List.length_pos_iff.mpr (hpending hdata)
  obtain ⟨c', o, hup, hfed'⟩ := ht.update hfed ⟨[], by rw [List.append_nil, hall]⟩
  obtain ⟨o', hfinal, hout⟩ := ht.final hfed' (by simpa using hall)
  refine ⟨{ b with
    cipherCtx := { op := .invalid, ctx := c' }
    sink := b.sink ++ (o ++ o')
    pending := [] }, ?_, by rw [← hout, List.append_assoc]⟩
  rw [CipherStreamBuf.sync, CipherStreamBuf.overflow, if_pos hpos,
    CipherContext.next_eq hop hne hup]
  dsimp only
  rw [CipherContext.finalize_eq rfl hne hfinal]
  rfl

end Writing

/-! ## The main result -/

/-- The assumption on OpenSSL: a streaming cipher with `enc` and `dec` (which fails on what is no
encryption) that pads to whole blocks of 16 bytes. -/
structure AesCbc (evp : Evp σ) (enc : List UInt8 → List UInt8)
    (dec : List UInt8 → Option (List UInt8)) : Prop where
  encrypts : ∀ inputs, evp.output .encrypt inputs = some (enc inputs.flatten)
  decrypts : ∀ inputs, evp.output .decrypt inputs = dec inputs.flatten
  dec_enc : ∀ plain, dec (enc plain) = some plain
  length_enc : ∀ plain, (enc plain).length = (plain.length / 16 + 1) * 16

/-- Encryption on reading and decryption on writing, with batches of `b₁` and `b₂` bytes. -/
structure RoundTrips (evp : Evp σ) (enc : List UInt8 → List UInt8) (plain : List UInt8)
    (b₁ b₂ : Nat) (h₁ : 0 < b₁) (h₂ : 0 < b₂) : Prop where
  /-- Any reads give the encryption, up to where they got. -/
  reads : ∀ calls, ∃ b, (CipherStreamBuf.getter evp).reads calls (.new evp .encrypt plain b₁ h₁) =
    some ((enc plain).take (calls.map Read.size).sum, b)
  /-- Reads that came to the end of the stream give all of it. -/
  eof : ∀ calls got b, (CipherStreamBuf.getter evp).reads calls (.new evp .encrypt plain b₁ h₁) =
    some (got, b) → got.length < (calls.map Read.size).sum → got = enc plain
  size : (enc plain).length = cipherStreamSize plain.length
  /-- Any writes of the encryption succeed, and `sync` leaves the plain text below. -/
  writes : ∀ calls, calls.flatMap Write.data = enc plain →
    ∃ b b', (CipherStreamBuf.putter evp).writes calls (.new evp .decrypt [] b₂ h₂) =
      some (b, true) ∧ b.sync evp = some (b', 0) ∧ b'.sink = plain

theorem AesCbc.transforms_encrypt {enc : List UInt8 → List UInt8}
    {dec : List UInt8 → Option (List UInt8)} (h : AesCbc evp enc dec) (plain : List UInt8) :
    evp.Transforms .encrypt plain (enc plain) := by
  rintro inputs rfl
  exact h.encrypts inputs

theorem AesCbc.transforms_decrypt {enc : List UInt8 → List UInt8}
    {dec : List UInt8 → Option (List UInt8)} (h : AesCbc evp enc dec) (plain : List UInt8) :
    evp.Transforms .decrypt (enc plain) plain := by
  intro inputs hinputs
  rw [h.decrypts, hinputs, h.dec_enc]

/-- For every plain text, all batch sizes and every way to split the reads and writes. -/
theorem cipher_round_trip (evp : Evp σ) (enc : List UInt8 → List UInt8)
    (dec : List UInt8 → Option (List UInt8)) (h : AesCbc evp enc dec) (plain : List UInt8)
    (b₁ b₂ : Nat) (h₁ : 0 < b₁) (h₂ : 0 < b₂) : RoundTrips evp enc plain b₁ b₂ h₁ h₂ := by
  have hread : ∀ calls, ∃ b,
      (CipherStreamBuf.getter evp).reads calls (.new evp .encrypt plain b₁ h₁) =
        some ((enc plain).take (calls.map Read.size).sum, b) := by
    intro calls
    have hstart : Reading evp .encrypt plain (enc plain) (enc plain)
        (.new evp .encrypt plain b₁ h₁) :=
      @Reading.active _ _ _ _ _ _ [] [] _ rfl rfl rfl rfl (by rintro ⟨⟩) rfl
    obtain ⟨b, hb, -⟩ := (Reading.delivers (h.transforms_encrypt plain) (by decide)).reads calls
      hstart
    exact ⟨b, hb⟩
  refine ⟨hread, fun calls got b hgot hshort => ?_, ?_, fun calls hcalls => ?_⟩
  · obtain ⟨b', hb'⟩ := hread calls
    rw [hgot] at hb'
    cases hb'
    rw [List.length_take] at hshort
    exact List.take_of_length_le (by omega)
  · rw [h.length_enc, cipherStreamSize, aesBlockSize]
    omega
  · have hne : enc plain ≠ [] := by
      have hlen := h.length_enc plain
      intro hnil
      rw [hnil, List.length_nil] at hlen
      omega
    have ht := h.transforms_decrypt plain
    have hstart : Writing evp .decrypt [] (.new evp .decrypt [] b₂ h₂) :=
      ⟨[], rfl, rfl, rfl, fun hnil => absurd rfl hnil⟩
    obtain ⟨b, hb, hwritten⟩ := (Writing.accepts ht (by decide)).writes calls hstart
      ⟨[], by simpa using hcalls⟩
    rw [List.nil_append, hcalls] at hwritten
    obtain ⟨b', hsync, hsink⟩ := hwritten.sync ht (by decide) hne
    exact ⟨b, b', hb, hsync, hsink⟩

/-! ### A cipher for one block

A cipher that adds the padding and a fixed mask to each block. The mask is the one for which it
agrees with AES-256-CBC, with the key and the initialization vector 0, on `"123456789"`. -/

def blockMask : List UInt8 :=
  [171, 206, 38, 94, 116, 135, 63, 50, 226, 23, 116, 142, 87, 255, 94, 174]

def mask (bytes : List UInt8) : List UInt8 :=
  bytes.mapIdx fun i byte => byte ^^^ blockMask.getD (i % 16) 0

def padding (n : Nat) : Nat := 16 - n % 16

def maskEnc (plain : List UInt8) : List UInt8 :=
  mask (plain ++ List.replicate (padding plain.length) (UInt8.ofNat (padding plain.length)))

def maskDec (cipher : List UInt8) : Option (List UInt8) :=
  (mask cipher).getLast?.map fun n => (mask cipher).take (cipher.length - n.toNat)

/-- It keeps all input until the last call. -/
def maskEvp : Evp (List UInt8) where
  init _ := []
  update _ kept input := some (kept ++ input, [])
  final
    | .encrypt, kept => some (maskEnc kept)
    | .decrypt, kept => maskDec kept
    | .invalid, _ => none

theorem mask_mask (bytes : List UInt8) : mask (mask bytes) = bytes := by
  refine List.ext_getElem (by simp [mask]) fun i _ _ => ?_
  simp only [mask, List.getElem_mapIdx]
  rw [UInt8.xor_assoc, UInt8.xor_self, UInt8.xor_zero]

theorem length_mask (bytes : List UInt8) : (mask bytes).length = bytes.length :=
  List.length_mapIdx

theorem maskDec_maskEnc (plain : List UInt8) : maskDec (maskEnc plain) = some plain := by
  have hpad : 0 < padding plain.length ∧ padding plain.length ≤ 16 := by
    unfold padding
    omega
  obtain ⟨n, hn⟩ : ∃ n, padding plain.length = n + 1 := ⟨padding plain.length - 1, by omega⟩
  have hnat : (UInt8.ofNat (n + 1)).toNat = n + 1 := by
    rw [UInt8.toNat_ofNat']
    omega
  rw [maskDec, maskEnc, mask_mask, length_mask, hn, List.replicate_succ', ← List.append_assoc,
    List.getLast?_concat, Option.map_some, hnat]
  simp

theorem length_maskEnc (plain : List UInt8) :
    (maskEnc plain).length = (plain.length / 16 + 1) * 16 := by
  rw [maskEnc, length_mask, List.length_append, List.length_replicate, padding]
  omega

theorem maskEvp_updates (op : CryptoOperation) (kept : List UInt8) (inputs : List (List UInt8)) :
    maskEvp.updates op kept inputs = some (kept ++ inputs.flatten, []) := by
  induction inputs generalizing kept with
  | nil => simp [Evp.updates]
  | cons input inputs ih =>
    have hup : maskEvp.update op kept input = some (kept ++ input, []) := rfl
    simp [Evp.updates, hup, ih]

theorem maskEvp_aesCbc : AesCbc maskEvp maskEnc maskDec where
  encrypts inputs := by
    rw [Evp.output, maskEvp_updates]
    rfl
  decrypts inputs := by
    rw [Evp.output, maskEvp_updates]
    exact Option.map_id' ..
  dec_enc := maskDec_maskEnc
  length_enc := length_maskEnc

/-- `"123456789"` in batches of 16 and 512 bytes. -/
theorem cipher_round_trip_nineBytes :
    maskEnc [49, 50, 51, 52, 53, 54, 55, 56, 57] =
        [154, 252, 21, 106, 65, 177, 8, 10, 219, 16, 115, 137, 80, 248, 89, 169] ∧
      RoundTrips maskEvp maskEnc [49, 50, 51, 52, 53, 54, 55, 56, 57] 16 512 (by decide)
        (by decide) :=
  ⟨by decide, cipher_round_trip maskEvp maskEnc maskDec maskEvp_aesCbc _ 16 512 _ _⟩

end Snowflake
