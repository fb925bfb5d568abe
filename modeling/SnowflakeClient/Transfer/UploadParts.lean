import SnowflakeClient.Transfer.Upload
import SnowflakeClient.Util.PoolBatch

/-!
# When a multi-part upload sends the whole stream

`splits_without_loss_iff`: a stream is split without loss exactly when the number of its parts is an
`int`. Then the indices are handed out in order, a part is with the thread whose buffer holds it
until it was sent, and no two threads have one part (`UploadJobs`). Beyond that the part number of
some request is not the one of its part, or there are fewer jobs than parts.
-/

namespace Snowflake

open Conc ThreadPool CInt

variable {T partMaxSize parts c popped : Nat} {stream : List UInt8}
  {answers : Nat → Except AwsError Unit} {log : List (Nat × UploadOutput)}
  {jobs : Fin T → Option (Nat × UploadPc)} {shared : UploadState T} {t : Fin T} {k : Nat}

/-! ## The parts of a stream -/

theorem flatMap_streamPart (partMaxSize m : Nat) (stream : List UInt8) :
    (List.range m).flatMap (streamPart partMaxSize stream) = stream.take (m * partMaxSize) := by
  induction m with
  | zero => simp
  | succ m ih =>
    rw [List.range_succ, List.flatMap_append, ih, List.flatMap_singleton, streamPart,
      Nat.succ_mul, List.take_add]

/-! ## The log -/

@[simp] theorem obtainedParts_append (log log' : List (Nat × UploadOutput)) :
    obtainedParts (log ++ log') = obtainedParts log ++ obtainedParts log' :=
  List.filterMap_append

@[simp] theorem sentParts_append (log log' : List (Nat × UploadOutput)) :
    sentParts (log ++ log') = sentParts log ++ sentParts log' :=
  List.filterMap_append

@[simp] theorem obtainedParts_obtained (k : Nat) (partId : Int) :
    obtainedParts [(k, .obtained partId)] = [(k, partId)] :=
  rfl

@[simp] theorem sentParts_obtained (k : Nat) (partId : Int) :
    sentParts [(k, .obtained partId)] = [] :=
  rfl

@[simp] theorem obtainedParts_uploaded (k : Nat) (partId partNumber : Int) (bytes : List UInt8) :
    obtainedParts [(k, .uploaded partId partNumber bytes)] = [] :=
  rfl

@[simp] theorem sentParts_uploaded (k : Nat) (partId partNumber : Int) (bytes : List UInt8) :
    sentParts [(k, .uploaded partId partNumber bytes)] = [⟨k, partId, partNumber, bytes⟩] :=
  rfl

/-- What was sent under the number of a part, if each part was sent at most once and under its own
number. -/
theorem sentAs_eq {sent : List Sent} {r : Sent} (hnodup : (sent.map Sent.partId).Nodup)
    (hnumber : ∀ r ∈ sent, r.partNumber = r.partId + 1) (hr : r ∈ sent) :
    sentAs (r.partId + 1) sent = [r.bytes] := by
  induction sent with
  | nil => cases hr
  | cons r' sent ih =>
    rw [List.map_cons, List.nodup_cons] at hnodup
    have hrest : ∀ r ∈ sent, r.partNumber = r.partId + 1 :=
      fun r hr => hnumber r (List.mem_cons_of_mem _ hr)
    rcases List.mem_cons.mp hr with rfl | hmem
    · -- No other request has the number, since it would be of the same part.
      have hnone : sent.filter (fun x => x.partNumber = r.partId + 1) = [] := by
        rw [List.filter_eq_nil_iff]
        intro x hx heq
        have hid : x.partId = r.partId := by
          have hx' := hrest x hx
          have heq' : x.partNumber = r.partId + 1 := by simpa using heq
          omega
        exact hnodup.1 (hid ▸ List.mem_map_of_mem hx)
      rw [sentAs, List.filter_cons_of_pos (by simpa using hnumber r List.mem_cons_self), hnone]
      rfl
    · have hne : r'.partId ≠ r.partId := fun heq => hnodup.1 (heq ▸ List.mem_map_of_mem hmem)
      have hskip : ¬ r'.partNumber = r.partId + 1 := by
        have hr' := hnumber r' List.mem_cons_self
        omega
      rw [sentAs, List.filter_cons_of_neg (by simpa using hskip)]
      exact ih hnodup.2 hrest hmem

/-- Parts that were sent once each make up the start of the stream. -/
theorem flatMap_sentAs {sent : List Sent}
    (h : ∀ k < parts, sentAs (k + 1) sent = [streamPart partMaxSize stream k]) :
    (List.range parts).flatMap (fun k : Nat => (sentAs (k + 1) sent).flatten) =
      stream.take (parts * partMaxSize) := by
  rw [← flatMap_streamPart]
  refine List.flatMap_congr fun k hk => ?_
  rw [h k (List.mem_range.mp hk), List.flatten_singleton]

/-! ## The invariant of the jobs -/

def UploadPc.partId? : UploadPc → Option Int
  | .start => none
  | .filled partId | .attached partId => some partId

/-- The part that a job has. -/
def jobPart? (job : Option (Nat × UploadPc)) : Option Int := job.bind fun j => j.2.partId?

@[simp] theorem jobPart?_none : jobPart? none = none := rfl

@[simp] theorem jobPart?_some (k : Nat) (pc : UploadPc) : jobPart? (some (k, pc)) = pc.partId? :=
  rfl

@[simp] theorem partId?_filled (i : Int) : (UploadPc.filled i).partId? = some i := rfl

/-- A job that has not asked for its part yet. -/
def startWeight : Option (Nat × UploadPc) → Nat
  | some (_, .start) => 1
  | _ => 0

/-- The invariant (module doc) when `c` indices were handed out and `popped` jobs were taken. -/
structure UploadJobs (partMaxSize parts : Nat) (stream : List UInt8)
    (answers : Nat → Except AwsError Unit) (c popped : Nat) (log : List (Nat × UploadOutput))
    (jobs : Fin T → Option (Nat × UploadPc)) (shared : UploadState T) : Prop where
  starting : c + total startWeight jobs = popped
  obtained : (obtainedParts log).map Prod.snd = (List.range c).map Int.ofNat
  current : shared.currentPartIndex = (c : Int) - 1
  input : shared.input = stream.drop (c * partMaxSize)
  once : JobsTrace ((obtainedParts log).map Prod.snd) ((sentParts log).map Sent.partId)
    fun t => jobPart? (jobs t)
  own : ∀ t k pc i, jobs t = some (k, pc) → pc.partId? = some i →
    (k, i) ∈ obtainedParts log ∧ shared.buffers t = streamPart partMaxSize stream i.toNat
  attached : ∀ t k i, jobs t = some (k, .attached i) →
    ∃ ctx, shared.ctx? i = some ctx ∧ ctx.buf = some t
  length : shared.uploadParts.length = parts
  number : ∀ i ctx, shared.uploadParts[i]? = some ctx → ctx.partNumber = i + 1
  outcome : ∀ r ∈ sentParts log, (shared.ctx? r.partId).bind MultiUploadCtx.outcome =
    some (requestOutcome (answers (r.partId.toNat + 1)))
  sent : SendsOwnPart partMaxSize stream log

namespace UploadState

variable {s : UploadState T} {ctx ctx' : MultiUploadCtx T} {i j : Int}

@[simp] theorem ctx?_fillAndGetBuf : (s.fillAndGetBuf partMaxSize t).1.ctx? i = s.ctx? i := rfl

@[simp] theorem buffers_setCtx : (s.setCtx i ctx).buffers = s.buffers := rfl

theorem ctx?_eq_some : s.ctx? i = some ctx ↔ 0 ≤ i ∧ s.uploadParts[i.toNat]? = some ctx := by
  unfold ctx?
  split <;> simp_all

theorem ctx?_setCtx_self (h : s.ctx? i = some ctx) : (s.setCtx i ctx').ctx? i = some ctx' := by
  obtain ⟨h0, hget⟩ := ctx?_eq_some.mp h
  obtain ⟨hlt, -⟩ := List.getElem?_eq_some_iff.mp hget
  refine ctx?_eq_some.mpr ⟨h0, ?_⟩
  rw [setCtx, List.getElem?_set_self hlt]

theorem ctx?_setCtx_of_ne (h : s.ctx? i = some ctx) (hne : j ≠ i) :
    (s.setCtx i ctx').ctx? j = s.ctx? j := by
  obtain ⟨h0, -⟩ := ctx?_eq_some.mp h
  unfold ctx?
  split
  · next hj =>
    have hidx : i.toNat ≠ j.toNat := by omega
    rw [setCtx, List.getElem?_set_ne hidx]
  · rfl

/-- A context that keeps its part number keeps the part numbers of all. -/
theorem number_setCtx (hnumber : ∀ m c, s.uploadParts[m]? = some c → c.partNumber = m + 1)
    (h : s.ctx? i = some ctx) (hctx : ctx'.partNumber = ctx.partNumber) (m : Nat)
    (c : MultiUploadCtx T) (hc : (s.setCtx i ctx').uploadParts[m]? = some c) :
    c.partNumber = m + 1 := by
  obtain ⟨-, hget⟩ := ctx?_eq_some.mp h
  obtain ⟨hlt, -⟩ := List.getElem?_eq_some_iff.mp hget
  by_cases hm : i.toNat = m
  · subst hm
    rw [setCtx, List.getElem?_set_self hlt] at hc
    obtain rfl := Option.some.inj hc
    rw [hctx, hnumber _ _ hget]
  · rw [setCtx, List.getElem?_set_ne hm] at hc
    exact hnumber m c hc

end UploadState

namespace UploadJobs

/-- The indices are the numbers below `c`. -/
theorem mem_obtained (h : UploadJobs partMaxSize parts stream answers c popped log jobs shared)
    {i : Int} : i ∈ (obtainedParts log).map Prod.snd ↔ 0 ≤ i ∧ i < c := by
  rw [h.obtained]
  constructor
  · intro hi
    obtain ⟨m, hm, rfl⟩ := List.mem_map.mp hi
    rw [List.mem_range] at hm
    exact ⟨Int.natCast_nonneg m, Int.ofNat_lt.mpr hm⟩
  · rintro ⟨h0, hlt⟩
    exact List.mem_map.mpr ⟨i.toNat, List.mem_range.mpr (by omega), Int.toNat_of_nonneg h0⟩

theorem c_le (h : UploadJobs partMaxSize parts stream answers c popped log jobs shared) :
    c ≤ popped :=
  h.starting ▸ Nat.le_add_right ..

/-- The job of a thread that is about to ask for its part is not counted in `c`. -/
theorem lt_popped (h : UploadJobs partMaxSize parts stream answers c popped log jobs shared)
    (hjob : jobs t = some (k, .start)) : c < popped := by
  have htotal := total_update startWeight jobs t none
  have hstarting := h.starting
  have hone : startWeight (jobs t) = 1 := by rw [hjob]; rfl
  have hzero : startWeight none = 0 := rfl
  omega

/-- A part that a thread has is one that was handed out, and its context is there. -/
theorem exists_ctx (h : UploadJobs partMaxSize parts stream answers c popped log jobs shared)
    (hle : popped ≤ parts) {i : Int} (hpart : jobPart? (jobs t) = some i) :
    ∃ ctx, shared.ctx? i = some ctx ∧ 0 ≤ i ∧ i < parts ∧ ctx.partNumber = i.toNat + 1 := by
  obtain ⟨h0, hlt⟩ := h.mem_obtained.mp (h.once.taken t i hpart).1
  have hc := h.c_le
  have hidx : i.toNat < shared.uploadParts.length := by rw [h.length]; omega
  have hget := List.getElem?_eq_getElem hidx
  exact ⟨_, UploadState.ctx?_eq_some.mpr ⟨h0, hget⟩, h0, by omega, h.number _ _ hget⟩

theorem partId?_update (job : Option (Nat × UploadPc)) :
    (fun u => jobPart? (Function.update jobs t job u)) =
      Function.update (fun u => jobPart? (jobs u)) t (jobPart? job) :=
  Function.comp_update jobPart? jobs t job

/-- A worker takes a job. -/
theorem pop (h : UploadJobs partMaxSize parts stream answers c popped log jobs shared)
    (ht : jobs t = none) :
    UploadJobs partMaxSize parts stream answers c (popped + 1) log
      (Function.update jobs t (some (k, .start))) shared := by
  refine { h with starting := ?_, once := ?_, own := ?_, attached := ?_ }
  · have htotal := total_update startWeight jobs t (some (k, .start))
    have hone : startWeight (some (k, .start)) = 1 := rfl
    have hzero : startWeight (jobs t) = 0 := by rw [ht]; rfl
    have hstarting := h.starting
    omega
  · refine h.once.congr fun u => ?_
    by_cases hut : u = t
    · rw [hut, Function.update_self, ht]
      rfl
    · rw [Function.update_of_ne hut]
  · intro u k' pc i hjob hpc
    by_cases hut : u = t
    · rw [hut, Function.update_self] at hjob
      cases hjob
      cases hpc
    · rw [Function.update_of_ne hut] at hjob
      exact h.own u k' pc i hjob hpc
  · intro u k' i hjob
    by_cases hut : u = t
    · rw [hut, Function.update_self] at hjob
      cases hjob
    · rw [Function.update_of_ne hut] at hjob
      exact h.attached u k' i hjob

/-- A job asks for its part. -/
theorem fill (h : UploadJobs partMaxSize parts stream answers c popped log jobs shared)
    (hle : popped ≤ parts) (hparts : parts < 2 ^ 31) (hjob : jobs t = some (k, .start)) :
    UploadJobs partMaxSize parts stream answers (c + 1) popped
      (log ++ [(k, .obtained (shared.fillAndGetBuf partMaxSize t).2)])
      (Function.update jobs t (some (k, .filled (shared.fillAndGetBuf partMaxSize t).2)))
      (shared.fillAndGetBuf partMaxSize t).1 := by
  have hlt := h.lt_popped hjob
  have hindex : (shared.fillAndGetBuf partMaxSize t).2 = c := by
    show toI32 (shared.currentPartIndex + 1) = c
    rw [h.current, toI32_of_lt (by omega) (by omega)]
    omega
  rw [hindex]
  have hpart : jobPart? (jobs t) = none := by rw [hjob]; rfl
  have hnew : (c : Int) ∉ (obtainedParts log).map Prod.snd :=
    fun hmem => absurd (h.mem_obtained.mp hmem).2 (Int.lt_irrefl _)
  have hother : ∀ u, u ≠ t →
      (shared.fillAndGetBuf partMaxSize t).1.buffers u = shared.buffers u :=
    fun u hut => Function.update_of_ne hut ..
  refine ⟨?_, ?_, ?_, ?_, ?_, ?_, ?_, h.length, h.number, ?_, ?_⟩
  · have htotal := total_update startWeight jobs t (some (k, .filled c))
    have hone : startWeight (jobs t) = 1 := by rw [hjob]; rfl
    have hzero : startWeight (some (k, .filled c)) = 0 := rfl
    have hstarting := h.starting
    omega
  · simp [h.obtained, List.range_succ]
  · show toI32 (shared.currentPartIndex + 1) = _
    have hindex' : toI32 (shared.currentPartIndex + 1) = c := hindex
    rw [hindex']
    omega
  · show shared.input.drop partMaxSize = _
    rw [h.input, List.drop_drop, Nat.succ_mul]
  · have honce := h.once.pop hpart hnew
    rw [partId?_update]
    simpa using honce
  · intro u k' pc i hjob' hpc
    by_cases hut : u = t
    · subst hut
      rw [Function.update_self] at hjob'
      cases hjob'
      obtain rfl := Option.some.inj hpc
      refine ⟨by simp, ?_⟩
      show Function.update shared.buffers u (shared.input.take partMaxSize) u = _
      rw [Function.update_self, h.input]
      rfl
    · rw [Function.update_of_ne hut] at hjob'
      obtain ⟨hmem, hbuf⟩ := h.own u k' pc i hjob' hpc
      exact ⟨by simp [hmem], (hother u hut).trans hbuf⟩
  · intro u k' i hjob'
    by_cases hut : u = t
    · rw [hut, Function.update_self] at hjob'
      cases hjob'
    · rw [Function.update_of_ne hut] at hjob'
      exact h.attached u k' i hjob'
  · simpa using h.outcome
  · intro r hr
    obtain ⟨hmem, hrest⟩ := h.sent r (by simpa using hr)
    exact ⟨by simp [hmem], hrest⟩

/-- A job puts its buffer into the context of its part. -/
theorem attach (h : UploadJobs partMaxSize parts stream answers c popped log jobs shared) {i : Int}
    {ctx : MultiUploadCtx T} (hjob : jobs t = some (k, .filled i))
    (hctx : shared.ctx? i = some ctx) :
    UploadJobs partMaxSize parts stream answers c popped log
      (Function.update jobs t (some (k, .attached i)))
      (shared.setCtx i { ctx with buf := some t }) := by
  have hpart : jobPart? (jobs t) = some i := by rw [hjob]; rfl
  refine ⟨?_, h.obtained, h.current, h.input, ?_, ?_, ?_, ?_, ?_, ?_, h.sent⟩
  · have htotal := total_update startWeight jobs t (some (k, .attached i))
    have hold : startWeight (jobs t) = 0 := by rw [hjob]; rfl
    have hnew : startWeight (some (k, .attached i)) = 0 := rfl
    have hstarting := h.starting
    omega
  · refine h.once.congr fun u => ?_
    by_cases hut : u = t
    · rw [hut, Function.update_self, hpart]
      rfl
    · rw [Function.update_of_ne hut]
  · intro u k' pc j hjob' hpc
    by_cases hut : u = t
    · subst hut
      rw [Function.update_self] at hjob'
      cases hjob'
      exact h.own u k (.filled i) j hjob hpc
    · rw [Function.update_of_ne hut] at hjob'
      exact h.own u k' pc j hjob' hpc
  · intro u k' j hjob'
    by_cases hut : u = t
    · subst hut
      rw [Function.update_self] at hjob'
      cases hjob'
      exact ⟨_, UploadState.ctx?_setCtx_self hctx, rfl⟩
    · -- Another thread has another part.
      rw [Function.update_of_ne hut] at hjob'
      have hne : j ≠ i := by
        rintro rfl
        exact hut (h.once.once u t j (by rw [hjob']; rfl) hpart)
      rw [UploadState.ctx?_setCtx_of_ne hctx hne]
      exact h.attached u k' j hjob'
  · rw [UploadState.setCtx, List.length_set, h.length]
  · exact UploadState.number_setCtx h.number hctx rfl
  · intro r hr
    have hold := h.outcome r hr
    by_cases hr' : r.partId = i
    · rw [hr', UploadState.ctx?_setCtx_self hctx]
      rw [hr', hctx] at hold
      exact hold
    · rwa [UploadState.ctx?_setCtx_of_ne hctx hr']

/-- A job sends its part. -/
theorem send (h : UploadJobs partMaxSize parts stream answers c popped log jobs shared)
    (hle : popped ≤ parts) (hparts : parts < 2 ^ 31) {i : Int} {ctx : MultiUploadCtx T}
    {buf : Fin T}
    (hjob : jobs t = some (k, .attached i)) (hctx : shared.ctx? i = some ctx)
    (hbuf : ctx.buf = some buf) :
    UploadJobs partMaxSize parts stream answers c popped
      (log ++ [(k, .uploaded i (toI32 ctx.partNumber) (shared.buffers buf))])
      (Function.update jobs t none)
      (shared.setCtx i
        { ctx with outcome := some (requestOutcome (answers ctx.partNumber)) }) := by
  have hpart : jobPart? (jobs t) = some i := by rw [hjob]; rfl
  obtain ⟨ctx', hctx', h0, hlt, hnumber⟩ := h.exists_ctx hle hpart
  obtain rfl := Option.some.inj (hctx'.symm.trans hctx)
  obtain rfl : buf = t := by
    obtain ⟨ctx₁, hctx₁, hbuf₁⟩ := h.attached t k i hjob
    obtain rfl := Option.some.inj (hctx₁.symm.trans hctx)
    exact Option.some.inj (hbuf.symm.trans hbuf₁)
  obtain ⟨hmem, hbytes⟩ := h.own buf k (.attached i) i hjob rfl
  have hnum : toI32 ctx'.partNumber = i + 1 := by
    rw [hnumber, toI32_of_lt (by omega) (by omega)]
    omega
  have hother : ∀ u k' pc, Function.update jobs buf none u = some (k', pc) →
      u ≠ buf ∧ jobs u = some (k', pc) := by
    intro u k' pc hjob'
    by_cases hut : u = buf
    · rw [hut, Function.update_self] at hjob'
      cases hjob'
    · rw [Function.update_of_ne hut] at hjob'
      exact ⟨hut, hjob'⟩
  refine ⟨?_, ?_, h.current, h.input, ?_, ?_, ?_, ?_, ?_, ?_, ?_⟩
  · have htotal := total_update startWeight jobs buf none
    have hold : startWeight (jobs buf) = 0 := by rw [hjob]; rfl
    have hnew : startWeight none = 0 := rfl
    have hstarting := h.starting
    omega
  · simpa using h.obtained
  · have honce := h.once.finish hpart
    rw [partId?_update]
    simpa using honce
  · intro u k' pc j hjob' hpc
    obtain ⟨-, hold⟩ := hother u k' pc hjob'
    simpa using h.own u k' pc j hold hpc
  · intro u k' j hjob'
    obtain ⟨hut, hold⟩ := hother u k' _ hjob'
    have hne : j ≠ i := by
      rintro rfl
      exact hut (h.once.once u buf j (by rw [hold]; rfl) hpart)
    rw [UploadState.ctx?_setCtx_of_ne hctx hne]
    exact h.attached u k' j hold
  · rw [UploadState.setCtx, List.length_set, h.length]
  · exact UploadState.number_setCtx h.number hctx rfl
  · intro r hr
    rw [sentParts_append, sentParts_uploaded, List.mem_append, List.mem_singleton] at hr
    rcases hr with hr | rfl
    · -- The part is not among those that were sent before.
      have hne : r.partId ≠ i := by
        rintro rfl
        exact (h.once.taken buf _ hpart).2 (List.mem_map_of_mem hr)
      rw [UploadState.ctx?_setCtx_of_ne hctx hne]
      exact h.outcome r hr
    · rw [UploadState.ctx?_setCtx_self hctx, hnumber]
      rfl
  · intro r hr
    rw [sentParts_append, sentParts_uploaded, List.mem_append, List.mem_singleton] at hr
    rcases hr with hr | rfl
    · simpa using h.sent r hr
    · exact ⟨by simpa using hmem, h0, hnum, hbytes⟩

end UploadJobs

/-! ## The invariant of a run -/

/-- The calls that are left, and that all is done after the last one. -/
def UploadCalls (parts : Nat) (s : Upload T) : Prop :=
  (∃ m, s.calls = uploadCalls m ∧ m + s.added = parts) ∨
    (s.calls = [] ∧ s.added = parts ∧ s.pool.unfinished = false)

structure UploadInv (partMaxSize parts : Nat) (stream : List UInt8)
    (answers : Nat → Except AwsError Unit) (outs : List (PoolOutput T UploadOutput))
    (s : Upload T) : Prop where
  trace : PoolTrace outs s
  calls : UploadCalls parts s
  jobs : ∃ c, UploadJobs partMaxSize parts stream answers c (poppedJobs outs).length
    (jobOutputs outs) s.jobs s.shared

variable {s s' : Upload T} {outs o : List (PoolOutput T UploadOutput)} {e : PoolEvent T}

theorem uploadCalls_eq (i m : Nat) : uploadCalls m = batchCalls (fun _ => ()) i m := by
  rw [uploadCalls, batchCalls, List.map_const', List.length_range']

/-- The jobs of an upload are a batch of equal jobs. -/
theorem uploadCalls_iff : UploadCalls parts s ↔ BatchCalls (fun _ => ()) parts s := by
  rw [UploadCalls, BatchCalls]
  refine or_congr (exists_congr fun m => ?_) Iff.rfl
  rw [uploadCalls_eq s.added m, Nat.add_comm]

theorem PoolMove.uploadCalls (hm : PoolMove (uploadCode partMaxSize answers) s e s' o)
    (hinv : PoolInv s.pool) (h : UploadCalls parts s) : UploadCalls parts s' :=
  uploadCalls_iff.mpr (hm.batchCalls hinv (uploadCalls_iff.mp h))

/-- The jobs that were taken are among those that were added. -/
theorem UploadInv.popped_le (h : UploadInv partMaxSize parts stream answers outs s) :
    (poppedJobs outs).length ≤ parts := by
  have hqueue := congrArg List.length h.trace.queue
  rw [List.length_append, List.length_range] at hqueue
  rcases h.calls with ⟨m, -, hadded⟩ | ⟨-, hadded, -⟩ <;> omega

theorem UploadInv.start (partMaxSize : Nat) (stream : List UInt8)
    (answers : Nat → Except AwsError Unit) :
    UploadInv partMaxSize (totalParts partMaxSize stream.length) stream answers []
      (startUpload partMaxSize stream : Upload T) where
  trace := .start _ _
  calls := .inl ⟨_, rfl, rfl⟩
  jobs := by
    refine ⟨0, ?_, rfl, rfl, ?_, ⟨nofun, nofun, nofun, nofun, List.nodup_nil⟩, nofun, nofun, ?_, ?_,
      nofun, nofun⟩
    · simp [startUpload, PoolClient.start, ThreadPool.new, PoolClient.jobs, total, WorkerPc.job?,
        startWeight, poppedJobs]
    · exact (congrArg (List.drop · stream) (Nat.zero_mul _)).symm
    · simp [startUpload, PoolClient.start, uploadContexts]
    · intro i ctx hctx
      simp only [startUpload, PoolClient.start, uploadContexts, List.getElem?_map,
        Option.map_eq_some_iff] at hctx
      obtain ⟨j, hj, rfl⟩ := hctx
      obtain ⟨hlt, rfl⟩ := List.getElem?_eq_some_iff.mp hj
      rw [List.getElem_range]

/-- A step of a job. -/
theorem UploadJobs.step
    (h : UploadJobs partMaxSize parts stream answers c popped log jobs shared)
    (hle : popped ≤ parts) (hparts : parts < 2 ^ 31) {j : UploadPc} {shared' : UploadState T}
    {j' : Option UploadPc} {os : List UploadOutput} (hjob : jobs t = some (k, j))
    (hs : (uploadCode partMaxSize answers).step shared t j = some (shared', j', os)) :
    ∃ c', UploadJobs partMaxSize parts stream answers c' popped (log ++ os.map (Prod.mk k))
      (Function.update jobs t (j'.map (Prod.mk k))) shared' := by
  cases j with
  | start =>
    cases hs
    exact ⟨c + 1, h.fill hle hparts hjob⟩
  | filled i =>
    obtain ⟨ctx, hctx, heq⟩ := Option.map_eq_some_iff.mp hs
    cases heq
    rw [List.map_nil, List.append_nil]
    exact ⟨c, h.attach hjob hctx⟩
  | attached i =>
    obtain ⟨ctx, hctx, heq⟩ := Option.bind_eq_some_iff.mp hs
    obtain ⟨buf, hbuf, heq⟩ := Option.map_eq_some_iff.mp heq
    cases heq
    exact ⟨c, h.send hle hparts hjob hctx hbuf⟩

/-- No job blocks. -/
theorem UploadJobs.runs (h : UploadJobs partMaxSize parts stream answers c popped log jobs shared)
    (hle : popped ≤ parts) {j : UploadPc} (hjob : jobs t = some (k, j)) :
    ∃ shared' j' os, (uploadCode partMaxSize answers).step shared t j = some (shared', j', os) := by
  cases j with
  | start => exact ⟨_, _, _, rfl⟩
  | filled i =>
    obtain ⟨ctx, hctx, -⟩ := h.exists_ctx hle (t := t) (i := i) (by rw [hjob]; rfl)
    exact ⟨_, _, _, Option.map_eq_some_iff.mpr ⟨ctx, hctx, rfl⟩⟩
  | attached i =>
    obtain ⟨ctx, hctx, hbuf⟩ := h.attached t k i hjob
    exact ⟨_, _, _, Option.bind_eq_some_iff.mpr
      ⟨ctx, hctx, Option.map_eq_some_iff.mpr ⟨t, hbuf, rfl⟩⟩⟩

theorem PoolMove.uploadInv (hT : 0 < T) (hparts : parts < 2 ^ 31)
    (hm : PoolMove (uploadCode partMaxSize answers) s e s' o)
    (h : UploadInv partMaxSize parts stream answers outs s) :
    UploadInv partMaxSize parts stream answers (outs ++ o) s' := by
  refine ⟨hm.trace hT h.trace, hm.uploadCalls h.trace.pool h.calls, ?_⟩
  obtain ⟨c, hjobs⟩ := h.jobs
  rw [poppedJobs_append, jobOutputs_append, List.length_append]
  cases hm.jobs h.trace.pool with
  | idle hsame hshared hpopped hlog =>
    rw [hsame, hshared, hpopped, hlog, List.append_nil]
    exact ⟨c, hjobs⟩
  | pop ht hnew hshared hpopped hlog =>
    rw [hnew, hshared, hpopped, hlog, List.append_nil]
    exact ⟨c, hjobs.pop ht⟩
  | run ht hstep hnew hpopped hlog =>
    rw [hnew, hpopped, hlog]
    exact hjobs.step h.popped_le hparts ht hstep

/-- How far a job is from its end. -/
def UploadPc.left : UploadPc → Nat
  | .start => 2
  | .filled _ => 1
  | .attached _ => 0

theorem uploadCode_lighter (s : UploadState T) (t : Fin T) (j : UploadPc) (s' : UploadState T)
    (j' : UploadPc) (os : List UploadOutput)
    (h : (uploadCode partMaxSize answers).step s t j = some (s', some j', os)) :
    j'.left < j.left := by
  cases j with
  | start =>
    cases h
    exact Nat.one_lt_two
  | filled i =>
    obtain ⟨ctx, -, heq⟩ := Option.map_eq_some_iff.mp h
    cases heq
    exact Nat.zero_lt_one
  | attached i =>
    obtain ⟨ctx, -, heq⟩ := Option.bind_eq_some_iff.mp h
    obtain ⟨buf, -, heq⟩ := Option.map_eq_some_iff.mp heq
    cases heq

theorem uploadCode_terminates (hT : 0 < T) (hparts : parts < 2 ^ 31) :
    (uploadCode partMaxSize answers).Terminates
      (fun s : Upload T => ∃ outs, UploadInv partMaxSize parts stream answers outs s)
      UploadPc.left where
  pool _ h := h.choose_spec.trace.pool
  step s e s' o h hm := by
    obtain ⟨outs, h⟩ := h
    exact ⟨outs ++ o, hm.uploadInv hT hparts h⟩
  runs s t k j h hpc := by
    obtain ⟨outs, h⟩ := h
    obtain ⟨c, hjobs⟩ := h.jobs
    exact hjobs.runs h.popped_le (congrArg WorkerPc.job? hpc)
  lighter := uploadCode_lighter

/-! ## The main result -/

/-- When `WaitAll` has returned, all jobs have got an index and sent their part. -/
theorem UploadInv.returned (h : UploadInv partMaxSize parts stream answers outs s)
    (hcalls : s.calls = []) :
    UploadJobs partMaxSize parts stream answers parts parts (jobOutputs outs) s.jobs s.shared ∧
      ∀ k < parts, ∃ r ∈ sentParts (jobOutputs outs), r.partId = Int.ofNat k := by
  obtain ⟨hadded, hdone⟩ : s.added = parts ∧ s.pool.unfinished = false := by
    rcases h.calls with ⟨m, hm, -⟩ | ⟨-, hrest⟩
    · rw [hcalls] at hm
      simp [Snowflake.uploadCalls] at hm
    · exact hrest
  have hfree : ∀ t, s.jobs t = none := by
    intro t
    cases hpc : s.pool.workers t with
    | running job => exact absurd hpc (h.trace.pool.not_running hdone job)
    | _ => exact congrArg WorkerPc.job? hpc
  have hpopped : (poppedJobs outs).length = parts := by
    have hqueue := congrArg List.length h.trace.queue
    obtain ⟨-, hnil⟩ := PoolInv.unfinished_eq_false.mp hdone
    simpa [hnil, hadded] using hqueue
  obtain ⟨c, hjobs⟩ := h.jobs
  rw [hpopped] at hjobs
  obtain rfl : c = parts := by
    have hstarting := hjobs.starting
    have hzero : total startWeight s.jobs = 0 :=
      Finset.sum_eq_zero fun t _ => by rw [hfree t]; rfl
    omega
  refine ⟨hjobs, fun k hk => ?_⟩
  have hmem := hjobs.mem_obtained.mpr ⟨Int.natCast_nonneg k, Int.ofNat_lt.mpr hk⟩
  rcases hjobs.once.done k hmem with hsent | ⟨t, ht⟩
  · exact List.mem_map.mp hsent
  · rw [hfree t] at ht
    cases ht

theorem UploadInv.all (h : UploadInv partMaxSize parts stream answers outs s)
    (hcalls : s.calls = []) (hstream : stream.length ≤ parts * partMaxSize) :
    SendsAll partMaxSize parts stream (jobOutputs outs) := by
  obtain ⟨hjobs, hall⟩ := h.returned hcalls
  have hsent : ∀ k < parts, sentAs (k + 1) (sentParts (jobOutputs outs)) =
      [streamPart partMaxSize stream k] := by
    intro k hk
    obtain ⟨r, hr, hrk⟩ := hall k hk
    have hown := sentAs_eq hjobs.once.nodup (fun r hr => (hjobs.sent r hr).2.2.1) hr
    rw [(hjobs.sent r hr).2.2.2, hrk] at hown
    exact hown
  refine ⟨hjobs.obtained, hsent, ?_⟩
  rw [flatMap_sentAs hsent, List.take_of_length_le hstream]

theorem UploadInv.of_run (hT : 0 < T) (hparts : totalParts partMaxSize stream.length < 2 ^ 31)
    (h : (poolClient (uploadCode partMaxSize answers)).Run Machine.Any
      (startUpload partMaxSize stream) outs s) :
    UploadInv partMaxSize (totalParts partMaxSize stream.length) stream answers outs s :=
  h.inv (I := fun outs s => UploadInv partMaxSize _ stream answers outs s)
    (.start partMaxSize stream answers)
    fun _ _ _ _ _ hs _ hstep => (pool_move hstep).uploadInv hT hparts hs

/-- The outcomes that `doMultiPartUpload` goes through after `WaitAll` are those of the answers, in
the order of the parts. -/
theorem upload_outcomes (hT : 0 < T) (hparts : totalParts partMaxSize stream.length < 2 ^ 31)
    (hrun : (poolClient (uploadCode partMaxSize answers)).Run Machine.Any
      (startUpload partMaxSize stream) outs s) (hcalls : s.calls = []) :
    s.shared.uploadParts.map MultiUploadCtx.outcome =
      (List.range (totalParts partMaxSize stream.length)).map fun i =>
        some (requestOutcome (answers (i + 1))) := by
  obtain ⟨hjobs, hall⟩ := (UploadInv.of_run hT hparts hrun).returned hcalls
  refine List.ext_getElem (by simp [hjobs.length]) fun k hk hk' => ?_
  rw [List.length_map, hjobs.length] at hk
  obtain ⟨r, hr, hrk⟩ := hall k hk
  obtain ⟨ctx, hctx, hout⟩ := Option.bind_eq_some_iff.mp (hjobs.outcome r hr)
  obtain ⟨-, hget⟩ := UploadState.ctx?_eq_some.mp hctx
  rw [hrk] at hget hout
  obtain ⟨hlt, hget⟩ := List.getElem?_eq_some_iff.mp hget
  rw [List.getElem_map, List.getElem_map, List.getElem_range]
  exact (congrArg MultiUploadCtx.outcome hget).trans hout

theorem toI32_lt (x : Int) : toI32 x < 2 ^ 31 := by
  unfold toI32
  omega

/-- Every part number that is sent is an `int`. -/
theorem uploadCode_partNumber_lt {s s' : UploadState T} {j : UploadPc} {j' : Option UploadPc}
    {os : List UploadOutput} (h : (uploadCode partMaxSize answers).step s t j = some (s', j', os)) :
    ∀ r ∈ sentParts (os.map (Prod.mk k)), r.partNumber < 2 ^ 31 := by
  intro r hr
  cases j with
  | start =>
    cases h
    cases hr
  | filled i =>
    obtain ⟨ctx, -, heq⟩ := Option.map_eq_some_iff.mp h
    cases heq
    cases hr
  | attached i =>
    obtain ⟨ctx, -, heq⟩ := Option.bind_eq_some_iff.mp h
    obtain ⟨buf, -, heq⟩ := Option.map_eq_some_iff.mp heq
    cases heq
    obtain rfl := List.mem_singleton.mp hr
    exact toI32_lt _

theorem sent_partNumber_lt {start : Upload T} (hT : 0 < T) (hstart : PoolInv start.pool)
    (h : (poolClient (uploadCode partMaxSize answers)).Run Machine.Any start outs s) :
    ∀ r ∈ sentParts (jobOutputs outs), r.partNumber < 2 ^ 31 := by
  refine (h.inv (I := fun outs s => PoolInv s.pool ∧
    ∀ r ∈ sentParts (jobOutputs outs), r.partNumber < 2 ^ 31) ⟨hstart, nofun⟩ ?_).2
  rintro outs s e s' o ⟨hinv, hsent⟩ - hstep
  refine ⟨(pool_move hstep).poolInv hT hinv, fun r hr => ?_⟩
  rw [jobOutputs_append, sentParts_append] at hr
  rcases List.mem_append.mp hr with hr | hr
  · exact hsent r hr
  · cases (pool_move hstep).jobs hinv with
    | idle _ _ _ hlog => rw [hlog] at hr; cases hr
    | pop _ _ _ _ hlog => rw [hlog] at hr; cases hr
    | run _ hcode _ _ hlog =>
      rw [hlog] at hr
      exact uploadCode_partNumber_lt hcode r hr

theorem totalParts_of_lt {n : Nat} (h : n / partMaxSize + 1 < 2 ^ 32) :
    totalParts partMaxSize n = n / partMaxSize + 1 := by
  have hcast : (n : Int) / partMaxSize + 1 = ((n / partMaxSize + 1 : Nat) : Int) := by
    push_cast
    rfl
  rw [totalParts, hcast, toU32_natCast h]

/-- All parts can be sent only if their number is an `int`. -/
theorem SplitsWithoutLoss.parts_lt (hT : 0 < T)
    (h : SplitsWithoutLoss T partMaxSize stream answers) :
    stream.length / partMaxSize + 1 < 2 ^ 31 := by
  obtain ⟨outs, s, hrun, hcalls, -⟩ := (h.returns [] _ .nil).reaches
  have hrun := hrun.mono (D := Machine.Any) fun _ _ _ => trivial
  obtain ⟨-, hsent, hstream⟩ := h.all outs s hrun hcalls
  have hlt := sent_partNumber_lt hT .new hrun
  generalize htotal : totalParts partMaxSize stream.length = parts at hsent hstream
  -- The last part has the number `parts`.
  have hparts : parts < 2 ^ 31 := by
    rcases Nat.eq_zero_or_pos parts with hzero | hpos
    · omega
    · have hlast := hsent (parts - 1) (by omega)
      have hne : sentAs (((parts - 1 : Nat) : Int) + 1) (sentParts (jobOutputs outs)) ≠ [] := by
        rw [hlast]
        exact List.cons_ne_nil _ _
      obtain ⟨bytes, hbytes⟩ := List.exists_mem_of_ne_nil _ hne
      obtain ⟨r, hr, -⟩ := List.mem_map.mp hbytes
      obtain ⟨hr, hnumber⟩ := List.mem_filter.mp hr
      have hnumber : r.partNumber = ((parts - 1 : Nat) : Int) + 1 := by simpa using hnumber
      have hrlt := hlt r hr
      omega
  -- What was sent is no longer than `parts` parts.
  have hlength : stream.length ≤ parts * partMaxSize := by
    rw [flatMap_sentAs hsent] at hstream
    have hlen := congrArg List.length hstream
    rw [List.length_take] at hlen
    omega
  have hdiv : stream.length / partMaxSize ≤ parts := Nat.div_le_of_le_mul (by linarith)
  rw [totalParts_of_lt (by omega)] at htotal
  omega

/-- A multi-part upload splits the stream without loss exactly if the number of parts is an
`int`. -/
theorem splits_without_loss_iff (hT : 0 < T) (hP : 0 < partMaxSize) (stream : List UInt8)
    (answers : Nat → Except AwsError Unit) :
    SplitsWithoutLoss T partMaxSize stream answers ↔
      stream.length / partMaxSize + 1 < 2 ^ 31 := by
  refine ⟨fun h => h.parts_lt hT, fun hlt => ?_⟩
  have htotal : totalParts partMaxSize stream.length = _ := totalParts_of_lt (by omega)
  have hparts : totalParts partMaxSize stream.length < 2 ^ 31 := htotal ▸ hlt
  refine ⟨fun outs s hrun => ?_, fun outs s hrun hcalls => ?_, fun outs s hrun => ?_⟩
  · obtain ⟨c, hjobs⟩ := (UploadInv.of_run hT hparts hrun).jobs
    exact hjobs.sent
  · refine (UploadInv.of_run hT hparts hrun).all hcalls ?_
    rw [htotal]
    exact (Nat.lt_mul_of_div_lt (Nat.lt_succ_self _) hP).le
  · exact (uploadCode_terminates hT hparts).inevitable ⟨outs, UploadInv.of_run hT hparts hrun⟩

/-- `2 ^ 32` parts of 5 MiB: the number of parts wraps around to 1. -/
theorem upload_loses_parts :
    totalParts dataSizeThreshold
        (List.replicate (2 ^ 32 * dataSizeThreshold) (0 : UInt8)).length = 1 ∧
      ¬ SplitsWithoutLoss 4 dataSizeThreshold
        (List.replicate (2 ^ 32 * dataSizeThreshold) (0 : UInt8)) fun _ => .ok () := by
  refine ⟨?_, fun h => ?_⟩
  · rw [List.length_replicate]
    decide
  · have hlt := h.parts_lt (by decide)
    rw [List.length_replicate] at hlt
    revert hlt
    decide

/-- A file of three parts is sent as it is, by two threads. -/
theorem splits_without_loss_threeParts :
    SplitsWithoutLoss 2 4 [1, 2, 3, 4, 5, 6, 7, 8, 9, 10] fun _ => .ok () :=
  (splits_without_loss_iff (by decide) (by decide) _ _).mpr (by decide)

end Snowflake
