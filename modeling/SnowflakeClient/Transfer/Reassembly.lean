import SnowflakeClient.Transfer.Progress

/-!
# The parts arrive in order

If all requests succeed, the output stream gets every part once, in order and with its own bytes,
then a flush; no buffer is filled again before it was written; and under every schedule all parts
are written (`parts_reassembled`).
-/

namespace Snowflake

open Conc ThreadPool

variable {T n popped : Nat} {answers : Nat → Answer} {s s' : Download T} {e : DownloadEvent T}
  {outs o : List (DownloadOutput T)} {t : Fin T}

/-- What the output stream gets. -/
inductive StreamOp where
  | write (part : Nat) (bytes : List UInt8)
  | flush
  deriving DecidableEq, Repr

def DownloadOutput.streamOp? : DownloadOutput T → Option StreamOp
  | .write _ part bytes => some (.write part bytes)
  | .flush => some .flush
  | .filled _ _ | .returned _ => none

def streamOps (outs : List (DownloadOutput T)) : List StreamOp :=
  outs.filterMap DownloadOutput.streamOp?

/-- The first `k` parts. -/
def firstParts (answers : Nat → Answer) (k : Nat) : List StreamOp :=
  (List.range k).map fun part => .write part (answers part).received

/-- The use of the buffer of thread `t`: `some part` if it holds a part that is not written yet. An
overwritten part, or a write of another one, is an error (`none`). -/
def seeBuffer (t : Fin T) : Option (Option Nat) → DownloadOutput T → Option (Option Nat)
  | some held, .filled u part =>
    if u = t then (if held = none then some (some part) else none) else some held
  | some held, .write u part _ =>
    if u = t then (if held = some part then some none else none) else some held
  | buffer, _ => buffer

def bufferUse (t : Fin T) (outs : List (DownloadOutput T)) : Option (Option Nat) :=
  outs.foldl (seeBuffer t) (some none)

/-- What a run with the outputs `outs` to the state `s` did for the file, and what will come. -/
structure Reassembles (answers : Nat → Answer) (n : Nat) (outs : List (DownloadOutput T))
    (s : Download T) : Prop where
  ordered : streamOps outs <+: firstParts answers n ++ [.flush]
  complete : s.currentPartIndex = n → streamOps outs = firstParts answers n ++ [.flush]
  buffered : ∀ t, bufferUse t outs ≠ none
  goesOn : (download answers n T).Inevitable Scheduled (fun s => s.currentPartIndex = n) s

/-! ## The trace -/

/-- The part that is in the buffer of a worker and not written yet. -/
def WorkerPc.loadedPart : WorkerPc JobPc → Option Nat
  | .running pc => if pc.loaded then some pc.part else none
  | _ => none

theorem loadedPart_notifyWriter (pc : WorkerPc JobPc) :
    pc.notifyWriter.loadedPart = pc.loadedPart := by
  cases pc with
  | running job => simp [WorkerPc.notifyWriter, WorkerPc.loadedPart]
  | _ => rfl

theorem loadedPart_running {pc : JobPc} (h : pc.loaded = true) :
    (WorkerPc.running pc).loadedPart = some pc.part :=
  if_pos h

theorem loadedPart_update {workers : Fin T → WorkerPc JobPc} (pc : WorkerPc JobPc)
    (h : pc.loadedPart = (workers t).loadedPart) (u : Fin T) :
    (Function.update workers t pc u).loadedPart = (workers u).loadedPart := by
  by_cases hut : u = t
  · rw [hut, Function.update_self, h]
  · rw [Function.update_of_ne hut]

/-- What an observer has seen agrees with the state. -/
structure StreamTrace (answers : Nat → Answer) (n : Nat) (outs : List (DownloadOutput T))
    (s : Download T) : Prop where
  stream : streamOps outs =
    firstParts answers s.currentPartIndex ++ if s.currentPartIndex = n then [.flush] else []
  buffer : ∀ t, bufferUse t outs = some (s.pool.workers t).loadedPart

theorem streamOps_append : streamOps (outs ++ o) = streamOps outs ++ streamOps o :=
  List.filterMap_append

theorem bufferUse_append : bufferUse t (outs ++ o) = o.foldl (seeBuffer t) (bufferUse t outs) :=
  List.foldl_append

theorem firstParts_succ (answers : Nat → Answer) (k : Nat) :
    firstParts answers (k + 1) = firstParts answers k ++ [.write k (answers k).received] := by
  rw [firstParts, List.range_succ, List.map_append]
  rfl

namespace StreamTrace

theorem start (hn : 0 < n) : StreamTrace answers n [] (.start : Download T) := by
  refine ⟨?_, fun _ => rfl⟩
  have hne : ¬ (Download.start : Download T).currentPartIndex = n := Nat.ne_of_lt hn
  rw [if_neg hne]
  rfl

/-- A step that neither fills nor writes a buffer. -/
theorem keep (h : StreamTrace answers n outs s) (hstream : streamOps o = [])
    (hbuffer : ∀ t buffer, o.foldl (seeBuffer t) buffer = buffer)
    (hcurrent : s'.currentPartIndex = s.currentPartIndex)
    (hloaded : ∀ t, (s'.pool.workers t).loadedPart = (s.pool.workers t).loadedPart) :
    StreamTrace answers n (outs ++ o) s' := by
  refine ⟨?_, fun t => ?_⟩
  · rw [streamOps_append, hstream, List.append_nil, h.stream, hcurrent]
  · rw [bufferUse_append, hbuffer, h.buffer, hloaded]

/-- A part arrives in the free buffer of its worker. -/
theorem filled (h : StreamTrace answers n outs s) {part : Nat}
    (ht : s.pool.workers t = .running (.start part)) (hs : (answers part).succeeded = true) :
    StreamTrace answers n (outs ++ [.filled t part]) (s.getObject answers t part) := by
  refine ⟨?_, fun u => ?_⟩
  · rw [streamOps_append]
    exact (List.append_nil _).trans h.stream
  · rw [bufferUse_append, List.foldl_cons, List.foldl_nil, h.buffer, Download.getObject]
    rw [if_pos hs, seeBuffer]
    by_cases hut : u = t
    · rw [hut, if_pos rfl, setWorker_self, ht]
      rfl
    · rw [if_neg (Ne.symm hut), setWorker_of_ne _ hut]

/-- The next part is written from the buffer of its worker. -/
theorem appended (h : StreamTrace answers n outs s) {pc : JobPc}
    (ht : s.pool.workers t = .running pc) (hloaded : pc.loaded = true)
    (hpart : pc.part = s.currentPartIndex) (hlt : s.currentPartIndex < n)
    (hbytes : s.buffers t = (answers pc.part).received) :
    StreamTrace answers n
      (outs ++ .write t pc.part (s.buffers t) :: if pc.part + 1 = n then [.flush] else [])
      (s.appended t) := by
  refine ⟨?_, fun u => ?_⟩
  · have hstream := h.stream
    rw [if_neg (Nat.ne_of_lt hlt), List.append_nil] at hstream
    have hnew : (s.appended t).currentPartIndex = s.currentPartIndex + 1 := rfl
    rw [streamOps_append, hstream, hnew, firstParts_succ, List.append_assoc, hbytes, hpart]
    split <;> rfl
  · have hold : bufferUse u outs = some (s.pool.workers u).loadedPart := h.buffer u
    have hflush : ∀ buffer, (if pc.part + 1 = n then [DownloadOutput.flush] else []).foldl
        (seeBuffer u) buffer = buffer := by
      intro buffer
      split
      · cases buffer <;> rfl
      · rfl
    rw [bufferUse_append, List.foldl_cons, hflush, hold, seeBuffer]
    show _ = some (streamCv.notify (Function.update s.pool.workers t .enter u)).loadedPart
    rw [streamCv_notify, loadedPart_notifyWriter]
    by_cases hut : u = t
    · rw [hut, if_pos rfl, Function.update_self, ht, loadedPart_running hloaded, if_pos rfl]
      rfl
    · rw [if_neg (Ne.symm hut), Function.update_of_ne hut]

end StreamTrace

/-- Every step keeps the agreement, if all requests succeed. -/
theorem DownloadMove.streamTrace (hok : ∀ k < n, (answers k).succeeded = true)
    (hm : DownloadMove answers n s e s' o) (h : DownloadInv answers n popped s)
    (ht : StreamTrace answers n outs s) : StreamTrace answers n (outs ++ o) s' := by
  have hheld : ∀ {t pc}, s.pool.workers t = .running pc → pc.part < n := by
    intro t pc hpc
    have hlt := (h.jobs.held t pc (DownloadInv.jobs_eq hpc)).2
    have hle := h.popped_le
    have hn := h.added_le
    omega
  cases hm with
  | addJob hlt hpool =>
    obtain ⟨workers, hworkers, rfl⟩ := Option.map_eq_some_iff.mp hpool
    refine ht.keep rfl (fun _ _ => rfl) rfl fun t => ?_
    show (workers t).loadedPart = (s.pool.workers t).loadedPart
    rcases signal_worker hworkers t with heq | ⟨hold, hnew⟩
    · rw [heq]
    · rw [hold, hnew]
      rfl
  | waitSleep hadded hnone hpool =>
    obtain ⟨-, -, hworkers, -, -, -⟩ := PoolInv.waitAll_cases hpool
    exact ht.keep rfl (fun _ _ => rfl) rfl fun t => by rw [hworkers]
  | waitReturn hadded hnone hpool =>
    obtain ⟨-, -, hworkers, -, -, -⟩ := PoolInv.waitAll_cases hpool
    refine ht.keep rfl (fun _ buffer => ?_) rfl fun t => by rw [hworkers]
    cases buffer <;> rfl
  | @execute t pool hpool =>
    obtain ⟨hpc, hcase⟩ := h.pool.executeThread_cases hpool
    have hfree : (s.pool.workers t).loadedPart = none := by
      rcases hpc with hpc | hpc <;> rw [hpc] <;> rfl
    refine ht.keep rfl (fun _ _ => rfl) rfl fun u => ?_
    show (pool.workers u).loadedPart = (s.pool.workers u).loadedPart
    rcases hcase with ⟨-, -, hworkers⟩ | ⟨part, -, hworkers⟩ <;> rw [hworkers]
    · exact loadedPart_update .asleep hfree.symm u
    · exact loadedPart_update (.running (.start part)) hfree.symm u
  | getObject hpc => exact ht.filled hpc (hok _ (hheld hpc))
  | writeSleep hpc hwrites hlt =>
    refine ht.keep rfl (fun _ _ => rfl) rfl (loadedPart_update _ ?_)
    rw [hpc, loadedPart_running (JobPc.loaded_of_writes hwrites)]
    rfl
  | write hpc hwrites hle =>
    have hloaded := JobPc.loaded_of_writes hwrites
    have hjob := DownloadInv.jobs_eq hpc
    have hpart := h.jobs.part_eq hjob hle
    exact ht.appended hpc hloaded hpart (hpart ▸ hheld hpc) (h.jobs.loaded _ _ hjob hloaded).2
  | wakeWorker hpc =>
    refine ht.keep rfl (fun _ _ => rfl) rfl (loadedPart_update _ ?_)
    rw [hpc]
    rfl
  | wakeWriter hpc =>
    refine ht.keep rfl (fun _ _ => rfl) rfl (loadedPart_update _ ?_)
    rw [hpc]
    rfl
  | wakeClient hw => exact ht.keep rfl (fun _ _ => rfl) rfl fun _ => rfl

/-- If all requests succeed, all parts are written when `doMultiPartDownload` returns. -/
theorem DownloadInv.current_eq (hok : ∀ k < n, (answers k).succeeded = true)
    (h : DownloadInv answers n popped s) (hresult : s.result ≠ none) : s.currentPartIndex = n := by
  obtain ⟨r, hr⟩ := Option.ne_none_iff_exists'.mp hresult
  obtain ⟨hadded, hdone, -⟩ := h.result r hr
  have hpopped := h.popped_eq hadded hdone
  have hle := h.jobs.current_le
  by_contra hne
  have hlt : s.currentPartIndex < n := by omega
  obtain ⟨t, pc, ht, -⟩ := h.jobs.pending _ (Nat.le_refl _) (by omega) (hok _ hlt)
  rw [h.jobs_eq_none hdone] at ht
  cases ht

/-- In every run of a download whose requests all succeed, the stream gets the parts in order, each
once and with its own bytes, and then a flush; no buffer is misused; and all parts will be
written. -/
theorem parts_reassembled (hT : 0 < T) (hn : 0 < n)
    (hok : ∀ k < n, (answers k).succeeded = true)
    (h : (download answers n T).Run Machine.Any .start outs s) : Reassembles answers n outs s := by
  obtain ⟨⟨popped, hinv⟩, htrace⟩ := h.inv
    (I := fun outs s => (∃ popped, DownloadInv answers n popped s) ∧ StreamTrace answers n outs s)
    ⟨⟨0, .start⟩, .start hn⟩
    fun outs s e s' o ⟨⟨_, hs⟩, ht⟩ _ hstep =>
      ⟨(download_move hstep).inv hT hs, (download_move hstep).streamTrace hok hs ht⟩
  have hle : s.currentPartIndex ≤ n := by
    have h1 := hinv.jobs.current_le
    have h2 := hinv.popped_le
    have h3 := hinv.added_le
    omega
  have htidy : Tidy answers n := fun f g hfg hg _ => hok f (by omega)
  refine ⟨?_, fun hall => ?_, fun t => ?_,
    hinv.inevitable hT htidy fun _ _ hs => hs.current_eq hok⟩
  · rw [htrace.stream]
    by_cases hall : s.currentPartIndex = n
    · rw [if_pos hall, hall]
    · obtain ⟨m, hm⟩ := Nat.exists_eq_add_of_le hle
      rw [if_neg hall, List.append_nil, hm, firstParts, firstParts, List.range_add, List.map_append,
        List.append_assoc]
      exact List.prefix_append _ _
  · rw [htrace.stream, if_pos hall, hall]
  · rw [htrace.buffer]
    nofun

/-- Two parts and two threads: the second part arrives first and waits. -/
theorem parts_reassembled_twoParts :
    ∃ outs s, (download (fun k => ⟨[k.toUInt8], .ok ()⟩) 2 2).Run Machine.Any .start outs s ∧
      s.currentPartIndex = 2 ∧ Reassembles (fun k => ⟨[k.toUInt8], .ok ()⟩) 2 outs s := by
  obtain ⟨outs, s, hrun, hs⟩ :=
    Machine.exec_exists (M := download (fun k => ⟨[k.toUInt8], .ok ()⟩) 2 2) (s := .start)
      (c := fun _ _ => true) (p := fun r => decide (r.1.currentPartIndex = 2))
      [.addJob none, .addJob none, .execute 0, .execute 1, .getObject 1, .writePart 1, .waitAll,
        .getObject 0, .writePart 0, .writePart 1]
      (by decide +kernel)
  have hrun := hrun.mono (D := Machine.Any) fun _ _ _ => trivial
  exact ⟨outs, s, hrun, by simpa using hs,
    parts_reassembled (by decide) (by decide) (fun _ _ => rfl) hrun⟩

end Snowflake
