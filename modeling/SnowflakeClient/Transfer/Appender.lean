import SnowflakeClient.Transfer.Download

/-!
# The invariant of a multi-part download

Jobs are taken in part order, so the parts `0 .. popped - 1` are with the workers or done. The parts
before `m_currentPartIndex` are the ones written; a part that is taken, has arrived and is not
written is with a worker, and its job sleeps only if it is not the next one.

* `DownloadMove.inv`: every step keeps the invariant.
-/

namespace Snowflake

open Conc ThreadPool

/-- The jobs that the workers run. -/
def Download.jobs {T : Nat} (s : Download T) (t : Fin T) : Option JobPc := (s.pool.workers t).job?

variable {T n popped current : Nat} {answers : Nat → Answer}

/-! ## The jobs that were taken -/

/-- The invariant (module doc) of the jobs, when `popped` were taken and the part `current` is
next. -/
structure JobsInv (answers : Nat → Answer) (popped current : Nat) (jobs : Fin T → Option JobPc)
    (buffers : Fin T → List UInt8) (outcomes : Nat → Option RemoteStorageRequestOutcome) :
    Prop where
  current_le : current ≤ popped
  held : ∀ t pc, jobs t = some pc → current ≤ pc.part ∧ pc.part < popped
  unique : ∀ t u pc pc', jobs t = some pc → jobs u = some pc' → pc.part = pc'.part → t = u
  written : ∀ k < current, (answers k).succeeded = true
  pending : ∀ k, current ≤ k → k < popped → (answers k).succeeded = true →
    ∃ t pc, jobs t = some pc ∧ pc.part = k
  loaded : ∀ t pc, jobs t = some pc → pc.loaded = true →
    (answers pc.part).succeeded = true ∧ buffers t = (answers pc.part).received
  sleeping : ∀ t k, jobs t = some (.asleep k) → current < k
  outcome : ∀ k < popped, outcomes k = some (answers k).outcome ∨ ∃ t, jobs t = some (.start k)

theorem update_eq_some {jobs : Fin T → Option JobPc} {t u : Fin T} {job : Option JobPc}
    {pc : JobPc} :
    Function.update jobs t job u = some pc ↔
      (u = t ∧ job = some pc) ∨ (u ≠ t ∧ jobs u = some pc) := by
  by_cases hut : u = t
  · simp [hut]
  · simp [hut]

namespace JobsInv

variable {jobs : Fin T → Option JobPc} {buffers buffers' : Fin T → List UInt8}
  {outcomes outcomes' : Nat → Option RemoteStorageRequestOutcome} {t : Fin T} {pc pc' : JobPc}

theorem start : JobsInv answers 0 0 (fun _ : Fin T => none) buffers outcomes :=
  ⟨Nat.le_refl 0, nofun, nofun, nofun, nofun, nofun, nofun, nofun⟩

/-- A worker takes the next job. -/
theorem take (h : JobsInv answers popped current jobs buffers outcomes) (ht : jobs t = none) :
    JobsInv answers (popped + 1) current (Function.update jobs t (some (.start popped))) buffers
      outcomes := by
  have hother : ∀ u pc, jobs u = some pc →
      Function.update jobs t (some (.start popped)) u = some pc := by
    intro u pc hu
    refine update_eq_some.mpr (.inr ⟨fun hut => ?_, hu⟩)
    rw [hut, ht] at hu
    cases hu
  refine ⟨by have := h.current_le; omega, fun u pc hu => ?_, fun u v pc pc' hu hv hpart => ?_,
    h.written, fun k hk hlt hs => ?_, fun u pc hu hl => ?_, fun u k hu => ?_, fun k hk => ?_⟩
  · rcases update_eq_some.mp hu with ⟨-, heq⟩ | ⟨-, hu⟩
    · cases heq
      exact ⟨h.current_le, Nat.lt_succ_self _⟩
    · have := h.held u pc hu
      omega
  · rcases update_eq_some.mp hu with ⟨hut, heq⟩ | ⟨-, hu⟩
    · cases heq
      rcases update_eq_some.mp hv with ⟨hvt, -⟩ | ⟨-, hv⟩
      · rw [hut, hvt]
      · have := (h.held v pc' hv).2
        rw [JobPc.part_start] at hpart
        omega
    · rcases update_eq_some.mp hv with ⟨-, heq⟩ | ⟨-, hv⟩
      · cases heq
        have := (h.held u pc hu).2
        rw [JobPc.part_start] at hpart
        omega
      · exact h.unique u v pc pc' hu hv hpart
  · by_cases hkp : k = popped
    · rw [hkp]
      exact ⟨t, _, Function.update_self .., rfl⟩
    · obtain ⟨u, pc, hu, hpart⟩ := h.pending k hk (by omega) hs
      exact ⟨u, pc, hother u pc hu, hpart⟩
  · rcases update_eq_some.mp hu with ⟨-, heq⟩ | ⟨-, hu⟩
    · cases heq
      cases hl
    · exact h.loaded u pc hu hl
  · rcases update_eq_some.mp hu with ⟨-, heq⟩ | ⟨-, hu⟩
    · cases heq
    · exact h.sleeping u k hu
  · by_cases hkp : k = popped
    · rw [hkp]
      exact .inr ⟨t, Function.update_self ..⟩
    · rcases h.outcome k (by omega) with ho | ⟨u, hu⟩
      · exact .inl ho
      · exact .inr ⟨u, hother u _ hu⟩

/-- A job goes on with its part. -/
theorem advance (h : JobsInv answers popped current jobs buffers outcomes) (ht : jobs t = some pc)
    (hpart : pc'.part = pc.part)
    (hloaded : pc'.loaded = true →
      (answers pc.part).succeeded = true ∧ buffers' t = (answers pc.part).received)
    (hbuffers : ∀ u, u ≠ t → buffers' u = buffers u)
    (hsleep : ∀ k, pc' = .asleep k → current < k)
    (houtcome : ∀ k, outcomes k = some (answers k).outcome ∨ pc = .start k →
      outcomes' k = some (answers k).outcome) :
    JobsInv answers popped current (Function.update jobs t (some pc')) buffers' outcomes' := by
  -- The old job at the same thread, with the same part.
  have hold : ∀ u q, Function.update jobs t (some pc') u = some q →
      ∃ q', jobs u = some q' ∧ q'.part = q.part := by
    intro u q hu
    rcases update_eq_some.mp hu with ⟨rfl, heq⟩ | ⟨-, hu⟩
    · cases heq
      exact ⟨pc, ht, hpart.symm⟩
    · exact ⟨q, hu, rfl⟩
  refine ⟨h.current_le, fun u q hu => ?_, fun u v q q' hu hv hqq => ?_, h.written,
    fun k hk hlt hs => ?_, fun u q hu hl => ?_, fun u k hu => ?_, fun k hk => ?_⟩
  · obtain ⟨q', hu, hq⟩ := hold u q hu
    exact hq ▸ h.held u q' hu
  · obtain ⟨r, hu, hr⟩ := hold u q hu
    obtain ⟨r', hv, hr'⟩ := hold v q' hv
    exact h.unique u v r r' hu hv (hr.trans (hqq.trans hr'.symm))
  · obtain ⟨u, q, hu, hq⟩ := h.pending k hk hlt hs
    by_cases hut : u = t
    · refine ⟨t, pc', Function.update_self .., ?_⟩
      rw [hut, ht] at hu
      cases hu
      rw [hpart, hq]
    · exact ⟨u, q, by rw [Function.update_of_ne hut, hu], hq⟩
  · rcases update_eq_some.mp hu with ⟨rfl, heq⟩ | ⟨hut, hu⟩
    · cases heq
      rw [hpart]
      exact hloaded hl
    · rw [hbuffers u hut]
      exact h.loaded u q hu hl
  · rcases update_eq_some.mp hu with ⟨-, heq⟩ | ⟨-, hu⟩
    · exact hsleep k (Option.some.inj heq)
    · exact h.sleeping u k hu
  · rcases h.outcome k hk with ho | ⟨u, hu⟩
    · exact .inl (houtcome k (.inl ho))
    · by_cases hut : u = t
      · rw [hut, ht] at hu
        exact .inl (houtcome k (.inr (Option.some.inj hu)))
      · exact .inr ⟨u, by rw [Function.update_of_ne hut, hu]⟩

/-- A job ends because its request failed. -/
theorem fail {part : Nat} (h : JobsInv answers popped current jobs buffers outcomes)
    (ht : jobs t = some (.start part)) (hfail : (answers part).succeeded = false) :
    JobsInv answers popped current (Function.update jobs t none)
      (Function.update buffers t (answers part).received)
      (Function.update outcomes part (some (answers part).outcome)) := by
  have hold : ∀ u q, Function.update jobs t none u = some q → u ≠ t ∧ jobs u = some q := by
    intro u q hu
    rcases update_eq_some.mp hu with ⟨-, heq⟩ | hu
    · cases heq
    · exact hu
  refine ⟨h.current_le, fun u q hu => h.held u q (hold u q hu).2,
    fun u v q q' hu hv => h.unique u v q q' (hold u q hu).2 (hold v q' hv).2, h.written,
    fun k hk hlt hs => ?_, fun u q hu hl => ?_, fun u k hu => h.sleeping u k (hold u _ hu).2,
    fun k hk => ?_⟩
  · obtain ⟨u, q, hu, hq⟩ := h.pending k hk hlt hs
    refine ⟨u, q, update_eq_some.mpr (.inr ⟨fun hut => ?_, hu⟩), hq⟩
    -- The part of this thread failed.
    rw [hut, ht] at hu
    cases hu
    rw [← hq, JobPc.part_start, hfail] at hs
    cases hs
  · obtain ⟨hut, hu⟩ := hold u q hu
    rw [Function.update_of_ne hut]
    exact h.loaded u q hu hl
  · by_cases hkp : k = part
    · rw [hkp, Function.update_self]
      exact .inl rfl
    · rw [Function.update_of_ne hkp]
      rcases h.outcome k hk with ho | ⟨u, hu⟩
      · exact .inl ho
      · refine .inr ⟨u, update_eq_some.mpr (.inr ⟨fun hut => hkp ?_, hu⟩)⟩
        rw [hut, ht] at hu
        cases hu
        rfl

/-- A job that may write has the next part. -/
theorem part_eq (h : JobsInv answers popped current jobs buffers outcomes) (ht : jobs t = some pc)
    (hle : pc.part ≤ current) : pc.part = current :=
  Nat.le_antisymm hle (h.held t pc ht).1

/-- A job writes its part and ends; all writers are notified. -/
theorem append (h : JobsInv answers popped current jobs buffers outcomes) (ht : jobs t = some pc)
    (hwrites : pc.loaded = true) (hle : pc.part ≤ current) :
    JobsInv answers popped (current + 1)
      (fun u => (Function.update jobs t none u).map JobPc.notify) buffers outcomes := by
  have hcur := h.part_eq ht hle
  have hlt := (h.held t pc ht).2
  have hold : ∀ u q, (Function.update jobs t none u).map JobPc.notify = some q →
      ∃ q', u ≠ t ∧ jobs u = some q' ∧ q = q'.notify := by
    intro u q hu
    obtain ⟨q', hq', rfl⟩ := Option.map_eq_some_iff.mp hu
    rcases update_eq_some.mp hq' with ⟨-, heq⟩ | ⟨hut, hu⟩
    · cases heq
    · exact ⟨q', hut, hu, rfl⟩
  have hkeep : ∀ u q, u ≠ t → jobs u = some q →
      (Function.update jobs t none u).map JobPc.notify = some q.notify := by
    intro u q hut hu
    rw [Function.update_of_ne hut, hu, Option.map_some]
  refine ⟨by omega, fun u q hu => ?_, fun u v q q' hu hv hqq => ?_, fun k hk => ?_,
    fun k hk hkp hs => ?_, fun u q hu hl => ?_, fun u k hu => ?_, fun k hk => ?_⟩
  · obtain ⟨q', hut, hu', rfl⟩ := hold u q hu
    have hheld := h.held u q' hu'
    have hne : q'.part ≠ current := fun heq =>
      hut (h.unique u t q' pc hu' ht (heq.trans hcur.symm))
    rw [JobPc.part_notify]
    omega
  · obtain ⟨r, -, hu', rfl⟩ := hold u q hu
    obtain ⟨r', -, hv', rfl⟩ := hold v q' hv
    rw [JobPc.part_notify, JobPc.part_notify] at hqq
    exact h.unique u v r r' hu' hv' hqq
  · by_cases hkc : k = current
    · rw [hkc, ← hcur]
      exact (h.loaded t pc ht hwrites).1
    · exact h.written k (by omega)
  · obtain ⟨u, q, hu, hq⟩ := h.pending k (by omega) hkp hs
    refine ⟨u, q.notify, hkeep u q (fun hut => ?_) hu, by rw [JobPc.part_notify, hq]⟩
    rw [hut, ht] at hu
    cases hu
    omega
  · obtain ⟨q', -, hu', rfl⟩ := hold u q hu
    rw [JobPc.loaded_notify] at hl
    rw [JobPc.part_notify]
    exact h.loaded u q' hu' hl
  · obtain ⟨q', -, -, heq⟩ := hold u _ hu
    cases q' <;> cases heq
  · rcases h.outcome k hk with ho | ⟨u, hu⟩
    · exact .inl ho
    · refine .inr ⟨u, hkeep u (.start k) (fun hut => ?_) hu⟩
      rw [hut, ht] at hu
      cases hu
      cases hwrites

/-- A job sleeps only if the next part is with a worker, unless that part failed. -/
theorem exists_current (h : JobsInv answers popped current jobs buffers outcomes) {part : Nat}
    (ht : jobs t = some (.asleep part))
    (hs : (answers part).succeeded = true → (answers current).succeeded = true) :
    ∃ u q, jobs u = some q ∧ q.part = current := by
  have hlt := h.sleeping t part ht
  have hheld := h.held t _ ht
  rw [JobPc.part_asleep] at hheld
  exact h.pending current (Nat.le_refl _) (by omega) (hs (h.loaded t _ ht rfl).1)

end JobsInv

/-! ## The invariant of a download -/

/-- The invariant (module doc), when `popped` jobs were taken. -/
structure DownloadInv (answers : Nat → Answer) (n popped : Nat) (s : Download T) : Prop where
  pool : PoolInv s.pool
  queue : s.pool.queue = List.range' popped (s.added - popped)
  popped_le : popped ≤ s.added
  added_le : s.added ≤ n
  jobs : JobsInv answers popped s.currentPartIndex s.jobs s.buffers s.outcomes
  result : ∀ r, s.result = some r → s.added = n ∧ s.pool.unfinished = false ∧
    r = some (firstFailure ((List.range n).map fun k => (answers k).outcome))

theorem job?_notifyWriter (pc : WorkerPc JobPc) :
    pc.notifyWriter.job? = pc.job?.map JobPc.notify := by
  cases pc <;> rfl

theorem readOutcomes_map_some (outcomes : List RemoteStorageRequestOutcome) :
    readOutcomes (outcomes.map some) = some (firstFailure outcomes) := by
  induction outcomes with
  | nil => rfl
  | cons outcome rest ih =>
    simp only [List.map_cons, readOutcomes, firstFailure, ih]
    split <;> rfl

namespace DownloadInv

variable {s s' : Download T} {e : DownloadEvent T} {o : List (DownloadOutput T)} {t : Fin T}

theorem start : DownloadInv answers n 0 (.start : Download T) :=
  ⟨.new, rfl, Nat.le_refl 0, Nat.zero_le n, .start, nofun⟩

theorem jobs_eq {pc : JobPc} (ht : s.pool.workers t = .running pc) : s.jobs t = some pc := by
  rw [Download.jobs, ht]
  rfl

theorem workers_eq {pc : JobPc} (ht : s.jobs t = some pc) : s.pool.workers t = .running pc := by
  rw [Download.jobs] at ht
  cases hw : s.pool.workers t with
  | running pc' =>
    rw [hw] at ht
    exact congrArg WorkerPc.running (Option.some.inj ht)
  | _ => rw [hw] at ht; cases ht

/-- A result is only there when no worker has a job. -/
theorem result_none (h : DownloadInv answers n popped s) {pc : JobPc}
    (ht : s.pool.workers t = .running pc) : s.result = none := by
  cases hr : s.result with
  | none => rfl
  | some r => exact absurd ht (h.pool.not_running (h.result r hr).2.1 pc)

/-- When all is done, all jobs were taken. -/
theorem popped_eq (h : DownloadInv answers n popped s) (hadded : s.added = n)
    (hdone : s.pool.unfinished = false) : popped = n := by
  have hq := h.queue
  have hle := h.popped_le
  rw [(PoolInv.unfinished_eq_false.mp hdone).2] at hq
  have hlen := congrArg List.length hq
  rw [List.length_nil, List.length_range'] at hlen
  omega

theorem jobs_eq_none (h : DownloadInv answers n popped s) (hdone : s.pool.unfinished = false) :
    s.jobs t = none := by
  rw [Download.jobs]
  cases hpc : s.pool.workers t with
  | running pc => exact absurd hpc (h.pool.not_running hdone pc)
  | _ => rfl

/-- All jobs are done when `WaitAll` returns, so each outcome is there. -/
theorem outcomes_eq (h : DownloadInv answers n popped s) (hadded : s.added = n)
    (hdone : s.pool.unfinished = false) :
    (List.range n).map s.outcomes = ((List.range n).map fun k => (answers k).outcome).map some := by
  rw [List.map_map]
  refine List.map_congr_left fun k hk => ?_
  have hlt : k < popped := by
    rw [h.popped_eq hadded hdone]
    exact List.mem_range.mp hk
  rcases h.jobs.outcome k hlt with ho | ⟨t, ht⟩
  · exact ho
  · rw [h.jobs_eq_none hdone] at ht
    cases ht

/-- The worker of a job goes on, with the rest of the pool as it was. -/
theorem setWorker (h : DownloadInv answers n popped s) {pc : JobPc} {wpc : WorkerPc JobPc}
    {buffers : Fin T → List UInt8} {outcomes : Nat → Option RemoteStorageRequestOutcome}
    (ht : s.pool.workers t = .running pc) (hweight : busyWeight wpc = 1) (hawake : wpc ≠ .asleep)
    (hjobs : JobsInv answers popped s.currentPartIndex (Function.update s.jobs t wpc.job?) buffers
      outcomes) :
    DownloadInv answers n popped { s.setWorker t wpc with buffers, outcomes } := by
  refine ⟨h.pool.setWorker (by rw [hweight, ht, busyWeight_running]) ?_ hawake, h.queue,
    h.popped_le, h.added_le, ?_, fun r hr => ?_⟩
  · intro heq
    rw [heq] at hweight
    cases hweight
  · have heq := job?_update s.pool.workers t wpc
    show JobsInv answers popped s.currentPartIndex
      (fun u => (Function.update s.pool.workers t wpc u).job?) buffers outcomes
    rw [heq]
    exact hjobs
  · have hnone := h.result_none ht
    have hr : s.result = some r := hr
    rw [hnone] at hr
    cases hr

/-- The client or the pool goes on, and no job changes. -/
theorem keepJobs (h : DownloadInv answers n popped s) {pool : ThreadPool T Nat JobPc} {added : Nat}
    (hpool : PoolInv pool) (hqueue : pool.queue = List.range' popped (added - popped))
    (hle : popped ≤ added) (hn : added ≤ n) (hjobs : ∀ t, (pool.workers t).job? = s.jobs t)
    (hresult : ∀ r, s.result = some r → added = n ∧ pool.unfinished = false) :
    DownloadInv answers n popped { s with pool, added } := by
  refine ⟨hpool, hqueue, hle, hn, ?_, fun r hr => ?_⟩
  · have heq : (fun t => (pool.workers t).job?) = s.jobs := funext hjobs
    show JobsInv answers popped s.currentPartIndex (fun t => (pool.workers t).job?) s.buffers
      s.outcomes
    rw [heq]
    exact h.jobs
  · obtain ⟨hadded, hdone⟩ := hresult r hr
    exact ⟨hadded, hdone, (h.result r hr).2.2⟩

theorem addJob (hT : 0 < T) (h : DownloadInv answers n popped s) {w : Option (Fin T)}
    {pool : ThreadPool T Nat JobPc} (hlt : s.added < n)
    (hpool : s.pool.addJob s.added w = some pool) :
    DownloadInv answers n popped { s with pool, added := s.added + 1 } := by
  have hle := h.popped_le
  obtain ⟨workers, hworkers, hpool'⟩ := Option.map_eq_some_iff.mp hpool
  refine h.keepJobs (h.pool.addJob hT hpool) ?_ (by omega) (by omega) (fun t => ?_) (fun r hr => ?_)
  · rw [← hpool', Nat.sub_add_comm hle, List.range'_concat, ← h.queue, Nat.one_mul,
      Nat.add_sub_cancel' hle]
  · rw [← hpool', Download.jobs]
    show (workers t).job? = (s.pool.workers t).job?
    rcases signal_worker hworkers t with heq | ⟨hold, hnew⟩
    · rw [heq]
    · rw [hold, hnew]
      rfl
  · have := (h.result r hr).1
    omega

theorem waitAll (h : DownloadInv answers n popped s) {pool : ThreadPool T Nat JobPc}
    {returned : Bool} (hnone : s.result = none) (hpool : s.pool.waitAll = some (pool, returned)) :
    DownloadInv answers n popped { s with pool } := by
  obtain ⟨-, hqueue, hworkers, -, -, -⟩ := PoolInv.waitAll_cases hpool
  refine h.keepJobs (h.pool.waitAll hpool) (hqueue.trans h.queue) h.popped_le h.added_le
    (fun t => ?_) (fun r hr => ?_)
  · rw [hworkers]
    rfl
  · rw [hnone] at hr
    cases hr

/-- A worker goes to sleep, or takes the next part. -/
theorem execute (h : DownloadInv answers n popped s) {pool : ThreadPool T Nat JobPc}
    (hpool : s.pool.executeThread .start t = some pool) :
    ∃ popped', DownloadInv answers n popped' { s with pool } := by
  obtain ⟨hpc, hcase⟩ := h.pool.executeThread_cases hpool
  have hidle : s.jobs t = none := by
    rw [Download.jobs]
    rcases hpc with hpc | hpc <;> rw [hpc] <;> rfl
  have hresult : ∀ r, s.result = some r → s.added = n ∧ pool.unfinished = false := fun r hr =>
    ⟨(h.result r hr).1, h.pool.unfinished_executeThread (h.result r hr).2.1 hpool⟩
  rcases hcase with ⟨hnil, hnil', hworkers⟩ | ⟨part, hcons, hworkers⟩
  · refine ⟨popped, h.keepJobs (h.pool.executeThread hpool) ?_ h.popped_le h.added_le (fun u => ?_)
      hresult⟩
    · rw [hnil', ← hnil, h.queue]
    · have heq := congrFun (job?_update s.pool.workers t .asleep) u
      rw [hworkers]
      refine heq.trans ?_
      by_cases hut : u = t
      · rw [hut, Function.update_self]
        exact hidle.symm
      · rw [Function.update_of_ne hut]
        rfl
  · have hq := h.queue
    rw [hcons] at hq
    obtain ⟨m, hm⟩ : ∃ m, s.added - popped = m + 1 := by
      cases hm : s.added - popped with
      | zero => rw [hm] at hq; cases hq
      | succ m => exact ⟨m, rfl⟩
    rw [hm, List.range'_succ] at hq
    obtain ⟨rfl, hrest⟩ := List.cons.inj hq
    have hle : part + 1 ≤ s.added := by omega
    have hm' : s.added - (part + 1) = m := by omega
    refine ⟨part + 1, h.pool.executeThread hpool, ?_, hle, h.added_le, ?_, fun r hr =>
      ⟨(hresult r hr).1, (hresult r hr).2, (h.result r hr).2.2⟩⟩
    · show pool.queue = List.range' (part + 1) (s.added - (part + 1))
      rw [hrest, hm']
    · show JobsInv answers (part + 1) s.currentPartIndex (fun u => (pool.workers u).job?) s.buffers
        s.outcomes
      rw [hworkers, job?_update]
      exact h.jobs.take hidle

theorem getObject (h : DownloadInv answers n popped s) {part : Nat}
    (ht : s.pool.workers t = .running (.start part)) :
    DownloadInv answers n popped (s.getObject answers t part) := by
  unfold Download.getObject
  split
  · next hs =>
    refine h.setWorker ht rfl nofun ?_
    refine h.jobs.advance (jobs_eq ht) rfl (fun _ => ⟨hs, Function.update_self ..⟩)
      (fun u hu => Function.update_of_ne hu ..) nofun fun k hk => ?_
    by_cases hkp : k = part
    · rw [hkp, Function.update_self]
    · rw [Function.update_of_ne hkp]
      refine hk.resolve_right fun heq => hkp ?_
      exact (JobPc.start.inj heq).symm
  · next hf =>
    exact h.setWorker ht rfl nofun (h.jobs.fail (jobs_eq ht) (by simpa using hf))

/-- A job that holds its part goes to sleep or is woken. -/
theorem waitPart (h : DownloadInv answers n popped s) {pc pc' : JobPc}
    (ht : s.pool.workers t = .running pc) (hloaded : pc.loaded = true) (hpart : pc'.part = pc.part)
    (hsleep : ∀ k, pc' = .asleep k → s.currentPartIndex < k) :
    DownloadInv answers n popped (s.setWorker t (.running pc')) := by
  refine h.setWorker ht rfl nofun ?_
  refine h.jobs.advance (jobs_eq ht) hpart (fun _ => h.jobs.loaded t pc (jobs_eq ht) hloaded)
    (fun _ _ => rfl) hsleep fun k hk => ?_
  refine hk.resolve_right fun heq => ?_
  rw [heq] at hloaded
  cases hloaded

theorem appended (h : DownloadInv answers n popped s) {pc : JobPc}
    (ht : s.pool.workers t = .running pc) (hloaded : pc.loaded = true)
    (hle : pc.part ≤ s.currentPartIndex) : DownloadInv answers n popped (s.appended t) := by
  have hentered : PoolInv (s.pool.setWorker t .enter) :=
    h.pool.setWorker (by rw [ht]; rfl) nofun nofun
  refine ⟨hentered.moveWorkers (fun u => ?_) (fun u => ?_) (fun u hu => ?_), h.queue, h.popped_le,
    h.added_le, ?_, fun r hr => ?_⟩
  · rw [CondVar.broadcast, streamCv_notify, busyWeight_notifyWriter]
    rfl
  · rw [CondVar.broadcast, streamCv_notify]
    exact notifyWriter_ne_exited (hentered.inside u)
  · rw [CondVar.broadcast, streamCv_notify]
    exact notifyWriter_ne_asleep hu
  · have heq : (s.appended t).jobs =
        fun u => (Function.update s.jobs t none u).map JobPc.notify := by
      funext u
      show (streamCv.notify (Function.update s.pool.workers t .enter u)).job? = _
      rw [streamCv_notify, job?_notifyWriter]
      exact congrArg (Option.map JobPc.notify) (congrFun (job?_update s.pool.workers t .enter) u)
    rw [heq]
    exact h.jobs.append (jobs_eq ht) hloaded hle
  · have hnone := h.result_none ht
    have hr : s.result = some r := hr
    rw [hnone] at hr
    cases hr

theorem wakeWorker (h : DownloadInv answers n popped s) (ht : s.pool.workers t = .asleep) :
    DownloadInv answers n popped (s.setWorker t .notified) := by
  refine h.keepJobs (h.pool.setWorker (by rw [ht]; rfl) nofun nofun) h.queue h.popped_le h.added_le
    (fun u => ?_) (fun r hr => ⟨(h.result r hr).1, (h.result r hr).2.1⟩)
  by_cases hut : u = t
  · rw [hut, setWorker_self, Download.jobs, ht]
    rfl
  · rw [setWorker_of_ne _ hut]
    rfl

theorem wakeClient (h : DownloadInv answers n popped s) :
    DownloadInv answers n popped { s with pool := { s.pool with waiter := .notified } } :=
  h.keepJobs ⟨h.pool.open_, h.pool.inside, h.pool.busy, h.pool.supply, nofun⟩ h.queue h.popped_le
    h.added_le (fun _ => rfl) fun r hr => ⟨(h.result r hr).1, (h.result r hr).2.1⟩

/-- `WaitAll` returns, and the outcomes are read. -/
theorem returned (h : DownloadInv answers n popped s) {pool : ThreadPool T Nat JobPc}
    (hadded : s.added = n) (hnone : s.result = none)
    (hpool : s.pool.waitAll = some (pool, true)) :
    DownloadInv answers n popped
      { s with pool, result := some (readOutcomes ((List.range n).map s.outcomes)) } := by
  have hpooled := h.waitAll hnone hpool
  obtain ⟨-, -, -, hsame, hdone, -⟩ := PoolInv.waitAll_cases hpool
  refine ⟨hpooled.pool, hpooled.queue, hpooled.popped_le, hpooled.added_le, hpooled.jobs,
    fun r hr => ⟨hadded, hsame.trans hdone, ?_⟩⟩
  rw [← Option.some.inj hr, h.outcomes_eq hadded hdone, readOutcomes_map_some]

end DownloadInv

/-- Every step keeps the invariant. -/
theorem DownloadMove.inv {s s' : Download T} {e : DownloadEvent T} {o : List (DownloadOutput T)}
    (hT : 0 < T) (hm : DownloadMove answers n s e s' o) (h : DownloadInv answers n popped s) :
    ∃ popped', DownloadInv answers n popped' s' := by
  cases hm with
  | addJob hlt hpool => exact ⟨popped, h.addJob hT hlt hpool⟩
  | waitSleep hadded hnone hpool => exact ⟨popped, h.waitAll hnone hpool⟩
  | waitReturn hadded hnone hpool => exact ⟨popped, h.returned hadded hnone hpool⟩
  | execute hpool => exact h.execute hpool
  | getObject ht => exact ⟨popped, h.getObject ht⟩
  | writeSleep ht hwrites hlt =>
    refine ⟨popped, h.waitPart ht (JobPc.loaded_of_writes hwrites) rfl fun k hk => ?_⟩
    cases hk
    exact hlt
  | write ht hwrites hle => exact ⟨popped, h.appended ht (JobPc.loaded_of_writes hwrites) hle⟩
  | wakeWorker ht => exact ⟨popped, h.wakeWorker ht⟩
  | wakeWriter ht => exact ⟨popped, h.waitPart ht rfl rfl nofun⟩
  | wakeClient hw => exact ⟨popped, h.wakeClient⟩

end Snowflake
