import SnowflakeClient.Transfer.Appender

/-!
# A download goes on

Every step but a wake-up that nobody asked for makes the work that is left smaller
(`DownloadMove.work_lt`), and as long as `doMultiPartDownload` has not returned there is such a step
(`DownloadInv.exists_step`), if no part arrives after one that failed (`Tidy`). So under every
schedule it returns.
-/

namespace Snowflake

open Conc ThreadPool

variable {T n popped : Nat} {answers : Nat → Answer} {s s' : Download T} {e : DownloadEvent T}
  {o : List (DownloadOutput T)} {t : Fin T}

/-- No part arrives after one that failed. -/
def Tidy (answers : Nat → Answer) (n : Nat) : Prop :=
  ∀ f g, f < g → g < n → (answers g).succeeded = true → (answers f).succeeded = true

/-- A step of the program. -/
def Scheduled (_ : Download T) (e : DownloadEvent T) : Prop := e.spurious = false

/-! ## The work that is left -/

/-- What a worker has to do with its job. The end of a write may wake all `T` workers. -/
def workerWeight (T : Nat) : WorkerPc JobPc → Nat
  | .enter => 3
  | .notified => 1
  | .asleep | .exited => 0
  | .running (.start _) => T + 5
  | .running (.filled _) | .running (.notified _) => T + 4
  | .running (.asleep _) => T + 3

def Download.clientWeight (s : Download T) : Nat :=
  if s.result.isSome then 0
  else
    match s.pool.waiter with
    | .ready => 2
    | .notified => 1
    | .asleep => 0

def Download.work (n : Nat) (s : Download T) : Nat :=
  (n - s.added) * (T + 7) + s.pool.queue.length * (T + 5) +
    total (workerWeight T) s.pool.workers + s.clientWeight

theorem workerWeight_writes {pc : JobPc} (h : pc.writes = true) :
    workerWeight T (.running pc) = T + 4 := by
  cases pc <;> first | rfl | cases h

theorem workerWeight_notifyWriter (pc : WorkerPc JobPc) :
    workerWeight T pc.notifyWriter ≤ workerWeight T pc + 1 := by
  cases pc with
  | running job => cases job <;> simp [WorkerPc.notifyWriter, JobPc.notify, workerWeight]
  | _ => simp [WorkerPc.notifyWriter]

/-- A signal wakes at most one sleeper. -/
theorem total_signal {workers workers' : Fin T → WorkerPc JobPc} {w : Option (Fin T)}
    (h : (jobAvailableVar JobPc).signal workers w = some workers') :
    total (workerWeight T) workers' ≤ total (workerWeight T) workers + 1 := by
  obtain ⟨u, -, -, rfl⟩ | ⟨-, -, rfl⟩ := CondVar.signal_cases h
  · have htotal := total_update (workerWeight T) workers u .notified
    have hone : workerWeight T .notified = 1 := rfl
    show total (workerWeight T) (Function.update workers u .notified) ≤ _
    omega
  · omega

/-- One worker moves to a lighter place, and nothing else changes. -/
theorem work_setWorker {pc : WorkerPc JobPc} {buffers : Fin T → List UInt8}
    {outcomes : Nat → Option RemoteStorageRequestOutcome}
    (h : workerWeight T pc < workerWeight T (s.pool.workers t)) :
    Download.work n { s.setWorker t pc with buffers, outcomes } < s.work n := by
  have htotal := total_update (workerWeight T) s.pool.workers t pc
  have hnew : Download.work n { s.setWorker t pc with buffers, outcomes } =
      (n - s.added) * (T + 7) + s.pool.queue.length * (T + 5) +
        total (workerWeight T) (Function.update s.pool.workers t pc) + s.clientWeight := rfl
  rw [hnew, Download.work]
  omega

theorem work_appended {pc : JobPc} (ht : s.pool.workers t = .running pc)
    (hwrites : pc.writes = true) : (s.appended t).work n < s.work n := by
  have htotal := total_update (workerWeight T) s.pool.workers t .enter
  have hwoken :
      total (workerWeight T) (streamCv.broadcast (Function.update s.pool.workers t .enter)) ≤
        total (workerWeight T) (Function.update s.pool.workers t .enter) + T := by
    refine total_le_add fun u => ?_
    rw [CondVar.broadcast, streamCv_notify]
    exact workerWeight_notifyWriter _
  have hthree : workerWeight T .enter = 3 := rfl
  rw [ht, workerWeight_writes hwrites, hthree] at htotal
  have hnew : (s.appended t).work n =
      (n - s.added) * (T + 7) + s.pool.queue.length * (T + 5) +
        total (workerWeight T) (streamCv.broadcast (Function.update s.pool.workers t .enter)) +
        s.clientWeight := rfl
  rw [hnew, Download.work]
  omega

theorem work_execute (h : DownloadInv answers n popped s) {pool : ThreadPool T Nat JobPc}
    (hpool : s.pool.executeThread .start t = some pool) :
    Download.work n { s with pool } < s.work n := by
  obtain ⟨-, hcase⟩ := h.pool.executeThread_cases hpool
  -- The client is woken only by a worker that enters, whose weight pays for it.
  have hclient : Download.clientWeight { s with pool } + 1 ≤
      s.clientWeight + workerWeight T (s.pool.workers t) := by
    rcases PoolInv.executeThread_waiter hpool with ⟨hpc, hw | hw⟩ | ⟨hpc, hw⟩
    · simp only [Download.clientWeight, hpc, hw, workerWeight]
      omega
    · simp only [Download.clientWeight, hpc, hw, workerWeight]
      cases s.result.isSome <;> cases s.pool.waiter <;> simp [WaitPc.signal]
    · simp only [Download.clientWeight, hpc, hw, workerWeight]
      omega
  have hnew : Download.work n { s with pool } =
      (n - s.added) * (T + 7) + pool.queue.length * (T + 5) +
        total (workerWeight T) pool.workers + Download.clientWeight { s with pool } := rfl
  rw [hnew, Download.work]
  rcases hcase with ⟨hnil, hnil', hworkers⟩ | ⟨part, hcons, hworkers⟩
  · have htotal := total_update (workerWeight T) s.pool.workers t .asleep
    have hzero : workerWeight T .asleep = 0 := rfl
    rw [hnil, hnil', hworkers]
    omega
  · have htotal := total_update (workerWeight T) s.pool.workers t (.running (.start part))
    have hstart : workerWeight T (.running (.start part)) = T + 5 := rfl
    rw [hcons, hworkers, List.length_cons, Nat.add_mul, Nat.one_mul]
    omega

/-- Every step of the program makes the work smaller. -/
theorem DownloadMove.work_lt (hm : DownloadMove answers n s e s' o)
    (h : DownloadInv answers n popped s) (he : e.spurious = false) : s'.work n < s.work n := by
  cases hm with
  | addJob hlt hpool =>
    obtain ⟨workers, hworkers, rfl⟩ := Option.map_eq_some_iff.mp hpool
    have htotal := total_signal hworkers
    have hleft : (n - s.added) * (T + 7) = (n - (s.added + 1)) * (T + 7) + (T + 7) := by
      rw [← Nat.succ_mul]
      congr 1
      omega
    simp only [Download.work, Download.clientWeight, List.length_append, List.length_singleton,
      Nat.add_mul, Nat.one_mul]
    omega
  | waitSleep hadded hnone hpool =>
    obtain ⟨hawake, hqueue, hworkers, -, -, hw⟩ := PoolInv.waitAll_cases hpool
    simp only [Download.work, Download.clientWeight, hqueue, hworkers, hw, hnone]
    cases hwaiter : s.pool.waiter with
    | asleep => exact absurd hwaiter hawake
    | _ => simp
  | waitReturn hadded hnone hpool =>
    obtain ⟨hawake, hqueue, hworkers, -, -, -⟩ := PoolInv.waitAll_cases hpool
    simp only [Download.work, Download.clientWeight, hqueue, hworkers, hnone]
    cases hwaiter : s.pool.waiter with
    | asleep => exact absurd hwaiter hawake
    | _ => simp
  | execute hpool => exact work_execute h hpool
  | getObject ht =>
    refine work_setWorker ?_
    rw [ht]
    split <;> simp only [workerWeight] <;> omega
  | writeSleep ht hwrites hlt =>
    refine work_setWorker ?_
    rw [ht, workerWeight_writes hwrites]
    exact Nat.lt_succ_self _
  | write ht hwrites hle => exact work_appended ht hwrites
  | wakeWorker ht => cases he
  | wakeWriter ht => cases he
  | wakeClient hw => cases he

/-! ## There is always a step -/

theorem DownloadMove.scheduled (hm : DownloadMove answers n s e s' o) (he : e.spurious = false) :
    ∃ e s' o, Scheduled s e ∧ (download answers n T).step s e = some (s', o) :=
  ⟨e, s', o, he, hm.step⟩

/-- The worker of a job that does not sleep can go on. -/
theorem exists_job_step {pc : JobPc} (ht : s.pool.workers t = .running pc)
    (hawake : ∀ k, pc ≠ .asleep k) :
    ∃ e s' o, Scheduled s e ∧ (download answers n T).step s e = some (s', o) := by
  cases pc with
  | start part => exact (DownloadMove.getObject ht).scheduled rfl
  | asleep part => exact absurd rfl (hawake part)
  | filled part | notified part =>
    by_cases hlt : s.currentPartIndex < part
    · exact (DownloadMove.writeSleep ht rfl hlt).scheduled rfl
    · exact (DownloadMove.write ht rfl (Nat.le_of_not_lt hlt)).scheduled rfl

namespace DownloadInv

/-- The next part is with a worker that can go on, if some job sleeps. -/
theorem exists_next (h : DownloadInv answers n popped s) (htidy : Tidy answers n) {part : Nat}
    (ht : s.pool.workers t = .running (.asleep part)) :
    ∃ u pc, s.pool.workers u = .running pc ∧ ∀ k, pc ≠ .asleep k := by
  have hle := h.popped_le
  have hn := h.added_le
  have hheld := h.jobs.held t _ (jobs_eq ht)
  have hlt := h.jobs.sleeping t part (jobs_eq ht)
  rw [JobPc.part_asleep] at hheld
  obtain ⟨u, pc, hu, hpart⟩ := h.jobs.exists_current (jobs_eq ht) (htidy _ part hlt (by omega))
  refine ⟨u, pc, workers_eq hu, fun k hk => ?_⟩
  rw [hk] at hu hpart
  have hsleep := h.jobs.sleeping u k hu
  rw [JobPc.part_asleep] at hpart
  omega

/-- As long as `doMultiPartDownload` has not returned, the program can go on. -/
theorem exists_step (h : DownloadInv answers n popped s) (htidy : Tidy answers n)
    (hnone : s.result = none) :
    ∃ e s' o, Scheduled s e ∧ (download answers n T).step s e = some (s', o) := by
  by_cases hadded : s.added < n
  · obtain ⟨w, workers, hw⟩ := CondVar.exists_signal (jobAvailableVar JobPc) s.pool.workers
    have hpool : s.pool.addJob s.added w =
        some { s.pool with queue := s.pool.queue ++ [s.added], workers } := by
      rw [ThreadPool.addJob, hw, Option.map_some]
    exact (DownloadMove.addJob hadded hpool).scheduled rfl
  have hadded : s.added = n := Nat.le_antisymm h.added_le (Nat.le_of_not_lt hadded)
  by_cases hwaiter : s.pool.waiter = .asleep
  · obtain ⟨t, ht⟩ := h.pool.exists_awake hwaiter
    cases hpc : s.pool.workers t with
    | asleep => exact absurd hpc ht
    | exited => exact absurd hpc (h.pool.inside t)
    | enter =>
      have hpool : s.pool.executeThread .start t = some (s.pool.release.getJob .start t) := by
        rw [ThreadPool.executeThread, hpc]
      exact (DownloadMove.execute hpool).scheduled rfl
    | notified =>
      have hpool : s.pool.executeThread .start t = some (s.pool.getJob .start t) := by
        rw [ThreadPool.executeThread, hpc]
      exact (DownloadMove.execute hpool).scheduled rfl
    | running pc =>
      by_cases hsleep : ∃ k, pc = .asleep k
      · obtain ⟨k, rfl⟩ := hsleep
        obtain ⟨u, pc, hu, hawake⟩ := h.exists_next htidy hpc
        exact exists_job_step hu hawake
      · exact exists_job_step hpc fun k hk => hsleep ⟨k, hk⟩
  · by_cases hdone : s.pool.unfinished = true
    · have hpool : s.pool.waitAll = some ({ s.pool with waiter := .asleep }, false) := by
        rw [ThreadPool.waitAll, if_neg hwaiter, if_pos hdone]
      exact (DownloadMove.waitSleep hadded hnone hpool).scheduled rfl
    · have hpool : s.pool.waitAll = some ({ s.pool with waiter := .ready }, true) := by
        rw [ThreadPool.waitAll, if_neg hwaiter, if_neg hdone]
      exact (DownloadMove.waitReturn hadded hnone hpool).scheduled rfl

/-- Under every schedule the goal is met, if it is met at the latest when `doMultiPartDownload`
returns. -/
theorem inevitable (hT : 0 < T) (h : DownloadInv answers n popped s) (htidy : Tidy answers n)
    {goal : Download T → Prop}
    (hgoal : ∀ popped s, DownloadInv answers n popped s → s.result ≠ none → goal s) :
    (download answers n T).Inevitable Scheduled goal s := by
  refine Machine.inevitable_of_measure (I := fun s => ∃ popped, DownloadInv answers n popped s)
    (Download.work n) ?_ ?_ s ⟨popped, h⟩
  · rintro s e s' o ⟨popped, hs⟩ - he hstep
    exact ⟨(download_move hstep).inv hT hs, (download_move hstep).work_lt hs he⟩
  · rintro s ⟨popped, hs⟩ hng
    refine hs.exists_step htidy ?_
    by_contra hne
    exact hng (hgoal popped s hs hne)

end DownloadInv

/-- The invariant holds in every run. -/
theorem downloadInv_of_run (hT : 0 < T) {outs : List (DownloadOutput T)}
    (h : (download answers n T).Run Machine.Any .start outs s) :
    ∃ popped, DownloadInv answers n popped s :=
  h.state_inv (I := fun s => ∃ popped, DownloadInv answers n popped s) ⟨0, .start⟩
    fun _ _ _ _ ⟨_, hs⟩ _ hstep => (download_move hstep).inv hT hs

end Snowflake
