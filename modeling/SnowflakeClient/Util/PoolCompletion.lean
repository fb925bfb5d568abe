import Mathlib
import SnowflakeClient.Util.PoolClient

/-!
# Every job of a thread pool is run once

For every sequence of calls of the client, every code of the jobs and every schedule
(`pool_completes`): `busyThreads` counts the workers that are not waiting for a job; the jobs are
taken from the queue in the order in which they were added and each is run once; when `WaitAll`
returns, all jobs added before are done; and neither the client nor the workers sleep while there
is something to do. If the jobs never block and come to an end, the client gets through all its
calls and all jobs are done, under every schedule.
-/

namespace Snowflake

open Conc ThreadPool

variable {T : Nat} {S Job J Out : Type} {code : JobCode T S Job J Out}
  {s s' : PoolClient T S Job J} {e : PoolEvent T} {outs o : List (PoolOutput T Out)} {t : Fin T}

/-! ## The jobs of a run -/

def addedJobs (outs : List (PoolOutput T Out)) : List Nat :=
  outs.filterMap fun
    | .added k => some k
    | _ => none

def poppedJobs (outs : List (PoolOutput T Out)) : List Nat :=
  outs.filterMap fun
    | .popped _ k => some k
    | _ => none

def finishedJobs (outs : List (PoolOutput T Out)) : List Nat :=
  outs.filterMap fun
    | .finished _ k => some k
    | _ => none

/-- Whenever `WaitAll` returned, all jobs added before it were done. -/
def WaitsForAll (outs : List (PoolOutput T Out)) : Prop :=
  ∀ before, before ++ [.waited] <+: outs → addedJobs before ⊆ finishedJobs before

@[simp] theorem addedJobs_append : addedJobs (outs ++ o) = addedJobs outs ++ addedJobs o :=
  List.filterMap_append

@[simp] theorem poppedJobs_append : poppedJobs (outs ++ o) = poppedJobs outs ++ poppedJobs o :=
  List.filterMap_append

@[simp] theorem finishedJobs_append :
    finishedJobs (outs ++ o) = finishedJobs outs ++ finishedJobs o :=
  List.filterMap_append

@[simp] theorem addedJobs_jobs (k : Nat) (os : List Out) :
    addedJobs (os.map (PoolOutput.job t k)) = [] := by
  induction os with
  | nil => rfl
  | cons x os ih => exact ih

@[simp] theorem poppedJobs_jobs (k : Nat) (os : List Out) :
    poppedJobs (os.map (PoolOutput.job t k)) = [] := by
  induction os with
  | nil => rfl
  | cons x os ih => exact ih

@[simp] theorem finishedJobs_jobs (k : Nat) (os : List Out) :
    finishedJobs (os.map (PoolOutput.job t k)) = [] := by
  induction os with
  | nil => rfl
  | cons x os ih => exact ih

/-- Steps in which no `WaitAll` returns. -/
theorem WaitsForAll.append (h : WaitsForAll outs) (ho : .waited ∉ o) : WaitsForAll (outs ++ o) := by
  intro before hbefore
  induction o using List.reverseRecOn with
  | nil => exact h before (by simpa using hbefore)
  | append_singleton o x ih =>
    rw [← List.append_assoc, List.prefix_concat_iff] at hbefore
    rcases hbefore with heq | hshort
    · obtain ⟨-, hx⟩ := List.append_inj' heq rfl
      simp only [List.cons.injEq, and_true] at hx
      simp [hx] at ho
    · exact ih (fun hmem => ho (List.mem_append_left _ hmem)) hshort

/-- A `WaitAll` returns when all is done. -/
theorem WaitsForAll.waited (h : WaitsForAll outs) (hall : addedJobs outs ⊆ finishedJobs outs) :
    WaitsForAll (outs ++ [.waited]) := by
  intro before hbefore
  rw [List.prefix_concat_iff] at hbefore
  rcases hbefore with heq | hshort
  · obtain ⟨rfl, -⟩ := List.append_inj' heq rfl
    exact hall
  · exact h before hshort

/-- The job that a worker runs. -/
def WorkerPc.jobNumber? : WorkerPc (Nat × J) → Option Nat
  | .running (k, _) => some k
  | _ => none

/-- A worker before its first wait point, in a job, or between a job and the lock after it. -/
def WorkerPc.isBusy : WorkerPc J → Bool
  | .enter | .running _ => true
  | .asleep | .notified | .exited => false

theorem jobNumber?_signal {workers workers' : Fin T → WorkerPc (Nat × J)} {w : Option (Fin T)}
    (h : (jobAvailableVar (Nat × J)).signal workers w = some workers') (t : Fin T) :
    (workers' t).jobNumber? = (workers t).jobNumber? := by
  rcases signal_worker h t with heq | ⟨hold, hnew⟩
  · rw [heq]
  · rw [hold, hnew]
    rfl

theorem jobNumber?_update {workers : Fin T → WorkerPc (Nat × J)} (pc : WorkerPc (Nat × J))
    (h : pc.jobNumber? = (workers t).jobNumber?) (u : Fin T) :
    (Function.update workers t pc u).jobNumber? = (workers u).jobNumber? := by
  by_cases hut : u = t
  · rw [hut, Function.update_self, h]
  · rw [Function.update_of_ne hut]

theorem busyWeight_eq (pc : WorkerPc J) : busyWeight pc = if pc.isBusy then 1 else 0 := by
  cases pc <;> rfl

/-! ## What has been seen agrees with the state -/

/-- Each popped job is with one worker, or done. -/
structure JobsTrace {K : Type} (popped finished : List K) (held : Fin T → Option K) : Prop where
  taken : ∀ t k, held t = some k → k ∈ popped ∧ k ∉ finished
  once : ∀ t u k, held t = some k → held u = some k → t = u
  done : ∀ k ∈ popped, k ∈ finished ∨ ∃ t, held t = some k
  finished_sub : finished ⊆ popped
  nodup : finished.Nodup

namespace JobsTrace

variable {K : Type} {popped finished : List K} {held held' : Fin T → Option K} {k : K}

theorem congr (h : JobsTrace popped finished held) (heq : ∀ t, held' t = held t) :
    JobsTrace popped finished held' := by
  have : held' = held := funext heq
  rwa [this]

/-- A free worker takes a job. -/
theorem pop (h : JobsTrace popped finished held) (ht : held t = none) (hk : k ∉ popped) :
    JobsTrace (popped ++ [k]) finished (Function.update held t (some k)) := by
  have hkf : k ∉ finished := fun hmem => hk (h.finished_sub hmem)
  refine ⟨fun u l hu => ?_, fun u v l hu hv => ?_, fun l hl => ?_, fun l hl => ?_, h.nodup⟩
  · by_cases hut : u = t
    · rw [hut, Function.update_self] at hu
      obtain rfl := Option.some.inj hu
      simp [hkf]
    · rw [Function.update_of_ne hut] at hu
      obtain ⟨hp, hf⟩ := h.taken u l hu
      simp [hp, hf]
  · -- The new job is with nobody else, since it was not popped before.
    have hnew : ∀ v, v ≠ t → held v ≠ some k := fun v _ hheld => hk (h.taken v k hheld).1
    by_cases hut : u = t <;> by_cases hvt : v = t
    · rw [hut, hvt]
    · rw [hut, Function.update_self] at hu
      rw [Function.update_of_ne hvt] at hv
      obtain rfl := Option.some.inj hu
      exact absurd hv (hnew v hvt)
    · rw [hvt, Function.update_self] at hv
      rw [Function.update_of_ne hut] at hu
      obtain rfl := Option.some.inj hv
      exact absurd hu (hnew u hut)
    · rw [Function.update_of_ne hut] at hu
      rw [Function.update_of_ne hvt] at hv
      exact h.once u v l hu hv
  · rcases List.mem_append.mp hl with hp | hnew
    · rcases h.done l hp with hf | ⟨u, hu⟩
      · exact .inl hf
      · refine .inr ⟨u, ?_⟩
        have hut : u ≠ t := by
          rintro rfl
          rw [ht] at hu
          cases hu
        rwa [Function.update_of_ne hut]
    · obtain rfl := List.mem_singleton.mp hnew
      exact .inr ⟨t, Function.update_self ..⟩
  · exact List.mem_append_left _ (h.finished_sub hl)

/-- A worker is done with its job. -/
theorem finish (h : JobsTrace popped finished held) (ht : held t = some k) :
    JobsTrace popped (finished ++ [k]) (Function.update held t none) := by
  obtain ⟨hp, hf⟩ := h.taken t k ht
  refine ⟨fun u l hu => ?_, fun u v l hu hv => ?_, fun l hl => ?_, fun l hl => ?_, ?_⟩
  · by_cases hut : u = t
    · rw [hut, Function.update_self] at hu
      cases hu
    · rw [Function.update_of_ne hut] at hu
      obtain ⟨hlp, hlf⟩ := h.taken u l hu
      have hne : l ≠ k := by
        rintro rfl
        exact hut (h.once u t l hu ht)
      simp [hlp, hlf, hne]
  · by_cases hut : u = t
    · rw [hut, Function.update_self] at hu
      cases hu
    · by_cases hvt : v = t
      · rw [hvt, Function.update_self] at hv
        cases hv
      · rw [Function.update_of_ne hut] at hu
        rw [Function.update_of_ne hvt] at hv
        exact h.once u v l hu hv
  · rcases h.done l hl with hlf | ⟨u, hu⟩
    · exact .inl (List.mem_append_left _ hlf)
    · by_cases hut : u = t
      · rw [hut, ht] at hu
        exact .inl (by simp [Option.some.inj hu])
      · exact .inr ⟨u, by rwa [Function.update_of_ne hut]⟩
  · rcases List.mem_append.mp hl with hlf | hlk
    · exact h.finished_sub hlf
    · rwa [List.mem_singleton.mp hlk]
  · exact List.nodup_append.mpr ⟨h.nodup, List.nodup_singleton k,
      fun a ha b hb heq => hf (by rwa [← List.mem_singleton.mp hb, ← heq])⟩

end JobsTrace

/-- The invariant: what an observer has seen agrees with the state. -/
structure PoolTrace (outs : List (PoolOutput T Out)) (s : PoolClient T S Job J) : Prop where
  pool : PoolInv s.pool
  added : addedJobs outs = List.range s.added
  queue : poppedJobs outs ++ s.pool.queue.map Prod.fst = List.range s.added
  jobs : JobsTrace (poppedJobs outs) (finishedJobs outs) fun t => (s.pool.workers t).jobNumber?
  waited : WaitsForAll outs

theorem PoolTrace.start (calls : List (Call Job)) (shared : S) :
    PoolTrace ([] : List (PoolOutput T Out)) (.start calls shared : PoolClient T S Job J) where
  pool := .new
  added := rfl
  queue := rfl
  jobs := ⟨nofun, nofun, nofun, nofun, List.nodup_nil⟩
  waited before hbefore := by
    have hlen := hbefore.length_le
    simp at hlen

/-- The queue holds exactly the jobs that were added and not popped, so the next one is new. -/
theorem PoolTrace.next_not_popped (h : PoolTrace outs s) {k : Nat} {job : Job}
    {queue : List (Nat × Job)} (hq : s.pool.queue = (k, job) :: queue) :
    k ∉ poppedJobs outs := by
  have hnodup : (poppedJobs outs ++ s.pool.queue.map Prod.fst).Nodup := by
    rw [h.queue]
    exact List.nodup_range
  rw [hq, List.map_cons] at hnodup
  intro hmem
  exact (List.nodup_append.mp hnodup).2.2 k hmem k List.mem_cons_self rfl

/-- When nothing is left to do, all jobs are done. -/
theorem PoolTrace.all_finished (h : PoolTrace outs s) (hdone : s.pool.unfinished = false) :
    addedJobs outs ⊆ finishedJobs outs := by
  obtain ⟨-, hq⟩ := PoolInv.unfinished_eq_false.mp hdone
  have hqueue := h.queue
  rw [hq, List.map_nil, List.append_nil, ← h.added] at hqueue
  rw [← hqueue]
  intro k hk
  rcases h.jobs.done k hk with hf | ⟨t, ht⟩
  · exact hf
  · cases hpc : s.pool.workers t with
    | running job => exact absurd hpc (h.pool.not_running hdone job)
    | _ => simp [hpc, WorkerPc.jobNumber?] at ht

namespace PoolMove

theorem poolInv (hT : 0 < T) (hm : PoolMove code s e s' o) (h : PoolInv s.pool) :
    PoolInv s'.pool := by
  cases hm with
  | addJob hcalls hpool => exact h.addJob hT hpool
  | waitSleep hcalls hpool => exact h.waitAll hpool
  | waitReturn hcalls hpool => exact h.waitAll hpool
  | execute hpool => exact h.executeThread hpool
  | @run t k j shared j' outs hpc hjob =>
    cases j' with
    | none => exact h.setWorker (by rw [hpc]; rfl) nofun nofun
    | some j' => exact h.setWorker (by rw [hpc]; rfl) nofun nofun
  | wakeWorker hpc => exact h.setWorker (by rw [hpc]; rfl) nofun nofun
  | wakeClient hw => exact ⟨h.open_, h.inside, h.busy, h.supply, nofun⟩

/-- A worker's critical section: it sleeps, or it takes the next job. -/
theorem trace_execute {pool : ThreadPool T (Nat × Job) (Nat × J)}
    (hpool : s.pool.executeThread code.enter t = some pool) (h : PoolTrace outs s) :
    PoolTrace (outs ++ (poppedOutput t (pool.workers t) : List (PoolOutput T Out)))
      { s with pool } := by
  have hinv : PoolInv pool := h.pool.executeThread hpool
  obtain ⟨hfree, hcase⟩ := h.pool.executeThread_cases hpool
  have hnone : (s.pool.workers t).jobNumber? = none := by
    rcases hfree with hpc | hpc <;> rw [hpc] <;> rfl
  rcases hcase with ⟨hnil, hnil', hworkers⟩ | ⟨⟨k, job⟩, hcons, hworkers⟩
  · have hout : (poppedOutput t (pool.workers t) : List (PoolOutput T Out)) = [] := by
      rw [hworkers, Function.update_self]
      rfl
    rw [hout, List.append_nil]
    refine ⟨hinv, h.added, ?_, h.jobs.congr fun u => ?_, h.waited⟩
    · show poppedJobs outs ++ pool.queue.map Prod.fst = _
      rw [hnil', ← hnil]
      exact h.queue
    · show (pool.workers u).jobNumber? = _
      rw [hworkers]
      exact jobNumber?_update .asleep hnone.symm u
  · have hout : (poppedOutput t (pool.workers t) : List (PoolOutput T Out)) = [.popped t k] := by
      rw [hworkers, Function.update_self]
      rfl
    have hheld : (fun u => (pool.workers u).jobNumber?) =
        Function.update (fun u => (s.pool.workers u).jobNumber?) t (some k) := by
      funext u
      rw [hworkers]
      by_cases hut : u = t
      · subst hut
        simp [WorkerPc.jobNumber?, JobCode.enter]
      · simp [Function.update_of_ne hut]
    have hqueue := h.queue
    rw [hcons, List.map_cons] at hqueue
    rw [hout]
    refine ⟨hinv, ?_, ?_, ?_, h.waited.append (by simp)⟩
    · simpa [addedJobs] using h.added
    · simpa [poppedJobs] using hqueue
    · have hjobs := h.jobs.pop hnone (h.next_not_popped hcons)
      rw [← hheld] at hjobs
      simpa [poppedJobs, finishedJobs] using hjobs

/-- A step of a job. -/
theorem trace_run {k : Nat} {j : J} {shared : S} {j' : Option J} {os : List Out}
    (hpc : s.pool.workers t = .running (k, j)) (hinv : PoolInv (s.runJob t k shared j' os).1.pool)
    (h : PoolTrace outs s) :
    PoolTrace (outs ++ (s.runJob t k shared j' os).2) (s.runJob t k shared j' os).1 := by
  have hheld : (s.pool.workers t).jobNumber? = some k := by rw [hpc]; rfl
  cases j' with
  | some j' =>
    refine ⟨hinv, ?_, ?_, ?_, h.waited.append (by simp [PoolClient.runJob])⟩
    · simpa [PoolClient.runJob] using h.added
    · simpa [PoolClient.runJob] using h.queue
    · simp only [PoolClient.runJob, poppedJobs_append, poppedJobs_jobs, finishedJobs_append,
        finishedJobs_jobs, List.append_nil]
      exact h.jobs.congr fun u => jobNumber?_update (.running (k, j')) hheld.symm u
  | none =>
    have hnew : (fun u => ((s.pool.setWorker t .enter).workers u).jobNumber?) =
        Function.update (fun u => (s.pool.workers u).jobNumber?) t none := by
      funext u
      by_cases hut : u = t
      · subst hut
        simp [WorkerPc.jobNumber?]
      · simp [Function.update_of_ne hut, setWorker_of_ne _ hut]
    refine ⟨hinv, ?_, ?_, ?_, h.waited.append (by simp [PoolClient.runJob])⟩
    · simpa [PoolClient.runJob, addedJobs] using h.added
    · simpa [PoolClient.runJob, poppedJobs] using h.queue
    · have hjobs := h.jobs.finish hheld
      rw [← hnew] at hjobs
      simpa [PoolClient.runJob, poppedJobs, finishedJobs] using hjobs

theorem trace (hT : 0 < T) (hm : PoolMove code s e s' o) (h : PoolTrace outs s) :
    PoolTrace (outs ++ o) s' := by
  have hinv := hm.poolInv hT h.pool
  cases hm with
  | @addJob w job calls pool hcalls hpool =>
    obtain ⟨workers, hworkers, rfl⟩ := Option.map_eq_some_iff.mp hpool
    refine ⟨hinv, ?_, ?_, ?_, h.waited.append (by simp)⟩
    · rw [addedJobs_append, h.added]
      exact List.range_succ.symm
    · have hqueue := congrArg (· ++ [s.added]) h.queue
      simpa [poppedJobs, List.range_succ] using hqueue
    · simpa [poppedJobs, finishedJobs] using h.jobs.congr fun u => jobNumber?_signal hworkers u
  | waitSleep hcalls hpool =>
    obtain ⟨-, hqueue, hworkers, -, -, -⟩ := PoolInv.waitAll_cases hpool
    rw [List.append_nil]
    refine ⟨hinv, h.added, ?_, h.jobs.congr fun u => ?_, h.waited⟩
    · rw [hqueue]
      exact h.queue
    · rw [hworkers]
  | waitReturn hcalls hpool =>
    obtain ⟨-, hqueue, hworkers, -, hdone, -⟩ := PoolInv.waitAll_cases hpool
    refine ⟨hinv, ?_, ?_, ?_, h.waited.waited (h.all_finished hdone)⟩
    · simpa [addedJobs] using h.added
    · simpa [poppedJobs, hqueue] using h.queue
    · simpa [poppedJobs, finishedJobs, hworkers] using h.jobs
  | execute hpool => exact trace_execute hpool h
  | run hpc hjob => exact trace_run hpc hinv h
  | wakeWorker hpc =>
    rw [List.append_nil]
    refine ⟨hinv, h.added, h.queue, h.jobs.congr fun u => ?_, h.waited⟩
    exact jobNumber?_update .notified (by rw [hpc]; rfl) u
  | wakeClient hw =>
    rw [List.append_nil]
    exact ⟨hinv, h.added, h.queue, h.jobs, h.waited⟩

end PoolMove

/-! ## The client gets through its calls -/

/-- A step of the program. -/
def PoolScheduled (_ : PoolClient T S Job J) (e : PoolEvent T) : Prop := e.spurious = false

/-- All calls have returned and all jobs are done. -/
def PoolClient.Done (s : PoolClient T S Job J) : Prop :=
  s.calls = [] ∧ s.pool.unfinished = false

/-- As long as `I` holds, no job blocks, and each of its steps makes `weight` smaller. -/
structure JobCode.Terminates (code : JobCode T S Job J Out) (I : PoolClient T S Job J → Prop)
    (weight : J → Nat) : Prop where
  pool : ∀ s, I s → PoolInv s.pool
  step : ∀ s e s' o, I s → PoolMove code s e s' o → I s'
  runs : ∀ s t k j, I s → s.pool.workers t = .running (k, j) →
    ∃ shared j' outs, code.step s.shared t j = some (shared, j', outs)
  lighter : ∀ s t j shared j' outs, code.step s t j = some (shared, some j', outs) →
    weight j' < weight j

section Progress

variable {I : PoolClient T S Job J → Prop} {weight : J → Nat}

def poolWorkerWeight (weight : J → Nat) : WorkerPc (Nat × J) → Nat
  | .enter => 3
  | .notified => 1
  | .asleep | .exited => 0
  | .running (_, j) => weight j + 4

def WaitPc.left : WaitPc → Nat
  | .ready => 2
  | .notified => 1
  | .asleep => 0

/-- What is left to do for a job in the queue. -/
def JobCode.queueWeight (code : JobCode T S Job J Out) (weight : J → Nat) (job : Nat × Job) : Nat :=
  weight (code.start job.2) + 4

def JobCode.callWeight (code : JobCode T S Job J Out) (weight : J → Nat) : Call Job → Nat
  | .addJob job => weight (code.start job) + 6
  | .waitAll => 2

def PoolClient.work (code : JobCode T S Job J Out) (weight : J → Nat)
    (s : PoolClient T S Job J) : Nat :=
  (s.calls.map (code.callWeight weight)).sum + (s.pool.queue.map (code.queueWeight weight)).sum +
    total (poolWorkerWeight weight) s.pool.workers + s.pool.waiter.left

theorem total_poolSignal (weight : J → Nat) {workers workers' : Fin T → WorkerPc (Nat × J)}
    {w : Option (Fin T)}
    (h : (jobAvailableVar (Nat × J)).signal workers w = some workers') :
    total (poolWorkerWeight weight) workers' ≤ total (poolWorkerWeight weight) workers + 1 := by
  obtain ⟨u, -, -, rfl⟩ | ⟨-, -, rfl⟩ := CondVar.signal_cases h
  · have htotal := total_update (poolWorkerWeight weight) workers u .notified
    have hone : poolWorkerWeight weight .notified = 1 := rfl
    show total (poolWorkerWeight weight) (Function.update workers u .notified) ≤ _
    omega
  · omega

theorem PoolClient.work_execute {pool : ThreadPool T (Nat × Job) (Nat × J)} (h : PoolInv s.pool)
    (hpool : s.pool.executeThread code.enter t = some pool) :
    PoolClient.work code weight { s with pool } < s.work code weight := by
  obtain ⟨-, hcase⟩ := h.executeThread_cases hpool
  -- The client is woken only by a worker that enters, whose weight pays for it.
  have hclient : pool.waiter.left + 1 ≤
      s.pool.waiter.left + poolWorkerWeight weight (s.pool.workers t) := by
    rcases PoolInv.executeThread_waiter hpool with ⟨hpc, hw | hw⟩ | ⟨hpc, hw⟩
    · simp only [hpc, hw, poolWorkerWeight]
      omega
    · simp only [hpc, hw, poolWorkerWeight]
      cases s.pool.waiter <;> simp [WaitPc.signal, WaitPc.left]
    · simp only [hpc, hw, poolWorkerWeight]
      omega
  simp only [PoolClient.work]
  rcases hcase with ⟨hnil, hnil', hworkers⟩ | ⟨⟨k, job⟩, hcons, hworkers⟩
  · have htotal := total_update (poolWorkerWeight weight) s.pool.workers t .asleep
    have hzero : poolWorkerWeight weight .asleep = 0 := rfl
    rw [hnil, hnil', hworkers]
    omega
  · have htotal := total_update (poolWorkerWeight weight) s.pool.workers t
      (.running (code.enter (k, job)))
    have hstart : poolWorkerWeight weight (.running (code.enter (k, job))) =
        code.queueWeight weight (k, job) := rfl
    rw [hcons, hworkers, List.map_cons, List.sum_cons]
    omega

theorem PoolMove.work_lt (hc : code.Terminates I weight) (hm : PoolMove code s e s' o) (h : I s)
    (he : e.spurious = false) : s'.work code weight < s.work code weight := by
  cases hm with
  | @addJob w job calls pool hcalls hpool =>
    obtain ⟨workers, hworkers, rfl⟩ := Option.map_eq_some_iff.mp hpool
    have htotal := total_poolSignal weight hworkers
    simp only [PoolClient.work, hcalls, List.map_cons, List.map_append, List.sum_cons,
      List.sum_append, List.map_nil, List.sum_nil, JobCode.callWeight, JobCode.queueWeight]
    omega
  | waitSleep hcalls hpool =>
    obtain ⟨hawake, hqueue, hworkers, -, -, hw⟩ := PoolInv.waitAll_cases hpool
    simp only [PoolClient.work, hqueue, hworkers, hw]
    cases hwaiter : s.pool.waiter with
    | asleep => exact absurd hwaiter hawake
    | _ => simp [WaitPc.left]
  | waitReturn hcalls hpool =>
    obtain ⟨hawake, hqueue, hworkers, -, -, hw⟩ := PoolInv.waitAll_cases hpool
    simp only [PoolClient.work, hcalls, hqueue, hworkers, hw, List.map_cons, List.sum_cons,
      JobCode.callWeight, if_true]
    cases hwaiter : s.pool.waiter with
    | asleep => exact absurd hwaiter hawake
    | ready => simp only [WaitPc.left]; omega
    | notified => simp only [WaitPc.left]; omega
  | execute hpool => exact PoolClient.work_execute (hc.pool s h) hpool
  | @run t k j shared j' outs hpc hjob =>
    cases j' with
    | none =>
      have htotal := total_update (poolWorkerWeight weight) s.pool.workers t .enter
      rw [hpc] at htotal
      simp only [poolWorkerWeight] at htotal
      simp only [PoolClient.work, PoolClient.runJob, ThreadPool.setWorker]
      omega
    | some j' =>
      have htotal := total_update (poolWorkerWeight weight) s.pool.workers t (.running (k, j'))
      have hlt := hc.lighter _ _ _ _ _ _ hjob
      rw [hpc] at htotal
      simp only [poolWorkerWeight] at htotal
      simp only [PoolClient.work, PoolClient.runJob, ThreadPool.setWorker]
      omega
  | wakeWorker hpc => cases he
  | wakeClient hw => cases he

theorem PoolMove.scheduled (hm : PoolMove code s e s' o) (he : e.spurious = false) :
    ∃ e s' o, PoolScheduled s e ∧ (poolClient code).step s e = some (s', o) :=
  ⟨e, s', o, he, hm.step⟩

namespace JobCode.Terminates

/-- A worker that does not wait for a job can go on. -/
theorem exists_worker_step (hc : code.Terminates I weight) (h : I s)
    (ht : s.pool.workers t ≠ .asleep) :
    ∃ e s' o, PoolScheduled s e ∧ (poolClient code).step s e = some (s', o) := by
  cases hpc : s.pool.workers t with
  | asleep => exact absurd hpc ht
  | exited => exact absurd hpc ((hc.pool s h).inside t)
  | enter =>
    have hpool : s.pool.executeThread code.enter t =
        some (s.pool.release.getJob code.enter t) := by
      rw [ThreadPool.executeThread, hpc]
    exact (PoolMove.execute hpool).scheduled rfl
  | notified =>
    have hpool : s.pool.executeThread code.enter t = some (s.pool.getJob code.enter t) := by
      rw [ThreadPool.executeThread, hpc]
    exact (PoolMove.execute hpool).scheduled rfl
  | running job =>
    obtain ⟨k, j⟩ := job
    obtain ⟨shared, j', outs, hjob⟩ := hc.runs s t k j h hpc
    exact (PoolMove.run hpc hjob).scheduled rfl

/-- As long as there is something left, the program can go on. -/
theorem exists_step (hc : code.Terminates I weight) (h : I s) (hne : ¬ s.Done) :
    ∃ e s' o, PoolScheduled s e ∧ (poolClient code).step s e = some (s', o) := by
  have hinv := hc.pool s h
  cases hcalls : s.calls with
  | nil =>
    have hbusy : s.pool.unfinished = true := by
      by_contra hdone
      exact hne ⟨hcalls, by simpa using hdone⟩
    -- Some worker is busy, or there is one awake for the queue.
    obtain ⟨t, ht⟩ : ∃ t, s.pool.workers t ≠ .asleep := by
      rcases PoolInv.unfinished_iff.mp hbusy with hpos | hq
      · exact hinv.exists_busy hpos
      · exact hinv.supply hq
    exact hc.exists_worker_step h ht
  | cons call calls =>
    cases call with
    | addJob job =>
      obtain ⟨w, workers, hw⟩ := CondVar.exists_signal (jobAvailableVar (Nat × J)) s.pool.workers
      have hpool : s.pool.addJob (s.added, job) w =
          some { s.pool with queue := s.pool.queue ++ [(s.added, job)], workers } := by
        rw [ThreadPool.addJob, hw, Option.map_some]
      exact (PoolMove.addJob hcalls hpool).scheduled rfl
    | waitAll =>
      by_cases hwaiter : s.pool.waiter = .asleep
      · obtain ⟨t, ht⟩ := hinv.exists_awake hwaiter
        exact hc.exists_worker_step h ht
      · by_cases hdone : s.pool.unfinished = true
        · have hpool : s.pool.waitAll = some ({ s.pool with waiter := .asleep }, false) := by
            rw [ThreadPool.waitAll, if_neg hwaiter, if_pos hdone]
          exact (PoolMove.waitSleep hcalls hpool).scheduled rfl
        · have hpool : s.pool.waitAll = some ({ s.pool with waiter := .ready }, true) := by
            rw [ThreadPool.waitAll, if_neg hwaiter, if_neg hdone]
          exact (PoolMove.waitReturn hcalls hpool).scheduled rfl

/-- Under every schedule the client gets through its calls. -/
theorem inevitable (hc : code.Terminates I weight) (h : I s) :
    (poolClient code).Inevitable PoolScheduled PoolClient.Done s := by
  refine Machine.inevitable_of_measure (PoolClient.work code weight) ?_ ?_ s h
  · intro s e s' o hs _ he hstep
    exact ⟨hc.step s e s' o hs (pool_move hstep), (pool_move hstep).work_lt hc hs he⟩
  · intro s hs hne
    exact hc.exists_step hs hne

end JobCode.Terminates

end Progress

/-! ## The main result -/

/-- No job blocks, and each comes to an end. -/
def JobCode.Total (code : JobCode T S Job J Out) : Prop :=
  ∃ weight : J → Nat, ∀ s t j, ∃ shared j' outs, code.step s t j = some (shared, j', outs) ∧
    ∀ j₁, j' = some j₁ → weight j₁ < weight j

/-- What a run with the outputs `outs` to the state `s` did, and what will come. -/
structure PoolCompletes (code : JobCode T S Job J Out) (outs : List (PoolOutput T Out))
    (s : PoolClient T S Job J) : Prop where
  busy : s.pool.busyThreads =
    (Finset.univ.filter fun t => (s.pool.workers t).isBusy = true).card
  numbered : addedJobs outs = List.range s.added
  inOrder : poppedJobs outs <+: addedJobs outs
  once : (finishedJobs outs).Nodup ∧ finishedJobs outs ⊆ poppedJobs outs ∧
    ∀ k ∈ poppedJobs outs, k ∉ finishedJobs outs →
      ∃! t, (s.pool.workers t).jobNumber? = some k
  waited : WaitsForAll outs
  clientAwake : ¬ (s.pool.waiter = .asleep ∧ s.pool.queue = [] ∧ s.pool.busyThreads = 0)
  workerAwake : ¬ (s.pool.queue ≠ [] ∧ ∀ t, s.pool.workers t = .asleep)
  /-- All jobs are done in the end. -/
  goesOn : code.Total → (poolClient code).Inevitable PoolScheduled PoolClient.Done s
  ended : s.Done → addedJobs outs ⊆ finishedJobs outs

theorem total_busyWeight (workers : Fin T → WorkerPc J) :
    total busyWeight workers = (Finset.univ.filter fun t => (workers t).isBusy = true).card := by
  rw [total, Finset.card_filter]
  exact Finset.sum_congr rfl fun t _ => busyWeight_eq (workers t)

theorem JobCode.Total.terminates (hT : 0 < T) (h : code.Total) :
    ∃ weight, code.Terminates (fun s => PoolInv s.pool) weight := by
  obtain ⟨weight, hstep⟩ := h
  refine ⟨weight, fun _ hs => hs, fun s e s' o hs hm => hm.poolInv hT hs, ?_, ?_⟩
  · intro s t k j _ _
    obtain ⟨shared, j', outs, hjob, -⟩ := hstep s.shared t j
    exact ⟨shared, j', outs, hjob⟩
  · intro s t j shared j' outs hjob
    obtain ⟨shared₁, j₁, outs₁, hjob₁, hlt⟩ := hstep s t j
    rw [hjob] at hjob₁
    cases hjob₁
    exact hlt j' rfl

theorem PoolTrace.of_run (hT : 0 < T) {calls : List (Call Job)} {shared : S}
    (h : (poolClient code).Run Machine.Any (.start calls shared) outs s) : PoolTrace outs s :=
  h.inv (I := fun outs s => PoolTrace outs s) (.start calls shared)
    fun _ _ _ _ _ hs _ hstep => (pool_move hstep).trace hT hs

/-- In every run, whatever the calls of the client and the code of the jobs are. -/
theorem pool_completes (hT : 0 < T) (code : JobCode T S Job J Out) (calls : List (Call Job))
    (shared : S) (outs : List (PoolOutput T Out)) (s : PoolClient T S Job J)
    (h : (poolClient code).Run Machine.Any (.start calls shared) outs s) :
    PoolCompletes code outs s := by
  have htrace := PoolTrace.of_run hT h
  refine ⟨?_, htrace.added, ?_, ⟨htrace.jobs.nodup, htrace.jobs.finished_sub, ?_⟩, htrace.waited,
    ?_, ?_, ?_, fun hdone => htrace.all_finished hdone.2⟩
  · rw [htrace.pool.busy, total_busyWeight]
  · rw [htrace.added, ← htrace.queue]
    exact List.prefix_append _ _
  · intro k hpopped hfinished
    obtain hf | ⟨t, ht⟩ := htrace.jobs.done k hpopped
    · exact absurd hf hfinished
    · exact ⟨t, ht, fun u hu => htrace.jobs.once u t k hu ht⟩
  · rintro ⟨hsleep, hq, hzero⟩
    rcases htrace.pool.waiting hsleep with hpos | hne
    · omega
    · exact hne hq
  · rintro ⟨hq, hall⟩
    obtain ⟨t, ht⟩ := htrace.pool.supply hq
    exact ht (hall t)
  · intro htotal
    obtain ⟨weight, hc⟩ := htotal.terminates hT
    exact hc.inevitable htrace.pool

/-- Jobs with one step. -/
def oneStep : JobCode 2 Unit Unit Unit Unit where
  start _ := ()
  step _ _ _ := some ((), none, [])

/-- Two workers, two jobs: the client sleeps in `WaitAll` and is woken by the last worker. -/
theorem pool_completes_twoJobs :
    ∃ outs s, (poolClient oneStep).Run Machine.Any (.start [.addJob (), .addJob (), .waitAll] ())
        outs s ∧
      (s.calls = [] ∧ finishedJobs outs = [1, 0] ∧ .waited ∈ outs) ∧
      PoolCompletes oneStep outs s := by
  obtain ⟨outs, s, hrun, hend⟩ := Machine.exec_exists (M := poolClient oneStep)
    (s := .start [.addJob (), .addJob (), .waitAll] ()) (c := fun _ _ => true)
    (p := fun r => decide (r.1.calls = [] ∧ finishedJobs r.2 = [1, 0] ∧ .waited ∈ r.2))
    [.execute 0, .addJob (some 0), .execute 0, .addJob none, .execute 1, .waitAll, .run 1,
      .execute 1, .run 0, .execute 0, .waitAll] (by decide)
  have hany := hrun.mono (D := Machine.Any) fun _ _ _ => trivial
  exact ⟨outs, s, hany, of_decide_eq_true hend,
    pool_completes (by decide) oneStep _ _ outs s hany⟩

end Snowflake
