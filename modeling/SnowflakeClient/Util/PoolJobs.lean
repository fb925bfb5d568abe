import SnowflakeClient.Util.PoolCompletion

/-!
# The jobs of a thread pool

What a client of the pool sees of it: which job each worker runs. `PoolMove.jobs` says what a step
does to the jobs, so that an invariant of the jobs has three cases: nothing happens, a worker takes
a job, or a job makes a step.
-/

namespace Snowflake

open Conc ThreadPool

variable {T : Nat} {S Job J Out : Type} {code : JobCode T S Job J Out}
  {s s' : PoolClient T S Job J} {e : PoolEvent T} {outs o : List (PoolOutput T Out)} {t : Fin T}

/-- The jobs that the workers run. -/
def PoolClient.jobs (s : PoolClient T S Job J) (t : Fin T) : Option (Nat × J) :=
  (s.pool.workers t).job?

theorem PoolClient.jobNumber?_of_jobs {k : Nat} {j : J} (h : s.jobs t = some (k, j)) :
    (s.pool.workers t).jobNumber? = some k := by
  cases hpc : s.pool.workers t with
  | running job =>
    rw [PoolClient.jobs, hpc] at h
    cases h
    rfl
  | _ =>
    rw [PoolClient.jobs, hpc] at h
    cases h

/-- What the jobs show, each with the number of the job. -/
def jobOutputs (outs : List (PoolOutput T Out)) : List (Nat × Out) :=
  outs.filterMap fun
    | .job _ k out => some (k, out)
    | _ => none

@[simp] theorem jobOutputs_append : jobOutputs (outs ++ o) = jobOutputs outs ++ jobOutputs o :=
  List.filterMap_append

@[simp] theorem jobOutputs_jobs (k : Nat) (os : List Out) :
    jobOutputs (os.map (PoolOutput.job t k)) = os.map (Prod.mk k) := by
  induction os with
  | nil => rfl
  | cons x os ih => exact congrArg ((k, x) :: ·) ih

/-- What a step does to the jobs and to the queue. -/
inductive JobsStep (code : JobCode T S Job J Out) (s s' : PoolClient T S Job J)
    (o : List (PoolOutput T Out)) : Prop
  | idle : s'.jobs = s.jobs → s'.shared = s.shared → poppedJobs o = [] → finishedJobs o = [] →
      jobOutputs o = [] → JobsStep code s s' o
  | pop {t : Fin T} {k : Nat} {job : Job} {queue : List (Nat × Job)} :
      s.pool.queue = (k, job) :: queue → s.jobs t = none →
      s'.jobs = Function.update s.jobs t (some (k, code.start job)) → s'.shared = s.shared →
      poppedJobs o = [k] → finishedJobs o = [] → jobOutputs o = [] → JobsStep code s s' o
  | run {t : Fin T} {k : Nat} {j : J} {j' : Option J} {os : List Out} :
      s.jobs t = some (k, j) → code.step s.shared t j = some (s'.shared, j', os) →
      s'.jobs = Function.update s.jobs t (j'.map (Prod.mk k)) → poppedJobs o = [] →
      finishedJobs o = (if j'.isSome then [] else [k]) → jobOutputs o = os.map (Prod.mk k) →
      JobsStep code s s' o

theorem PoolClient.jobs_update (s : PoolClient T S Job J) {workers : Fin T → WorkerPc (Nat × J)}
    {pc : WorkerPc (Nat × J)} (h : workers = Function.update s.pool.workers t pc) :
    (fun u => (workers u).job?) = Function.update s.jobs t pc.job? := by
  rw [h]
  exact job?_update s.pool.workers t pc

/-- A worker without a job stays without. -/
theorem PoolClient.jobs_update_none (s : PoolClient T S Job J)
    {workers : Fin T → WorkerPc (Nat × J)} {pc : WorkerPc (Nat × J)}
    (h : workers = Function.update s.pool.workers t pc) (hpc : pc.job? = none)
    (ht : s.jobs t = none) : (fun u => (workers u).job?) = s.jobs := by
  rw [s.jobs_update h, hpc, ← ht]
  exact Function.update_eq_self t s.jobs

theorem PoolMove.jobsStep (hm : PoolMove code s e s' o) (h : PoolInv s.pool) :
    JobsStep code s s' o := by
  cases hm with
  | addJob hcalls hpool =>
    obtain ⟨workers, hworkers, rfl⟩ := Option.map_eq_some_iff.mp hpool
    refine .idle ?_ rfl rfl rfl rfl
    funext u
    rcases signal_worker hworkers u with heq | ⟨hold, hnew⟩
    · exact congrArg WorkerPc.job? heq
    · have hold' : s.jobs u = none := congrArg WorkerPc.job? hold
      have hnew' : (workers u).job? = none := congrArg WorkerPc.job? hnew
      exact hnew'.trans hold'.symm
  | waitSleep hcalls hpool =>
    obtain ⟨-, -, hworkers, -⟩ := PoolInv.waitAll_cases hpool
    exact .idle (funext fun u => congrArg (fun w => (w u).job?) hworkers) rfl rfl rfl rfl
  | waitReturn hcalls hpool =>
    obtain ⟨-, -, hworkers, -⟩ := PoolInv.waitAll_cases hpool
    exact .idle (funext fun u => congrArg (fun w => (w u).job?) hworkers) rfl rfl rfl rfl
  | @execute t pool hpool =>
    obtain ⟨hfree, hcase⟩ := h.executeThread_cases hpool
    have hnone : s.jobs t = none := by
      rcases hfree with hpc | hpc <;> exact congrArg WorkerPc.job? hpc
    rcases hcase with ⟨-, -, hworkers⟩ | ⟨⟨k, job⟩, hqueue, hworkers⟩
    · have hpc : pool.workers t = .asleep := by rw [hworkers, Function.update_self]
      rw [hpc]
      exact .idle (s.jobs_update_none hworkers rfl hnone) rfl rfl rfl rfl
    · have hpc : pool.workers t = .running (k, code.start job) := by
        rw [hworkers, Function.update_self]
        rfl
      rw [hpc]
      exact .pop hqueue hnone (s.jobs_update hworkers) rfl rfl rfl rfl
  | @run t k j shared j' os hpc hjob =>
    have hheld : s.jobs t = some (k, j) := congrArg WorkerPc.job? hpc
    cases j' with
    | some j' =>
      exact .run hheld hjob (s.jobs_update rfl) (poppedJobs_jobs k os) (finishedJobs_jobs k os)
        (jobOutputs_jobs k os)
    | none =>
      refine .run hheld hjob (s.jobs_update rfl) ?_ ?_ ?_
      · simp [PoolClient.runJob, poppedJobs]
      · simp [PoolClient.runJob, finishedJobs]
      · simp [PoolClient.runJob, jobOutputs]
  | wakeWorker hpc =>
    exact .idle (s.jobs_update_none rfl rfl (congrArg WorkerPc.job? hpc)) rfl rfl rfl rfl
  | wakeClient hw => exact .idle rfl rfl rfl rfl rfl

/-- What a step does to the jobs. -/
inductive JobsMove (code : JobCode T S Job J Out) (s s' : PoolClient T S Job J)
    (o : List (PoolOutput T Out)) : Prop
  | idle : s'.jobs = s.jobs → s'.shared = s.shared → poppedJobs o = [] → jobOutputs o = [] →
      JobsMove code s s' o
  | pop {t : Fin T} {k : Nat} {job : Job} :
      s.jobs t = none → s'.jobs = Function.update s.jobs t (some (k, code.start job)) →
      s'.shared = s.shared → poppedJobs o = [k] → jobOutputs o = [] → JobsMove code s s' o
  | run {t : Fin T} {k : Nat} {j : J} {j' : Option J} {os : List Out} :
      s.jobs t = some (k, j) → code.step s.shared t j = some (s'.shared, j', os) →
      s'.jobs = Function.update s.jobs t (j'.map (Prod.mk k)) →
      poppedJobs o = [] → jobOutputs o = os.map (Prod.mk k) → JobsMove code s s' o

theorem PoolMove.jobs (hm : PoolMove code s e s' o) (h : PoolInv s.pool) :
    JobsMove code s s' o := by
  cases hm.jobsStep h with
  | idle hjobs hshared hpopped _ hlog => exact .idle hjobs hshared hpopped hlog
  | pop _ ht hjobs hshared hpopped _ hlog => exact .pop ht hjobs hshared hpopped hlog
  | run ht hstep hjobs hpopped _ hlog => exact .run ht hstep hjobs hpopped hlog

end Snowflake
