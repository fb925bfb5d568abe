import SnowflakeClient.Conc.CondVar
import SnowflakeClient.Conc.Count

/-!
# The thread pool

`ThreadPool` (`cpp/util/ThreadPool.hpp`): `T` workers run the jobs of a queue; one client adds jobs
and waits until all are done. The queue, `busyThreads` and `finished` are only touched with
`queue_mutex` held, so a critical section is one step; `_cond_wait` ends it and a notified thread
starts a new one. What a job does is not the pool's business: `J` is the state of a running job.

`PoolInv`: `busyThreads` counts the workers that are not waiting for a job, so it is never 0 when
it is decremented; somebody is awake for a job in the queue; and the client sleeps in `WaitAll`
only if there is something to wait for.
-/

namespace Snowflake

open Conc

/-- Where a worker is in `execute_thread`. -/
inductive WorkerPc (J : Type) where
  /-- At the top of the loop, before the lock. -/
  | enter
  /-- In `_cond_wait(&job_available_var)`, not notified. -/
  | asleep
  /-- Notified, before it has the lock again. -/
  | notified
  /-- In `res()`. -/
  | running (job : J)
  /-- It has left the loop. -/
  | exited
  deriving DecidableEq, Repr

/-- The job that a worker runs. -/
def WorkerPc.job? {J : Type} : WorkerPc J → Option J
  | .running job => some job
  | _ => none

theorem job?_update {T : Nat} {J : Type} (workers : Fin T → WorkerPc J) (t : Fin T)
    (pc : WorkerPc J) : (fun u => (Function.update workers t pc u).job?) =
      Function.update (fun u => (workers u).job?) t pc.job? :=
  Function.comp_update WorkerPc.job? workers t pc

/-- Where the client is with respect to `wait_var`. -/
inductive WaitPc where
  | ready
  | asleep
  | notified
  deriving DecidableEq, Repr

/-- `_cond_signal(&wait_var)`. -/
def WaitPc.signal : WaitPc → WaitPc
  | .asleep => .notified
  | pc => pc

/-- `job_available_var`. -/
def jobAvailableVar (J : Type) : CondVar (WorkerPc J) where
  asleep
    | .asleep => true
    | _ => false
  wake _ := .notified
  wake_awake _ := rfl

/-- One worker after a signal: it is where it was, or it slept and is notified. -/
theorem signal_worker {T : Nat} {J : Type} {workers workers' : Fin T → WorkerPc J}
    {w : Option (Fin T)} (h : (jobAvailableVar J).signal workers w = some workers') (t : Fin T) :
    workers' t = workers t ∨ (workers t = .asleep ∧ workers' t = .notified) := by
  rcases CondVar.signal_thread h t with heq | ⟨hsleep, heq⟩
  · exact .inl heq
  · cases hpc : workers t with
    | asleep => exact .inr ⟨rfl, heq⟩
    | _ => rw [hpc] at hsleep; cases hsleep

structure ThreadPool (T : Nat) (Job J : Type) where
  queue : List Job
  busyThreads : Nat
  finished : Bool
  workers : Fin T → WorkerPc J
  waiter : WaitPc

namespace ThreadPool

variable {T : Nat} {Job J : Type}

/-- The constructor: every thread is about to enter its loop. -/
def new : ThreadPool T Job J where
  queue := []
  busyThreads := T
  finished := false
  workers _ := .enter
  waiter := .ready

def setWorker (p : ThreadPool T Job J) (t : Fin T) (pc : WorkerPc J) : ThreadPool T Job J :=
  { p with workers := Function.update p.workers t pc }

@[simp] theorem setWorker_self (p : ThreadPool T Job J) (t : Fin T) (pc : WorkerPc J) :
    (p.setWorker t pc).workers t = pc :=
  Function.update_self ..

@[simp] theorem setWorker_queue (p : ThreadPool T Job J) (t : Fin T) (pc : WorkerPc J) :
    (p.setWorker t pc).queue = p.queue :=
  rfl

theorem setWorker_of_ne (p : ThreadPool T Job J) {t u : Fin T} (h : u ≠ t) (pc : WorkerPc J) :
    (p.setWorker t pc).workers u = p.workers u :=
  Function.update_of_ne h ..

/-- `AddJob`. The signal wakes the worker `w`. -/
def addJob (p : ThreadPool T Job J) (job : Job) (w : Option (Fin T)) :
    Option (ThreadPool T Job J) :=
  ((jobAvailableVar J).signal p.workers w).map fun workers =>
    { p with queue := p.queue ++ [job], workers }

/-- `execute_thread` from the test of the wait loop on. -/
def getJob (p : ThreadPool T Job J) (start : Job → J) (t : Fin T) : ThreadPool T Job J :=
  if p.finished then p.setWorker t .exited
  else
    match p.queue with
    | [] => p.setWorker t .asleep
    | job :: queue =>
      { p with queue, busyThreads := p.busyThreads + 1 }.setWorker t (.running (start job))

/-- The start of a round: `busyThreads --` and the signal to the client. -/
def release (p : ThreadPool T Job J) : ThreadPool T Job J :=
  { p with
    busyThreads := p.busyThreads - 1
    waiter := if p.busyThreads - 1 = 0 then p.waiter.signal else p.waiter }

/-- A critical section of `execute_thread`. -/
def executeThread (p : ThreadPool T Job J) (start : Job → J) (t : Fin T) :
    Option (ThreadPool T Job J) :=
  match p.workers t with
  | .enter => some (p.release.getJob start t)
  | .notified => some (p.getJob start t)
  | _ => none

/-- The test in the loop of `WaitAll`. -/
def unfinished (p : ThreadPool T Job J) : Bool := decide (0 < p.busyThreads) || !p.queue.isEmpty

/-- A critical section of `WaitAll`: it returns (`true`), or the client sleeps. -/
def waitAll (p : ThreadPool T Job J) : Option (ThreadPool T Job J × Bool) :=
  if p.waiter = .asleep then none
  else if p.unfinished then some ({ p with waiter := .asleep }, false)
  else some ({ p with waiter := .ready }, true)

/-! ## The invariant -/

/-- A worker that `busyThreads` counts. -/
def busyWeight : WorkerPc J → Nat
  | .enter | .running _ => 1
  | .asleep | .notified | .exited => 0

@[simp] theorem busyWeight_enter : busyWeight (.enter : WorkerPc J) = 1 := rfl
@[simp] theorem busyWeight_running (job : J) : busyWeight (.running job) = 1 := rfl
@[simp] theorem busyWeight_asleep : busyWeight (.asleep : WorkerPc J) = 0 := rfl
@[simp] theorem busyWeight_notified : busyWeight (.notified : WorkerPc J) = 0 := rfl

end ThreadPool

open ThreadPool

/-- The invariant (module doc) of a pool that is not shut down. -/
structure PoolInv {T : Nat} {Job J : Type} (p : ThreadPool T Job J) : Prop where
  open_ : p.finished = false
  inside : ∀ t, p.workers t ≠ .exited
  busy : p.busyThreads = total busyWeight p.workers
  supply : p.queue ≠ [] → ∃ t, p.workers t ≠ .asleep
  waiting : p.waiter = .asleep → 0 < p.busyThreads ∨ p.queue ≠ []

namespace PoolInv

variable {T : Nat} {Job J : Type} {p p' : ThreadPool T Job J} {t : Fin T}

theorem new : PoolInv (.new : ThreadPool T Job J) := by
  refine ⟨rfl, nofun, ?_, fun h => absurd rfl h, nofun⟩
  simp [ThreadPool.new, total, busyWeight]

/-- Steps that only move workers, none of them to sleep. -/
theorem moveWorkers {workers : Fin T → WorkerPc J} (h : PoolInv p)
    (hweight : ∀ t, busyWeight (workers t) = busyWeight (p.workers t))
    (hinside : ∀ t, workers t ≠ .exited)
    (hawake : ∀ t, p.workers t ≠ .asleep → workers t ≠ .asleep) :
    PoolInv { p with workers } := by
  refine ⟨h.open_, hinside, ?_, fun hq => ?_, h.waiting⟩
  · rw [h.busy]
    exact Finset.sum_congr rfl fun t _ => (hweight t).symm
  · obtain ⟨t, ht⟩ := h.supply hq
    exact ⟨t, hawake t ht⟩

theorem inside_setWorker {pc : WorkerPc J} (h : ∀ t, p.workers t ≠ .exited) (hpc : pc ≠ .exited)
    (u : Fin T) : (p.setWorker t pc).workers u ≠ .exited := by
  by_cases hut : u = t
  · rwa [hut, setWorker_self]
  · rw [setWorker_of_ne p hut]
    exact h u

theorem setWorker {pc : WorkerPc J} (h : PoolInv p)
    (hweight : busyWeight pc = busyWeight (p.workers t)) (hinside : pc ≠ .exited)
    (hawake : pc ≠ .asleep) : PoolInv (p.setWorker t pc) := by
  refine h.moveWorkers (fun u => ?_) (inside_setWorker h.inside hinside) (fun u hu => ?_)
  · by_cases hut : u = t
    · rw [hut, Function.update_self, hweight]
    · rw [Function.update_of_ne hut]
  · by_cases hut : u = t
    · rwa [hut, Function.update_self]
    · rwa [Function.update_of_ne hut]

theorem addJob {job : Job} {w : Option (Fin T)} (hT : 0 < T) (h : PoolInv p)
    (hs : p.addJob job w = some p') : PoolInv p' := by
  rw [ThreadPool.addJob, Option.map_eq_some_iff] at hs
  obtain ⟨workers, hs, rfl⟩ := hs
  have hmoved : PoolInv { p with workers } := by
    refine h.moveWorkers (fun t => ?_) (fun t => ?_) (fun t ht => ?_)
    · rcases signal_worker hs t with heq | ⟨hold, hnew⟩
      · rw [heq]
      · rw [hold, hnew]
        rfl
    · rcases signal_worker hs t with heq | ⟨-, hnew⟩
      · rw [heq]
        exact h.inside t
      · rw [hnew]
        nofun
    · rcases signal_worker hs t with heq | ⟨-, hnew⟩
      · rwa [heq]
      · rw [hnew]
        nofun
  refine ⟨hmoved.open_, hmoved.inside, hmoved.busy, fun _ => ?_, fun _ => .inr (by simp)⟩
  obtain ⟨t, ht⟩ := CondVar.signal_exists_awake hs ⟨0, hT⟩
  refine ⟨t, fun heq => ?_⟩
  have heq : workers t = .asleep := heq
  rw [heq] at ht
  cases ht

/-- A worker takes a job or goes to sleep, after its own weight was taken off `busyThreads`. -/
theorem getJob {start : Job → J} (hopen : p.finished = false) (hinside : ∀ t, p.workers t ≠ .exited)
    (hbusy : p.busyThreads + busyWeight (p.workers t) = total busyWeight p.workers)
    (hwait : p.waiter = .asleep → 0 < p.busyThreads ∨ p.queue ≠ []) :
    PoolInv (p.getJob start t) := by
  unfold ThreadPool.getJob
  rw [if_neg (by simp [hopen])]
  split
  · next hq =>
    refine ⟨hopen, inside_setWorker hinside nofun, ?_, fun hne => absurd hq hne, hwait⟩
    have htotal := total_update busyWeight p.workers t .asleep
    rw [busyWeight_asleep] at htotal
    show p.busyThreads = total busyWeight (Function.update p.workers t .asleep)
    omega
  · next job queue hq =>
    refine ⟨hopen, inside_setWorker hinside nofun, ?_, fun _ => ⟨t, ?_⟩,
      fun _ => .inl (Nat.succ_pos _)⟩
    · have htotal := total_update busyWeight p.workers t (.running (start job))
      rw [busyWeight_running] at htotal
      show p.busyThreads + 1 = total busyWeight (Function.update p.workers t (.running (start job)))
      omega
    · rw [setWorker_self]
      nofun

theorem executeThread {start : Job → J} (h : PoolInv p)
    (hs : p.executeThread start t = some p') : PoolInv p' := by
  unfold ThreadPool.executeThread at hs
  split at hs
  · next hpc =>
    obtain rfl := Option.some.inj hs
    have htotal := total_update busyWeight p.workers t .asleep
    have hbusy := h.busy
    rw [hpc, busyWeight_enter, busyWeight_asleep] at htotal
    refine getJob h.open_ h.inside ?_ fun hsleep => ?_
    · show p.busyThreads - 1 + busyWeight (p.workers t) = total busyWeight p.workers
      rw [hpc, busyWeight_enter]
      omega
    · -- The client was not woken, so the count is not 0.
      have hsleep : (if p.busyThreads - 1 = 0 then p.waiter.signal else p.waiter) = .asleep :=
        hsleep
      split at hsleep
      · cases hw : p.waiter <;> rw [hw] at hsleep <;> cases hsleep
      · next hpos => exact .inl (Nat.pos_of_ne_zero hpos)
  · next hpc =>
    obtain rfl := Option.some.inj hs
    refine getJob h.open_ h.inside ?_ h.waiting
    rw [hpc, busyWeight_notified, h.busy, Nat.add_zero]
  · cases hs

/-- What a critical section of a worker does: it goes to sleep, or it takes the first job. -/
theorem executeThread_cases {start : Job → J} (h : PoolInv p)
    (hs : p.executeThread start t = some p') :
    (p.workers t = .enter ∨ p.workers t = .notified) ∧
      ((p.queue = [] ∧ p'.queue = [] ∧ p'.workers = Function.update p.workers t .asleep) ∨
        ∃ job, p.queue = job :: p'.queue ∧
          p'.workers = Function.update p.workers t (.running (start job))) := by
  have hget : ∀ q : ThreadPool T Job J, q.finished = false →
      (q.queue = [] ∧ (q.getJob start t).queue = [] ∧
        (q.getJob start t).workers = Function.update q.workers t .asleep) ∨
      ∃ job, q.queue = job :: (q.getJob start t).queue ∧
        (q.getJob start t).workers = Function.update q.workers t (.running (start job)) := by
    intro q hq
    unfold ThreadPool.getJob
    rw [if_neg (by simp [hq])]
    split
    · next hnil => exact .inl ⟨hnil, hnil, rfl⟩
    · next job queue hcons => exact .inr ⟨job, hcons, rfl⟩
  unfold ThreadPool.executeThread at hs
  split at hs
  · next hpc =>
    obtain rfl := Option.some.inj hs
    exact ⟨.inl hpc, hget p.release h.open_⟩
  · next hpc =>
    obtain rfl := Option.some.inj hs
    exact ⟨.inr hpc, hget p h.open_⟩
  · cases hs

/-- A worker notifies the client only at the top of its loop. -/
theorem executeThread_waiter {start : Job → J} (hs : p.executeThread start t = some p') :
    (p.workers t = .enter ∧ (p'.waiter = p.waiter ∨ p'.waiter = p.waiter.signal)) ∨
      (p.workers t = .notified ∧ p'.waiter = p.waiter) := by
  have hget : ∀ q : ThreadPool T Job J, (q.getJob start t).waiter = q.waiter := by
    intro q
    unfold ThreadPool.getJob
    split
    · rfl
    · split <;> rfl
  unfold ThreadPool.executeThread at hs
  split at hs
  · next hpc =>
    obtain rfl := Option.some.inj hs
    refine .inl ⟨hpc, ?_⟩
    rw [hget, release]
    by_cases hzero : p.busyThreads - 1 = 0
    · exact .inr (if_pos hzero)
    · exact .inl (if_neg hzero)
  · next hpc =>
    obtain rfl := Option.some.inj hs
    exact .inr ⟨hpc, hget p⟩
  · cases hs

theorem unfinished_iff : p.unfinished = true ↔ 0 < p.busyThreads ∨ p.queue ≠ [] := by
  simp [unfinished]

theorem unfinished_eq_false : p.unfinished = false ↔ p.busyThreads = 0 ∧ p.queue = [] := by
  simp [unfinished]

/-- When all is done no worker is counted as busy. -/
theorem busyWeight_eq_zero (h : PoolInv p) (hdone : p.unfinished = false) :
    busyWeight (p.workers t) = 0 := by
  have hbusy := h.busy
  have htotal := total_update busyWeight p.workers t .asleep
  rw [busyWeight_asleep] at htotal
  rw [unfinished_eq_false] at hdone
  omega

/-- When all is done no worker has a job. -/
theorem not_running (h : PoolInv p) (hdone : p.unfinished = false) (job : J) :
    p.workers t ≠ .running job := by
  intro heq
  have hzero := h.busyWeight_eq_zero hdone (t := t)
  rw [heq, busyWeight_running] at hzero
  cases hzero

/-- Then it stays so, whatever the workers do. -/
theorem unfinished_executeThread {start : Job → J} (h : PoolInv p) (hdone : p.unfinished = false)
    (hs : p.executeThread start t = some p') : p'.unfinished = false := by
  have hzero := h.busyWeight_eq_zero hdone (t := t)
  unfold ThreadPool.executeThread at hs
  split at hs
  · next hpc =>
    rw [hpc, busyWeight_enter] at hzero
    cases hzero
  · obtain rfl := Option.some.inj hs
    unfold ThreadPool.getJob
    rw [if_neg (by simp [h.open_]), (unfinished_eq_false.mp hdone).2]
    exact hdone
  · cases hs

theorem waitAll {returned : Bool} (h : PoolInv p) (hs : p.waitAll = some (p', returned)) :
    PoolInv p' := by
  unfold ThreadPool.waitAll at hs
  split at hs
  · cases hs
  · split at hs
    · next hunfinished =>
      cases hs
      exact ⟨h.open_, h.inside, h.busy, h.supply, fun _ => unfinished_iff.mp hunfinished⟩
    · cases hs
      exact ⟨h.open_, h.inside, h.busy, h.supply, nofun⟩

/-- What a critical section of `WaitAll` does. -/
theorem waitAll_cases {returned : Bool} (hs : p.waitAll = some (p', returned)) :
    p.waiter ≠ .asleep ∧ p'.queue = p.queue ∧ p'.workers = p.workers ∧
      p'.unfinished = p.unfinished ∧ p.unfinished = !returned ∧
      p'.waiter = if returned then .ready else .asleep := by
  unfold ThreadPool.waitAll at hs
  split at hs
  · cases hs
  · next hawake =>
    split at hs
    · next hunfinished =>
      cases hs
      exact ⟨hawake, rfl, rfl, rfl, hunfinished, rfl⟩
    · next hdone =>
      cases hs
      exact ⟨hawake, rfl, rfl, rfl, by simpa using hdone, rfl⟩

theorem exists_busy (h : PoolInv p) (hbusy : 0 < p.busyThreads) : ∃ t, p.workers t ≠ .asleep := by
  rw [h.busy] at hbusy
  obtain ⟨t, -, ht⟩ := Finset.exists_ne_zero_of_sum_ne_zero (Nat.ne_of_gt hbusy)
  exact ⟨t, fun heq => ht (by rw [heq, busyWeight_asleep])⟩

/-- A client that sleeps has a worker to wait for. -/
theorem exists_awake (h : PoolInv p) (hsleep : p.waiter = .asleep) :
    ∃ t, p.workers t ≠ .asleep := by
  rcases h.waiting hsleep with hbusy | hq
  · exact h.exists_busy hbusy
  · exact h.supply hq

end PoolInv

end Snowflake
