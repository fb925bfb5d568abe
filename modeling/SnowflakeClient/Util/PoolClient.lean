import SnowflakeClient.Conc.Machine
import SnowflakeClient.Util.ThreadPool

/-!
# A client of the thread pool

One client thread makes a fixed sequence of calls, `AddJob` and `WaitAll`, on a `ThreadPool`
(`cpp/util/ThreadPool.hpp`) whose workers run the jobs. The jobs are numbered in the order of their
`AddJob`. What they do is given by a `JobCode`: the jobs of all workers share a state, and a job
makes its steps between two critical sections of the pool.

An event fixes who moves and which sleeper a signal wakes; the outputs say which job was added,
taken from the queue and finished, and when `WaitAll` returned.
-/

namespace Snowflake

open Conc ThreadPool

/-- A call of the client. -/
inductive Call (Job : Type) where
  | addJob (job : Job)
  | waitAll
  deriving DecidableEq, Repr

/-- What the jobs do. `step s t j` is the next step of a job of worker `t` that is at `j`: the
shared state and where the job is after it, `none` if it has returned. -/
structure JobCode (T : Nat) (S Job J Out : Type) where
  start : Job → J
  step : S → Fin T → J → Option (S × Option J × List Out)

/-- The client, the pool, and what the jobs share. `calls` are the calls that have not returned
yet, `added` is the number of the next job. -/
structure PoolClient (T : Nat) (S Job J : Type) where
  pool : ThreadPool T (Nat × Job) (Nat × J)
  calls : List (Call Job)
  added : Nat
  shared : S

inductive PoolEvent (T : Nat) where
  /-- `AddJob`; its signal wakes the worker `w`. -/
  | addJob (w : Option (Fin T))
  /-- A critical section of `WaitAll`. -/
  | waitAll
  /-- A critical section of `execute_thread`. -/
  | execute (t : Fin T)
  /-- A step of the job of a worker. -/
  | run (t : Fin T)
  /-- Wake-ups that nobody asked for. -/
  | wakeWorker (t : Fin T)
  | wakeClient
  deriving DecidableEq, Repr

def PoolEvent.spurious {T : Nat} : PoolEvent T → Bool
  | .wakeWorker _ | .wakeClient => true
  | _ => false

inductive PoolOutput (T : Nat) (Out : Type) where
  | added (k : Nat)
  | popped (t : Fin T) (k : Nat)
  | finished (t : Fin T) (k : Nat)
  /-- `WaitAll` returned. -/
  | waited
  /-- What the job `k` shows. -/
  | job (t : Fin T) (k : Nat) (out : Out)
  deriving DecidableEq, Repr

variable {T : Nat} {S Job J Out : Type}

/-- The start of a job: the worker knows its number. -/
def JobCode.enter (code : JobCode T S Job J Out) (job : Nat × Job) : Nat × J :=
  (job.1, code.start job.2)

/-- The worker has just taken a job. -/
def poppedOutput (t : Fin T) : WorkerPc (Nat × J) → List (PoolOutput T Out)
  | .running (k, _) => [.popped t k]
  | _ => []

namespace PoolClient

def start (calls : List (Call Job)) (shared : S) : PoolClient T S Job J where
  pool := .new
  calls
  added := 0
  shared

/-- The job `k` of worker `t` has made a step to `j`, or has returned. -/
def runJob (s : PoolClient T S Job J) (t : Fin T) (k : Nat) (shared : S) (j : Option J)
    (outs : List Out) : PoolClient T S Job J × List (PoolOutput T Out) :=
  match j with
  | some j => ({ s with shared, pool := s.pool.setWorker t (.running (k, j)) },
      outs.map (.job t k))
  | none => ({ s with shared, pool := s.pool.setWorker t .enter },
      outs.map (.job t k) ++ [.finished t k])

def step (code : JobCode T S Job J Out) (s : PoolClient T S Job J) :
    PoolEvent T → Option (PoolClient T S Job J × List (PoolOutput T Out))
  | .addJob w =>
    match s.calls with
    | .addJob job :: calls =>
      (s.pool.addJob (s.added, job) w).map fun pool =>
        ({ s with pool, calls, added := s.added + 1 }, [.added s.added])
    | _ => none
  | .waitAll =>
    match s.calls with
    | .waitAll :: calls =>
      match s.pool.waitAll with
      | none => none
      | some (pool, false) => some ({ s with pool }, [])
      | some (pool, true) => some ({ s with pool, calls }, [.waited])
    | _ => none
  | .execute t =>
    (s.pool.executeThread code.enter t).map fun pool =>
      ({ s with pool }, poppedOutput t (pool.workers t))
  | .run t =>
    match s.pool.workers t with
    | .running (k, j) =>
      (code.step s.shared t j).map fun r => s.runJob t k r.1 r.2.1 r.2.2
    | _ => none
  | .wakeWorker t =>
    match s.pool.workers t with
    | .asleep => some ({ s with pool := s.pool.setWorker t .notified }, [])
    | _ => none
  | .wakeClient =>
    match s.pool.waiter with
    | .asleep => some ({ s with pool := { s.pool with waiter := .notified } }, [])
    | _ => none

end PoolClient

def poolClient (code : JobCode T S Job J Out) :
    Machine (PoolClient T S Job J) (PoolEvent T) (PoolOutput T Out) where
  step := PoolClient.step code

/-! ## What a step can do -/

inductive PoolMove (code : JobCode T S Job J Out) (s : PoolClient T S Job J) :
    PoolEvent T → PoolClient T S Job J → List (PoolOutput T Out) → Prop
  | addJob {w : Option (Fin T)} {job : Job} {calls : List (Call Job)}
      {pool : ThreadPool T (Nat × Job) (Nat × J)} :
      s.calls = .addJob job :: calls → s.pool.addJob (s.added, job) w = some pool →
      PoolMove code s (.addJob w) { s with pool, calls, added := s.added + 1 } [.added s.added]
  | waitSleep {calls : List (Call Job)} {pool : ThreadPool T (Nat × Job) (Nat × J)} :
      s.calls = .waitAll :: calls → s.pool.waitAll = some (pool, false) →
      PoolMove code s .waitAll { s with pool } []
  | waitReturn {calls : List (Call Job)} {pool : ThreadPool T (Nat × Job) (Nat × J)} :
      s.calls = .waitAll :: calls → s.pool.waitAll = some (pool, true) →
      PoolMove code s .waitAll { s with pool, calls } [.waited]
  | execute {t : Fin T} {pool : ThreadPool T (Nat × Job) (Nat × J)} :
      s.pool.executeThread code.enter t = some pool →
      PoolMove code s (.execute t) { s with pool } (poppedOutput t (pool.workers t))
  | run {t : Fin T} {k : Nat} {j : J} {shared : S} {j' : Option J} {outs : List Out} :
      s.pool.workers t = .running (k, j) → code.step s.shared t j = some (shared, j', outs) →
      PoolMove code s (.run t) (s.runJob t k shared j' outs).1 (s.runJob t k shared j' outs).2
  | wakeWorker {t : Fin T} :
      s.pool.workers t = .asleep →
      PoolMove code s (.wakeWorker t) { s with pool := s.pool.setWorker t .notified } []
  | wakeClient :
      s.pool.waiter = .asleep →
      PoolMove code s .wakeClient { s with pool := { s.pool with waiter := .notified } } []

variable {code : JobCode T S Job J Out} {s s' : PoolClient T S Job J} {e : PoolEvent T}
  {o : List (PoolOutput T Out)} {t : Fin T}

theorem pool_move (h : (poolClient code).step s e = some (s', o)) : PoolMove code s e s' o := by
  cases e with
  | addJob w =>
    simp only [poolClient, PoolClient.step] at h
    split at h
    · next job calls hcalls =>
      obtain ⟨pool, hpool, heq⟩ := Option.map_eq_some_iff.mp h
      cases heq
      exact .addJob hcalls hpool
    · cases h
  | waitAll =>
    simp only [poolClient, PoolClient.step] at h
    split at h
    · next calls hcalls =>
      split at h
      · cases h
      · next pool hpool => cases h; exact .waitSleep hcalls hpool
      · next pool hpool => cases h; exact .waitReturn hcalls hpool
    · cases h
  | execute t =>
    simp only [poolClient, PoolClient.step] at h
    obtain ⟨pool, hpool, heq⟩ := Option.map_eq_some_iff.mp h
    cases heq
    exact .execute hpool
  | run t =>
    simp only [poolClient, PoolClient.step] at h
    split at h
    · next k j hpc =>
      obtain ⟨⟨shared, j', outs⟩, hjob, heq⟩ := Option.map_eq_some_iff.mp h
      obtain rfl := congrArg Prod.fst heq
      obtain rfl := congrArg Prod.snd heq
      exact .run hpc hjob
    · cases h
  | wakeWorker t =>
    simp only [poolClient, PoolClient.step] at h
    split at h
    · next hpc => cases h; exact .wakeWorker hpc
    · cases h
  | wakeClient =>
    simp only [poolClient, PoolClient.step] at h
    split at h
    · next hpc => cases h; exact .wakeClient hpc
    · cases h

/-- Every move is a step. -/
theorem PoolMove.step (hm : PoolMove code s e s' o) :
    (poolClient code).step s e = some (s', o) := by
  cases hm with
  | addJob hcalls hpool => simp [poolClient, PoolClient.step, hcalls, hpool]
  | waitSleep hcalls hpool => simp [poolClient, PoolClient.step, hcalls, hpool]
  | waitReturn hcalls hpool => simp [poolClient, PoolClient.step, hcalls, hpool]
  | execute hpool => simp [poolClient, PoolClient.step, hpool]
  | run hpc hjob => simp [poolClient, PoolClient.step, hpc, hjob]
  | wakeWorker hpc => simp [poolClient, PoolClient.step, hpc]
  | wakeClient hpc => simp [poolClient, PoolClient.step, hpc]

end Snowflake
