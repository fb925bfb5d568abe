import SnowflakeClient.Util.PoolJobs

/-!
# A batch of jobs

A client that adds `n` jobs to a thread pool, the `k`-th being `jobOf k`, and waits for all of them.

`JobCode.Keeps` is for jobs that do not get into each other's way: what is true of a job, by the
phase that it is in and by what it has shown, is kept by the steps of the other jobs. Then it is
true in every run (`BatchInv.of_run`), so that all jobs are in their last phase when `WaitAll` has
returned (`BatchInv.returned`); and if no job blocks and each comes to an end, the client gets there
(`JobCode.Keeps.terminates`).
-/

namespace Snowflake

open Conc ThreadPool

variable {T : Nat} {S Job J Out : Type} {code : JobCode T S Job J Out} {jobOf : Nat → Job} {n : Nat}
  {s s' : PoolClient T S Job J} {e : PoolEvent T} {outs o : List (PoolOutput T Out)} {t : Fin T}
  {k : Nat} {j : J}

/-! ## The calls -/

/-- The calls from the job `i` on, when `m` jobs are left. -/
def batchCalls (jobOf : Nat → Job) (i m : Nat) : List (Call Job) :=
  (List.range' i m).map (fun k => .addJob (jobOf k)) ++ [.waitAll]

theorem batchCalls_zero (i : Nat) : batchCalls jobOf i 0 = [.waitAll] := rfl

theorem batchCalls_succ (i m : Nat) :
    batchCalls jobOf i (m + 1) = .addJob (jobOf i) :: batchCalls jobOf (i + 1) m := rfl

/-- The calls that are left, and that all is done after the last one. -/
def BatchCalls (jobOf : Nat → Job) (n : Nat) (s : PoolClient T S Job J) : Prop :=
  (∃ m, s.calls = batchCalls jobOf s.added m ∧ s.added + m = n) ∨
    (s.calls = [] ∧ s.added = n ∧ s.pool.unfinished = false)

theorem BatchCalls.added_le (h : BatchCalls jobOf n s) : s.added ≤ n := by
  rcases h with ⟨m, -, hadded⟩ | ⟨-, hadded, -⟩ <;> omega

/-- The next job. -/
theorem BatchCalls.addJob {job : Job} {calls : List (Call Job)} (h : BatchCalls jobOf n s)
    (hcalls : s.calls = .addJob job :: calls) :
    job = jobOf s.added ∧ s.added < n ∧
      ∃ m, calls = batchCalls jobOf (s.added + 1) m ∧ s.added + 1 + m = n := by
  rcases h with ⟨m, heq, hadded⟩ | ⟨hnil, -⟩
  · rw [hcalls] at heq
    cases m with
    | zero => cases heq
    | succ m =>
      rw [batchCalls_succ] at heq
      cases heq
      exact ⟨rfl, by omega, m, rfl, by omega⟩
  · rw [hnil] at hcalls
    cases hcalls

theorem BatchCalls.waitAll {calls : List (Call Job)} (h : BatchCalls jobOf n s)
    (hcalls : s.calls = .waitAll :: calls) : calls = [] ∧ s.added = n := by
  rcases h with ⟨m, heq, hadded⟩ | ⟨hnil, -⟩
  · rw [hcalls] at heq
    cases m with
    | zero =>
      rw [batchCalls_zero] at heq
      cases heq
      exact ⟨rfl, hadded⟩
    | succ m =>
      rw [batchCalls_succ] at heq
      cases heq
  · rw [hnil] at hcalls
    cases hcalls

theorem PoolMove.batchCalls (hm : PoolMove code s e s' o) (hinv : PoolInv s.pool)
    (h : BatchCalls jobOf n s) : BatchCalls jobOf n s' := by
  cases hm with
  | addJob hcalls hpool =>
    obtain ⟨-, -, m, hrest, hadded⟩ := h.addJob hcalls
    exact .inl ⟨m, hrest, hadded⟩
  | waitSleep hcalls hpool =>
    obtain ⟨hnil, hadded⟩ := h.waitAll hcalls
    rw [hnil] at hcalls
    exact .inl ⟨0, hcalls, hadded⟩
  | waitReturn hcalls hpool =>
    obtain ⟨-, -, -, hsame, hdone, -⟩ := PoolInv.waitAll_cases hpool
    obtain ⟨hnil, hadded⟩ := h.waitAll hcalls
    exact .inr ⟨hnil, hadded, hsame.trans hdone⟩
  | execute hpool =>
    rcases h with hleft | ⟨hnil, hadded, hdone⟩
    · exact .inl hleft
    · exact .inr ⟨hnil, hadded, hinv.unfinished_executeThread hdone hpool⟩
  | @run t k j shared j' os hpc hjob =>
    rcases h with hleft | ⟨-, -, hdone⟩
    · cases j' with
      | none => exact .inl hleft
      | some j' => exact .inl hleft
    · exact absurd hpc (hinv.not_running hdone _)
  | wakeWorker hpc => exact h
  | wakeClient hw => exact h

/-- A job in the queue was there before, or is the one that is added. -/
theorem PoolMove.mem_queue (hm : PoolMove code s e s' o) (hinv : PoolInv s.pool) {q : Nat × Job}
    (hq : q ∈ s'.pool.queue) :
    q ∈ s.pool.queue ∨ ∃ job calls, s.calls = .addJob job :: calls ∧ q = (s.added, job) := by
  cases hm with
  | @addJob w job calls pool hcalls hpool =>
    obtain ⟨workers, -, rfl⟩ := Option.map_eq_some_iff.mp hpool
    rcases List.mem_append.mp hq with hq | hq
    · exact .inl hq
    · exact .inr ⟨job, calls, hcalls, List.mem_singleton.mp hq⟩
  | waitSleep hcalls hpool =>
    obtain ⟨-, hqueue, -⟩ := PoolInv.waitAll_cases hpool
    exact .inl (hqueue ▸ hq)
  | waitReturn hcalls hpool =>
    obtain ⟨-, hqueue, -⟩ := PoolInv.waitAll_cases hpool
    exact .inl (hqueue ▸ hq)
  | @execute t pool hpool =>
    obtain ⟨-, hcase⟩ := hinv.executeThread_cases hpool
    rcases hcase with ⟨-, hnil, -⟩ | ⟨job, hqueue, -⟩
    · have hq : q ∈ pool.queue := hq
      rw [hnil] at hq
      cases hq
    · rw [hqueue]
      exact .inl (List.mem_cons_of_mem _ hq)
  | @run t k j shared j' os hpc hjob =>
    cases j' with
    | none => exact .inl hq
    | some j' => exact .inl hq
  | wakeWorker hpc => exact .inl hq
  | wakeClient hw => exact .inl hq

/-- The pool, the calls, and what each number stands for. -/
structure Batch (jobOf : Nat → Job) (n : Nat) (outs : List (PoolOutput T Out))
    (s : PoolClient T S Job J) : Prop where
  trace : PoolTrace outs s
  calls : BatchCalls jobOf n s
  queue : ∀ q ∈ s.pool.queue, q.2 = jobOf q.1
  outputs : ∀ q ∈ jobOutputs outs, q.1 ∈ poppedJobs outs

namespace Batch

theorem start (jobOf : Nat → Job) (n : Nat) (shared : S) :
    Batch jobOf n ([] : List (PoolOutput T Out))
      (.start (batchCalls jobOf 0 n) shared : PoolClient T S Job J) where
  trace := .start _ _
  calls := .inl ⟨n, rfl, Nat.zero_add n⟩
  queue q hq := by cases hq
  outputs q hq := by cases hq

/-- A worker's job is one that was taken and is not done. -/
theorem taken (h : Batch jobOf n outs s) (hjob : s.jobs t = some (k, j)) :
    k ∈ poppedJobs outs ∧ k ∉ finishedJobs outs :=
  h.trace.jobs.taken t k (PoolClient.jobNumber?_of_jobs hjob)

/-- No two workers have one job. -/
theorem once (h : Batch jobOf n outs s) {u : Fin T} {j' : J} (ht : s.jobs t = some (k, j))
    (hu : s.jobs u = some (k, j')) : t = u :=
  h.trace.jobs.once t u k (PoolClient.jobNumber?_of_jobs ht) (PoolClient.jobNumber?_of_jobs hu)

theorem lt_of_mem (h : Batch jobOf n outs s)
    (hk : k ∈ poppedJobs outs ++ s.pool.queue.map Prod.fst) : k < n := by
  rw [h.trace.queue, List.mem_range] at hk
  exact hk.trans_le h.calls.added_le

/-- The next job in the queue. -/
theorem next (h : Batch jobOf n outs s) {job : Job} {queue : List (Nat × Job)}
    (hq : s.pool.queue = (k, job) :: queue) :
    job = jobOf k ∧ k < n ∧ k ∉ poppedJobs outs := by
  exact ⟨h.queue (k, job) (by simp [hq]), h.lt_of_mem (by simp [hq]), h.trace.next_not_popped hq⟩

/-- When `WaitAll` has returned, all jobs are done. -/
theorem returned (h : Batch jobOf n outs s) (hcalls : s.calls = []) (hk : k < n) :
    k ∈ finishedJobs outs := by
  rcases h.calls with ⟨m, hleft, -⟩ | ⟨-, hadded, hdone⟩
  · rw [hcalls] at hleft
    simp [batchCalls] at hleft
  · apply h.trace.all_finished hdone
    rw [h.trace.added, hadded, List.mem_range]
    exact hk

end Batch

theorem PoolMove.batch (hT : 0 < T) (hm : PoolMove code s e s' o) (h : Batch jobOf n outs s) :
    Batch jobOf n (outs ++ o) s' := by
  refine ⟨hm.trace hT h.trace, hm.batchCalls h.trace.pool h.calls, fun q hq => ?_, fun q hq => ?_⟩
  · rcases hm.mem_queue h.trace.pool hq with hold | ⟨job, calls, hcalls, rfl⟩
    · exact h.queue q hold
    · exact (h.calls.addJob hcalls).1
  · rw [jobOutputs_append, List.mem_append] at hq
    rw [poppedJobs_append]
    refine List.mem_append_left _ ?_
    rcases hq with hold | hnew
    · exact h.outputs q hold
    · cases hm.jobsStep h.trace.pool with
      | idle _ _ _ _ hlog =>
        rw [hlog] at hnew
        cases hnew
      | pop _ _ _ _ _ _ hlog =>
        rw [hlog] at hnew
        cases hnew
      | run hjob _ _ _ _ hlog =>
        rw [hlog] at hnew
        obtain ⟨out, -, rfl⟩ := List.mem_map.mp hnew
        exact (h.taken hjob).1

/-! ## Jobs that keep to themselves -/

inductive JobPhase (J : Type) where
  /-- No worker has taken it yet. -/
  | waiting
  | running (j : J)
  | finished

/-- The phase after a step. -/
def JobPhase.after : Option J → JobPhase J
  | some j => running j
  | none => finished

/-- The job `k` is in a phase. -/
inductive InPhase (outs : List (PoolOutput T Out)) (s : PoolClient T S Job J) (k : Nat) :
    JobPhase J → Prop
  | waiting : k ∉ poppedJobs outs → InPhase outs s k .waiting
  | running {t : Fin T} {j : J} : s.jobs t = some (k, j) → InPhase outs s k (.running j)
  | finished : k ∈ finishedJobs outs → InPhase outs s k .finished

/-- What the job `k` has shown. -/
def outputsOf (k : Nat) (outs : List (PoolOutput T Out)) : List Out :=
  (jobOutputs outs).filterMap fun q => if q.1 = k then some q.2 else none

/-- `G` is true of the shared state, and `P k` of the job `k`, what it has shown, its phase and the
shared state; its steps keep both, and keep `P` of the other jobs. -/
structure JobCode.Keeps (code : JobCode T S Job J Out) (jobOf : Nat → Job) (n : Nat) (G : S → Prop)
    (P : Nat → List Out → JobPhase J → S → Prop) : Prop where
  starts : ∀ k < n, ∀ log s, P k log .waiting s → P k log (.running (code.start (jobOf k))) s
  step : ∀ k < n, ∀ log s t j s' j' os, G s → P k log (.running j) s →
    code.step s t j = some (s', j', os) → G s' ∧ P k (log ++ os) (.after j') s'
  frame : ∀ k < n, ∀ log s t j s' j' os, G s → P k log (.running j) s →
    code.step s t j = some (s', j', os) →
    ∀ l < n, l ≠ k → ∀ log' phase, P l log' phase s → P l log' phase s'

structure BatchInv (jobOf : Nat → Job) (n : Nat) (G : S → Prop)
    (P : Nat → List Out → JobPhase J → S → Prop) (outs : List (PoolOutput T Out))
    (s : PoolClient T S Job J) : Prop where
  batch : Batch jobOf n outs s
  shared : G s.shared
  jobs : ∀ k < n, ∀ phase, InPhase outs s k phase → P k (outputsOf k outs) phase s.shared

section Keeps

variable {G : S → Prop} {P : Nat → List Out → JobPhase J → S → Prop} {weight : J → Nat}

theorem outputsOf_append (k : Nat) :
    outputsOf k (outs ++ o) = outputsOf k outs ++ outputsOf k o := by
  rw [outputsOf, jobOutputs_append, List.filterMap_append]
  rfl

theorem outputsOf_of_nil (h : jobOutputs o = []) (k : Nat) : outputsOf k o = [] := by
  rw [outputsOf, h]
  rfl

theorem outputsOf_self {os : List Out} (h : jobOutputs o = os.map (Prod.mk k)) :
    outputsOf k o = os := by
  rw [outputsOf, h, List.filterMap_map]
  simp

theorem outputsOf_of_ne {os : List Out} (h : jobOutputs o = os.map (Prod.mk k)) {l : Nat}
    (hl : l ≠ k) : outputsOf l o = [] := by
  rw [outputsOf, h, List.filterMap_map]
  simp [hl.symm]

theorem BatchInv.start {shared : S} (hG : G shared) (hP : ∀ k < n, P k [] .waiting shared) :
    BatchInv jobOf n G P ([] : List (PoolOutput T Out))
      (.start (batchCalls jobOf 0 n) shared : PoolClient T S Job J) where
  batch := .start jobOf n shared
  shared := hG
  jobs k hk phase hphase := by
    cases hphase with
    | waiting _ => exact hP k hk
    | running hjob => cases hjob
    | finished hmem => cases hmem

theorem InPhase.of_idle (hjobs : s'.jobs = s.jobs) (hpopped : poppedJobs o = [])
    (hfinished : finishedJobs o = []) {phase : JobPhase J} (h : InPhase (outs ++ o) s' k phase) :
    InPhase outs s k phase := by
  cases h with
  | waiting hnew =>
    rw [poppedJobs_append, hpopped, List.append_nil] at hnew
    exact .waiting hnew
  | running hjob => exact .running (hjobs ▸ hjob)
  | finished hmem =>
    rw [finishedJobs_append, hfinished, List.append_nil] at hmem
    exact .finished hmem

/-- The worker `t` has taken the job `k`: it runs, and the others are where they were. -/
theorem InPhase.of_pop (hb : Batch jobOf n outs s) (hk : k ∉ poppedJobs outs)
    (hjobs : s'.jobs = Function.update s.jobs t (some (k, j))) (hpopped : poppedJobs o = [k])
    (hfinished : finishedJobs o = []) {l : Nat} {phase : JobPhase J}
    (h : InPhase (outs ++ o) s' l phase) :
    (l = k ∧ phase = .running j) ∨ (l ≠ k ∧ InPhase outs s l phase) := by
  cases h with
  | waiting hnew =>
    rw [poppedJobs_append, hpopped, List.mem_append, List.mem_singleton, not_or] at hnew
    exact .inr ⟨hnew.2, .waiting hnew.1⟩
  | @running u j' hjob =>
    rw [hjobs] at hjob
    by_cases hut : u = t
    · rw [hut, Function.update_self] at hjob
      cases hjob
      exact .inl ⟨rfl, rfl⟩
    · rw [Function.update_of_ne hut] at hjob
      refine .inr ⟨?_, .running hjob⟩
      rintro rfl
      exact hk (hb.taken hjob).1
  | finished hmem =>
    rw [finishedJobs_append, hfinished, List.append_nil] at hmem
    refine .inr ⟨?_, .finished hmem⟩
    rintro rfl
    exact hk (hb.trace.jobs.finished_sub hmem)

/-- The job `k` has made a step. -/
theorem InPhase.of_run (hb : Batch jobOf n outs s) (ht : s.jobs t = some (k, j)) {j' : Option J}
    (hjobs : s'.jobs = Function.update s.jobs t (j'.map (Prod.mk k))) (hpopped : poppedJobs o = [])
    (hfinished : finishedJobs o = if j'.isSome then [] else [k]) {l : Nat} {phase : JobPhase J}
    (h : InPhase (outs ++ o) s' l phase) :
    (l = k ∧ phase = .after j') ∨ (l ≠ k ∧ InPhase outs s l phase) := by
  obtain ⟨hpop, hfin⟩ := hb.taken ht
  cases h with
  | waiting hnew =>
    rw [poppedJobs_append, hpopped, List.append_nil] at hnew
    refine .inr ⟨?_, .waiting hnew⟩
    rintro rfl
    exact hnew hpop
  | @running u j₁ hjob =>
    rw [hjobs] at hjob
    by_cases hut : u = t
    · rw [hut, Function.update_self] at hjob
      obtain ⟨j₂, rfl, heq⟩ := Option.map_eq_some_iff.mp hjob
      cases heq
      exact .inl ⟨rfl, rfl⟩
    · rw [Function.update_of_ne hut] at hjob
      refine .inr ⟨?_, .running hjob⟩
      rintro rfl
      exact hut (hb.once hjob ht)
  | finished hmem =>
    rw [finishedJobs_append, hfinished, List.mem_append] at hmem
    rcases hmem with hold | hnew
    · refine .inr ⟨?_, .finished hold⟩
      rintro rfl
      exact hfin hold
    · cases j' with
      | none => exact .inl ⟨List.mem_singleton.mp hnew, rfl⟩
      | some j' => cases hnew

theorem PoolMove.batchInv (hT : 0 < T) (hc : code.Keeps jobOf n G P)
    (hm : PoolMove code s e s' o) (h : BatchInv jobOf n G P outs s) :
    BatchInv jobOf n G P (outs ++ o) s' := by
  have hbatch := hm.batch hT h.batch
  cases hm.jobsStep h.batch.trace.pool with
  | idle hjobs hshared hpopped hfinished hlog =>
    refine ⟨hbatch, hshared ▸ h.shared, fun l hl phase hphase => ?_⟩
    rw [outputsOf_append, outputsOf_of_nil hlog, List.append_nil, hshared]
    exact h.jobs l hl phase (hphase.of_idle hjobs hpopped hfinished)
  | @pop t k job queue hqueue _ hjobs hshared hpopped hfinished hlog =>
    obtain ⟨rfl, hk, hnew⟩ := h.batch.next hqueue
    refine ⟨hbatch, hshared ▸ h.shared, fun l hl phase hphase => ?_⟩
    rw [outputsOf_append, outputsOf_of_nil hlog, List.append_nil, hshared]
    rcases hphase.of_pop h.batch hnew hjobs hpopped hfinished with ⟨rfl, rfl⟩ | ⟨-, hold⟩
    · exact hc.starts l hl _ _ (h.jobs l hl .waiting (.waiting hnew))
    · exact h.jobs l hl phase hold
  | @run t k j j' os ht hstep hjobs hpopped hfinished hlog =>
    have hk : k < n := h.batch.lt_of_mem (List.mem_append_left _ (h.batch.taken ht).1)
    have hjob := h.jobs k hk (.running j) (.running ht)
    obtain ⟨hG, hP⟩ := hc.step k hk _ _ t j _ j' os h.shared hjob hstep
    refine ⟨hbatch, hG, fun l hl phase hphase => ?_⟩
    rw [outputsOf_append]
    rcases hphase.of_run h.batch ht hjobs hpopped hfinished with ⟨rfl, rfl⟩ | ⟨hne, hold⟩
    · rw [outputsOf_self hlog]
      exact hP
    · rw [outputsOf_of_ne hlog hne, List.append_nil]
      exact hc.frame k hk _ _ t j _ j' os h.shared hjob hstep l hl hne _ _ (h.jobs l hl phase hold)

/-- In every run. -/
theorem BatchInv.of_run (hT : 0 < T) (hc : code.Keeps jobOf n G P) {shared : S} (hG : G shared)
    (hP : ∀ k < n, P k [] .waiting shared)
    (h : (poolClient code).Run Machine.Any (.start (Snowflake.batchCalls jobOf 0 n) shared) outs
      s) :
    BatchInv jobOf n G P outs s :=
  h.inv (I := fun outs s => BatchInv jobOf n G P outs s) (.start hG hP)
    fun _ _ _ _ _ hs _ hstep => (pool_move hstep).batchInv hT hc hs

/-- When `WaitAll` has returned. -/
theorem BatchInv.returned (h : BatchInv jobOf n G P outs s) (hcalls : s.calls = []) (hk : k < n) :
    P k (outputsOf k outs) .finished s.shared :=
  h.jobs k hk .finished (.finished (h.batch.returned hcalls hk))

/-- Jobs that do not block and come to an end. -/
theorem JobCode.Keeps.terminates (hT : 0 < T) (hc : code.Keeps jobOf n G P)
    (hruns : ∀ k < n, ∀ log s t j, G s → P k log (.running j) s →
      ∃ shared j' outs, code.step s t j = some (shared, j', outs))
    (hlighter : ∀ s t j shared j' outs, code.step s t j = some (shared, some j', outs) →
      weight j' < weight j) :
    code.Terminates (fun s => ∃ outs, BatchInv jobOf n G P outs s) weight where
  pool s h := h.choose_spec.batch.trace.pool
  step s e s' o h hm := by
    obtain ⟨outs, h⟩ := h
    exact ⟨outs ++ o, hm.batchInv hT hc h⟩
  runs s t k j h hpc := by
    obtain ⟨outs, h⟩ := h
    have ht : s.jobs t = some (k, j) := congrArg WorkerPc.job? hpc
    have hk : k < n := h.batch.lt_of_mem (List.mem_append_left _ (h.batch.taken ht).1)
    exact hruns k hk _ _ t j h.shared (h.jobs k hk (.running j) (.running ht))
  lighter := hlighter

end Keeps

end Snowflake
