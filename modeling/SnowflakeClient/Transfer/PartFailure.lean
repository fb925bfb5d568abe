import SnowflakeClient.Transfer.Progress

/-!
# A part that fails

The job of a part whose request failed ends without `WritePartToOutputStream`, so
`m_currentPartIndex` stays at that part. A later part that arrives waits for it forever, and
`doMultiPartDownload` in `WaitAll` for the later part.

* `never_hangs_iff`: the download never hangs, and returns the outcome of the first part that
  failed, iff no part arrives after one that failed.
-/

namespace Snowflake

open Conc ThreadPool

variable {T n : Nat} {answers : Nat → Answer} {s s' : Download T}

def JobPc.isAsleep : JobPc → Bool
  | .asleep _ => true
  | _ => false

/-- The client waits in `WaitAll`, there are workers with unfinished jobs, and all of these sleep in
`WritePartToOutputStream` un-notified. -/
def Hung (s : Download T) : Prop :=
  s.pool.waiter ≠ .ready ∧ s.result = none ∧ (∃ t, (s.jobs t).isSome = true) ∧
    ∀ t, ∀ pc ∈ s.jobs t, pc.isAsleep = true

instance (s : Download T) : Decidable (Hung s) :=
  inferInstanceAs (Decidable (_ ∧ _ ∧ _ ∧ _))

/-- No run hangs, and from every state of a run every schedule leads to the return of the outcome
of the first part that failed. -/
structure NeverHangs (answers : Nat → Answer) (n T : Nat) : Prop where
  notHung : ∀ outs (s : Download T), (download answers n T).Run Machine.Any .start outs s → ¬ Hung s
  returns : ∀ outs (s : Download T), (download answers n T).Run Machine.Any .start outs s →
    (download answers n T).Inevitable Scheduled
      (fun s => s.result = some (some (firstFailure ((List.range n).map fun k =>
        (answers k).outcome)))) s

theorem isAsleep_iff {pc : JobPc} : pc.isAsleep = true ↔ ∃ k, pc = .asleep k := by
  cases pc <;> simp [JobPc.isAsleep]

theorem DownloadInv.not_hung {popped : Nat} (h : DownloadInv answers n popped s)
    (htidy : Tidy answers n) : ¬ Hung s := by
  rintro ⟨-, -, ⟨t, ht⟩, hall⟩
  obtain ⟨pc, hpc⟩ := Option.isSome_iff_exists.mp ht
  obtain ⟨k, rfl⟩ := isAsleep_iff.mp (hall t pc hpc)
  obtain ⟨u, q, hu, hawake⟩ := h.exists_next htidy (workers_eq hpc)
  obtain ⟨k', hk'⟩ := isAsleep_iff.mp (hall u q (jobs_eq hu))
  exact hawake k' hk'

/-! ## How a later part hangs

The client adds all jobs. Then one worker takes them in order, while the others have not even
started. -/

/-- All `added` jobs but the first `k` are in the queue, the part `current` is next, and the workers
are at `workers`. -/
structure Alone (added k current : Nat) (workers : Fin T → WorkerPc JobPc) (s : Download T) :
    Prop where
  added_eq : s.added = added
  result : s.result = none
  waiter : s.pool.waiter = .ready
  open_ : s.pool.finished = false
  busy : s.pool.busyThreads = T
  workers_eq : s.pool.workers = workers
  queue : s.pool.queue = List.range' k (added - k)
  current_eq : s.currentPartIndex = current

/-- Some run leads from `s` to a state with `P`. -/
def Leads (answers : Nat → Answer) (n : Nat) (s : Download T) (P : Download T → Prop) : Prop :=
  ∃ outs s', (download answers n T).Run Machine.Any s outs s' ∧ P s'

theorem Leads.trans {P Q : Download T → Prop} (h : Leads answers n s P)
    (hq : ∀ s', P s' → Leads answers n s' Q) : Leads answers n s Q := by
  obtain ⟨outs, s', hrun, hp⟩ := h
  obtain ⟨outs', s'', hrun', hq⟩ := hq s' hp
  exact ⟨outs ++ outs', s'', hrun.trans hrun', hq⟩

theorem DownloadMove.leads {e : DownloadEvent T} {o : List (DownloadOutput T)}
    {P : Download T → Prop} (hm : DownloadMove answers n s e s' o) (hp : P s') :
    Leads answers n s P :=
  ⟨o, s', .single trivial hm.step, hp⟩

/-- No worker has entered its loop yet. -/
def entering (T : Nat) : Fin T → WorkerPc JobPc := fun _ => .enter

/-- Only the first worker has a job. -/
def oneRuns (hT : 0 < T) (pc : JobPc) : Fin T → WorkerPc JobPc :=
  Function.update (entering T) ⟨0, hT⟩ (.running pc)

theorem oneRuns_self (hT : 0 < T) (pc : JobPc) : oneRuns hT pc ⟨0, hT⟩ = .running pc :=
  Function.update_self ..

theorem update_oneRuns (hT : 0 < T) (pc : JobPc) (wpc : WorkerPc JobPc) :
    Function.update (oneRuns hT pc) ⟨0, hT⟩ wpc = Function.update (entering T) ⟨0, hT⟩ wpc :=
  Function.update_idem ..

theorem update_entering (hT : 0 < T) : Function.update (entering T) ⟨0, hT⟩ .enter = entering T :=
  Function.update_eq_self (⟨0, hT⟩ : Fin T) (entering T)

namespace Alone

variable {added k current : Nat} (hT : 0 < T)

theorem start : Alone 0 0 0 (entering T) .start :=
  ⟨rfl, rfl, rfl, rfl, rfl, rfl, rfl, rfl⟩

theorem add (h : Alone added 0 0 (entering T) s) (hlt : added < n) :
    Leads answers n s (Alone (added + 1) 0 0 (entering T)) := by
  have hsignal : (jobAvailableVar JobPc).signal s.pool.workers none = some s.pool.workers := by
    have hawake : ∀ t, (jobAvailableVar JobPc).asleep (entering T t) = false := fun _ => rfl
    rw [h.workers_eq, CondVar.signal, if_pos hawake]
  have hpool : s.pool.addJob s.added none =
      some { s.pool with queue := s.pool.queue ++ [s.added] } := by
    rw [ThreadPool.addJob, hsignal, Option.map_some]
  refine (DownloadMove.addJob (h.added_eq ▸ hlt) hpool).leads ?_
  refine ⟨congrArg (· + 1) h.added_eq, h.result, h.waiter, h.open_, h.busy, h.workers_eq, ?_,
    h.current_eq⟩
  show s.pool.queue ++ [s.added] = List.range' 0 (added + 1 - 0)
  rw [h.queue, h.added_eq, Nat.sub_zero, Nat.sub_zero, List.range'_concat, Nat.one_mul,
    Nat.zero_add]

theorem addAll (hle : added ≤ n) :
    Leads answers n (.start : Download T) (Alone added 0 0 (entering T)) := by
  induction added with
  | zero => exact ⟨[], _, .nil, .start⟩
  | succ added ih => exact (ih (by omega)).trans fun _ h => h.add (by omega)

include hT

theorem take (h : Alone added k current (entering T) s) (hlt : k < added) :
    Leads answers n s (Alone added (k + 1) current (oneRuns hT (.start k))) := by
  obtain ⟨m, hm⟩ : ∃ m, added - k = m + 1 := ⟨added - k - 1, by omega⟩
  have hm' : added - (k + 1) = m := by omega
  have hqueue : s.pool.release.queue = k :: List.range' (k + 1) m := by
    show s.pool.queue = _
    rw [h.queue, hm, List.range'_succ]
  have hpool : s.pool.executeThread .start ⟨0, hT⟩ =
      some (s.pool.release.getJob .start ⟨0, hT⟩) := by
    rw [ThreadPool.executeThread, h.workers_eq]
    rfl
  have hopen : ¬ s.pool.release.finished = true := by
    show ¬ s.pool.finished = true
    rw [h.open_]
    exact Bool.false_ne_true
  have hbusy : s.pool.release.busyThreads + 1 = T := by
    show s.pool.busyThreads - 1 + 1 = T
    rw [h.busy]
    omega
  have hwaiter : s.pool.release.waiter = .ready := by
    show (if s.pool.busyThreads - 1 = 0 then s.pool.waiter.signal else s.pool.waiter) = .ready
    rw [h.waiter]
    split <;> rfl
  rw [ThreadPool.getJob, if_neg hopen, hqueue] at hpool
  refine (DownloadMove.execute hpool).leads ?_
  refine ⟨h.added_eq, h.result, hwaiter, h.open_, hbusy, ?_, ?_, h.current_eq⟩
  · show Function.update s.pool.workers _ _ = _
    rw [h.workers_eq]
    rfl
  · rw [hm']
    rfl

omit hT in
theorem setWorker {workers workers' : Fin T → WorkerPc JobPc} {t : Fin T} {wpc : WorkerPc JobPc}
    {buffers : Fin T → List UInt8} {outcomes : Nat → Option RemoteStorageRequestOutcome}
    (h : Alone added k current workers s) (hworkers : Function.update workers t wpc = workers') :
    Alone added k current workers' { s.setWorker t wpc with buffers, outcomes } := by
  refine ⟨h.added_eq, h.result, h.waiter, h.open_, h.busy, ?_, h.queue, h.current_eq⟩
  rw [← hworkers, ← h.workers_eq]
  rfl

theorem workers_zero {pc : JobPc} (h : Alone added k current (oneRuns hT pc) s) :
    s.pool.workers ⟨0, hT⟩ = .running pc := by
  rw [h.workers_eq, oneRuns_self]

/-- The part arrives. -/
theorem arrive {part : Nat} (h : Alone added k current (oneRuns hT (.start part)) s)
    (hs : (answers part).succeeded = true) :
    Leads answers n s (Alone added k current (oneRuns hT (.filled part))) := by
  refine (DownloadMove.getObject h.workers_zero).leads ?_
  rw [Download.getObject, if_pos hs]
  exact h.setWorker (update_oneRuns hT ..)

/-- The request fails, and the job ends. -/
theorem fail {part : Nat} (h : Alone added k current (oneRuns hT (.start part)) s)
    (hs : (answers part).succeeded = false) :
    Leads answers n s (Alone added k current (entering T)) := by
  refine (DownloadMove.getObject h.workers_zero).leads ?_
  rw [Download.getObject, if_neg (by rw [hs]; nofun)]
  exact h.setWorker ((update_oneRuns hT ..).trans (update_entering hT))

/-- The next part is written, and the job ends. -/
theorem write (h : Alone added k current (oneRuns hT (.filled current)) s) :
    Leads answers n s (Alone added k (current + 1) (entering T)) := by
  refine (DownloadMove.write h.workers_zero rfl (Nat.le_of_eq h.current_eq.symm)).leads ?_
  refine ⟨h.added_eq, h.result, h.waiter, h.open_, h.busy, ?_, h.queue,
    congrArg (· + 1) h.current_eq⟩
  show streamCv.broadcast (Function.update s.pool.workers ⟨0, hT⟩ .enter) = entering T
  rw [h.workers_eq, update_oneRuns, update_entering]
  rfl

/-- The client and a part that is not the next one go to sleep. -/
theorem hang {part : Nat} (h : Alone n k current (oneRuns hT (.filled part)) s)
    (hlt : current < part) : Leads answers n s Hung := by
  have hsleep : Leads answers n s (Alone n k current (oneRuns hT (.asleep part))) := by
    refine (DownloadMove.writeSleep h.workers_zero rfl ?_).leads
      (h.setWorker (update_oneRuns hT ..))
    rw [h.current_eq]
    exact hlt
  refine hsleep.trans fun s h => ?_
  have hpool : s.pool.waitAll = some ({ s.pool with waiter := .asleep }, false) := by
    have hunfinished : s.pool.unfinished = true := by
      rw [PoolInv.unfinished_iff, h.busy]
      exact .inl hT
    rw [ThreadPool.waitAll, if_neg (by rw [h.waiter]; decide), if_pos hunfinished]
  have hjobs : ∀ t, ({ s with pool := { s.pool with waiter := .asleep } } : Download T).jobs t =
      (oneRuns hT (.asleep part) t).job? := fun t => by
    rw [← h.workers_eq]
    rfl
  have hwaiter : WaitPc.asleep ≠ .ready := by decide
  refine (DownloadMove.waitSleep h.added_eq h.result hpool).leads ⟨hwaiter, h.result,
    ⟨⟨0, hT⟩, ?_⟩, fun t pc hpc => ?_⟩
  · rw [hjobs, oneRuns_self]
    rfl
  · rw [hjobs, oneRuns] at hpc
    by_cases ht : t = ⟨0, hT⟩
    · rw [ht, Function.update_self] at hpc
      cases hpc
      rfl
    · rw [Function.update_of_ne ht] at hpc
      cases hpc

/-- The parts before `k` are handled: those before `f` arrive, the others fail. -/
theorem handle {f : Nat} (hle : k ≤ n) (hok : ∀ i < f, (answers i).succeeded = true)
    (hfail : ∀ i < k, f ≤ i → (answers i).succeeded = false) :
    Leads answers n (.start : Download T) (Alone n k (min k f) (entering T)) := by
  induction k with
  | zero =>
    rw [Nat.zero_min]
    exact addAll (Nat.le_refl n)
  | succ k ih =>
    refine (ih (by omega) fun i hi => hfail i (by omega)).trans fun s h => ?_
    refine (h.take hT (by omega)).trans fun s h => ?_
    by_cases hkf : k < f
    · rw [Nat.min_eq_left (by omega)] at h ⊢
      exact (h.arrive hT (hok k hkf)).trans fun s h => h.write hT
    · rw [Nat.min_eq_right (by omega)] at h ⊢
      exact h.fail hT (hfail k (by omega) (by omega))

end Alone

/-- A part that arrives after one that failed makes some run hang. -/
theorem leads_hung (hT : 0 < T) {f g : Nat} (hfg : f < g) (hg : g < n)
    (hf : (answers f).succeeded = false) (hs : (answers g).succeeded = true) :
    Leads answers n (.start : Download T) Hung := by
  -- `f` is the first part that fails, `g` the first one after it that arrives.
  classical
  have hf₀ : ∃ i, (answers i).succeeded = false := ⟨f, hf⟩
  have hle : Nat.find hf₀ ≤ f := Nat.find_le hf
  have hg₀ : ∃ i, Nat.find hf₀ < i ∧ (answers i).succeeded = true := ⟨g, by omega, hs⟩
  have hgle : Nat.find hg₀ ≤ g := Nat.find_min' hg₀ ⟨by omega, hs⟩
  obtain ⟨hlt, harrives⟩ := Nat.find_spec hg₀
  have hok : ∀ i < Nat.find hf₀, (answers i).succeeded = true := fun i hi => by
    simpa using Nat.find_min hf₀ hi
  have hfail : ∀ i < Nat.find hg₀, Nat.find hf₀ ≤ i → (answers i).succeeded = false := by
    intro i hi hfi
    rcases Nat.eq_or_lt_of_le hfi with heq | hlt
    · rw [← heq]
      exact Nat.find_spec hf₀
    · have hmin := Nat.find_min hg₀ hi
      simpa [hlt] using hmin
  refine (Alone.handle hT (by omega) hok hfail).trans fun s h => ?_
  rw [Nat.min_eq_right (Nat.le_of_lt hlt)] at h
  refine (h.take hT (by omega)).trans fun s h => ?_
  exact (h.arrive hT harrives).trans fun s h => h.hang hT hlt

/-- A download never hangs, and returns the outcome of the first part that failed, iff no part
arrives after one that failed. -/
theorem never_hangs_iff (hT : 0 < T) : NeverHangs answers n T ↔ Tidy answers n := by
  constructor
  · intro h f g hfg hg hs
    by_contra hf
    have hf : (answers f).succeeded = false := by simpa using hf
    obtain ⟨outs, s, hrun, hhung⟩ := leads_hung hT hfg hg hf hs
    exact h.notHung outs s hrun hhung
  · intro htidy
    refine ⟨fun outs s hrun => ?_, fun outs s hrun => ?_⟩
    · obtain ⟨popped, hinv⟩ := downloadInv_of_run hT hrun
      exact hinv.not_hung htidy
    · obtain ⟨popped, hinv⟩ := downloadInv_of_run hT hrun
      refine hinv.inevitable hT htidy fun popped s hs hne => ?_
      obtain ⟨r, hr⟩ := Option.ne_none_iff_exists'.mp hne
      rw [hr, (hs.result r hr).2.2]

/-- Part 0 is refused, every other part arrives. -/
def firstRefused : Nat → Answer
  | 0 => ⟨[], .error ⟨"AccessDenied"⟩⟩
  | _ => ⟨[7], .ok ()⟩

/-- Part 1 is refused, every other part arrives. -/
def secondRefused : Nat → Answer
  | 1 => ⟨[], .error ⟨"AccessDenied"⟩⟩
  | _ => ⟨[7], .ok ()⟩

/-- The last of two parts fails. -/
theorem never_hangs_iff_lastFails : NeverHangs secondRefused 2 3 := by
  refine (never_hangs_iff (by decide)).mpr fun f g hfg hg hs => ?_
  obtain rfl : f = 0 := by omega
  rfl

/-- The first of two parts fails: with one thread, nothing can happen any more. -/
theorem download_hangs :
    ∃ outs s, (download firstRefused 2 1).Run Machine.Any .start outs s ∧ Hung s ∧
      ∀ e s' o, Scheduled s e → (download firstRefused 2 1).step s e ≠ some (s', o) := by
  obtain ⟨outs, s, hrun, hs⟩ :=
    Machine.exec_exists (M := download firstRefused 2 1) (s := .start) (c := fun _ _ => true)
      (p := fun r => decide (Hung r.1 ∧ r.1.added = 2 ∧ r.1.pool.waiter = .asleep ∧
        ∀ t, r.1.pool.workers t = .running (.asleep 1)))
      [.addJob none, .addJob none, .waitAll, .execute 0, .getObject 0, .execute 0, .getObject 0,
        .writePart 0, .waitAll]
      (by decide +kernel)
  obtain ⟨hhung, hadded, hwaiter, hworkers⟩ : Hung s ∧ s.added = 2 ∧ s.pool.waiter = .asleep ∧
      ∀ t, s.pool.workers t = .running (.asleep 1) := of_decide_eq_true hs
  refine ⟨outs, s, hrun.mono fun _ _ _ => trivial, hhung, fun e s' o he hstep => ?_⟩
  cases download_move hstep with
  | addJob hlt hpool => omega
  | waitSleep hadded hnone hpool | waitReturn hadded hnone hpool =>
    exact (PoolInv.waitAll_cases hpool).1 hwaiter
  | @execute t pool hpool =>
    have hpc := hworkers t
    rcases PoolInv.executeThread_waiter hpool with ⟨hpc', -⟩ | ⟨hpc', -⟩ <;>
      rw [hpc] at hpc' <;> cases hpc'
  | @getObject t part hpc =>
    rw [hworkers t] at hpc
    cases hpc
  | @writeSleep t pc hpc hwrites hlt | @write t pc hpc hwrites hle =>
    rw [hworkers t] at hpc
    cases hpc
    cases hwrites
  | wakeWorker ht | wakeWriter ht | wakeClient hw => cases he

end Snowflake
