import SnowflakeClient.Transfer.LargeFiles

/-!
# The transfer of the small files

A job of a small file writes its own row only, so the jobs keep to themselves
(`transferCode_keeps`); the client writes the metadata before it adds a job. Both together are
`ParallelInv`.
-/

namespace Snowflake
namespace ParallelTransfer

open Conc CInt

section Parallel

variable {T : Nat} {env : AgentEnv} {answers : Answers} {large total n : Nat}
  {base : List (Option RemoteStorageRequestOutcome)}

/-- The first attempts for the small file `k`. -/
def firstAttempts (answers : Answers) (file count : Nat) : List Attempt :=
  (List.range count).map fun attempt => ⟨file, answers file attempt⟩

theorem firstAttempts_succ (answers : Answers) (file count : Nat) :
    firstAttempts answers file (count + 1) =
      firstAttempts answers file count ++ [⟨file, answers file count⟩] := by
  rw [firstAttempts, List.range_succ, List.map_append]
  rfl

/-- The rows of the large files are as they were. -/
structure LargeRows (large total : Nat) (base : List (Option RemoteStorageRequestOutcome))
    (s : TransferShared) : Prop where
  length : s.outcomes.length = total
  rows : ∀ row < large, s.outcomes[row]? = base[row]?

/-- What is true of the job of the small file `k` (module doc), by its phase. -/
def JobAttempts (answers : Answers) (large k : Nat) (log : List Attempt) :
    JobPhase TransferPc → TransferShared → Prop
  | .waiting, _ => log = []
  | .running (.transfer job attempt), _ =>
    job = smallJob large k ∧ log = firstAttempts answers (large + k) attempt ∧
      Expired answers (large + k) attempt
  | .running (.renew job attempt), _ =>
    job = smallJob large k ∧ log = firstAttempts answers (large + k) (attempt + 1) ∧
      Expired answers (large + k) (attempt + 1)
  | .finished, s => ∃ last, log = firstAttempts answers (large + k) (last + 1) ∧
      s.outcomes[large + k]? = some (some (answers (large + k) last)) ∧
      Expired answers (large + k) last ∧ answers (large + k) last ≠ .tokenExpired

/-- What is true of a job depends on its own row only. -/
theorem JobAttempts.congr {k : Nat} {log : List Attempt} {phase : JobPhase TransferPc}
    {s s' : TransferShared} (h : JobAttempts answers large k log phase s)
    (hrow : s'.outcomes[large + k]? = s.outcomes[large + k]?) :
    JobAttempts answers large k log phase s' := by
  cases phase with
  | waiting => exact h
  | running pc => cases pc <;> exact h
  | finished =>
    obtain ⟨last, hlog, hlast, hfinal⟩ := h
    exact ⟨last, hlog, hrow.trans hlast, hfinal⟩

/-- A step of a job: an attempt, or the renewal of the token. -/
inductive JobStep (env : AgentEnv) (answers : Answers) (s : TransferShared) :
    TransferPc → TransferShared → Option TransferPc → List Attempt → Prop
  | expired {job : TransferJob} {attempt : Nat} :
      job.resultIndex < s.outcomes.length → answers job.file attempt = .tokenExpired →
      JobStep env answers s (.transfer job attempt)
        { s with outcomes := s.outcomes.set job.resultIndex (some (answers job.file attempt)) }
        (some (.renew job attempt)) [⟨job.file, answers job.file attempt⟩]
  | final {job : TransferJob} {attempt : Nat} :
      job.resultIndex < s.outcomes.length → answers job.file attempt ≠ .tokenExpired →
      JobStep env answers s (.transfer job attempt)
        { s with outcomes := s.outcomes.set job.resultIndex (some (answers job.file attempt)) }
        none [⟨job.file, answers job.file attempt⟩]
  | renew {job : TransferJob} {attempt : Nat} (agent : FileTransferAgent) :
      JobStep env answers s (.renew job attempt) { s with agent }
        (some (.transfer job (attempt + 1))) []

theorem transferCode_step {s s' : TransferShared} {t : Fin T} {j : TransferPc}
    {j' : Option TransferPc} {os : List Attempt}
    (h : (transferCode T env answers).step s t j = some (s', j', os)) :
    JobStep env answers s j s' j' os := by
  cases j with
  | transfer job attempt =>
    obtain ⟨outcomes, hwrite, heq⟩ := Option.map_eq_some_iff.mp h
    obtain ⟨hlt, rfl⟩ := writeAt_eq_some hwrite
    by_cases hexpired : answers job.file attempt = .tokenExpired
    · rw [if_pos hexpired] at heq
      cases heq
      exact .expired hlt hexpired
    · rw [if_neg hexpired] at heq
      cases heq
      exact .final hlt hexpired
  | renew job attempt =>
    simp only [transferCode] at h
    split at h
    next agent _ =>
      cases h
      exact .renew agent
    next => cases h

def TransferPc.job : TransferPc → TransferJob
  | transfer job _ | renew job _ => job

namespace JobStep

variable {s s' : TransferShared} {j : TransferPc} {j' : Option TransferPc} {os : List Attempt}

theorem length (h : JobStep env answers s j s' j' os) : s'.outcomes.length = s.outcomes.length := by
  cases h with
  | expired => exact List.length_set
  | final => exact List.length_set
  | renew => rfl

/-- A job writes its own row only. -/
theorem row_of_ne (h : JobStep env answers s j s' j' os) {row : Nat}
    (hne : j.job.resultIndex ≠ row) : s'.outcomes[row]? = s.outcomes[row]? := by
  cases h with
  | expired => exact List.getElem?_set_ne hne
  | final => exact List.getElem?_set_ne hne
  | renew => rfl

end JobStep

theorem smallJob_resultIndex {k : Nat} (hk : k < n) (hsize : large + n < 2 ^ 32) :
    (smallJob large k).resultIndex = large + k := by
  have hindex := toU32_natCast (n := k + large) (by omega)
  rw [Nat.cast_add] at hindex
  rw [smallJob, hindex, Nat.add_comm]

theorem JobAttempts.job_eq {k : Nat} {log : List Attempt} {j : TransferPc} {s : TransferShared}
    (h : JobAttempts answers large k log (.running j) s) : j.job = smallJob large k := by
  cases j with
  | transfer job attempt => exact h.1
  | renew job attempt => exact h.1

/-- A step of the job `k`. -/
theorem JobAttempts.step {k : Nat} {log : List Attempt} {s s' : TransferShared} {j : TransferPc}
    {j' : Option TransferPc} {os : List Attempt}
    (hindex : (smallJob large k).resultIndex = large + k)
    (h : JobAttempts answers large k log (.running j) s)
    (hstep : JobStep env answers s j s' j' os) :
    JobAttempts answers large k (log ++ os) (.after j') s' := by
  cases hstep with
  | expired hlt hexpired =>
    obtain ⟨rfl, rfl, hbefore⟩ := h
    exact ⟨rfl, (firstAttempts_succ ..).symm, hbefore.succ hexpired⟩
  | @final job attempt hlt hfinal =>
    obtain ⟨rfl, rfl, hbefore⟩ := h
    refine ⟨attempt, (firstAttempts_succ ..).symm, ?_, hbefore, hfinal⟩
    rw [hindex] at hlt ⊢
    exact List.getElem?_set_self hlt
  | renew agent =>
    obtain ⟨rfl, rfl, hbefore⟩ := h
    exact ⟨rfl, List.append_nil _, hbefore⟩

/-- The jobs keep to themselves. -/
theorem transferCode_keeps (hsize : large + n < 2 ^ 32) :
    (transferCode T env answers).Keeps (smallJob large) n (LargeRows large (large + n) base)
      (JobAttempts answers large) where
  starts k _ log s h := ⟨rfl, h, .zero answers _⟩
  step k hk log s t j s' j' os hG hP hstep := by
    have hstep := transferCode_step hstep
    have hindex := smallJob_resultIndex hk hsize
    refine ⟨⟨hstep.length.trans hG.length, fun row hrow => ?_⟩, hP.step hindex hstep⟩
    rw [← hG.rows row hrow]
    apply hstep.row_of_ne
    rw [hP.job_eq, hindex]
    omega
  frame k hk log s t j s' j' os hG hP hstep l _ hne log' phase hl := by
    apply hl.congr
    apply (transferCode_step hstep).row_of_ne
    rw [hP.job_eq, smallJob_resultIndex hk hsize]
    omega

/-- No job blocks if the token can be renewed. -/
theorem transferCode_runs (hsize : large + n < 2 ^ 32) (hrenews : Renews env) {k : Nat} (hk : k < n)
    {log : List Attempt} {s : TransferShared} (t : Fin T) {j : TransferPc}
    (hG : LargeRows large (large + n) base s)
    (hP : JobAttempts answers large k log (.running j) s) :
    ∃ s' j' os, (transferCode T env answers).step s t j = some (s', j', os) := by
  cases j with
  | transfer job attempt =>
    have hlt : job.resultIndex < s.outcomes.length := by
      rw [hP.1, smallJob_resultIndex hk hsize, hG.length]
      omega
    exact ⟨_, _, _, Option.map_eq_some_iff.mpr ⟨_, writeAt_of_lt hlt, rfl⟩⟩
  | renew job attempt =>
    obtain ⟨agent, h⟩ := hrenews.renewToken s.agent
    refine ⟨{ s with agent }, some (.transfer job (attempt + 1)), [], ?_⟩
    simp only [transferCode, h]

/-- The attempts that are left, if the token expires in attempts below `bound` only. -/
def TransferPc.left (bound : Nat → Nat) : TransferPc → Nat
  | .transfer job attempt => 2 * (bound job.file - attempt)
  | .renew job attempt => max 1 (2 * (bound job.file - attempt) - 1)

theorem transferCode_lighter {bound : Nat → Nat}
    (hbound : ∀ file attempt, answers file attempt = .tokenExpired → attempt < bound file)
    (s : TransferShared) (t : Fin T) (j : TransferPc) (s' : TransferShared) (j' : TransferPc)
    (os : List Attempt) (h : (transferCode T env answers).step s t j = some (s', some j', os)) :
    j'.left bound < j.left bound := by
  cases transferCode_step h with
  | @expired job attempt _ hexpired =>
    have hlt := hbound job.file attempt hexpired
    simp only [TransferPc.left]
    omega
  | renew agent =>
    simp only [TransferPc.left]
    omega

/-! ## The metadata of the small files -/

/-- The metadata of the large files are as they were, those of the added jobs are written. -/
structure MetadataInv (files : List TransferFile) (large n : Nat)
    (base : List (Option TransferFile)) (s : Client T)
    (fileMetadatas : List (Option TransferFile)) : Prop where
  length : fileMetadatas.length = large + n
  rows : ∀ row < large, fileMetadatas[row]? = base[row]?
  added : ∀ k < s.added, fileMetadatas[large + k]? = some files[large + k]?

variable {files : List TransferFile} {baseMeta fileMetadatas : List (Option TransferFile)}
  {s s' : Client T} {e : PoolEvent T} {outs o : List (PoolOutput T Attempt)}

/-- A job is added. -/
theorem MetadataInv.add (h : MetadataInv files large n baseMeta s fileMetadatas) (hk : s.added < n)
    (hadded : s'.added = s.added + 1) :
    MetadataInv files large n baseMeta s'
      (fileMetadatas.set (large + s.added) files[large + s.added]?) where
  length := List.length_set.trans h.length
  rows row hrow := by
    rw [List.getElem?_set_ne (by omega)]
    exact h.rows row hrow
  added k hlt := by
    rw [hadded] at hlt
    rcases Nat.lt_succ_iff_lt_or_eq.mp hlt with hold | rfl
    · rw [List.getElem?_set_ne (by omega)]
      exact h.added k hold
    · refine List.getElem?_set_self ?_
      rw [h.length]
      omega

theorem MetadataInv.congr (h : MetadataInv files large n baseMeta s fileMetadatas)
    (hadded : s'.added = s.added) : MetadataInv files large n baseMeta s' fileMetadatas :=
  ⟨h.length, h.rows, hadded ▸ h.added⟩

theorem length_setJobMetadata {fileMetadatas' : List (Option TransferFile)}
    (h : setJobMetadata files s e fileMetadatas = some fileMetadatas') :
    fileMetadatas'.length = fileMetadatas.length := by
  unfold setJobMetadata at h
  split at h
  · obtain ⟨-, rfl⟩ := writeAt_eq_some h
    exact List.length_set
  · rw [Option.some.inj h]

/-- The metadata can be written at every step. -/
theorem setJobMetadata_ok (hsize : large + n < 2 ^ 32)
    (hm : PoolMove (transferCode T env answers) s e s' o)
    (hcalls : BatchCalls (smallJob large) n s)
    (h : MetadataInv files large n baseMeta s fileMetadatas) :
    ∃ fileMetadatas', setJobMetadata files s e fileMetadatas = some fileMetadatas' ∧
      MetadataInv files large n baseMeta s' fileMetadatas' := by
  cases hm with
  | @addJob w job calls pool hadd hpool =>
    obtain ⟨rfl, hk, -⟩ := hcalls.addJob hadd
    have hindex := smallJob_resultIndex hk hsize
    have hlt : large + s.added < fileMetadatas.length := by
      rw [h.length]
      omega
    refine ⟨_, ?_, h.add hk rfl⟩
    simp only [setJobMetadata, hadd, hindex]
    exact writeAt_of_lt hlt
  | waitSleep hcalls hpool => exact ⟨fileMetadatas, rfl, h.congr rfl⟩
  | waitReturn hcalls hpool => exact ⟨fileMetadatas, rfl, h.congr rfl⟩
  | execute hpool => exact ⟨fileMetadatas, rfl, h.congr rfl⟩
  | @run t k j shared j' os hpc hjob =>
    refine ⟨fileMetadatas, rfl, h.congr ?_⟩
    cases j' <;> rfl
  | wakeWorker hpc => exact ⟨fileMetadatas, rfl, h.congr rfl⟩
  | wakeClient hw => exact ⟨fileMetadatas, rfl, h.congr rfl⟩

/-! ## The small files -/

/-- The invariant of the small files. -/
structure ParallelInv (files : List TransferFile) (answers : Answers) (large n : Nat)
    (base : List (Option RemoteStorageRequestOutcome)) (baseMeta : List (Option TransferFile))
    (outs : List (PoolOutput T Attempt)) (p : Client T × List (Option TransferFile)) : Prop where
  jobs : BatchInv (smallJob large) n (LargeRows large (large + n) base) (JobAttempts answers large)
    outs p.1
  metadata : MetadataInv files large n baseMeta p.1 p.2

theorem ParallelInv.step (hT : 0 < T) (hsize : large + n < 2 ^ 32)
    {p p' : Client T × List (Option TransferFile)}
    (h : ParallelInv files answers large n base baseMeta outs p)
    (hstep : (transferInParallel T env answers files).step p e = some (p', o)) :
    ParallelInv files answers large n base baseMeta (outs ++ o) p' := by
  obtain ⟨hclient, hmeta⟩ := Machine.attach_step_iff.mp hstep
  have hm := pool_move hclient
  obtain ⟨fileMetadatas, heq, hnext⟩ :=
    setJobMetadata_ok hsize hm h.jobs.batch.calls h.metadata
  obtain rfl := Option.some.inj (hmeta.symm.trans heq)
  exact ⟨hm.batchInv hT (transferCode_keeps hsize) h.jobs, hnext⟩

/-- What the jobs show is about their own files. -/
theorem ParallelInv.output_file {p : Client T × List (Option TransferFile)}
    (h : ParallelInv files answers large n base baseMeta outs p) (hcalls : p.1.calls = [])
    {q : Nat × Attempt} (hq : q ∈ jobOutputs outs) : q.2.file = large + q.1 ∧ q.1 < n := by
  have hk : q.1 < n := h.jobs.batch.lt_of_mem (List.mem_append_left _ (h.jobs.batch.outputs q hq))
  obtain ⟨last, hlog, -⟩ := h.jobs.returned hcalls hk
  have hmem : q.2 ∈ outputsOf q.1 outs := List.mem_filterMap.mpr ⟨q, hq, if_pos rfl⟩
  rw [hlog] at hmem
  obtain ⟨attempt, -, heq⟩ := List.mem_map.mp hmem
  exact ⟨heq ▸ rfl, hk⟩

theorem attemptsFor_outputs {log : List (Nat × Attempt)}
    (h : ∀ q ∈ log, q.2.file = large + q.1) (k : Nat) :
    attemptsFor (large + k) (log.map Prod.snd) =
      (log.filterMap fun q => if q.1 = k then some q.2 else none).map Attempt.outcome := by
  induction log with
  | nil => rfl
  | cons q log ih =>
    have hq := h q List.mem_cons_self
    have hrest := ih fun q' hq' => h q' (List.mem_cons_of_mem _ hq')
    by_cases hk : q.1 = k
    · simpa [attemptsFor, hq, hk] using hrest
    · simpa [attemptsFor, hq, hk] using hrest

theorem attemptsFor_eq_nil {log : List Attempt} {row : Nat} (h : ∀ a ∈ log, a.file ≠ row) :
    attemptsFor row log = [] := by
  rw [attemptsFor, List.filter_eq_nil_iff.mpr]
  · rfl
  · intro a ha
    simpa using h a ha

theorem map_outcome_firstAttempts (answers : Answers) (file count : Nat) :
    (firstAttempts answers file count).map Attempt.outcome =
      (List.range count).map (answers file) := by
  rw [firstAttempts, List.map_map]
  rfl

end Parallel

end ParallelTransfer
end Snowflake
