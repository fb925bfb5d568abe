import SnowflakeClient.Transfer.Rows
import SnowflakeClient.Transfer.SmallFiles

/-!
# Every row has a final outcome

`every_row_final_iff`: when all files are transferred, the row of each file has its metadata and the
outcome of the last attempt for it, exactly if the number of files is an `unsigned int`. The rows do
not depend on the schedule, so the agent may as well transfer the small files one after the other
(`UploadReturns.rows`, `DownloadReturns.rows`).
-/

namespace Snowflake
namespace ParallelTransfer

open Conc CInt

section Both

variable {T : Nat} {env : AgentEnv} {answers : Answers} {a : FileTransferAgent} {st : TransferState}
  {table : ResultTable} {log : List Attempt} {outs : List (PoolOutput T Attempt)}
  {p : Client T × List (Option TransferFile)}

theorem length_files : (files a).length = a.largeFilesMeta.length + a.smallFilesMeta.length :=
  List.length_append

/-- The result has as many rows as there are files, modulo `2 ^ 32`. -/
theorem length_startTransfer :
    (startTransfer a).fileMetadatas.length = toU32 (files a).length ∧
      (startTransfer a).outcomes.length = toU32 (files a).length := by
  rw [length_files]
  exact ⟨List.length_replicate, List.length_replicate⟩

theorem startTransfer_inv (answers : Answers) (hsize : (files a).length < 2 ^ 32) :
    LargeInv (files a) answers a.largeFilesMeta.length (files a).length 0 0 (startTransfer a) where
  metadatas := length_startTransfer.1.trans (toU32_natCast hsize)
  outcomes := length_startTransfer.2.trans (toU32_natCast hsize)
  inside h := absurd rfl h
  expired := .zero answers 0
  done row hrow := absurd hrow (Nat.not_lt_zero row)
  current := rfl
  later _ _ := rfl

theorem length_largeFilesMeta_le : a.largeFilesMeta.length ≤ (files a).length := by
  rw [length_files]
  exact Nat.le_add_right ..

/-- The large files. -/
theorem LargeDone.inv (hsize : (files a).length < 2 ^ 32) (h : LargeDone env answers a st) :
    LargeInv (files a) answers a.largeFilesMeta.length (files a).length a.largeFilesMeta.length 0
      st := by
  obtain ⟨fuel, hrun⟩ := h
  exact (transferLargeFiles_inv (List.prefix_append ..) length_largeFilesMeta_le hsize fuel
    (startTransfer_inv answers hsize) (Nat.zero_le _)).returned hrun

/-- The small files. -/
theorem parallelInv_of_run (hT : 0 < T) (hsize : (files a).length < 2 ^ 32)
    (hst : LargeDone env answers a st)
    (h : (transferInParallel T env answers (files a)).Run Machine.Any (startParallel T a st) outs
      p) :
    ParallelInv (files a) answers a.largeFilesMeta.length a.smallFilesMeta.length st.outcomes
      st.fileMetadatas outs p := by
  have hlarge := hst.inv hsize
  have hlen := length_files (a := a)
  refine h.inv (I := fun outs p => ParallelInv (files a) answers a.largeFilesMeta.length
    a.smallFilesMeta.length st.outcomes st.fileMetadatas outs p) ?_ ?_
  · refine ⟨.start ⟨?_, fun _ _ => rfl⟩ fun _ _ => rfl, ?_, fun _ _ => rfl, fun k hk => ?_⟩
    · exact hlarge.outcomes.trans hlen
    · exact hlarge.metadatas.trans hlen
    · exact absurd hk (Nat.not_lt_zero k)
  · intro outs p e p' o hp _ hstep
    exact hp.step hT (by omega) hstep

section Rows

variable (hsize : (files a).length < 2 ^ 32) (hst : LargeDone env answers a st)
  (h : ParallelInv (files a) answers a.largeFilesMeta.length a.smallFilesMeta.length st.outcomes
    st.fileMetadatas outs p) (hcalls : p.1.calls = [])
include hsize hst h hcalls

/-- The rows of the large files stay as they were: the jobs are about other files. -/
theorem ParallelInv.rowFinal_large {row : Nat} (hrow : row < a.largeFilesMeta.length) :
    RowFinal (files a) answers ⟨p.2, p.1.shared.outcomes⟩
      (st.log ++ (jobOutputs outs).map Prod.snd) row := by
  have hnone : attemptsFor row ((jobOutputs outs).map Prod.snd) = [] := by
    apply attemptsFor_eq_nil
    intro attempt hmem
    obtain ⟨q, hq, rfl⟩ := List.mem_map.mp hmem
    have hfile := (h.output_file hcalls hq).1
    omega
  obtain ⟨hmeta, last, hlast, houtcome, hfinal⟩ := (hst.inv hsize).done row hrow
  refine ⟨(h.metadata.rows row hrow).trans hmeta, last, ?_, ?_, hfinal⟩
  · rw [attemptsFor_append, hnone, List.append_nil, hlast]
  · exact (h.jobs.shared.rows row hrow).trans houtcome

/-- The rows of the small files are those of their jobs. -/
theorem ParallelInv.rowFinal_small {k : Nat} (hk : k < a.smallFilesMeta.length) :
    RowFinal (files a) answers ⟨p.2, p.1.shared.outcomes⟩
      (st.log ++ (jobOutputs outs).map Prod.snd) (a.largeFilesMeta.length + k) := by
  have hlarge := hst.inv hsize
  have hadded : p.1.added = a.smallFilesMeta.length := by
    rcases h.jobs.batch.calls with ⟨m, hleft, -⟩ | ⟨-, hadded, -⟩
    · rw [hcalls] at hleft
      simp [batchCalls] at hleft
    · exact hadded
  have hnone : attemptsFor (a.largeFilesMeta.length + k) st.log = [] := by
    rcases Nat.eq_zero_or_pos k with rfl | hpos
    · exact hlarge.current
    · exact hlarge.later _ (by omega)
  obtain ⟨last, hlog, houtcome, hfinal⟩ := h.jobs.returned hcalls hk
  refine ⟨h.metadata.added k (hadded ▸ hk), last, ?_, houtcome, hfinal⟩
  rw [attemptsFor_append, hnone, List.nil_append,
    attemptsFor_outputs (fun q hq => (h.output_file hcalls hq).1), ← map_outcome_firstAttempts,
    ← hlog]
  rfl

end Rows

theorem Transferred.rowFinal (hT : 0 < T) (hsize : (files a).length < 2 ^ 32)
    (h : Transferred T env answers a table log) {row : Nat} (hrow : row < (files a).length) :
    RowFinal (files a) answers table log row := by
  cases h with
  | large hst hnil =>
    have hlarge := hst.inv hsize
    rw [length_files, hnil] at hrow
    exact hlarge.done row hrow
  | parallel hst _ hrun hcalls =>
    have hinv := parallelInv_of_run hT hsize hst hrun
    rw [length_files] at hrow
    by_cases hlt : row < a.largeFilesMeta.length
    · exact hinv.rowFinal_large hsize hst hcalls hlt
    · obtain ⟨k, rfl⟩ := Nat.exists_eq_add_of_le (not_lt.mp hlt)
      exact hinv.rowFinal_small hsize hst hcalls (by omega)

/-- The large files come to an end. -/
theorem exists_largeDone (hsize : (files a).length < 2 ^ 32) (hexp : FinitelyExpired answers)
    (hrenews : Renews env) : ∃ st, LargeDone env answers a st := by
  have hstart := startTransfer_inv answers hsize
  obtain ⟨fuel, hfuel⟩ := transferLargeFiles_returns hexp hrenews length_largeFilesMeta_le hsize
    a.largeFilesMeta.length 0 0 (Nat.le_add_left ..)
  have hreturns := hfuel (startTransfer a) hstart.metadatas hstart.outcomes
  match hr : transferLargeFiles env answers a.largeFilesMeta fuel 0 0 (startTransfer a) with
  | (some (), st) => exact ⟨st, fuel, hr⟩
  | (none, st) => exact absurd (hreturns.stopped hr) id

/-- The small files come to an end. -/
theorem parallel_inevitable (hT : 0 < T) (hsize : (files a).length < 2 ^ 32)
    (hexp : FinitelyExpired answers) (hrenews : Renews env) (hst : LargeDone env answers a st)
    (h : (transferInParallel T env answers (files a)).Run Machine.Any (startParallel T a st) outs
      p) :
    (transferInParallel T env answers (files a)).Inevitable (fun s => PoolScheduled s.1)
      (fun s => s.1.Done) p := by
  have hlen := length_files (a := a)
  have hsize' : a.largeFilesMeta.length + a.smallFilesMeta.length < 2 ^ 32 := by omega
  have hinv := parallelInv_of_run hT hsize hst h
  choose bound hbound using hexp.exists_bound
  have hkeeps : (transferCode T env answers).Keeps (smallJob a.largeFilesMeta.length)
      a.smallFilesMeta.length
      (LargeRows a.largeFilesMeta.length (a.largeFilesMeta.length + a.smallFilesMeta.length)
        st.outcomes) (JobAttempts answers a.largeFilesMeta.length) := transferCode_keeps hsize'
  have hterm := hkeeps.terminates hT
    (fun k hk log s t j hG hP => transferCode_runs hsize' hrenews hk t hG hP)
    (transferCode_lighter hbound)
  refine Machine.Inevitable.attach (I := fun s fileMetadatas => ∃ outs,
    ParallelInv (files a) answers a.largeFilesMeta.length a.smallFilesMeta.length st.outcomes
      st.fileMetadatas outs (s, fileMetadatas)) ?_ (hterm.inevitable ⟨outs, hinv.jobs⟩) ⟨outs, hinv⟩
  rintro s e s' o fileMetadatas ⟨outs, hs⟩ - hstep
  obtain ⟨fileMetadatas', hmeta, -⟩ :=
    setJobMetadata_ok hsize' (pool_move hstep) hs.jobs.batch.calls hs.metadata
  exact ⟨fileMetadatas', hmeta, outs ++ o,
    hs.step hT hsize' (Machine.attach_step_iff.mpr ⟨hstep, hmeta⟩)⟩

/-! ## One file after the other

The rows of `FileTransferAgent.upload` and `download`, which know neither threads nor arrays, are
those of every schedule. -/

open FileTransferAgent in
theorem transferFile_expired (hrenews : Renews env) {outcome : RemoteStorageRequestOutcome}
    (hfinal : outcome ≠ .tokenExpired) (before : List RemoteStorageRequestOutcome)
    (hbefore : ∀ o ∈ before, o = .tokenExpired) (a : FileTransferAgent) :
    ∃ a', transferFile env (before ++ [outcome]) a = .ok (a', outcome) := by
  induction before generalizing a with
  | nil =>
    rw [List.nil_append, transferFile, if_neg hfinal]
    exact ⟨a, rfl⟩
  | cons o before ih =>
    obtain ⟨a₁, hrenew⟩ := hrenews.renewToken a
    rw [List.cons_append, transferFile, if_pos (hbefore o List.mem_cons_self), hrenew]
    exact ih (fun o' ho' => hbefore o' (List.mem_cons_of_mem _ ho')) a₁

/-- A row that is final is the one that the agent gives to the file. -/
theorem RowFinal.transferFile (hrenews : Renews env) {row : Nat}
    (h : RowFinal (files a) answers table log row) :
    ∃ outcome, table.outcomes[row]? = some (some outcome) ∧
      ∀ a', ∃ a'', FileTransferAgent.transferFile env (attemptsFor row log) a' =
        .ok (a'', outcome) := by
  obtain ⟨last, hlog, houtcome, hexpired, hfinal⟩ := h.outcome
  refine ⟨answers row last, houtcome, fun a' => ?_⟩
  rw [hlog, List.range_succ, List.map_append]
  refine transferFile_expired hrenews hfinal _ (fun o ho => ?_) a'
  obtain ⟨k, hk, rfl⟩ := List.mem_map.mp ho
  exact hexpired k (List.mem_range.mp hk)

open FileTransferAgent in
theorem transferFiles_rows {attempts : Nat → List RemoteStorageRequestOutcome}
    {rowOutcome : Nat → RemoteStorageRequestOutcome} (i : Nat) (fs : List TransferFile)
    (h : ∀ row < i + fs.length, ∀ a, ∃ a', transferFile env (attempts row) a =
      .ok (a', rowOutcome row)) (a : FileTransferAgent) :
    transferFiles env attempts i fs a =
      .ok (fs.mapIdx fun k file => ⟨file, rowOutcome (i + k)⟩) := by
  induction fs generalizing i a with
  | nil => rfl
  | cons file fs ih =>
    rw [List.length_cons] at h
    obtain ⟨a₁, hfile⟩ := h i (by omega) a
    rw [transferFiles, hfile]
    dsimp only
    rw [ih (i + 1) (fun row hrow => h row (by omega)), List.mapIdx_cons]
    simp only [Except.map, Nat.add_zero, Nat.add_assoc, Nat.add_comm 1]

/-- The arrays of the result hold these rows. -/
def ResultTable.Holds (table : ResultTable) (rows : List ResultRow) : Prop :=
  ∀ (row : Nat) (r : ResultRow), rows[row]? = some r →
    table.fileMetadatas[row]? = some (some r.file) ∧ table.outcomes[row]? = some (some r.outcome)

theorem Transferred.transferFiles (hT : 0 < T) (hsize : (files a).length < 2 ^ 32)
    (hrenews : Renews env) (h : Transferred T env answers a table log) :
    ∃ rows, FileTransferAgent.transferFiles env (fun row => attemptsFor row log) 0 (files a) a =
      .ok rows ∧ rows.map ResultRow.file = files a ∧ table.Holds rows := by
  have hrows : ∀ row, ∃ outcome, row < (files a).length →
      table.outcomes[row]? = some (some outcome) ∧
      ∀ a', ∃ a'', FileTransferAgent.transferFile env (attemptsFor row log) a' =
        .ok (a'', outcome) := by
    intro row
    by_cases hrow : row < (files a).length
    · obtain ⟨outcome, houtcome, hfile⟩ := (h.rowFinal hT hsize hrow).transferFile hrenews
      exact ⟨outcome, fun _ => ⟨houtcome, hfile⟩⟩
    · exact ⟨.success, fun hlt => absurd hlt hrow⟩
  choose rowOutcome hrowOutcome using hrows
  refine ⟨(files a).mapIdx fun k file => ⟨file, rowOutcome (0 + k)⟩, ?_, ?_, ?_⟩
  · refine transferFiles_rows 0 (files a) (fun row hrow => (hrowOutcome row ?_).2) a
    rwa [Nat.zero_add] at hrow
  · apply List.ext_getElem?
    intro row
    rw [List.getElem?_map, List.getElem?_mapIdx, Option.map_map]
    exact Option.map_id'
  · intro row r hr
    rw [List.getElem?_mapIdx] at hr
    obtain ⟨file, hfile, rfl⟩ := Option.map_eq_some_iff.mp hr
    obtain ⟨hlt, -⟩ := List.getElem?_eq_some_iff.mp hfile
    refine ⟨?_, ?_⟩
    · rw [(h.rowFinal hT hsize hlt).metadata, hfile]
    · rw [Nat.zero_add]
      exact (hrowOutcome row hlt).1

/-- What `upload` returns in any schedule are the rows of the agent. -/
theorem UploadReturns.rows (hT : 0 < T) (hsize : (files a).length < 2 ^ 32) (hrenews : Renews env)
    (h : UploadReturns T env answers a table log) :
    ∃ rows, a.upload env (fun row => attemptsFor row log) = .ok rows ∧
      rows.map ResultRow.file = files a ∧ table.Holds rows :=
  Transferred.transferFiles hT hsize hrenews h

theorem DownloadReturns.rows (hT : 0 < T) (hsize : (files a).length < 2 ^ 32)
    (hrenews : Renews env) (h : DownloadReturns T env answers a table log) :
    ∃ rows, a.download env (fun row => attemptsFor row log) = .ok rows ∧
      rows.map ResultRow.file = files a ∧ table.Holds rows := by
  obtain ⟨hdirectory, htransferred⟩ := h
  rw [FileTransferAgent.download, hdirectory]
  exact htransferred.transferFiles hT hsize hrenews

/-! ## Too many files -/

/-- No row is added. -/
theorem Transferred.length (h : Transferred T env answers a table log) :
    table.fileMetadatas.length = toU32 (files a).length := by
  have hlarge : ∀ {st}, LargeDone env answers a st →
      st.fileMetadatas.length = toU32 (files a).length := by
    rintro st ⟨fuel, hrun⟩
    exact ((transferLargeFiles_length fuel).returned hrun).trans length_startTransfer.1
  cases h with
  | large hst _ => exact hlarge hst
  | @parallel st outs client fileMetadatas hst _ hrun _ =>
    refine hrun.state_inv (I := fun p => p.2.length = toU32 (files a).length) (hlarge hst) ?_
    intro p e p' o hp _ hstep
    exact (length_setJobMetadata (Machine.attach_step_iff.mp hstep).2).trans hp

/-- A command whose token can be renewed. -/
def renewingEnv : AgentEnv where
  parse _ response :=
    some ({ response with stageInfo := { response.stageInfo with stageType := .s3 } }, true)
  time _ := 0
  createDirectory _ := 0
  uploadFiles _ := .ok []

theorem renewingEnv_renews : Renews renewingEnv := by
  intro a
  unfold FileTransferAgent.renewToken
  dsimp only
  split_ifs
  · rfl
  · rfl

theorem finitelyExpired_success : FinitelyExpired fun _ _ => .success := by
  intro file
  simp

/-- There is a row for each file only if the number of files is an `unsigned int`. -/
theorem EveryRowFinal.files_lt (h : EveryRowFinal T a) : (files a).length < 2 ^ 32 := by
  by_contra hsize
  obtain ⟨table, log, htransferred⟩ :
      ∃ table log, Transferred T renewingEnv (fun _ _ => .success) a table log := by
    obtain ⟨st, hst⟩ := h.large _ _ finitelyExpired_success renewingEnv_renews
    by_cases hnil : a.smallFilesMeta = []
    · exact ⟨_, _, .large hst hnil⟩
    · obtain ⟨outs, p, hrun, hdone⟩ :=
        (h.parallel _ _ finitelyExpired_success renewingEnv_renews st hst [] _ .nil).reaches
      exact ⟨_, _, .parallel hst hnil (hrun.mono fun _ _ _ => trivial) hdone.1⟩
  have hrows : toU32 (files a).length < (files a).length := by
    rw [toU32]
    omega
  -- the first file without a row
  obtain ⟨hmeta, -⟩ := h.upload _ _ finitelyExpired_success _ _ htransferred _ hrows
  rw [← htransferred.length, List.getElem?_eq_none (le_refl _)] at hmeta
  cases hmeta

end Both

/-- With any number of threads: every row has a final outcome exactly if the number of files is an
`unsigned int`. -/
theorem every_row_final_iff {T : Nat} (hT : 0 < T) (a : FileTransferAgent) :
    EveryRowFinal T a ↔ a.largeFilesMeta.length + a.smallFilesMeta.length < 2 ^ 32 := by
  rw [← length_files]
  refine ⟨EveryRowFinal.files_lt, fun hsize => ⟨?_, ?_, ?_, ?_⟩⟩
  · intro env answers _ table log h row hrow
    exact h.rowFinal hT hsize hrow
  · intro env answers _ table log h row hrow
    exact h.2.rowFinal hT hsize hrow
  · intro env answers hexp hrenews
    exact exists_largeDone hsize hexp hrenews
  · intro env answers hexp hrenews st hst outs p h
    exact parallel_inevitable hT hsize hexp hrenews hst h

/-- An agent with one large file and two small ones. -/
def threeFiles : FileTransferAgent :=
  { FileTransferAgent.new twoFiles with
    largeFilesMeta := [⟨"a", "a", 6000000⟩]
    smallFilesMeta := [⟨"b", "b", 1⟩, ⟨"c", "c", 2⟩] }

theorem every_row_final_threeFiles : EveryRowFinal 2 threeFiles :=
  (every_row_final_iff (by decide) threeFiles).mpr (by decide)

/-- An agent with `n` small files. -/
def smallFiles (n : Nat) : FileTransferAgent :=
  { FileTransferAgent.new twoFiles with smallFilesMeta := List.replicate n ⟨"b", "b", 1⟩ }

theorem length_files_smallFiles (n : Nat) : (files (smallFiles n)).length = n := by
  rw [length_files, smallFiles, List.length_replicate]
  exact Nat.zero_add n

/-- `2 ^ 32` small files: the result has no row at all. -/
theorem rows_lost :
    (startTransfer (smallFiles (2 ^ 32))).fileMetadatas.length = 0 ∧
      ¬ EveryRowFinal 4 (smallFiles (2 ^ 32)) := by
  constructor
  · rw [length_startTransfer.1, length_files_smallFiles]
    decide
  · intro h
    have hlt := h.files_lt
    rw [length_files_smallFiles] at hlt
    exact lt_irrefl _ hlt

end ParallelTransfer
end Snowflake
