import SnowflakeClient.Transfer.Agent

/-!
# The rows of a GET command

`get_rows_iff`: the result of a GET command has one row for each source location exactly if no
metadata request failed, whatever the storage answered before (and `execute` does not throw). A
token that expired is renewed and the request repeated, so it costs nothing; a request that failed
is not looked at again and its location has no row.
-/

namespace Snowflake

open FileTransferAgent

/-- Two responses to one command. The credentials may differ. -/
structure SameCommand (r r' : PutGetParseResponse) : Prop where
  command : r.command = r'.command
  srcLocations : r.srcLocations = r'.srcLocations
  encryptionMaterials : r.encryptionMaterials = r'.encryptionMaterials
  stageType : r.stageInfo.stageType = r'.stageInfo.stageType
  location : r.stageInfo.location = r'.stageInfo.location
  localLocation : r.localLocation = r'.localLocation

/-- A statement that replaces the response by one for the command of `r`. -/
def Replaces (env : AgentEnv) (r : PutGetParseResponse) : Prop :=
  ∀ k old, ∃ new, env.parse k old = some (new, true) ∧ SameCommand new r

/-- The answers that end the requests of a location. -/
def finalAnswers (answers : List MetadataAnswer) : List MetadataAnswer :=
  answers.filter fun answer => answer.outcome ≠ .tokenExpired

/-- The storage of the command can be used. -/
def Supported (r : PutGetParseResponse) : Prop := getClient r.stageInfo = .ok ()

/-- The result has one row for each source location; where the metadata request failed, it says
`ERROR`. -/
def OneRowEach (r : PutGetParseResponse) (answers : List MetadataAnswer)
    (result : Except Stop (List ResultRow)) : Prop :=
  ∃ rows, result = .ok rows ∧
    (rows.map fun row => row.file.srcFileName).Perm
      (r.srcLocations.map (r.stageInfo.location ++ ·)) ∧
    ∀ p ∈ r.srcLocations.zip (finalAnswers answers), p.2.outcome ≠ .success →
      ∃ row ∈ rows, row.file.srcFileName = r.stageInfo.location ++ p.1 ∧
        fromOutcomeToStr .download row.outcome = "ERROR"

variable {env : AgentEnv} {r : PutGetParseResponse} {a : FileTransferAgent}

theorem getClient_congr {s s' : StageInfo} (h : s.stageType = s'.stageType) :
    getClient s = getClient s' := by
  unfold getClient
  rw [h]

/-! ## The metadata -/

/-- The file of a location, if its request succeeded. -/
def fileOf (location : String) (p : String × MetadataAnswer) : Option TransferFile :=
  if p.2.outcome = .success then
    some
      { srcFileName := location ++ p.1
        destFileName := fileName (location ++ p.1)
        srcFileSize := p.2.srcFileSize }
  else none

def isLarge (file : TransferFile) : Bool := file.srcFileSize > dataSizeThreshold

/-- `a'` has the files of `a` and `files`. -/
structure Adds (a a' : FileTransferAgent) (files : List TransferFile) : Prop where
  large : a'.largeFilesMeta = a.largeFilesMeta ++ files.filter isLarge
  small : a'.smallFilesMeta = a.smallFilesMeta ++ files.filter fun file => !isLarge file

theorem Adds.trans {a₁ a₂ a₃ : FileTransferAgent} {xs ys : List TransferFile} (h : Adds a₁ a₂ xs)
    (h' : Adds a₂ a₃ ys) : Adds a₁ a₃ (xs ++ ys) :=
  ⟨by rw [h'.large, h.large, List.filter_append, List.append_assoc],
    by rw [h'.small, h.small, List.filter_append, List.append_assoc]⟩

theorem Adds.same {a a' : FileTransferAgent} (hlarge : a'.largeFilesMeta = a.largeFilesMeta)
    (hsmall : a'.smallFilesMeta = a.smallFilesMeta) : Adds a a' [] :=
  ⟨hlarge.trans (List.append_nil _).symm, hsmall.trans (List.append_nil _).symm⟩

theorem adds_push (a : FileTransferAgent) (file : TransferFile) : Adds a (a.push file) [file] := by
  unfold FileTransferAgent.push
  by_cases hsize : file.srcFileSize > dataSizeThreshold
  · rw [if_pos hsize]
    have hlarge : isLarge file = true := by simpa [isLarge] using hsize
    exact ⟨by simp [hlarge], by simp [hlarge]⟩
  · rw [if_neg hsize]
    have hsmall : isLarge file = false := by simpa [isLarge] using hsize
    exact ⟨by simp [hsmall], by simp [hsmall]⟩

theorem adds_populate (a : FileTransferAgent) (sourceLocation : String) (answer : MetadataAnswer) :
    Adds a (a.populateSrcLocDownloadMetadata sourceLocation answer)
      (fileOf a.response.stageInfo.location (sourceLocation, answer)).toList := by
  unfold FileTransferAgent.populateSrcLocDownloadMetadata fileOf
  by_cases hok : answer.outcome = .success
  · simp only [if_pos hok]
    exact adds_push a _
  · simp only [if_neg hok]
    exact .same rfl rfl

theorem push_response (a : FileTransferAgent) (file : TransferFile) :
    (a.push file).response = a.response := by
  unfold FileTransferAgent.push
  split <;> rfl

theorem populate_response (a : FileTransferAgent) (sourceLocation : String)
    (answer : MetadataAnswer) :
    (a.populateSrcLocDownloadMetadata sourceLocation answer).response = a.response := by
  unfold FileTransferAgent.populateSrcLocDownloadMetadata
  split
  · exact push_response a _
  · rfl

/-- A renewal only replaces the response. -/
theorem renewToken_ok (henv : Replaces env r) (hstage : Supported r)
    (ha : SameCommand a.response r) :
    ∃ a', a.renewToken env = (.ok (), a') ∧ SameCommand a'.response r ∧ Adds a a' [] := by
  unfold FileTransferAgent.renewToken
  dsimp only
  split
  · obtain ⟨new, hparse, hnew⟩ := henv a.parses a.response
    have hclient : getClient new.stageInfo = .ok () :=
      (getClient_congr hnew.stageType).trans hstage
    simp only [FileTransferAgent.parse, hparse, hclient]
    exact ⟨_, rfl, hnew, .same rfl rfl⟩
  · exact ⟨_, rfl, ha, .same rfl rfl⟩

/-- With a material for each location, the loop adds the files whose requests succeeded. -/
theorem initFileMetadata_ok (henv : Replaces env r) (hstage : Supported r)
    (hcommand : r.command = .download)
    (hmaterials : r.srcLocations.length ≤ r.encryptionMaterials.length)
    (answers : List MetadataAnswer) (i : Nat) (ha : SameCommand a.response r)
    (hanswers : r.srcLocations.length - i ≤ (finalAnswers answers).length) :
    ∃ a', initFileMetadata env i answers a = .ok a' ∧ SameCommand a'.response r ∧
      Adds a a' (((r.srcLocations.drop i).zip (finalAnswers answers)).filterMap
        (fileOf r.stageInfo.location)) := by
  induction answers generalizing i a with
  | nil =>
    have hend : r.srcLocations.length ≤ i := by
      simp only [finalAnswers, List.filter_nil, List.length_nil] at hanswers
      omega
    rw [List.drop_of_length_le hend, initFileMetadata, ha.srcLocations,
      List.getElem?_eq_none hend]
    exact ⟨a, rfl, ha, .same rfl rfl⟩
  | cons answer answers ih =>
    by_cases hend : r.srcLocations.length ≤ i
    · rw [List.drop_of_length_le hend, initFileMetadata, ha.srcLocations,
        List.getElem?_eq_none hend]
      exact ⟨a, rfl, ha, .same rfl rfl⟩
    · have hi : i < r.srcLocations.length := by omega
      have hpop := adds_populate a (r.srcLocations.get ⟨i, hi⟩) answer
      have hpop' : SameCommand
          (a.populateSrcLocDownloadMetadata (r.srcLocations.get ⟨i, hi⟩) answer).response r := by
        rw [populate_response]
        exact ha
      rw [initFileMetadata, ha.srcLocations, List.getElem?_eq_getElem hi, ha.command, hcommand,
        ha.encryptionMaterials, List.getElem?_eq_getElem (Nat.lt_of_lt_of_le hi hmaterials)]
      dsimp only
      by_cases hexpired : answer.outcome = .tokenExpired
      · -- The request is repeated after the renewal.
        have hfinal : finalAnswers (answer :: answers) = finalAnswers answers := by
          simp [finalAnswers, hexpired]
        rw [hfinal] at hanswers ⊢
        obtain ⟨a₁, hrenew, ha₁, hadds₁⟩ := renewToken_ok henv hstage hpop'
        obtain ⟨a₂, hrest, ha₂, hadds₂⟩ := ih i ha₁ hanswers
        rw [if_pos hexpired]
        refine ⟨a₂, ?_, ha₂, ?_⟩
        · have hrenew : renewToken env (a.populateSrcLocDownloadMetadata
              r.srcLocations[i] answer) = (.ok (), a₁) := hrenew
          rw [hrenew]
          exact hrest
        · have hnone : fileOf a.response.stageInfo.location
              (r.srcLocations.get ⟨i, hi⟩, answer) = none := by
            simp [fileOf, hexpired]
          rw [hnone] at hpop
          exact (hpop.trans hadds₁).trans hadds₂
      · have hfinal : finalAnswers (answer :: answers) = answer :: finalAnswers answers := by
          simp [finalAnswers, hexpired]
        rw [hfinal] at hanswers ⊢
        rw [List.length_cons] at hanswers
        obtain ⟨a₂, hrest, ha₂, hadds₂⟩ := ih (i + 1) hpop' (by omega)
        rw [if_neg hexpired]
        refine ⟨a₂, hrest, ha₂, ?_⟩
        rw [List.drop_eq_getElem_cons hi, List.zip_cons_cons, ← List.singleton_append,
          List.filterMap_append]
        have hsingle : [(r.srcLocations[i], answer)].filterMap (fileOf r.stageInfo.location) =
            (fileOf a.response.stageInfo.location (r.srcLocations[i], answer)).toList := by
          rw [ha.location]
          cases h : fileOf r.stageInfo.location (r.srcLocations[i], answer) <;> simp [h]
        rw [hsingle]
        exact hpop.trans hadds₂

/-- The loop ends without an exception only if there is a material for each location. -/
theorem initFileMetadata_materials (henv : Replaces env r) (hstage : Supported r)
    (hcommand : r.command = .download) (answers : List MetadataAnswer) (i : Nat)
    {a' : FileTransferAgent} (ha : SameCommand a.response r)
    (h : initFileMetadata env i answers a = .ok a') :
    r.srcLocations.length ≤ i ∨ r.srcLocations.length ≤ r.encryptionMaterials.length := by
  induction answers generalizing i a with
  | nil =>
    rw [initFileMetadata, ha.srcLocations, ha.command, hcommand, ha.encryptionMaterials] at h
    cases hloc : r.srcLocations[i]? with
    | none => exact .inl (List.getElem?_eq_none_iff.mp hloc)
    | some sourceLocation =>
      rw [hloc] at h
      cases hmat : r.encryptionMaterials[i]? <;> simp [hmat] at h
  | cons answer answers ih =>
    rw [initFileMetadata, ha.srcLocations, ha.command, hcommand, ha.encryptionMaterials] at h
    cases hloc : r.srcLocations[i]? with
    | none => exact .inl (List.getElem?_eq_none_iff.mp hloc)
    | some sourceLocation =>
      cases hmat : r.encryptionMaterials[i]? with
      | none => simp [hloc, hmat] at h
      | some material =>
        obtain ⟨hi, -⟩ := List.getElem?_eq_some_iff.mp hmat
        have hpop' : SameCommand
            (a.populateSrcLocDownloadMetadata sourceLocation answer).response r := by
          rw [populate_response]
          exact ha
        simp only [hloc, hmat] at h
        split at h
        · obtain ⟨a₁, hrenew, ha₁, -⟩ := renewToken_ok henv hstage hpop'
          rw [hrenew] at h
          exact ih i ha₁ h
        · rcases ih (i + 1) hpop' h with hle | hle
          · exact .inr (by omega)
          · exact .inr hle

/-! ## The transfers -/

theorem transferFile_ok (henv : Replaces env r) (hstage : Supported r)
    (attempts : List RemoteStorageRequestOutcome) (hend : ∃ o ∈ attempts, o ≠ .tokenExpired)
    (ha : SameCommand a.response r) :
    ∃ a' outcome, transferFile env attempts a = .ok (a', outcome) ∧
      SameCommand a'.response r := by
  induction attempts generalizing a with
  | nil =>
    obtain ⟨o, ho, -⟩ := hend
    cases ho
  | cons outcome attempts ih =>
    rw [transferFile]
    by_cases hexpired : outcome = .tokenExpired
    · obtain ⟨a₁, hrenew, ha₁, -⟩ := renewToken_ok henv hstage ha
      have hend' : ∃ o ∈ attempts, o ≠ .tokenExpired := by
        obtain ⟨o, ho, hne⟩ := hend
        rcases List.mem_cons.mp ho with rfl | ho
        · exact absurd hexpired hne
        · exact ⟨o, ho, hne⟩
      rw [if_pos hexpired, hrenew]
      exact ih hend' ha₁
    · rw [if_neg hexpired]
      exact ⟨a, outcome, rfl, ha⟩

/-- Each file gets its row. -/
theorem transferFiles_ok (henv : Replaces env r) (hstage : Supported r)
    {attempts : Nat → List RemoteStorageRequestOutcome}
    (hend : ∀ i, ∃ o ∈ attempts i, o ≠ .tokenExpired) (i : Nat) (files : List TransferFile)
    (ha : SameCommand a.response r) :
    ∃ rows, transferFiles env attempts i files a = .ok rows ∧ rows.map ResultRow.file = files := by
  induction files generalizing i a with
  | nil => exact ⟨[], rfl, rfl⟩
  | cons file files ih =>
    obtain ⟨a₁, outcome, hfile, ha₁⟩ := transferFile_ok henv hstage (attempts i) (hend i) ha
    obtain ⟨rows, hrows, hmap⟩ := ih (i + 1) ha₁
    refine ⟨{ file, outcome } :: rows, ?_, congrArg (file :: ·) hmap⟩
    rw [transferFiles, hfile]
    dsimp only
    rw [hrows]
    rfl

/-! ## The main result -/

/-- The files whose requests succeeded. -/
def foundFiles (r : PutGetParseResponse) (answers : List MetadataAnswer) : List TransferFile :=
  (r.srcLocations.zip (finalAnswers answers)).filterMap (fileOf r.stageInfo.location)

/-- What `execute` needs to return a result. -/
structure Executable (env : AgentEnv) (r : PutGetParseResponse) : Prop where
  stage : Supported r
  materials : r.srcLocations.length ≤ r.encryptionMaterials.length
  directory : env.createDirectory r.localLocation = 0

/-- Then the rows are those of the files that were found, large ones first. -/
theorem execute_ok (henv : Replaces env r) (hcommand : r.command = .download)
    (hexec : Executable env r) {answers : List MetadataAnswer}
    (hanswers : r.srcLocations.length ≤ (finalAnswers answers).length)
    {attempts : Nat → List RemoteStorageRequestOutcome}
    (hend : ∀ i, ∃ o ∈ attempts i, o ≠ .tokenExpired) (a : FileTransferAgent) :
    ∃ rows, a.execute env answers attempts = .ok rows ∧
      (rows.map ResultRow.file).Perm (foundFiles r answers) := by
  obtain ⟨new, hparse, hnew⟩ := henv a.reset.parses a.reset.response
  have hclient : getClient new.stageInfo = .ok () :=
    (getClient_congr hnew.stageType).trans hexec.stage
  obtain ⟨a₂, hinit, ha₂, hadds⟩ := initFileMetadata_ok
    (a := { a.reset with response := new, parses := a.reset.parses + 1 }) henv hexec.stage hcommand
    hexec.materials answers 0 hnew (by simpa using hanswers)
  obtain ⟨rows, hrows, hfiles⟩ := transferFiles_ok henv hexec.stage hend 0
    (a₂.largeFilesMeta ++ a₂.smallFilesMeta) ha₂
  refine ⟨rows, ?_, ?_⟩
  · simp only [FileTransferAgent.execute, FileTransferAgent.parse, hparse, hclient, hinit,
      ha₂.command, hcommand, FileTransferAgent.download, ha₂.localLocation, hexec.directory]
    exact hrows
  · rw [hfiles, hadds.large, hadds.small]
    exact List.filter_append_perm isLarge _

/-- A result is returned only then. -/
theorem executable_of_ok (henv : Replaces env r) (hcommand : r.command = .download)
    {answers : List MetadataAnswer} {attempts : Nat → List RemoteStorageRequestOutcome}
    {rows : List ResultRow} (h : a.execute env answers attempts = .ok rows)
    (hanswers : r.srcLocations.length ≤ (finalAnswers answers).length) : Executable env r := by
  obtain ⟨new, hparse, hnew⟩ := henv a.reset.parses a.reset.response
  have hstage : Supported r := by
    cases hclient : getClient new.stageInfo with
    | error stop => simp [FileTransferAgent.execute, FileTransferAgent.parse, hparse, hclient] at h
    | ok u => exact (getClient_congr hnew.stageType).symm.trans hclient
  have hclient : getClient new.stageInfo = .ok () := (getClient_congr hnew.stageType).trans hstage
  cases hinit : initFileMetadata env 0 answers
    { a.reset with response := new, parses := a.reset.parses + 1 } with
  | error stop =>
    simp [FileTransferAgent.execute, FileTransferAgent.parse, hparse, hclient, hinit] at h
  | ok a₂ =>
    have hmaterials : r.srcLocations.length ≤ r.encryptionMaterials.length := by
      rcases initFileMetadata_materials henv hstage hcommand answers 0 hnew hinit with hle | hle
      · omega
      · exact hle
    obtain ⟨a₃, hinit', ha₃, -⟩ := initFileMetadata_ok
      (a := { a.reset with response := new, parses := a.reset.parses + 1 }) henv hstage hcommand
      hmaterials answers 0 hnew (by simpa using hanswers)
    obtain rfl : a₂ = a₃ := Except.ok.inj (hinit.symm.trans hinit')
    refine ⟨hstage, hmaterials, ?_⟩
    by_contra hdir
    simp [FileTransferAgent.execute, FileTransferAgent.parse, hparse, hclient, hinit,
      ha₃.command, hcommand, FileTransferAgent.download, ha₃.localLocation, hdir] at h

theorem map_snd_zip_eq_take {α β : Type} (xs : List α) (ys : List β) :
    (xs.zip ys).map Prod.snd = ys.take xs.length := by
  induction xs generalizing ys with
  | nil => simp
  | cons x xs ih => cases ys <;> simp [ih]

/-- All requests succeeded in the end. -/
def AllFound (r : PutGetParseResponse) (answers : List MetadataAnswer) : Prop :=
  ∀ answer ∈ (finalAnswers answers).take r.srcLocations.length, answer.outcome = .success

variable {answers : List MetadataAnswer}

instance : Decidable (AllFound r answers) :=
  inferInstanceAs (Decidable (∀ answer ∈ (finalAnswers answers).take r.srcLocations.length,
    answer.outcome = .success))

theorem allFound_iff : AllFound r answers ↔
    ∀ p ∈ r.srcLocations.zip (finalAnswers answers), p.2.outcome = .success := by
  rw [AllFound, ← map_snd_zip_eq_take]
  simp only [List.mem_map, forall_exists_index, and_imp, forall_apply_eq_imp_iff₂]

theorem length_foundFiles_iff (hanswers : r.srcLocations.length ≤ (finalAnswers answers).length) :
    (foundFiles r answers).length = r.srcLocations.length ↔ AllFound r answers := by
  have hzip : (r.srcLocations.zip (finalAnswers answers)).length = r.srcLocations.length := by
    rw [List.length_zip]
    omega
  rw [allFound_iff, ← hzip, foundFiles, List.filterMap_length_eq_length]
  refine forall₂_congr fun p _ => ?_
  unfold fileOf
  split <;> simp_all

theorem names_foundFiles (hanswers : r.srcLocations.length ≤ (finalAnswers answers).length)
    (hall : AllFound r answers) :
    (foundFiles r answers).map TransferFile.srcFileName =
      r.srcLocations.map (r.stageInfo.location ++ ·) := by
  have hsome : ∀ p ∈ r.srcLocations.zip (finalAnswers answers),
      (fileOf r.stageInfo.location p).map TransferFile.srcFileName =
        some (r.stageInfo.location ++ p.1) := by
    intro p hp
    rw [fileOf, if_pos (allFound_iff.mp hall p hp)]
    rfl
  calc (foundFiles r answers).map TransferFile.srcFileName
      = (r.srcLocations.zip (finalAnswers answers)).filterMap
          fun p => (fileOf r.stageInfo.location p).map TransferFile.srcFileName :=
        List.map_filterMap ..
    _ = (r.srcLocations.zip (finalAnswers answers)).map fun p => r.stageInfo.location ++ p.1 := by
        rw [List.filterMap_congr hsome]
        exact List.filterMap_eq_map_iff_forall_eq_some.mpr fun _ _ => rfl
    _ = r.srcLocations.map (r.stageInfo.location ++ ·) := by
        have hfst := congrArg (List.map (r.stageInfo.location ++ ·)) (List.map_fst_zip hanswers)
        rwa [List.map_map] at hfst

/-- One row for each source location exactly if all metadata requests succeeded in the end, and
`execute` does not throw. -/
theorem get_rows_iff (env : AgentEnv) (r : PutGetParseResponse) (henv : Replaces env r)
    (hcommand : r.command = .download) (answers : List MetadataAnswer)
    (hanswers : r.srcLocations.length ≤ (finalAnswers answers).length)
    (attempts : Nat → List RemoteStorageRequestOutcome)
    (hend : ∀ i, ∃ o ∈ attempts i, o ≠ .tokenExpired) (a : FileTransferAgent) :
    OneRowEach r answers (a.execute env answers attempts) ↔
      Executable env r ∧ AllFound r answers := by
  constructor
  · rintro ⟨rows, hrows, hperm, -⟩
    have hexec := executable_of_ok henv hcommand hrows hanswers
    refine ⟨hexec, (length_foundFiles_iff hanswers).mp ?_⟩
    obtain ⟨rows', hrows', hfiles⟩ := execute_ok henv hcommand hexec hanswers hend a
    obtain rfl : rows = rows' := Except.ok.inj (hrows.symm.trans hrows')
    calc (foundFiles r answers).length = (rows.map ResultRow.file).length := hfiles.length_eq.symm
      _ = (rows.map fun row => row.file.srcFileName).length := by simp
      _ = r.srcLocations.length := by simpa using hperm.length_eq
  · rintro ⟨hexec, hall⟩
    obtain ⟨rows, hrows, hfiles⟩ := execute_ok henv hcommand hexec hanswers hend a
    refine ⟨rows, hrows, ?_, fun p hp hfail => absurd (allFound_iff.mp hall p hp) hfail⟩
    have hnames := hfiles.map TransferFile.srcFileName
    rw [names_foundFiles hanswers hall, List.map_map] at hnames
    exact hnames

/-! ### Two locations -/

/-- The response to `GET @stage file:///tmp`, which lists two files. -/
def twoFiles : PutGetParseResponse where
  parallel := 4
  autoCompress := false
  overwrite := false
  clientShowEncryptionParameter := false
  sourceCompression := "NONE"
  localLocation := "/tmp"
  command := .download
  srcLocations := ["a.csv.gz", "b.csv.gz"]
  encryptionMaterials :=
    [{ queryStageMasterKey := "3dOoaBhkB1wSw4hyfA5DJw==", queryId := "1", smkId := 1 },
      { queryStageMasterKey := "3dOoaBhkB1wSw4hyfA5DJw==", queryId := "2", smkId := 1 }]
  stageInfo :=
    { stageType := .s3, location := "bucket/stage/", path := "stage/", region := "us-west-2",
      credentials := [] }

/-- A statement that answers with it, and a clock that is far on. -/
def twoFilesEnv : AgentEnv where
  parse _ _ := some (twoFiles, true)
  time k := 1000000000 + 1000 * k
  createDirectory _ := 0
  uploadFiles _ := .ok []

theorem twoFilesEnv_replaces : Replaces twoFilesEnv twoFiles :=
  fun _ _ => ⟨twoFiles, rfl, rfl, rfl, rfl, rfl, rfl, rfl⟩

/-- The token expires before the second answer: both files have a row. -/
theorem get_rows_iff_expired :
    OneRowEach twoFiles [⟨.success, 10⟩, ⟨.tokenExpired, 0⟩, ⟨.success, 6000000⟩]
      ((FileTransferAgent.new twoFiles).execute twoFilesEnv
        [⟨.success, 10⟩, ⟨.tokenExpired, 0⟩, ⟨.success, 6000000⟩] fun _ => [.success]) :=
  (get_rows_iff twoFilesEnv twoFiles twoFilesEnv_replaces rfl _ (by decide) _
    (fun _ => ⟨.success, List.mem_singleton.mpr rfl, by decide⟩) _).mpr
    ⟨⟨rfl, by decide, rfl⟩, by decide⟩

/-- The metadata request of the first file fails: the result has one row, of the second file. -/
theorem failed_file_has_no_row :
    (FileTransferAgent.new twoFiles).execute twoFilesEnv [⟨.failed, 0⟩, ⟨.success, 10⟩]
        (fun _ => [.success]) =
      .ok [{ file := { srcFileName := "bucket/stage/b.csv.gz", destFileName := "b.csv.gz",
                       srcFileSize := 10 }, outcome := .success }] ∧
      ¬ OneRowEach twoFiles [⟨.failed, 0⟩, ⟨.success, 10⟩]
        ((FileTransferAgent.new twoFiles).execute twoFilesEnv [⟨.failed, 0⟩, ⟨.success, 10⟩]
          fun _ => [.success]) := by
  have hrows : (FileTransferAgent.new twoFiles).execute twoFilesEnv
      [⟨.failed, 0⟩, ⟨.success, 10⟩] (fun _ => [.success]) =
      .ok [{ file := { srcFileName := "bucket/stage/b.csv.gz", destFileName := "b.csv.gz",
                       srcFileSize := 10 }, outcome := .success }] := by
    decide
  refine ⟨hrows, ?_⟩
  rintro ⟨rows, heq, hperm, -⟩
  rw [hrows] at heq
  obtain rfl := Except.ok.inj heq
  have hlen := hperm.length_eq
  revert hlen
  decide

end Snowflake
