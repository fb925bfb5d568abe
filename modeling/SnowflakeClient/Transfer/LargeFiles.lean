import SnowflakeClient.Transfer.Parallel

/-!
# The transfer of the large files

The loop over the large files has written the rows before its index (`LargeInv`); going back by one
and adding one again leaves the index where it is, at 0 too. So the rows of the large files are
final after it (`transferLargeFiles_inv`), and it comes to an end if the token expires finitely
often (`transferLargeFiles_returns`).
-/

namespace Snowflake
namespace ParallelTransfer

open CInt Prog

/-! ## Writing to the arrays -/

section Write

variable {α : Type} {array array' : List α} {index : Nat} {value : α}

theorem writeAt_of_lt (h : index < array.length) :
    writeAt array index value = some (array.set index value) := if_pos h

theorem writeAt_eq_some (h : writeAt array index value = some array') :
    index < array.length ∧ array' = array.set index value := by
  rw [writeAt] at h
  split_ifs at h with hlt
  exact ⟨hlt, (Option.some.inj h).symm⟩

end Write

theorem incU64_subU64_one {i : Nat} (h : i < 2 ^ 64) : incU64 (subU64 i 1) = i := by
  rw [incU64, subU64]
  omega

/-! ## The attempts -/

section Attempts

variable {log log' : List Attempt} {file row : Nat} {outcome : RemoteStorageRequestOutcome}

theorem attemptsFor_append :
    attemptsFor row (log ++ log') = attemptsFor row log ++ attemptsFor row log' := by
  simp [attemptsFor]

theorem attemptsFor_self : attemptsFor file [⟨file, outcome⟩] = [outcome] := by
  simp [attemptsFor]

theorem attemptsFor_of_ne (h : row ≠ file) : attemptsFor row [⟨file, outcome⟩] = [] := by
  simp [attemptsFor, h.symm]

theorem Expired.zero (answers : Answers) (file : Nat) : Expired answers file 0 :=
  fun k hk => absurd hk (Nat.not_lt_zero k)

theorem Expired.succ {answers : Answers} {attempt : Nat} (h : Expired answers file attempt)
    (hexpired : answers file attempt = .tokenExpired) : Expired answers file (attempt + 1) := by
  intro k hk
  rcases Nat.lt_succ_iff_lt_or_eq.mp hk with hlt | rfl
  · exact h k hlt
  · exact hexpired

end Attempts

/-! ## The loop -/

section Large

variable {env : AgentEnv} {answers : Answers} {large : List TransferFile} {st : TransferState}
  {file : TransferFile} {fuel i attempt index total row : Nat} {F : Prop}

/-- The state after an attempt for a file. -/
def TransferState.attempted (st : TransferState) (index i : Nat) (file : TransferFile)
    (outcome : RemoteStorageRequestOutcome) : TransferState where
  fileMetadatas := st.fileMetadatas.set index (some file)
  outcomes := st.outcomes.set index (some outcome)
  agent := st.agent
  log := st.log ++ [⟨i, outcome⟩]

theorem setFileMetadata_rule {Q : Unit → TransferState → Prop}
    (hin : index < st.fileMetadatas.length →
      Q () { st with fileMetadatas := st.fileMetadatas.set index (some file) })
    (hout : ¬ index < st.fileMetadatas.length → F) :
    Triple (setFileMetadata file index) st Q fun _ => F := by
  unfold Triple setFileMetadata writeAt
  by_cases h : index < st.fileMetadatas.length
  · rw [if_pos h]
    exact hin h
  · rw [if_neg h]
    exact hout h

theorem transferSingleFile_rule {Q : RemoteStorageRequestOutcome → TransferState → Prop}
    (hin : index < st.outcomes.length → Q (answers i attempt)
      { st with
        outcomes := st.outcomes.set index (some (answers i attempt))
        log := st.log ++ [⟨i, answers i attempt⟩] })
    (hout : ¬ index < st.outcomes.length → F) :
    Triple (transferSingleFile answers i attempt index) st Q fun _ => F := by
  unfold Triple transferSingleFile writeAt
  dsimp only
  by_cases h : index < st.outcomes.length
  · rw [if_pos h]
    exact hin h
  · rw [if_neg h]
    exact hout h

theorem Renews.renewToken (h : Renews env) (a : FileTransferAgent) :
    ∃ a', a.renewToken env = (.ok (), a') :=
  ⟨(a.renewToken env).2, Prod.ext (h a) rfl⟩

theorem renewToken_rule {Q : Unit → TransferState → Prop}
    (hok : ∀ agent, Q () { st with agent }) (hstop : ¬ Renews env → F) :
    Triple (renewToken env) st Q fun _ => F := by
  unfold Triple renewToken
  match h : st.agent.renewToken env with
  | (.ok (), agent) => exact hok agent
  | (.error stop, agent) =>
    refine hstop fun hrenews => ?_
    have hok := hrenews st.agent
    rw [h] at hok
    cases hok

/-- One round of the loop. -/
theorem transferLargeFiles_rule {Q : Unit → TransferState → Prop} (hfile : large[i]? = some file)
    (hout : ¬ (toU32 i < st.fileMetadatas.length ∧ toU32 i < st.outcomes.length) → F)
    (hstop : ¬ Renews env → F)
    (hexpired : toU32 i < st.fileMetadatas.length → toU32 i < st.outcomes.length →
      answers i attempt = .tokenExpired → ∀ agent,
      Triple (transferLargeFiles env answers large fuel (incU64 (subU64 i 1)) (attempt + 1))
        { st.attempted (toU32 i) i file (answers i attempt) with agent } Q fun _ => F)
    (hfinal : toU32 i < st.fileMetadatas.length → toU32 i < st.outcomes.length →
      answers i attempt ≠ .tokenExpired →
      Triple (transferLargeFiles env answers large fuel (incU64 i) 0)
        (st.attempted (toU32 i) i file (answers i attempt)) Q fun _ => F) :
    Triple (transferLargeFiles env answers large (fuel + 1) i attempt) st Q fun _ => F := by
  unfold transferLargeFiles
  rw [hfile]
  refine Triple.bind (setFileMetadata_rule
    (Q := fun _ s => s = { st with fileMetadatas := st.fileMetadatas.set (toU32 i) (some file) } ∧
      toU32 i < st.fileMetadatas.length)
    (fun h => ⟨rfl, h⟩) (fun h => hout fun hboth => h hboth.1)) ?_
  rintro - s ⟨rfl, hmeta⟩
  refine Triple.bind (transferSingleFile_rule
    (Q := fun outcome s => outcome = answers i attempt ∧
      s = st.attempted (toU32 i) i file (answers i attempt) ∧ toU32 i < st.outcomes.length)
    (fun h => ⟨rfl, rfl, h⟩) (fun h => hout fun hboth => h hboth.2)) ?_
  rintro outcome s ⟨rfl, rfl, houtcome⟩
  split_ifs with h
  · refine Triple.bind (renewToken_rule
      (Q := fun _ s => ∃ agent,
        s = { st.attempted (toU32 i) i file (answers i attempt) with agent })
      (fun agent => ⟨agent, rfl⟩) hstop) ?_
    rintro - s ⟨agent, rfl⟩
    exact hexpired hmeta houtcome h agent
  · exact hfinal hmeta houtcome h

/-- After the end of the loop. -/
theorem transferLargeFiles_end {Q : Unit → TransferState → Prop} {E : TransferState → Prop}
    (hfile : large[i]? = none) (h : Q () st) :
    Triple (transferLargeFiles env answers large (fuel + 1) i attempt) st Q E := by
  unfold transferLargeFiles
  rw [hfile]
  exact Triple.pure h

/-- The sizes of the arrays do not change. -/
theorem transferLargeFiles_length (fuel : Nat) {i attempt : Nat} {st : TransferState} :
    Triple (transferLargeFiles env answers large fuel i attempt) st
      (fun _ st' => st'.fileMetadatas.length = st.fileMetadatas.length) fun _ => True := by
  induction fuel generalizing i attempt st with
  | zero => exact Triple.stop trivial
  | succ fuel ih =>
    have hsize : ∀ file outcome agent,
        { st.attempted (toU32 i) i file outcome with agent }.fileMetadatas.length =
          st.fileMetadatas.length := fun _ _ _ => List.length_set
    cases hfile : large[i]? with
    | none => exact transferLargeFiles_end hfile rfl
    | some file =>
      refine transferLargeFiles_rule hfile (fun _ => trivial) (fun _ => trivial)
        (fun _ _ _ agent => ?_) (fun _ _ _ => ?_)
      · rw [← hsize file (answers i attempt) agent]
        exact ih
      · rw [← hsize file (answers i attempt) st.agent]
        exact ih

/-- The invariant (module doc) before an attempt for the file `i`. -/
structure LargeInv (files : List TransferFile) (answers : Answers) (large total i attempt : Nat)
    (st : TransferState) : Prop where
  metadatas : st.fileMetadatas.length = total
  outcomes : st.outcomes.length = total
  inside : attempt ≠ 0 → i < large
  expired : Expired answers i attempt
  done : ∀ row < i, RowFinal files answers st.toResultTable st.log row
  current : attemptsFor i st.log = (List.range attempt).map (answers i)
  later : ∀ row, i < row → attemptsFor row st.log = []

namespace LargeInv

variable {files : List TransferFile} {n : Nat}

/-- The rows before the index are left alone. -/
theorem done_attempted (h : LargeInv files answers n total i attempt st) (hrow : row < i) :
    RowFinal files answers
      (st.attempted i i file (answers i attempt)).toResultTable
      (st.attempted i i file (answers i attempt)).log row := by
  obtain ⟨hmeta, last, hlast, houtcome, hfinal⟩ := h.done row hrow
  have hne : i ≠ row := by omega
  refine ⟨?_, last, ?_, ?_, hfinal⟩
  · rw [← hmeta]
    exact List.getElem?_set_ne hne
  · rw [← hlast, TransferState.attempted, attemptsFor_append, attemptsFor_of_ne hne.symm,
      List.append_nil]
  · rw [← houtcome]
    exact List.getElem?_set_ne hne

theorem current_attempted (h : LargeInv files answers n total i attempt st) (file : TransferFile) :
    attemptsFor i (st.attempted i i file (answers i attempt)).log =
      (List.range (attempt + 1)).map (answers i) := by
  rw [TransferState.attempted, attemptsFor_append, h.current, attemptsFor_self, List.range_succ,
    List.map_append]
  rfl

theorem later_attempted (h : LargeInv files answers n total i attempt st) (file : TransferFile)
    (hrow : i < row) :
    attemptsFor row (st.attempted i i file (answers i attempt)).log = [] := by
  rw [TransferState.attempted, attemptsFor_append, h.later row hrow, attemptsFor_of_ne (by omega)]
  rfl

/-- The token has expired: another attempt for the same file. -/
theorem again (h : LargeInv files answers n total i attempt st) (hi : i < n)
    (hexpired : answers i attempt = .tokenExpired) (agent : FileTransferAgent) :
    LargeInv files answers n total i (attempt + 1)
      { st.attempted i i file (answers i attempt) with agent } where
  metadatas := List.length_set.trans h.metadatas
  outcomes := List.length_set.trans h.outcomes
  inside _ := hi
  expired := h.expired.succ hexpired
  done _ hrow := h.done_attempted hrow
  current := h.current_attempted file
  later _ hrow := h.later_attempted file hrow

/-- The last attempt for the file. -/
theorem final (h : LargeInv files answers n total i attempt st) (hi : i < total)
    (hfile : files[i]? = some file) (hlast : answers i attempt ≠ .tokenExpired) :
    LargeInv files answers n total (i + 1) 0 (st.attempted i i file (answers i attempt)) where
  metadatas := List.length_set.trans h.metadatas
  outcomes := List.length_set.trans h.outcomes
  inside hne := absurd rfl hne
  expired := .zero answers (i + 1)
  done row hrow := by
    rcases Nat.lt_succ_iff_lt_or_eq.mp hrow with hlt | rfl
    · exact h.done_attempted hlt
    · refine ⟨?_, attempt, h.current_attempted file, ?_, h.expired, hlast⟩
      · rw [hfile]
        exact List.getElem?_set_self (h.metadatas.symm ▸ hi)
      · exact List.getElem?_set_self (h.outcomes.symm ▸ hi)
  current := h.later_attempted file (Nat.lt_succ_self i)
  later row hrow := h.later_attempted file (by omega)

end LargeInv

/-- The loop keeps the invariant, so after it the rows of the large files are final and the small
ones were not tried. -/
theorem transferLargeFiles_inv {files : List TransferFile} (hfiles : large <+: files)
    (htotal : large.length ≤ total) (hsize : total < 2 ^ 32) (fuel : Nat) {i attempt : Nat}
    {st : TransferState} (h : LargeInv files answers large.length total i attempt st)
    (hi : i ≤ large.length) :
    Triple (transferLargeFiles env answers large fuel i attempt) st
      (fun _ st' => LargeInv files answers large.length total large.length 0 st')
      fun _ => True := by
  induction fuel generalizing i attempt st with
  | zero => exact Triple.stop trivial
  | succ fuel ih =>
    cases hfile : large[i]? with
    | none =>
      have hle : large.length ≤ i := List.getElem?_eq_none_iff.mp hfile
      obtain rfl : i = large.length := by omega
      obtain rfl : attempt = 0 := by
        by_contra hne
        exact absurd (h.inside hne) (lt_irrefl _)
      exact transferLargeFiles_end hfile h
    | some file =>
      obtain ⟨hlt, -⟩ := List.getElem?_eq_some_iff.mp hfile
      have hfile' : files[i]? = some file := by
        obtain ⟨rest, rfl⟩ := hfiles
        rw [List.getElem?_append_left hlt, hfile]
      refine transferLargeFiles_rule hfile (fun _ => trivial) (fun _ => trivial)
        (fun _ _ hexp agent => ?_) (fun _ _ hexp => ?_)
      · rw [toU32_natCast (by omega), incU64_subU64_one (by omega)]
        exact ih (h.again hlt hexp agent) hi
      · rw [toU32_natCast (by omega), incU64_of_lt hlt (by omega)]
        exact ih (h.final (by omega) hfile' hexp) hlt

theorem FinitelyExpired.exists_bound (h : FinitelyExpired answers) (file : Nat) :
    ∃ bound, ∀ attempt, answers file attempt = .tokenExpired → attempt < bound := by
  obtain ⟨bound, hbound⟩ := (h file).bddAbove
  exact ⟨bound + 1, fun attempt hexpired => Nat.lt_succ_of_le (hbound hexpired)⟩

/-- The loop comes to an end from here, with result arrays of size `total`. -/
def LoopReturns (env : AgentEnv) (answers : Answers) (large : List TransferFile)
    (total i attempt : Nat) : Prop :=
  ∃ fuel, ∀ st : TransferState, st.fileMetadatas.length = total → st.outcomes.length = total →
    Triple (transferLargeFiles env answers large fuel i attempt) st (fun _ _ => True) fun _ => False

theorem LoopReturns.end_of_files (hfile : large[i]? = none) :
    LoopReturns env answers large total i attempt :=
  ⟨1, fun _ _ _ => transferLargeFiles_end hfile trivial⟩

/-- One round more. -/
theorem LoopReturns.round (hrenews : Renews env) (htotal : large.length ≤ total)
    (hsize : total < 2 ^ 32) (hfile : large[i]? = some file)
    (hexpired : answers i attempt = .tokenExpired →
      LoopReturns env answers large total i (attempt + 1))
    (hfinal : answers i attempt ≠ .tokenExpired → LoopReturns env answers large total (i + 1) 0) :
    LoopReturns env answers large total i attempt := by
  obtain ⟨hlt, -⟩ := List.getElem?_eq_some_iff.mp hfile
  have hin : ∀ st : TransferState, st.fileMetadatas.length = total → st.outcomes.length = total →
      ¬ (toU32 i < st.fileMetadatas.length ∧ toU32 i < st.outcomes.length) → False := by
    intro st hmeta hout h
    rw [toU32_natCast (by omega), hmeta, hout] at h
    exact h ⟨by omega, by omega⟩
  by_cases h : answers i attempt = .tokenExpired
  · obtain ⟨fuel, hfuel⟩ := hexpired h
    refine ⟨fuel + 1, fun st hmeta hout => transferLargeFiles_rule hfile (hin st hmeta hout)
      (fun h => h hrenews) (fun _ _ _ agent => ?_) (fun _ _ hne => absurd h hne)⟩
    rw [incU64_subU64_one (by omega)]
    exact hfuel _ (List.length_set.trans hmeta) (List.length_set.trans hout)
  · obtain ⟨fuel, hfuel⟩ := hfinal h
    refine ⟨fuel + 1, fun st hmeta hout => transferLargeFiles_rule hfile (hin st hmeta hout)
      (fun h => h hrenews) (fun _ _ heq => absurd heq h) (fun _ _ _ => ?_)⟩
    rw [incU64_of_lt hlt (by omega)]
    exact hfuel _ (List.length_set.trans hmeta) (List.length_set.trans hout)

/-- The loop returns: with each round there is one attempt less that can find the token expired, or
one file less. -/
theorem transferLargeFiles_returns (hexp : FinitelyExpired answers) (hrenews : Renews env)
    (htotal : large.length ≤ total) (hsize : total < 2 ^ 32) (left i attempt : Nat)
    (hleft : large.length ≤ i + left) : LoopReturns env answers large total i attempt := by
  induction left generalizing i attempt with
  | zero => exact .end_of_files (List.getElem?_eq_none_iff.mpr hleft)
  | succ left ih =>
    obtain ⟨bound, hbound⟩ := hexp.exists_bound i
    -- by induction on the attempts that can still find the token expired
    induction hn : bound - attempt using Nat.strongRecOn generalizing attempt with
    | _ n ihn =>
      cases hfile : large[i]? with
      | none => exact .end_of_files hfile
      | some file =>
        refine .round hrenews htotal hsize hfile (fun hexpired => ?_) fun _ => ?_
        · have hattempt := hbound attempt hexpired
          exact ihn (bound - (attempt + 1)) (by omega) (attempt + 1) rfl
        · exact ih (i + 1) 0 (by omega)

end Large

end ParallelTransfer
end Snowflake
