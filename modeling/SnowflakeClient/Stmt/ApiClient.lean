import SnowflakeClient.Stmt.Api
import SnowflakeClient.Chunks.Moves

/-!
# The chunk downloader among the calls of a statement

`Stmt/Api.lean` lets the threads of the downloader do anything to it that keeps `has_error`, and
record an error at any time. `Chunks/Model.lean` has those threads. Its steps between two executes
are steps of the calls: `Simulates` relates the states, `client_simulated` is the step and
`client_run_simulated` the run. The statement is the same, and so is what the fetches return.

`snowflake_execute` itself is `executeData` in the one and `executeEx` in the other, which are the
same function when the locks can be made (`executeEx_eq_executeData`). So the calls follow a query
that the server answers, too (`execute_simulated`, `query_run_simulated`).
-/

namespace Snowflake

open CInt Conc

/-- Both models of a reply with `success: true`. -/
theorem executeEx_eq_executeData {Row : Type} (threadCount : Nat) (r : Reply Row) (s : Stmt Row) :
    executeEx threadCount false r s =
      ((executeData threadCount true r { s with errorCode := .success }).1.getD .success,
        (executeData threadCount true r { s with errorCode := .success }).2) := by
  unfold executeEx executeData
  cases r.rowset with
  | none => rfl
  | some rowset =>
    cases r.chunks with
    | none => rfl
    | some chunks =>
      have hlocks : (chunks.isSome && !true) = false := by simp
      simp only [Bool.false_eq_true, if_false, hlocks]
      generalize chunkDownloaderInit threadCount 4 chunks = init
      cases init <;> rfl

variable {N K : Nat}

/-- Where the calling thread is. -/
def Client.apiPc (c : Client N K Json) : ApiPc :=
  match c.fetcher, c.init with
  | .asleep index, _ | .notified index, _ => .waiting index
  | .idle, .done => .idle
  | .idle, _ => .creating

/-- The calls are where the client is, and no thread is between the two writes. -/
structure Simulates (c : Client N K Json) (a : Api) : Prop where
  stmt : a.stmt = c.stmt
  recording : a.recording = false
  pc : a.pc = c.apiPc
  call : c.fetcher = .idle ∨ c.init = .done

/-- The steps between two executes. A download that fails has an error to record. -/
def Event.between : Event N K Json → Bool
  | .execute _ => false
  | .downloadFail _ err => err.code != 0
  | _ => true

/-- What the fetches of a client return. -/
def Output.fetchStatus : Output N Json → Option Status
  | .fetchReturns status _ => some status
  | _ => none

def Returned.fetchStatus (r : Returned) : Option Status :=
  match r.call with
  | .fetch => some r.status
  | .execute => none

/-! ## The steps that the calls take -/

section Step

variable {a a' : Api} {d : ChunkDownloader Json}

theorem step_executeEnter (hpc : a.pc = .idle) : api.step a .executeEnter =
    some ({ a with stmt := { a.stmt with errorCode := .success }, pc := .executing }, []) := by
  change a.callStep a.pc .executeEnter = _
  rw [hpc]
  rfl

theorem step_executeReply (hpc : a.pc = .executing) {pg locks : Bool} {fuel : Nat}
    {attempts : List Attempt} (h : a.executeReply pg fuel attempts locks = some a') :
    api.step a (.executeReply pg fuel attempts locks) = some (a', []) := by
  change a.callStep a.pc (.executeReply pg fuel attempts locks) = _
  rw [hpc]
  exact congrArg (Option.map fun a => (a, [])) h

theorem step_created (hpc : a.pc = .creating) :
    api.step a .created = some (a.returns .execute .success a.stmt, []) := by
  change a.callStep a.pc .created = _
  rw [hpc]
  rfl

theorem step_fetchEnter (hpc : a.pc = .idle) :
    api.step a .fetchEnter = some ({ a with stmt := fetchEnter a.stmt, pc := .fetching }, []) := by
  change a.callStep a.pc .fetchEnter = _
  rw [hpc]
  rfl

theorem step_fetchCheck (hpc : a.pc = .fetching) (hrec : a.recording = false) :
    api.step a .fetchCheck = some (a.fetchCheck, []) := by
  change a.callStep a.pc .fetchCheck = _
  rw [hpc]
  exact if_neg (Bool.eq_false_iff.mp hrec)

/-- The locked region of `snowflake_fetch`. -/
theorem step_fetchLock (signalled : Bool) (hpc : a.pc = .locking) (hrec : a.recording = false)
    (hd : a.stmt.chunkDownloader = some d) :
    api.step a (.fetchLock signalled) =
      if d.queueSize ≤ d.consumerHead then
        some (a.returns .fetch .eof { a.stmt with rawResults := none }, [])
      else (a.fetchAt d d.consumerHead signalled).map fun a => (a, []) := by
  change a.callStep a.pc (.fetchLock signalled) = _
  rw [hpc]
  unfold Api.callStep
  rw [hrec, hd]

theorem step_fetchWake (signalled : Bool) {index : Nat} (hpc : a.pc = .waiting index)
    (hrec : a.recording = false) (hd : a.stmt.chunkDownloader = some d) :
    api.step a (.fetchWake signalled) =
      (a.fetchAt d index signalled).map fun a => (a, []) := by
  change a.callStep a.pc (.fetchWake signalled) = _
  rw [hpc]
  unfold Api.callStep
  rw [hrec, hd]

theorem step_copyError (hd : a.stmt.chunkDownloader = some d) (hrec : a.recording = false)
    (herr : d.hasError = false) {err : Status} (hcode : err.code ≠ 0) :
    api.step a (.copyError err) =
      some ({ a with stmt := { a.stmt with errorCode := err }, recording := true }, []) := by
  change Api.step a (.copyError err) = _
  unfold Api.step
  rw [hd]
  exact if_neg (by simp [hrec, herr, hcode])

theorem step_flagError (hd : a.stmt.chunkDownloader = some d) (hrec : a.recording = true) :
    api.step a .flagError = some
      ({ a.setDownloader (some { d with hasError := true }) with recording := false }, []) := by
  change Api.step a .flagError = _
  unfold Api.step
  rw [hd]
  exact if_pos hrec

theorem step_background (hd : a.stmt.chunkDownloader = some d) {d' : ChunkDownloader Json}
    (herr : d'.hasError = d.hasError) :
    api.step a (.background d') = some (a.setDownloader (some d'), []) := by
  change Api.step a (.background d') = _
  unfold Api.step
  rw [hd]
  exact if_pos herr

theorem step_freed (hd : a.stmt.chunkDownloader = some d) (hrec : a.recording = false) :
    api.step a .freed = some (a.setDownloader none, []) := by
  change Api.step a .freed = _
  unfold Api.step
  rw [hd]
  exact if_neg (Bool.eq_false_iff.mp hrec)

end Step

/-! ## Steps of the other threads -/

section Background

/-- The other threads take the statement to `s`. -/
def Background (a : Api) (s : Stmt Json) : Prop := api.Run Machine.Any a [] { a with stmt := s }

variable {a : Api} {d : ChunkDownloader Json}

theorem Background.refl : Background a a.stmt := .nil

theorem Background.trans {s s' : Stmt Json} (h : Background a s)
    (h' : Background { a with stmt := s } s') : Background a s' := Machine.Run.trans h h'

theorem Background.change (hd : a.stmt.chunkDownloader = some d) {d' : ChunkDownloader Json}
    (herr : d'.hasError = d.hasError) :
    Background a { a.stmt with chunkDownloader := some d' } :=
  .snoc .nil trivial (step_background hd herr)

theorem Background.freed (hd : a.stmt.chunkDownloader = some d) (hrec : a.recording = false) :
    Background a { a.stmt with chunkDownloader := none } :=
  .snoc .nil trivial (step_freed hd hrec)

/-- The two writes of a thread that records an error. -/
theorem Background.record (hd : a.stmt.chunkDownloader = some d) (hrec : a.recording = false)
    (herr : d.hasError = false) {err : Status} (hcode : err.code ≠ 0) :
    Background a
      { a.stmt with errorCode := err, chunkDownloader := some { d with hasError := true } } := by
  have hcopy : api.Run Machine.Any a []
      { a with stmt := { a.stmt with errorCode := err }, recording := true } :=
    .snoc .nil trivial (step_copyError hd hrec herr hcode)
  have hflag := Machine.Run.snoc hcopy trivial (step_flagError (d := d) hd rfl)
  rw [← hrec] at hflag
  exact hflag

/-- `recordError`, after a change of the downloader that keeps `has_error`. -/
theorem Background.recordError {c : Client N K Json} (hs : a.stmt = c.stmt)
    (hrec : a.recording = false) (hd : c.stmt.chunkDownloader = some d)
    {d' : ChunkDownloader Json} (hkeep : d'.hasError = d.hasError) {err : Status}
    (hcode : err.code ≠ 0) : Background a (c.recordError d' err).stmt := by
  have hd₀ : a.stmt.chunkDownloader = some d := hs ▸ hd
  have hchange := Background.change hd₀ hkeep
  unfold Client.recordError
  cases herr : d'.hasError with
  | true => simpa [herr, Client.setDownloader, hs] using hchange
  | false =>
    have hrecord := hchange.trans
      (Background.record (a := { a with stmt := { a.stmt with chunkDownloader := some d' } })
        (d := d') rfl hrec herr hcode)
    simpa [herr, hs] using hrecord

theorem term_stmt (c : Client N K Json) (k : Fin K) (rc : BroadcastRc)
    (hshut : d.isShutdown = false) :
    (c.term d k rc).stmt = match rc with
      | .ok => { c.stmt with chunkDownloader := some { d with isShutdown := true } }
      | _ => (c.recordError { d with isShutdown := true } .errorPthread).stmt := by
  cases rc with
  | ok => simp [Client.term, hshut, Client.setDownloader]
  | consumerFails | producerFails =>
    cases herr : d.hasError <;>
      simp [Client.term, hshut, Client.recordError, herr, Client.setDownloader]

/-- The locked region of `chunk_downloader_term`. -/
theorem Background.term {c : Client N K Json} (hs : a.stmt = c.stmt) (hrec : a.recording = false)
    (hd : c.stmt.chunkDownloader = some d) (hshut : d.isShutdown = false) (k : Fin K)
    (rc : BroadcastRc) : Background a (c.term d k rc).stmt := by
  rw [term_stmt c k rc hshut]
  cases rc with
  | ok =>
    have hd₀ : a.stmt.chunkDownloader = some d := hs ▸ hd
    exact hs ▸ Background.change hd₀ rfl
  | consumerFails | producerFails =>
    have hkeep : ChunkDownloader.hasError { d with isShutdown := true } = d.hasError := rfl
    exact Background.recordError hs hrec hd hkeep (by decide)

end Background

/-! ## Fetches -/

section Fetch

variable {c : Client N K Json} {a : Api} {rc : SignalRc N} {d : ChunkDownloader Json}
  {e : Event N K Json} {s : Stmt Json} {i : Nat}

theorem Simulates.idle (h : Simulates c a) (hf : c.fetcher = .idle) (hi : c.init = .done) :
    a.pc = .idle := by
  rw [h.pc, Client.apiPc, hf, hi]

/-- In `snowflake_fetch`, after the error was cleared. -/
def Api.fetchEntered (a : Api) (s : Stmt Json) : Api :=
  { a with stmt := fetchEnter s, pc := .fetching }

/-- The start of a fetch, up to its look at the downloader. -/
theorem Simulates.fetchCheck_run (h : Simulates c a) (hf : c.fetcher = .idle)
    (hi : c.init = .done) : api.Run Machine.Any a [] (a.fetchEntered c.stmt).fetchCheck := by
  have henter : api.Run Machine.Any a [] (a.fetchEntered c.stmt) :=
    .snoc .nil trivial (h.stmt ▸ step_fetchEnter (h.idle hf hi))
  exact .snoc henter trivial (step_fetchCheck rfl h.recording)

/-! What `fetchCheck` finds. -/

theorem fetchCheck_error (hd : a.stmt.chunkDownloader = some d) (herr : d.hasError = true) :
    a.fetchCheck = a.returns .fetch .errorGeneral a.stmt := by
  simp [Api.fetchCheck, hd, herr]

theorem fetchCheck_eof (hd : a.stmt.chunkDownloader = none) (h0 : a.stmt.chunkRowcount = 0) :
    a.fetchCheck = a.returns .fetch .eof a.stmt := by
  simp [Api.fetchCheck, hd, h0]

theorem fetchCheck_locking (hd : a.stmt.chunkDownloader = some d) (herr : d.hasError = false)
    (h0 : a.stmt.chunkRowcount = 0) : a.fetchCheck = { a with pc := .locking } := by
  simp [Api.fetchCheck, hd, herr, h0]

theorem fetchCheck_row (hd : ∀ d, a.stmt.chunkDownloader = some d → d.hasError = false)
    (h0 : a.stmt.chunkRowcount ≠ 0) :
    a.fetchCheck = a.returns .fetch .success (fetchRow a.stmt) := by
  cases hc : a.stmt.chunkDownloader with
  | none => simp [Api.fetchCheck, hc, h0]
  | some d => simp [Api.fetchCheck, hc, hd d hc, h0]

/-- The thread gets to the lock. -/
theorem Simulates.locking_run (h : Simulates c a) (hf : c.fetcher = .idle) (hi : c.init = .done)
    (hd : c.stmt.chunkDownloader = some d) (herr : d.hasError = false)
    (h0 : c.stmt.chunkRowcount = 0) :
    api.Run Machine.Any a [] { a.fetchEntered c.stmt with pc := .locking } :=
  fetchCheck_locking (a := a.fetchEntered c.stmt) hd herr h0 ▸ h.fetchCheck_run hf hi

/-- The thread gets to the wait loop, and what follows is `fetchAt`. -/
theorem InSection.run (hs : InSection c rc d e s i) (h : Simulates c a) :
    ∃ a₁ : Api, a₁.stmt = s ∧ a₁.recording = false ∧
      ∀ signalled a₂, a₁.fetchAt d i signalled = some a₂ → api.Run Machine.Any a [] a₂ := by
  cases hs with
  | fetch hf hi hd hl h0 he hlt =>
    have hlocking := h.locking_run hf hi hd he h0
    refine ⟨{ a.fetchEntered c.stmt with pc := .locking }, rfl, h.recording,
      fun signalled a₂ h₂ => ?_⟩
    have hlock := step_fetchLock (a := { a.fetchEntered c.stmt with pc := .locking }) signalled rfl
      h.recording hd
    rw [if_neg (Nat.not_le.mpr hlt), h₂] at hlock
    exact .snoc hlocking trivial hlock
  | resume hf hd hl =>
    refine ⟨a, h.stmt, h.recording, fun signalled a₂ h₂ => ?_⟩
    have hpc : a.pc = .waiting i := by rw [h.pc, Client.apiPc, hf]
    have hwake := step_fetchWake signalled hpc h.recording (h.stmt ▸ hd)
    rw [h₂] at hwake
    exact .snoc .nil trivial hwake

/-! What the wait loop and the code after it do. -/

variable {item : QueueItem Json}

theorem fetchAt_sleep (hq : d.queue[i]? = some item) (hc : item.chunk = none)
    (hn : d.getShutdownOrError = false) (signalled : Bool) :
    a.fetchAt d i signalled = some { a with pc := .waiting i } := by
  simp [Api.fetchAt, fetchSection, hq, hc, hn]

theorem fetchAt_fail (hq : d.queue[i]? = some item) (hn : d.getShutdownOrError = true)
    (signalled : Bool) :
    a.fetchAt d i signalled = some (a.returns .fetch .errorGeneral a.stmt) := by
  have hor : d.isShutdown = true ∨ d.hasError = true := by
    simpa [ChunkDownloader.getShutdownOrError] using hn
  rcases hor with h | h
  · cases he : d.hasError <;> simp [Api.fetchAt, fetchSection, hq, hn, h, he]
  · simp [Api.fetchAt, fetchSection, hq, hn, h]

theorem fetchAt_take (hq : d.queue[i]? = some item) {chunk : List Json}
    (hc : item.chunk = some chunk) (hn : d.getShutdownOrError = false) :
    a.fetchAt d i true =
        some (a.returns .fetch .success (fetchRow (takeChunk a.stmt d i item))) ∧
      a.fetchAt d i false = some (a.returns .fetch .errorGeneral
        { takeChunk a.stmt d i item with errorCode := .errorPthread }) := by
  have hnor : d.isShutdown = false ∧ d.hasError = false := by
    simpa [ChunkDownloader.getShutdownOrError] using hn
  simp [Api.fetchAt, fetchSection, hq, hc, hnor]

/-- The loop of `chunk_downloader_init` is over, and `snowflake_execute` returns. -/
theorem created_run (hpc : a.pc = .creating) : api.Run Machine.Any a
    [⟨.execute, .success, a.stmt.errorCode⟩] { a with pc := .idle } := by
  have hcreated : api.Run Machine.Any a [] (a.returns .execute .success a.stmt) :=
    .snoc .nil trivial (step_created hpc)
  exact .snoc (e := .ret) hcreated trivial rfl

end Fetch

/-! ## The simulation -/

/-- The calls can follow the client to `c'`, and their fetches return the same. -/
def Follows (c' : Client N K Json) (outs : List (Output N Json)) (a : Api) : Prop :=
  ∃ outs' a', api.Run Machine.Any a outs' a' ∧ Simulates c' a' ∧
    outs'.filterMap Returned.fetchStatus = outs.filterMap Output.fetchStatus

section Steps

variable {download : String → List Json} {pg : Bool} {c c' : Client N K Json}
  {e : Event N K Json} {outs : List (Output N Json)} {a : Api}

/-- The calling thread does not move. -/
theorem Simulates.background (h : Simulates c a) (hq : Background a c'.stmt)
    (hpc : c'.apiPc = c.apiPc) (hcall : c'.fetcher = .idle ∨ c'.init = .done)
    (houts : outs.filterMap Output.fetchStatus = []) : Follows c' outs a :=
  ⟨[], _, hq, ⟨rfl, h.recording, h.pc.trans hpc.symm, hcall⟩, houts.symm⟩

/-- A fetch returns. -/
theorem Follows.of_returns {b : Api} {status : Status} {s : Stmt Json}
    (hrun : api.Run Machine.Any a [] (b.returns .fetch status s)) (hrec : b.recording = false)
    (hi : c.init = .done) (houts : outs.filterMap Output.fetchStatus = [status]) :
    Follows (c.fetchReturn s status).1 outs a := by
  refine ⟨_, _, .snoc (e := .ret) hrun trivial rfl, ⟨rfl, hrec, ?_, .inl rfl⟩, houts.symm⟩
  simp [Client.apiPc, Client.fetchReturn, hi]

theorem apiPc_notify (c : Client N K Json) :
    Client.apiPc { c with fetcher := c.fetcher.notify } = c.apiPc := by
  unfold Client.apiPc
  cases c.fetcher <;> rfl

theorem InSection.init_done {rc : SignalRc N} {d : ChunkDownloader Json} {s : Stmt Json} {i : Nat}
    (hs : InSection c rc d e s i) (h : Simulates c a) : c.init = .done := by
  cases hs with
  | fetch _ hi => exact hi
  | resume hf =>
    refine h.call.resolve_left fun hidle => ?_
    rw [hf] at hidle
    cases hidle

/-- A step of the client between two executes is followed by the calls. -/
theorem client_simulated (h : Simulates c a) (he : e.between = true)
    (hs : (client download pg N K).step c e = some (c', outs)) : Follows c' outs a := by
  have hsame : Background a c.stmt := h.stmt ▸ Background.refl
  have hchange : ∀ {d d'}, c.stmt.chunkDownloader = some d → d'.hasError = d.hasError →
      Background a { c.stmt with chunkDownloader := some d' } := fun hd hkeep =>
    h.stmt ▸ Background.change (h.stmt ▸ hd) hkeep
  cases step_move hs with
  | execute => cases he
  | spawn hd hi | spawnFail hd hi =>
    have hf : c.fetcher = .idle := h.call.resolve_right (by simp [hi])
    exact h.background hsame (by simp [Client.apiPc, hf, hi]) (.inl hf) rfl
  | @countThread d i hd hi =>
    have hf : c.fetcher = .idle := h.call.resolve_right (by simp [hi])
    have hq : Background a { c.stmt with
        chunkDownloader := some { d with threadCount := incU64 d.threadCount } } := hchange hd rfl
    by_cases hlt : i + 1 < N
    · exact h.background hq (by simp [Client.apiPc, hf, hi, hlt]) (.inl hf) rfl
    · -- the last thread: `snowflake_execute` returns
      have hpc : a.pc = .creating := by rw [h.pc, Client.apiPc, hf, hi]
      refine ⟨_, _, Machine.Run.trans hq (created_run hpc),
        ⟨rfl, h.recording, ?_, .inl hf⟩, rfl⟩
      simp [Client.apiPc, hf, hlt]
  | sleep hd | leave hd | downloadOk hd | postLate hd | wakeProducer hd | join hd =>
    exact h.background hsame rfl h.call rfl
  | take hd => exact h.background (hchange hd rfl) rfl h.call rfl
  | @downloadFail d t i err hd hp =>
    have hcode : err.code ≠ 0 := by simpa [Event.between] using he
    refine h.background (Background.recordError h.stmt h.recording hd rfl hcode) ?_ ?_ rfl
    · simp [Client.apiPc]
    · simpa using h.call
  | post hd =>
    refine h.background (hchange hd rfl) (apiPc_notify c) ?_ rfl
    simpa using h.call
  | @postFail d t i chunk hd =>
    have hcode : Status.errorPthread.code ≠ 0 := by decide
    have hkeep : (d.setChunk i (some chunk)).hasError = d.hasError := rfl
    refine h.background (Background.recordError h.stmt h.recording hd hkeep hcode) ?_ ?_ rfl
    · simp [Client.apiPc]
    · simpa using h.call
  | wakeFetcher hd hf =>
    refine h.background hsame ?_ (h.call.imp (by simp [hf]) id) rfl
    simp [Client.apiPc, hf]
  | fetchError hf hi hd herr =>
    have hcheck := fetchCheck_error (a := a.fetchEntered c.stmt) hd herr
    exact .of_returns (hcheck ▸ h.fetchCheck_run hf hi) h.recording hi rfl
  | fetchEof hf hi hd h0 =>
    have hcheck := fetchCheck_eof (a := a.fetchEntered c.stmt) hd h0
    exact .of_returns (hcheck ▸ h.fetchCheck_run hf hi) h.recording hi rfl
  | fetchEnd hf hi hd herr hl h0 hq =>
    have hlock := step_fetchLock (a := { a.fetchEntered c.stmt with pc := .locking }) true rfl
      h.recording hd
    rw [if_pos hq] at hlock
    exact .of_returns (b := a.fetchEntered c.stmt)
      (.snoc (h.locking_run hf hi hd herr h0) trivial hlock) h.recording hi rfl
  | fetchRow hf hi hd h0 =>
    have hcheck := fetchCheck_row (a := a.fetchEntered c.stmt) hd h0
    exact .of_returns (hcheck ▸ h.fetchCheck_run hf hi) h.recording hi rfl
  | fetchSleep hsec hq hc hn =>
    obtain ⟨a₁, rfl, hrec, hrun⟩ := hsec.run h
    exact ⟨[], _, hrun true _ (fetchAt_sleep hq hc hn true),
      ⟨rfl, hrec, rfl, .inr (hsec.init_done h)⟩, rfl⟩
  | fetchFail hsec hq hn =>
    obtain ⟨a₁, rfl, hrec, hrun⟩ := hsec.run h
    exact .of_returns (hrun true _ (fetchAt_fail hq hn true)) hrec (hsec.init_done h) rfl
  | fetchSignalFail hsec hq hc hn =>
    obtain ⟨a₁, rfl, hrec, hrun⟩ := hsec.run h
    exact .of_returns (hrun false _ (fetchAt_take hq hc hn).2) hrec (hsec.init_done h) rfl
  | @fetchTake _ _ _ _ _ _ _ producers hsec hq hc hn =>
    obtain ⟨a₁, rfl, hrec, hrun⟩ := hsec.run h
    exact .of_returns (c := { c with producers }) (hrun true _ (fetchAt_take hq hc hn).1) hrec
      (hsec.init_done h) rfl
  | termAgain hd hl hk hi hshut =>
    simp only [Client.term, hshut, if_true]
    exact h.background hsame rfl h.call rfl
  | @term d k rc hd hl hk hi hshut =>
    have hinit : (c.term d k rc).init = c.init := by
      cases rc <;> simp [Client.term, hshut]
    refine h.background (Background.term h.stmt h.recording hd hshut k rc) ?_ ?_ rfl
    · rcases term_fetcher c d k rc with hf | hf
      · simp only [Client.apiPc, hf, hinit]
      · rw [← apiPc_notify c]
        simp only [Client.apiPc, hf, hinit]
    · rcases term_fetcher c d k rc with hf | hf <;> simpa [hf, hinit] using h.call
  | free hd hk hc =>
    exact h.background (h.stmt ▸ Background.freed (h.stmt ▸ hd) h.recording) rfl h.call rfl

theorem simulates_prepared (sf : SfConnect) :
    Simulates (Client.prepared : Client N K Json) (Api.prepared sf) :=
  ⟨rfl, rfl, rfl, .inl rfl⟩

/-- Where the client is after `snowflake_execute`. -/
theorem execute_apiPc (c : Client N K Json) (hf : c.fetcher = .idle) (hi : c.init = .done)
    (r : Reply Json) {s : Stmt Json} :
    (c.execute false r).apiPc =
      if (executeData N true r s).1.isSome then .idle else .creating := by
  unfold Client.execute executeEx executeData
  cases r.rowset with
  | none => simp [Client.apiPc, hf, hi]
  | some rowset =>
    cases r.chunks with
    | none => simp [Client.apiPc, hf, hi]
    | some chunks =>
      simp only [Bool.not_true, Bool.and_false, Bool.false_eq_true, if_false]
      generalize chunkDownloaderInit N 4 chunks = init
      cases init <;> simp [Client.apiPc, hf]

/-- What a reply with `success: true` does to the statement. -/
theorem executeResponse_data {resp : Option Json} {sf sf' : SfConnect} {s s' : Stmt Json}
    {status : Option Status} (hsuccess : jsonCopyBool resp "success" = .ok true)
    (h : executeResponse false true resp sf s = some (status, sf', s')) :
    (status, s') = executeData 2 true (queryReply (Json.getObjectItem resp "data")) s := by
  unfold executeResponse at h
  simp only [hsuccess, Bool.false_eq_true, if_false] at h
  split at h
  · cases h
  · split at h
    · cases h
    · cases h
      rfl

/-- In `snowflake_execute`, after the error was cleared. -/
def Api.entered (a : Api) (s : Stmt Json) : Api :=
  { a with stmt := { s with errorCode := .success }, pc := .executing }

/-- `snowflake_execute`, up to the end of `executeReply`. -/
theorem Simulates.executeReply_run (h : Simulates c a) (hf : c.fetcher = .idle)
    (hi : c.init = .done) {fuel : Nat} {attempts : List Attempt} {a' : Api}
    (ha' : (a.entered c.stmt).executeReply false fuel attempts true = some a') :
    api.Run Machine.Any a [] a' := by
  have henter : api.Run Machine.Any a [] (a.entered c.stmt) :=
    .snoc .nil trivial (h.stmt ▸ step_executeEnter (h.idle hf hi))
  exact .snoc henter trivial (step_executeReply rfl ha')

/-- `executeReply` at an answer. -/
theorem executeReply_answered {pg locks : Bool} {fuel : Nat} {attempts : List Attempt}
    {resp : Option Json} {s' : Session} {status : Option Status} {sf : SfConnect} {stmt : Stmt Json}
    (htokens : (isStringEmpty a.sf.directURL &&
      (isStringEmpty a.sf.masterToken || isStringEmpty a.sf.token)) = false)
    (hrec : a.recording = false)
    (hrequest : requestPost fuel (a.session attempts) = (some (true, resp), s'))
    (hresponse : executeResponse pg locks resp s'.sf
      { a.stmt with errorCode := s'.error.errorCode } = some (status, sf, stmt)) :
    a.executeReply pg fuel attempts locks = some (match status with
      | some status => { a with sf }.returns .execute status stmt
      | none => { a with sf, stmt, pc := .creating }) := by
  unfold Api.executeReply
  rw [htokens, hrequest]
  simp only [Bool.false_eq_true, if_false, hresponse, hrec, Bool.false_and]
  cases status <;> simp [← hrec]

/-- A query that the server answers: the calls follow `Client.execute`. -/
theorem execute_simulated {c : Client 2 K Json} (h : Simulates c a) (hf : c.fetcher = .idle)
    (hi : c.init = .done) (htokens : (isStringEmpty a.sf.directURL &&
      (isStringEmpty a.sf.masterToken || isStringEmpty a.sf.token)) = false)
    {fuel : Nat} {attempts : List Attempt} {resp : Option Json} {s' : Session}
    (hrequest : requestPost fuel (.start a.sf .cleared attempts) = (some (true, resp), s'))
    (herror : s'.error.errorCode = .success) (hsuccess : jsonCopyBool resp "success" = .ok true)
    (hread : (executeResponse false true resp s'.sf
      { c.stmt with errorCode := .success }).isSome = true) :
    Follows (c.execute false (queryReply (Json.getObjectItem resp "data"))) [] a := by
  obtain ⟨⟨status, sf, stmt⟩, hresponse⟩ := Option.isSome_iff_exists.mp hread
  have hdata := executeResponse_data hsuccess hresponse
  generalize queryReply (Json.getObjectItem resp "data") = r at hdata
  have hstmt : stmt = (c.execute false r).stmt := by
    rw [execute_stmt, executeEx_eq_executeData]
    exact congrArg Prod.snd hdata
  have hpc := execute_apiPc c hf hi r (s := { c.stmt with errorCode := .success })
  rw [← congrArg Prod.fst hdata] at hpc
  have hidle : (c.execute false r).fetcher = .idle := (execute_fetcher c r).trans hf
  have hresponse' : executeResponse false true resp s'.sf
      { (a.entered c.stmt).stmt with errorCode := s'.error.errorCode } =
        some (status, sf, stmt) := by
    rw [herror]
    exact hresponse
  have hrun := h.executeReply_run hf hi
    (executeReply_answered (a := a.entered c.stmt) htokens h.recording hrequest hresponse')
  cases status with
  | none =>
    -- the threads are created next
    exact ⟨[], _, hrun, ⟨hstmt, h.recording, hpc.symm, .inl hidle⟩, rfl⟩
  | some status =>
    exact ⟨[⟨.execute, status, stmt.errorCode⟩], { a with sf, stmt, pc := .idle },
      .snoc (e := .ret) hrun trivial rfl, ⟨hstmt, h.recording, hpc.symm, .inl hidle⟩, rfl⟩

/-- Every run of the client between two executes is followed by the calls: the statement at its
end is theirs, and their fetches return what the client's do. -/
theorem client_run_simulated {c₀ : Client N K Json} (h₀ : Simulates c₀ a)
    (hrun : (client download pg N K).Run (fun _ e => e.between = true) c₀ outs c) :
    Follows c outs a := by
  refine hrun.inv (I := fun outs c => Follows c outs a) ?_ ?_
  · exact ⟨[], a, .nil, h₀, rfl⟩
  · rintro outs c e c' o ⟨outs₁, a₁, hrun₁, h₁, heq₁⟩ he hs
    obtain ⟨outs₂, a₂, hrun₂, h₂, heq₂⟩ := client_simulated h₁ he hs
    refine ⟨outs₁ ++ outs₂, a₂, hrun₁.trans hrun₂, h₂, ?_⟩
    rw [List.filterMap_append, List.filterMap_append, heq₁, heq₂]

/-- A prepared statement, its query and all that the client does until the next one. -/
theorem query_run_simulated {sf : SfConnect} (htokens : (isStringEmpty sf.directURL &&
      (isStringEmpty sf.masterToken || isStringEmpty sf.token)) = false)
    {fuel : Nat} {attempts : List Attempt} {resp : Option Json} {s' : Session}
    (hrequest : requestPost fuel (.start sf .cleared attempts) = (some (true, resp), s'))
    (herror : s'.error.errorCode = .success) (hsuccess : jsonCopyBool resp "success" = .ok true)
    (hread : (executeResponse false true resp s'.sf stmtReset).isSome = true)
    {c : Client 2 K Json} {outs : List (Output 2 Json)}
    (hrun : (client download false 2 K).Run (fun _ e => e.between = true)
      (Client.prepared.execute false (queryReply (Json.getObjectItem resp "data"))) outs c) :
    Follows c outs (.prepared sf) := by
  obtain ⟨outs₁, a₁, hrun₁, h₁, heq₁⟩ := execute_simulated (simulates_prepared sf) rfl rfl htokens
    hrequest herror hsuccess hread
  obtain ⟨outs₂, a₂, hrun₂, h₂, heq₂⟩ := client_run_simulated h₁ hrun
  refine ⟨outs₁ ++ outs₂, a₂, hrun₁.trans hrun₂, h₂, ?_⟩
  rw [List.filterMap_append, heq₁, heq₂]
  rfl

end Steps

end Snowflake
