import SnowflakeClient.Conc.Machine
import SnowflakeClient.Transfer.Agent

/-!
# What the commands of an agent leave in its response

An agent with a `StatementPutGet` executes command after command; inside of a command the token may
be renewed any number of times, from whatever thread finds it expired (`renewToken` is called with
`m_parallelTokRenewMutex` held, or by the only thread). Each parsed reply is added to what the
response held before, so it is as the server sent it exactly if the replies before it listed
nothing (`latest_response_iff`).
-/

namespace Snowflake

open Conc

/-- A `StatementPutGet`: `replies` are the replies of the server, by the number of the call, `none`
for a query that failed. -/
def statementEnv (replies : Nat → Option SfPutGetResponse) (env : AgentEnv) : AgentEnv :=
  { env with
    parse := fun k response => (replies k).map fun r => (parsePutGetCommand r response, true) }

/-- An agent, and whether it is in `execute`. -/
structure AgentState where
  agent : FileTransferAgent
  executing : Bool

inductive AgentEvent where
  /-- `execute` up to the storage client. -/
  | execute
  /-- The token has expired. -/
  | renewToken
  /-- `execute` returns or throws. -/
  | finish
  deriving DecidableEq, Repr

/-- The response after the `call`-th call of the statement. -/
structure Parsed where
  call : Nat
  response : PutGetParseResponse
  deriving DecidableEq, Repr

/-- What was parsed on the way from `a` to `a'`. -/
def parsedOutput (a a' : FileTransferAgent) : List Parsed :=
  if a'.parses = a.parses then [] else [{ call := a.parses, response := a'.response }]

def AgentState.step (env : AgentEnv) (s : AgentState) :
    AgentEvent → Option (AgentState × List Parsed)
  | .execute =>
    if s.executing then none
    else
      match s.agent.reset.parse env with
      | .error _ => none
      | .ok (a, _) =>
        some ({ agent := a, executing := (getClient a.response.stageInfo).isOk },
          parsedOutput s.agent a)
  | .renewToken =>
    if s.executing then
      match s.agent.renewToken env with
      | (.error .nullResponse, _) => none
      | (result, a) => some ({ agent := a, executing := result.isOk }, parsedOutput s.agent a)
    else none
  | .finish => if s.executing then some ({ s with executing := false }, []) else none

/-- The commands of one agent. -/
def agentCommands (env : AgentEnv) : Machine AgentState AgentEvent Parsed where
  step := AgentState.step env

/-! ## What a step parses -/

variable {replies : Nat → Option SfPutGetResponse} {env : AgentEnv} {s s' : AgentState}
  {e : AgentEvent} {o : List Parsed}

/-- A step leaves the response alone, or adds the next reply to it. -/
inductive ResponseMove (replies : Nat → Option SfPutGetResponse) (a a' : FileTransferAgent)
    (o : List Parsed) : Prop
  | same : a'.parses = a.parses → a'.response = a.response → o = [] → ResponseMove replies a a' o
  | parsed {r : SfPutGetResponse} : replies a.parses = some r → a'.parses = a.parses + 1 →
      a'.response = parsePutGetCommand r a.response →
      o = [{ call := a.parses, response := a'.response }] → ResponseMove replies a a' o

theorem parse_eq {a a' : FileTransferAgent} {b : Bool}
    (h : a.parse (statementEnv replies env) = .ok (a', b)) :
    ∃ r, replies a.parses = some r ∧
      a' = { a with response := parsePutGetCommand r a.response, parses := a.parses + 1 } := by
  unfold FileTransferAgent.parse statementEnv at h
  cases hr : replies a.parses with
  | none => simp [hr] at h
  | some r =>
    simp only [hr, Option.map_some, Except.ok.injEq, Prod.mk.injEq] at h
    exact ⟨r, rfl, h.1.symm⟩

theorem ResponseMove.of_parse {a a' : FileTransferAgent} {r : SfPutGetResponse}
    (hr : replies a.parses = some r) (hparses : a'.parses = a.parses + 1)
    (hresponse : a'.response = parsePutGetCommand r a.response) :
    ResponseMove replies a a' (parsedOutput a a') :=
  .parsed hr hparses hresponse (if_neg (by omega))

theorem renewToken_move {a : FileTransferAgent}
    (h : (a.renewToken (statementEnv replies env)).1 ≠ .error .nullResponse) :
    ResponseMove replies a (a.renewToken (statementEnv replies env)).2
      (parsedOutput a (a.renewToken (statementEnv replies env)).2) := by
  unfold FileTransferAgent.renewToken at h ⊢
  dsimp only at h ⊢
  split at h
  · next hold =>
    rw [if_pos hold]
    cases hparse : FileTransferAgent.parse (statementEnv replies env)
      { a with times := a.times + 1 } with
    | error stop =>
      rw [hparse] at h
      -- The only way to stop in the statement is a query that failed.
      exfalso
      unfold FileTransferAgent.parse at hparse
      split at hparse
      · cases hparse
        exact h rfl
      · cases hparse
    | ok r =>
      obtain ⟨reply, hreply, heq⟩ := parse_eq (b := r.2) hparse
      dsimp only
      cases getClient r.1.response.stageInfo with
      | error stop => exact .of_parse hreply (by rw [heq]) (by rw [heq])
      | ok u => exact .of_parse hreply (by rw [heq]) (by rw [heq])
  · next hrecent =>
    rw [if_neg hrecent]
    exact .same rfl rfl (if_pos rfl)

theorem agent_move (h : (agentCommands (statementEnv replies env)).step s e = some (s', o)) :
    ResponseMove replies s.agent s'.agent o := by
  cases e with
  | execute =>
    simp only [agentCommands, AgentState.step] at h
    split at h
    · cases h
    · split at h
      · cases h
      · next a b hparse =>
        obtain ⟨r, hr, heq⟩ := parse_eq hparse
        cases h
        exact .of_parse hr (by rw [heq]; rfl) (by rw [heq]; rfl)
  | renewToken =>
    simp only [agentCommands, AgentState.step] at h
    split at h
    · split at h
      · cases h
      · next result a hne heq =>
        cases h
        have hok : (s.agent.renewToken (statementEnv replies env)).1 ≠ .error .nullResponse := by
          rw [heq]
          exact hne
        have hmove := renewToken_move hok
        rw [heq] at hmove
        exact hmove
    · cases h
  | finish =>
    simp only [agentCommands, AgentState.step] at h
    split at h
    · cases h
      exact .same rfl rfl rfl
    · cases h

/-! ## The main result -/

/-- The source locations of the reply to the `k`-th call. -/
def replyLocations (replies : Nat → Option SfPutGetResponse) (k : Nat) : List String :=
  ((replies k).map SfPutGetResponse.srcList).getD []

def replyMaterials (replies : Nat → Option SfPutGetResponse) (k : Nat) : List EncryptionMaterial :=
  ((replies k).map SfPutGetResponse.materials).getD []

/-- The response has the source locations and materials of the latest reply, and no others. -/
def Parsed.Latest (replies : Nat → Option SfPutGetResponse) (p : Parsed) : Prop :=
  p.response.srcLocations = replyLocations replies p.call ∧
    p.response.encryptionMaterials = replyMaterials replies p.call

/-- The response has those of all replies so far. -/
def Parsed.Collects (replies : Nat → Option SfPutGetResponse) (p : Parsed) : Prop :=
  p.response.srcLocations = (List.range (p.call + 1)).flatMap (replyLocations replies) ∧
    p.response.encryptionMaterials = (List.range (p.call + 1)).flatMap (replyMaterials replies)

/-- Each reply was added to what was there. -/
structure CollectsAll (replies : Nat → Option SfPutGetResponse) (outs : List Parsed)
    (a : FileTransferAgent) : Prop where
  locations : a.response.srcLocations = (List.range a.parses).flatMap (replyLocations replies)
  materials :
    a.response.encryptionMaterials = (List.range a.parses).flatMap (replyMaterials replies)
  calls : outs.map Parsed.call = List.range a.parses
  parsed : ∀ p ∈ outs, p.Collects replies

theorem ResponseMove.collects {a a' : FileTransferAgent} {outs : List Parsed}
    (hm : ResponseMove replies a a' o) (h : CollectsAll replies outs a) :
    CollectsAll replies (outs ++ o) a' := by
  cases hm with
  | same hparses hresponse ho =>
    rw [ho, List.append_nil]
    exact ⟨by rw [hresponse, hparses, h.locations], by rw [hresponse, hparses, h.materials],
      by rw [hparses, h.calls], h.parsed⟩
  | @parsed r hr hparses hresponse ho =>
    have hlocations : a'.response.srcLocations =
        (List.range (a.parses + 1)).flatMap (replyLocations replies) := by
      rw [hresponse, List.range_succ, List.flatMap_append, List.flatMap_singleton, ← h.locations]
      simp [parsePutGetCommand, replyLocations, hr]
    have hmaterials : a'.response.encryptionMaterials =
        (List.range (a.parses + 1)).flatMap (replyMaterials replies) := by
      rw [hresponse, List.range_succ, List.flatMap_append, List.flatMap_singleton, ← h.materials]
      simp [parsePutGetCommand, replyMaterials, hr]
    constructor
    · rw [hparses]
      exact hlocations
    · rw [hparses]
      exact hmaterials
    · rw [ho, hparses, List.map_append, h.calls, List.range_succ]
      rfl
    · intro p hp
      rw [ho] at hp
      rcases List.mem_append.mp hp with hp | hp
      · exact h.parsed p hp
      · obtain rfl := List.mem_singleton.mp hp
        exact ⟨hlocations, hmaterials⟩

/-- What comes before the last reply is empty exactly if all of it is. -/
theorem flatMap_range_eq_last_iff {α : Type} (f : Nat → List α) (k : Nat) :
    (List.range (k + 1)).flatMap f = f k ↔ ∀ j < k, f j = [] := by
  rw [List.range_succ, List.flatMap_append, List.flatMap_singleton, List.append_left_eq_self]
  simp

/-- In every run of an agent: each response is as the latest reply says exactly if no reply but the
last one listed source locations or encryption materials. -/
theorem latest_response_iff (replies : Nat → Option SfPutGetResponse) (env : AgentEnv)
    (response : PutGetParseResponse) (outs : List Parsed) (s : AgentState)
    (h : (agentCommands (statementEnv replies env)).Run Machine.Any
      { agent := .new response, executing := false } outs s) :
    (∀ p ∈ outs, p.Latest replies) ↔
      ∀ k, k + 1 < outs.length → replyLocations replies k = [] ∧ replyMaterials replies k = [] := by
  have hcollects : CollectsAll replies outs s.agent := by
    refine h.inv (I := fun outs s => CollectsAll replies outs s.agent) ?_ ?_
    · exact ⟨rfl, rfl, rfl, fun p hp => absurd hp List.not_mem_nil⟩
    · intro _ _ _ _ _ hs _ hstep
      have hmove := agent_move hstep
      exact hmove.collects hs
  have hlength : outs.length = s.agent.parses := by
    have hcalls := congrArg List.length hcollects.calls
    simpa using hcalls
  have hlatest : ∀ p ∈ outs, p.Latest replies ↔
      ∀ j < p.call, replyLocations replies j = [] ∧ replyMaterials replies j = [] := by
    intro p hp
    obtain ⟨hloc, hmat⟩ := hcollects.parsed p hp
    rw [Parsed.Latest, hloc, hmat, flatMap_range_eq_last_iff, flatMap_range_eq_last_iff]
    exact ⟨fun hall j hj => ⟨hall.1 j hj, hall.2 j hj⟩,
      fun hall => ⟨fun j hj => (hall j hj).1, fun j hj => (hall j hj).2⟩⟩
  have hcall : ∀ k, (∃ p ∈ outs, p.call = k) ↔ k < outs.length := by
    intro k
    rw [← List.mem_map, hcollects.calls, List.mem_range, hlength]
  constructor
  · intro hall k hk
    obtain ⟨p, hp, hpk⟩ := (hcall (k + 1)).mpr hk
    exact (hlatest p hp).mp (hall p hp) k (by omega)
  · intro hall p hp
    have hlt := (hcall p.call).mp ⟨p, hp, rfl⟩
    exact (hlatest p hp).mpr fun j hj => hall j (by omega)

/-! ### Two commands -/

/-- The reply to `PUT file://<path>`. -/
def putReply (path : String) : SfPutGetResponse where
  srcList := [path]
  command := "UPLOAD"
  parallel := 4
  autoCompress := true
  overwrite := false
  clientShowEncryptionParam := true
  sourceCompression := "AUTO_DETECT"
  encMatPut :=
    { queryStageMasterKey := "3dOoaBhkB1wSw4hyfA5DJw==", queryId := "1234", smkId := 1234 }
  encMatGet := []
  stageInfo :=
    { locationType := "S3"
      location := "bucket/stage/"
      path := "stage/"
      region := "us-west-2"
      awsKeyId := "id"
      awsSecretKey := "key"
      awsToken := "token" }
  localLocation := ""

/-- The replies to two uploads. -/
def twoUploads : Nat → Option SfPutGetResponse
  | 0 => some (putReply "/tmp/a.csv")
  | 1 => some (putReply "/tmp/b.csv")
  | _ => none

/-- The replies to a download that finds no file, and to an upload. -/
def downloadThenUpload : Nat → Option SfPutGetResponse
  | 0 => some { putReply "" with srcList := [], command := "DOWNLOAD", localLocation := "/tmp/" }
  | 1 => some (putReply "/tmp/b.csv")
  | _ => none

/-- A response before the first command. -/
def emptyResponse : PutGetParseResponse where
  parallel := 0
  autoCompress := false
  overwrite := false
  clientShowEncryptionParameter := false
  sourceCompression := ""
  localLocation := ""
  command := .unknown
  srcLocations := []
  encryptionMaterials := []
  stageInfo := { stageType := .s3, location := "", path := "", region := "", credentials := [] }

def someEnv : AgentEnv where
  parse _ _ := none
  time _ := 0
  createDirectory _ := 0
  uploadFiles _ := .ok []

/-- After a download that found no file, the response to an upload is as the server sent it. -/
theorem latest_response_iff_downloadThenUpload :
    ∃ outs s, (agentCommands (statementEnv downloadThenUpload someEnv)).Run Machine.Any
        { agent := .new emptyResponse, executing := false } outs s ∧
      outs.length = 2 ∧ s.agent.response.srcLocations = ["/tmp/b.csv"] ∧
      ∀ p ∈ outs, p.Latest downloadThenUpload := by
  obtain ⟨outs, s, hrun, hend⟩ := Machine.exec_exists (M := agentCommands
      (statementEnv downloadThenUpload someEnv)) (c := fun _ _ => true)
    (p := fun r => r.2.length = 2 ∧ r.1.agent.response.srcLocations = ["/tmp/b.csv"])
    (s := { agent := .new emptyResponse, executing := false }) [.execute, .finish, .execute]
    (by decide)
  have hrun := hrun.mono (D := Machine.Any) fun _ _ _ => trivial
  obtain ⟨hlen, hsrc⟩ : outs.length = 2 ∧ s.agent.response.srcLocations = ["/tmp/b.csv"] :=
    of_decide_eq_true hend
  have hlatest := latest_response_iff downloadThenUpload someEnv emptyResponse outs s hrun
  refine ⟨outs, s, hrun, hlen, hsrc, hlatest.mpr fun k hk => ?_⟩
  obtain rfl : k = 0 := by omega
  exact ⟨rfl, rfl⟩

/-- The second upload of an agent has the files and the materials of the first one too. -/
theorem second_upload_collects :
    ∃ outs s, (agentCommands (statementEnv twoUploads someEnv)).Run Machine.Any
        { agent := .new emptyResponse, executing := false } outs s ∧
      s.agent.response.srcLocations = ["/tmp/a.csv", "/tmp/b.csv"] ∧
      s.agent.response.encryptionMaterials.length = 2 ∧ ¬ ∀ p ∈ outs, p.Latest twoUploads := by
  obtain ⟨outs, s, hrun, hend⟩ := Machine.exec_exists (M := agentCommands
      (statementEnv twoUploads someEnv)) (c := fun _ _ => true)
    (p := fun r => r.1.agent.response.srcLocations = ["/tmp/a.csv", "/tmp/b.csv"] ∧
      r.1.agent.response.encryptionMaterials.length = 2 ∧
      ∃ p ∈ r.2, p.response.srcLocations ≠ replyLocations twoUploads p.call)
    (s := { agent := .new emptyResponse, executing := false }) [.execute, .finish, .execute]
    (by decide)
  have hrun := hrun.mono (D := Machine.Any) fun _ _ _ => trivial
  obtain ⟨hsrc, hmat, p, hp, hne⟩ := of_decide_eq_true hend
  exact ⟨outs, s, hrun, hsrc, hmat, fun hall => hne (hall p hp).1⟩

end Snowflake
