import SnowflakeClient.Prog
import SnowflakeClient.Stmt.Basic
import SnowflakeClient.Connection.Json

/-!
# Requests and session renewal

`http_perform`, `curl_post_call`, `curl_get_call`, `renew_session`, `set_tokens` and `request`
(`lib/connection.c`) as programs over a `Session`: the connection object, the error struct that the
caller passed, and what the network will answer.

* `Attempt` is what happens at one round of the loop of `http_perform`. The list of them is
  arbitrary, so it stands for every server and network. The code waits at its end.
* The functions call each other through `renew_session`, with nothing that decreases, so they have
  fuel. `curlPostCall_ends` says that the fuel is a bound on the number of attempts only: given
  enough of it, the code returns or waits for the next attempt.
* `*json` is passed in and handed back: `http_perform` leaves it alone when it fails before there
  is a text to parse.
* `log` and `renewals` are not in the source: which calls were made, and how many calls of
  `renew_session` are active.

Allocations succeed. Headers, bodies and URLs are left out: what they hold reaches the server only.
-/

namespace Snowflake

/-- `SF_ERROR_STRUCT`, without the query id and the place in the source. -/
structure SfError where
  errorCode : Status
  msg : Option String
  sqlstate : String
  deriving DecidableEq, Repr

/-- What `clear_snowflake_error` leaves. -/
def SfError.cleared : SfError where
  errorCode := .success
  msg := none
  sqlstate := "00000"

/-- `SF_SQLSTATE_UNABLE_TO_CONNECT`. -/
def sqlstateUnableToConnect : String := "08001"

/-- `SF_SQLSTATE_GENERAL_ERROR`. -/
def sqlstateGeneralError : String := "HY000"

/-- `SF_CONNECT`, the strings of it. -/
structure SfConnect where
  account : Option String
  user : Option String
  password : Option String
  passcode : Option String
  host : Option String
  region : Option String
  protocol : Option String
  port : Option String
  database : Option String
  schema : Option String
  warehouse : Option String
  role : Option String
  timezone : Option String
  token : Option String
  masterToken : Option String
  directURL : Option String
  directURLParam : Option String
  directQueryToken : Option String
  deriving DecidableEq, Repr

/-- One round of the loop of `http_perform`. -/
inductive Attempt where
  /-- There is no cURL handle, no request id, or an option could not be set. -/
  | notMade
  /-- `curl_easy_perform` or `curl_easy_getinfo` fails. -/
  | notPerformed (msg : String)
  /-- An answer. `body` is what its text parses to, `none` if it does not. -/
  | answer (httpCode : Int) (body : Option Json)

/-- What the calls leave in the log. -/
inductive Activity where
  /-- `curl_post_call` was called. -/
  | post
  /-- A session-expired reply was read while `active` calls of `renew_session` were active. -/
  | expired (active : Nat)
  /-- `renew_session` was called while `active` calls of it were active. -/
  | renew (active : Nat)
  deriving DecidableEq, Repr

/-- The state of the calls. -/
structure Session where
  sf : SfConnect
  error : SfError
  attempts : List Attempt
  renewals : Nat
  log : List Activity

/-- The start of a request: no renewal is active, nothing is logged. -/
def Session.start (sf : SfConnect) (error : SfError) (attempts : List Attempt) : Session where
  sf := sf
  error := error
  attempts := attempts
  renewals := 0
  log := []

/-- `is_string_empty`. -/
def isStringEmpty (str : Option String) : Bool :=
  match str with
  | some s => s == ""
  | none => true

/-- `SESSION_EXPIRE_CODE`. -/
def sessionExpireCode : String := "390112"

/-- `QUERY_IN_PROGRESS_CODE`. -/
def queryInProgressCode : String := "333333"

/-- `QUERY_IN_PROGRESS_ASYNC_CODE`. -/
def queryInProgressAsyncCode : String := "333334"

/-- `QUERYCODE_LEN`. -/
def querycodeLen : Nat := 7

/-- `is_retryable_http_code`. -/
def isRetryableHttpCode (code : Int) : Bool :=
  (decide (500 ≤ code) && decide (code < 600)) || code == 400 || code == 403 || code == 408

/-- `SET_SNOWFLAKE_ERROR`. -/
def setError (code : Status) (msg sqlstate : String) : Prog Session Unit :=
  .update fun s => { s with error := ⟨code, some msg, sqlstate⟩ }

/-- Adds a line to the log. -/
def note (activity : Nat → Activity) : Prog Session Unit :=
  .update fun s => { s with log := s.log ++ [activity s.renewals] }

/-- The loop of `http_perform` and the parsing after it, over the attempts to come. -/
def httpPerformFrom (slot : Option Json) :
    List Attempt → Session → Option (Bool × Option Json) × Session
  | [], s => (none, { s with attempts := [] })
  | .notMade :: rest, s => (some (false, slot), { s with attempts := rest })
  | .notPerformed msg :: rest, s =>
    (some (false, slot),
      { s with attempts := rest, error := ⟨.errorCurl, some msg, sqlstateUnableToConnect⟩ })
  | .answer httpCode body :: rest, s =>
    if httpCode = 200 then
      match body with
      | some json => (some (true, some json), { s with attempts := rest })
      | none =>
        (some (false, none),
          { s with
            attempts := rest
            error := ⟨.errorBadJson, some "Unable to parse JSON text response.",
              sqlstateUnableToConnect⟩ })
    else if isRetryableHttpCode httpCode then httpPerformFrom slot rest s
    else
      (some (false, slot),
        { s with
          attempts := rest
          error := ⟨.errorRetry, some "Received unretryable http code", sqlstateUnableToConnect⟩ })

/-- `http_perform`: what it returns and what it leaves in `*json`. -/
def httpPerform (slot : Option Json) : Prog Session (Bool × Option Json) := fun s =>
  httpPerformFrom slot s.attempts s

/-- The member `code` of a reply, in the buffer `query_code`. `none` after an error was set. -/
def readQueryCode (json : Option Json) : Prog Session (Option String) :=
  match jsonCopyStringNoAlloc json "code" querycodeLen with
  | .ok code => pure (some code)
  -- the buffer was cleared before
  | .error .itemNull => pure (some "")
  | .error e => do
    setError .errorBadJson (jsonErrorMsg e "Query code") sqlstateUnableToConnect
    pure none

/-- How `curl_post_call` and `curl_get_call` begin: a request and the code of its reply. -/
def exchange (slot : Option Json) : Prog Session (Option String × Option Json) := do
  let (ok, json) ← httpPerform slot
  if ok && json.isSome then
    let code ← readQueryCode json
    pure (code, json)
  else pure (none, json)

/-- What `curl_post_call` and `curl_get_call` share. After a renewal the request is made again
(`again`), and its result is the result. `other` is what follows for any other code. -/
def callWith (renew : Prog Session Bool) (again : Option Json → Prog Session (Bool × Option Json))
    (other : String → Option Json → Prog Session (Bool × Option Json)) (slot : Option Json) :
    Prog Session (Bool × Option Json) := do
  let (code, json) ← exchange slot
  match code with
  | none => pure (false, json)
  | some code =>
    if code = "" then pure (true, json)
    else if code = sessionExpireCode then
      note .expired
      let renewed ← renew
      if renewed then again json else pure (false, json)
    else other code json

/-- `sf->token = …`. -/
def setToken (token : String) : Prog Session Unit :=
  .update fun s => { s with sf := { s.sf with token := some token } }

/-- `sf->master_token = …`. -/
def setMasterToken (token : String) : Prog Session Unit :=
  .update fun s => { s with sf := { s.sf with masterToken := some token } }

/-- `set_tokens`: the first token is stored before the second is looked at. -/
def setTokens (data : Option Json) (sessionTokenStr masterTokenStr : String) :
    Prog Session Bool :=
  match jsonCopyString data sessionTokenStr with
  | .error _ => do
    setError .errorBadJson "Cannot find valid session token in response" sqlstateUnableToConnect
    pure false
  | .ok token => do
    setToken token
    match jsonCopyString data masterTokenStr with
    | .error _ => do
      setError .errorBadJson "Cannot find valid master token in response" sqlstateUnableToConnect
      pure false
    | .ok masterToken => do
      setMasterToken masterToken
      pure true

/-- `renew_session` after its token request: `ok` and `json` are what `curl_post_call` gave. -/
def renewReply (ok : Bool) (json : Option Json) : Prog Session Bool :=
  if !ok || json.isNone then pure false
  else
    match jsonCopyBool json "success" with
    | .error e => do
      setError .errorBadJson (jsonErrorMsg e "Success") sqlstateUnableToConnect
      pure false
    | .ok false => do
      setError .errorBadResponse "Request returned as being unsuccessful" sqlstateUnableToConnect
      pure false
    | .ok true =>
      match Json.getObjectItem json "data" with
      | none => do
        setError .errorBadJson "No data object in JSON response" sqlstateUnableToConnect
        pure false
      | some data =>
        match Json.getObjectItem (some data) "sessionToken" with
        | none => do
          setError .errorBadJson "No session token in JSON response" sqlstateUnableToConnect
          pure false
        | some _ => setTokens (some data) "sessionToken" "masterToken"

/-- `renew_session`, with `post` for the call of `curl_post_call`. -/
def renewWith (post : Prog Session (Bool × Option Json)) : Prog Session Bool := do
  let sf ← .gets Session.sf
  if !isStringEmpty sf.directURL then
    setError .errorBadRequest "Attempt to renew session with XPR direct URL" sqlstateGeneralError
    pure false
  else if isStringEmpty sf.masterToken then
    setError .errorBadRequest
      ("Missing master token when trying to renew session. " ++
        "Are you sure your connection was properly setup?")
      sqlstateUnableToConnect
    pure false
  else
    .update fun s => { s with renewals := s.renewals + 1 }
    let (ok, json) ← post
    .update fun s => { s with renewals := s.renewals - 1 }
    renewReply ok json

mutual

/-- `curl_post_call`. -/
def curlPostCall : Nat → Option Json → Prog Session (Bool × Option Json)
  | 0, _ => .stop
  | fuel + 1, slot => do
    note fun _ => .post
    callWith (renewSession fuel) (curlPostCall fuel) (pingPong fuel) slot

/-- The loop of `curl_post_call` that asks for the result of a query in progress. -/
def pingPong : Nat → String → Option Json → Prog Session (Bool × Option Json)
  | 0, _, _ => .stop
  | fuel + 1, code, json =>
    if code = queryInProgressCode ∨ code = queryInProgressAsyncCode then
      match jsonCopyString (Json.getObjectItem json "data") "getResultUrl" with
      | .error _ => do
        -- the message is made from the result of the copy before this one, which was no error
        setError .errorBadJson (jsonUnknownErrorMsg "Result URL") sqlstateUnableToConnect
        pure (false, json)
      | .ok _ => do
        let (ok, json) ← curlGetCall fuel json
        if ok then
          let code ← readQueryCode json
          match code with
          | none => pure (false, json)
          | some code => pingPong fuel code json
        else pure (false, json)
    else pure (true, json)

/-- `curl_get_call`: any other code ends the call. -/
def curlGetCall : Nat → Option Json → Prog Session (Bool × Option Json)
  | 0, _ => .stop
  | fuel + 1, slot =>
    callWith (renewSession fuel) (curlGetCall fuel) (fun _ json => pure (true, json)) slot

/-- `renew_session`. The call itself is logged even if there is no fuel for its body. -/
def renewSession : Nat → Prog Session Bool
  | 0 => do
    note .renew
    .stop
  | fuel + 1 => do
    note .renew
    renewWith (curlPostCall fuel none)

end

/-- `request` with `POST_REQUEST_TYPE`. A handle that cannot be made is `Attempt.notMade`. -/
def requestPost (fuel : Nat) : Prog Session (Bool × Option Json) := curlPostCall fuel none

/-! ## Replies for examples -/

/-- A connection with both tokens. -/
def connectedSf : SfConnect where
  account := some "acct"
  user := some "user"
  password := none
  passcode := none
  host := some "acct.snowflakecomputing.com"
  region := none
  protocol := some "https"
  port := some "443"
  database := none
  schema := none
  warehouse := none
  role := none
  timezone := none
  token := some "session"
  masterToken := some "master"
  directURL := none
  directURLParam := none
  directQueryToken := none

/-- A reply that only has a code. -/
def codeReply (code : String) : Json := .obj [("code", .str code)]

/-- A reply to the token request. -/
def tokenReply (data : List (String × Json)) : Json :=
  .obj [("code", .null), ("success", .bool true), ("data", .obj data)]

end Snowflake
