import SnowflakeClient.Connection.Session

/-!
# Connecting

`snowflake_connect` (`lib/client.c`) with `_snowflake_check_connection_parameters` and
`_reset_connection_parameters`. The last one is a function on the connection object, with `none`
where the code reads through a `NULL` pointer: a member that it takes for granted is missing, or it
compares with a string that is none. `strtol(NULL)` is such a place too. A run that gets there does
not return.

The body of the login request is left out.
-/

namespace Snowflake

/-- `isspace` of the C locale. -/
def isSpace (c : Char) : Bool := c == ' ' || (decide ('\t' ≤ c) && decide (c ≤ '\r'))

/-- `strtol` with base 10, for a 64-bit `long`. -/
def strtol (s : String) : Int :=
  let value (cs : List Char) : Int :=
    (cs.takeWhile Char.isDigit).foldl (fun n c => 10 * n + (c.toNat - '0'.toNat : Nat)) 0
  let n :=
    match s.toList.dropWhile isSpace with
    | '-' :: cs => -value cs
    | '+' :: cs => value cs
    | cs => value cs
  max (-(2 ^ 63)) (min n (2 ^ 63 - 1))

/-! ## The parameters of the connection -/

/-- What `_snowflake_check_connection_parameters` fills in: the host from the account and the
region, in a buffer of 1024 bytes; then the account is split at its first dot; then the protocol
and the port. -/
def completeParameters (sf : SfConnect) : SfConnect :=
  let account := sf.account.getD ""
  let built :=
    match sf.region with
    | some region => account ++ "." ++ region ++ ".snowflakecomputing.com"
    | none => account ++ ".snowflakecomputing.com"
  let host := sf.host.getD (String.ofList (built.toList.take 1023))
  let protocol := sf.protocol.getD "https"
  let port := sf.port.getD "443"
  match account.toList.dropWhile (· ≠ '.') with
  | [] => { sf with host := some host, protocol := some protocol, port := some port }
  | _ :: region =>
    { sf with
      host := some host
      account := some (String.ofList (account.toList.takeWhile (· ≠ '.')))
      region := some (String.ofList region)
      protocol := some protocol
      port := some port }

/-- `_snowflake_check_connection_parameters`. -/
def checkConnectionParameters : Prog Session Status := do
  let sf ← .gets Session.sf
  if isStringEmpty sf.account then
    setError .errorBadConnectionParams "account parameter is missing" sqlstateUnableToConnect
    pure .errorGeneral
  else if isStringEmpty sf.user then
    setError .errorBadConnectionParams "user parameter is missing" sqlstateUnableToConnect
    pure .errorGeneral
  else if isStringEmpty sf.password then
    setError .errorBadConnectionParams "password parameter is missing" sqlstateUnableToConnect
    pure .errorGeneral
  else
    .update fun s => { s with sf := completeParameters s.sf }
    pure .success

/-! ## The session info of a reply -/

/-- The objects of a session that a reply names. -/
inductive SessionObject where
  | database
  | schema
  | warehouse
  | role
  deriving DecidableEq, Repr

namespace SessionObject

/-- The field of `SF_CONNECT`. -/
def get (sf : SfConnect) : SessionObject → Option String
  | database => sf.database
  | schema => sf.schema
  | warehouse => sf.warehouse
  | role => sf.role

/-- Stores the field (`alloc_buffer_and_copy`). -/
def set (sf : SfConnect) (value : Option String) : SessionObject → SfConnect
  | database => { sf with database := value }
  | schema => { sf with schema := value }
  | warehouse => { sf with warehouse := value }
  | role => { sf with role := value }

/-- The member of `sessionInfo`. -/
def jsonName : SessionObject → String
  | database => "databaseName"
  | schema => "schemaName"
  | warehouse => "warehouseName"
  | role => "roleName"

/-- The word in the error message. -/
def label : SessionObject → String
  | database => "database"
  | schema => "schema"
  | warehouse => "warehouse"
  | role => "role"

/-- The role is not checked: the server has done so. -/
def validated : SessionObject → Bool
  | role => false
  | _ => true

/-- The order in which the code goes through them. -/
def all : List SessionObject := [database, schema, warehouse, role]

end SessionObject

/-- One parameter of a reply: the time zone after it. -/
def parameterTimezone (timezone : Option String) (p : Json) : Option (Option String) :=
  match (Json.getObjectItem (some p) "name").bind Json.valuestring with
  | none => none
  | some name =>
    if name = "TIMEZONE" then
      match timezone, Json.getObjectItem (some p) "value" with
      | _, none => none
      | none, some value => some value.valuestring
      | some _, some value =>
        match value.valuestring with
        | none => none
        | some text => some (some text)
    else some timezone

/-- The loop over the parameters of a reply. -/
def parametersTimezone (timezone : Option String) (parameters : Option Json) :
    Option (Option String) :=
  ((parameters.map Json.child).getD []).foldlM parameterTimezone timezone

/-- One object of the session info: the connection object after it, and the message if the name
that was asked for does not exist. -/
def adoptObject (doValidate : Bool) (info : Json) (sf : SfConnect) (o : SessionObject) :
    Option (SfConnect × Option String) :=
  match Json.getObjectItem (some info) o.jsonName with
  | none => none
  | some item =>
    if doValidate && o.validated && !isStringEmpty (o.get sf) && item.valuestring.isNone then
      some (sf, some ("Specified " ++ o.label ++ " doesn't exists: [" ++
        (o.get sf).getD "" ++ "]"))
    else some (o.set sf item.valuestring, none)

/-- The objects one after the other, up to the first that does not exist. -/
def adoptObjects (doValidate : Bool) (info : Json) (sf : SfConnect) :
    List SessionObject → Option (SfConnect × Option String)
  | [] => some (sf, none)
  | o :: rest =>
    match adoptObject doValidate info sf o with
    | none => none
    | some (sf, some msg) => some (sf, some msg)
    | some (sf, none) => adoptObjects doValidate info sf rest

/-- `_reset_connection_parameters`: the connection object after it, and the message if it
fails. -/
def resetConnectionParameters (sf : SfConnect) (parameters sessionInfo : Option Json)
    (doValidate : Bool) : Option (SfConnect × Option String) :=
  match parametersTimezone sf.timezone parameters with
  | none => none
  | some timezone =>
    match sessionInfo with
    | none => some ({ sf with timezone := timezone }, none)
    | some info => adoptObjects doValidate info { sf with timezone := timezone } SessionObject.all

/-- `_set_parameters_session_info`. -/
def setParametersSessionInfo (data : Option Json) : Prog Session Status := do
  let sf ← .gets Session.sf
  match resetConnectionParameters sf (Json.getObjectItem data "parameters")
      (Json.getObjectItem data "sessionInfo") true with
  | none => .stop
  | some (sf, none) => do
    .update fun s => { s with sf := sf }
    pure .success
  | some (sf, some msg) => do
    .update fun s => { s with sf := sf }
    setError .errorApplicationError msg sqlstateUnableToConnect
    pure .errorGeneral

/-! ## Login -/

/-- `snowflake_connect` at a reply to its request. -/
def loginReply (resp : Option Json) : Prog Session Status :=
  match jsonCopyBool resp "success" with
  | .error _ => do
    setError .errorBadJson "No valid JSON response" sqlstateUnableToConnect
    pure .errorGeneral
  | .ok false =>
    let message := ((Json.getObjectItem resp "message").bind Json.valuestring).getD
      "Query was not successful"
    match Json.getObjectItem resp "code" with
    | none => do
      setError (.server (-1)) message sqlstateUnableToConnect
      pure .errorGeneral
    | some code =>
      match code.valuestring with
      | none => .stop
      | some text => do
        setError (.server (strtol text)) message sqlstateUnableToConnect
        pure .errorGeneral
  | .ok true => do
    let stored ← setTokens (Json.getObjectItem resp "data") "token" "masterToken"
    if stored then
      let ret ← setParametersSessionInfo (Json.getObjectItem resp "data")
      if 0 < ret.code then pure ret else pure .success
    else pure .errorGeneral

/-- `snowflake_connect`: the login request. -/
def login (fuel : Nat) : Prog Session Status := do
  let (ok, resp) ← requestPost fuel
  if ok then loginReply resp
  else
    let error ← .gets Session.error
    if error.errorCode.code = 0 then
      setError .errorBadJson "No valid JSON response" sqlstateUnableToConnect
      pure .errorGeneral
    else pure .errorGeneral

/-- The login request is made if the check of the parameters succeeded. -/
def loginIfChecked (fuel : Nat) (checked : Status) : Prog Session Status :=
  if checked = .success then login fuel else pure checked

/-- `snowflake_connect`. -/
def snowflakeConnect (fuel : Nat) : Prog Session Status := do
  let sf ← .gets Session.sf
  if sf.token.isSome || sf.masterToken.isSome then
    setError .errorApplicationError "Connection already exists." "08002"
    pure .errorGeneral
  else
    .update fun s => { s with error := .cleared }
    if !isStringEmpty sf.directURL then
      if isStringEmpty sf.directURLParam || isStringEmpty sf.directQueryToken then
        pure .errorBadConnectionParams
      else pure .success
    else
      let checked ← checkConnectionParameters
      let ret ← loginIfChecked fuel checked
      .update fun s => { s with sf := { s.sf with password := none, passcode := none } }
      pure ret

end Snowflake
