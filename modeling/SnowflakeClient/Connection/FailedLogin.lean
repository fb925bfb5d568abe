import SnowflakeClient.Connection.Connect
import SnowflakeClient.Connection.Renewal

/-!
# A login that fails

`snowflake_connect` stores what a reply brings piece by piece: the session token, the master token,
the database, the schema, the warehouse and the role, and it stops at the first piece that is not
as it should be. `failed_login_iff`: a connect that fails leaves the connection object unconnected,
unless the reply logs in halfway (`HalfLogin`).

Until the reply is there nothing is stored: without a master token, the request cannot renew a
session, so it keeps the connection object (`Ran`).
-/

namespace Snowflake

open Prog

/-- The database, the schema, the warehouse and the role. -/
def SfConnect.objects (sf : SfConnect) : List (Option String) :=
  SessionObject.all.map (SessionObject.get sf)

/-- `sf'` has no tokens, and the session objects of `sf`. -/
def Unconnected (sf sf' : SfConnect) : Prop :=
  sf'.token = none ∧ sf'.masterToken = none ∧ sf'.objects = sf.objects

/-- A connect from `s` to `s'` that returned `status`: if it failed, nothing is connected. -/
def LeavesUnconnected (s : Session) (status : Status) (s' : Session) : Prop :=
  status ≠ .success → Unconnected s.sf s'.sf

/-- The connection asks for an object, and the session info has something else than a name for
it. -/
def NotFound (sf : SfConnect) (info : Json) (o : SessionObject) : Prop :=
  o.validated = true ∧ isStringEmpty (o.get sf) = false ∧
    ∃ item, Json.getObjectItem (some info) o.jsonName = some item ∧ item.valuestring = none

/-- One of the objects is not found, and the session info has members for those before it. -/
def Rejects (sf : SfConnect) (info : Json) (objects : List SessionObject) : Prop :=
  ∃ before o after, objects = before ++ o :: after ∧ NotFound sf info o ∧
    ∀ p ∈ before, (Json.getObjectItem (some info) p.jsonName).isSome = true

/-- A reply that logs in halfway: it has a session token, and no master token, or session info
that does not have what the connection asks for. -/
def HalfLogin (sf : SfConnect) (resp : Option Json) : Prop :=
  jsonCopyBool resp "success" = .ok true ∧
    ∃ token, jsonCopyString (Json.getObjectItem resp "data") "token" = .ok token ∧
      ((∀ masterToken, jsonCopyString (Json.getObjectItem resp "data") "masterToken" ≠
          .ok masterToken) ∨
        (parametersTimezone sf.timezone
            (Json.getObjectItem (Json.getObjectItem resp "data") "parameters") ≠ none ∧
          ∃ info, Json.getObjectItem (Json.getObjectItem resp "data") "sessionInfo" = some info ∧
            Rejects sf info SessionObject.all))

/-- The state in which a connect from `s` makes its login request. -/
def Session.loginRequest (s : Session) : Session :=
  { s with error := .cleared, sf := completeParameters s.sf }

/-- A connect from `s` makes its login request and gets `resp` for it. -/
structure LoginAnswered (fuel : Nat) (s : Session) (resp : Option Json) : Prop where
  directURL : isStringEmpty s.sf.directURL = true
  account : isStringEmpty s.sf.account = false
  user : isStringEmpty s.sf.user = false
  password : isStringEmpty s.sf.password = false
  answered : (requestPost fuel s.loginRequest).1 = some (true, resp)

/-! ## The session info -/

section Objects

variable {sf : SfConnect} {info : Json} {o p : SessionObject} {objects : List SessionObject}

theorem get_set_ne (h : p ≠ o) (value : Option String) :
    SessionObject.get (SessionObject.set sf value o) p = SessionObject.get sf p := by
  cases o <;> cases p <;> first | rfl | exact absurd rfl h

/-- Whether something is rejected depends on the names that the connection asks for only. -/
theorem rejects_congr {sf' : SfConnect}
    (h : ∀ p ∈ objects, SessionObject.get sf' p = SessionObject.get sf p) :
    Rejects sf' info objects ↔ Rejects sf info objects := by
  have hfound : ∀ p ∈ objects, NotFound sf' info p ↔ NotFound sf info p := by
    intro p hp
    unfold NotFound
    rw [h p hp]
  constructor
  · rintro ⟨before, p, after, rfl, hp, hbefore⟩
    exact ⟨before, p, after, rfl, (hfound p (by simp)).mp hp, hbefore⟩
  · rintro ⟨before, p, after, rfl, hp, hbefore⟩
    exact ⟨before, p, after, rfl, (hfound p (by simp)).mpr hp, hbefore⟩

/-- Whether the first object or one of the others is rejected. -/
theorem rejects_cons : Rejects sf info (o :: objects) ↔
    NotFound sf info o ∨
      ((Json.getObjectItem (some info) o.jsonName).isSome = true ∧ Rejects sf info objects) := by
  constructor
  · rintro ⟨before, p, after, heq, hp, hbefore⟩
    cases before with
    | nil =>
      cases heq
      exact .inl hp
    | cons b before =>
      cases heq
      exact .inr ⟨hbefore o (by simp), before, p, after, rfl, hp,
        fun q hq => hbefore q (by simp [hq])⟩
  · rintro (ho | ⟨hsome, before, p, after, rfl, hp, hbefore⟩)
    · exact ⟨[], o, objects, rfl, ho, by simp⟩
    · refine ⟨o :: before, p, after, rfl, hp, ?_⟩
      intro q hq
      rcases List.mem_cons.mp hq with rfl | hq
      · exact hsome
      · exact hbefore q hq

theorem not_rejects_nil : ¬ Rejects sf info [] := by
  rintro ⟨before, o, after, heq, -⟩
  simp at heq

/-- The loop over the objects: it fails if it rejects one, and never touches the tokens. -/
theorem adoptObjects_spec (hnodup : objects.Nodup) :
    match adoptObjects true info sf objects with
    | none => ¬ Rejects sf info objects
    | some (sf', msg) => (msg.isSome = true ↔ Rejects sf info objects) ∧ sf'.token = sf.token := by
  induction objects generalizing sf with
  | nil => exact ⟨by simp [not_rejects_nil], rfl⟩
  | cons o rest ih =>
    obtain ⟨ho, hrest⟩ := List.nodup_cons.mp hnodup
    rw [rejects_cons]
    simp only [adoptObjects, adoptObject]
    cases hitem : Json.getObjectItem (some info) o.jsonName with
    | none => simp [NotFound, hitem]
    | some item =>
      simp only [Option.isSome_some, true_and]
      by_cases hcond : (true && o.validated && !isStringEmpty (o.get sf) &&
          item.valuestring.isNone) = true
      · rw [if_pos hcond]
        simp only [Bool.true_and, Bool.and_eq_true, Bool.not_eq_true', Option.isNone_iff_eq_none]
          at hcond
        exact ⟨⟨fun _ => .inl ⟨hcond.1.1, hcond.1.2, item, hitem, hcond.2⟩, fun _ => rfl⟩, rfl⟩
      · rw [if_neg hcond]
        have hfound : ¬ NotFound sf info o := by
          rintro ⟨hv, hne, item', hitem', hnone⟩
          rw [hitem] at hitem'
          cases hitem'
          exact hcond (by simp [hv, hne, hnone])
        have hset := @ih (SessionObject.set sf item.valuestring o) hrest
        have htoken : (SessionObject.set sf item.valuestring o).token = sf.token := by
          cases o <;> rfl
        have hsame : ∀ p ∈ rest,
            SessionObject.get (SessionObject.set sf item.valuestring o) p =
              SessionObject.get sf p := by
          intro p hp
          have hne : p ≠ o := fun h => ho (h ▸ hp)
          exact get_set_ne hne _
        rw [rejects_congr hsame, htoken] at hset
        simpa [hfound] using hset

/-- `_reset_connection_parameters`, as a login calls it: it fails if the parameters can be read
and the session info rejects an object. -/
theorem resetConnectionParameters_spec (sf : SfConnect) (parameters sessionInfo : Option Json) :
    let fails := parametersTimezone sf.timezone parameters ≠ none ∧
      ∃ info, sessionInfo = some info ∧ Rejects sf info SessionObject.all
    match resetConnectionParameters sf parameters sessionInfo true with
    | none => ¬ fails
    | some (sf', msg) => (msg.isSome = true ↔ fails) ∧ sf'.token = sf.token := by
  intro fails
  unfold resetConnectionParameters
  cases htz : parametersTimezone sf.timezone parameters with
  | none => exact fun h => h.1 htz
  | some timezone =>
    cases sessionInfo with
    | none =>
      refine ⟨⟨fun h => (by simp at h), ?_⟩, rfl⟩
      rintro ⟨-, info, hinfo, -⟩
      cases hinfo
    | some info =>
      have hsame : ∀ p ∈ SessionObject.all,
          SessionObject.get { sf with timezone := timezone } p = SessionObject.get sf p := by
        intro p _
        cases p <;> rfl
      have hfails : fails ↔ Rejects sf info SessionObject.all := by
        simp [fails, htz]
      have hspec := @adoptObjects_spec { sf with timezone := timezone } info SessionObject.all
        (by decide)
      rw [rejects_congr hsame] at hspec
      rw [hfails]
      exact hspec

end Objects

/-! ## The login -/

section Login

variable {fuel : Nat} {s s₁ : Session} {resp : Option Json}

/-- A step that stores nothing. -/
theorem leavesUnconnected_kept (hun : Unconnected s.sf s₁.sf) {P : Prop} (hp : P)
    {status : Status} {s' : Session} (hsf : s'.sf = s₁.sf) :
    LeavesUnconnected s status s' ↔ P := by
  refine ⟨fun _ => hp, fun _ _ => ?_⟩
  rw [hsf]
  exact hun

/-- A failure with a session token in place. -/
theorem not_leavesUnconnected {status : Status} (hne : status ≠ .success) {s' : Session}
    {token : String} (htoken : s'.sf.token = some token) : ¬ LeavesUnconnected s status s' := by
  intro h
  have hnone := (h hne).1
  rw [htoken] at hnone
  cases hnone

/-- `_set_parameters_session_info` after both tokens were stored. -/
theorem setParameters_iff {token : String} {data : Option Json}
    (htoken : s₁.sf.token = some token)
    (hhalf : HalfLogin s.sf resp ↔
      parametersTimezone s₁.sf.timezone (Json.getObjectItem data "parameters") ≠ none ∧
        ∃ info, Json.getObjectItem data "sessionInfo" = some info ∧
          Rejects s₁.sf info SessionObject.all) :
    Triple (setParametersSessionInfo data) s₁
      (fun status s' => (status = .success ∧ ¬ HalfLogin s.sf resp) ∨
        (status = .errorGeneral ∧ HalfLogin s.sf resp ∧ s'.sf.token = some token))
      (fun _ => ¬ HalfLogin s.sf resp) := by
  unfold setParametersSessionInfo
  refine Triple.gets_bind ?_
  have hspec := resetConnectionParameters_spec s₁.sf (Json.getObjectItem data "parameters")
    (Json.getObjectItem data "sessionInfo")
  rw [hhalf]
  match hreset : resetConnectionParameters s₁.sf (Json.getObjectItem data "parameters")
      (Json.getObjectItem data "sessionInfo") true with
  | none =>
    rw [hreset] at hspec
    exact Triple.stop hspec
  | some (sf', none) =>
    rw [hreset] at hspec
    exact Triple.update_bind (Triple.pure (.inl ⟨rfl, fun h => by simpa using hspec.1.mpr h⟩))
  | some (sf', some msg) =>
    rw [hreset] at hspec
    have hkept : sf'.token = some token := hspec.2.trans htoken
    exact Triple.update_bind (Triple.update_bind
      (Triple.pure (.inr ⟨rfl, hspec.1.mp rfl, hkept⟩)))

theorem not_halfLogin {sf : SfConnect} {resp : Option Json}
    (h : jsonCopyBool resp "success" ≠ .ok true) : ¬ HalfLogin sf resp := fun hhalf => h hhalf.1

/-- With both tokens there, only the session info can be at fault. -/
theorem halfLogin_of_tokens {sf sf' : SfConnect} {resp : Option Json} {token masterToken : String}
    (hs : jsonCopyBool resp "success" = .ok true)
    (htoken : jsonCopyString (Json.getObjectItem resp "data") "token" = .ok token)
    (hmaster : jsonCopyString (Json.getObjectItem resp "data") "masterToken" = .ok masterToken)
    (hobjects : sf'.objects = sf.objects) (hzone : sf'.timezone = sf.timezone) :
    HalfLogin sf resp ↔
      parametersTimezone sf'.timezone
        (Json.getObjectItem (Json.getObjectItem resp "data") "parameters") ≠ none ∧
      ∃ info, Json.getObjectItem (Json.getObjectItem resp "data") "sessionInfo" = some info ∧
        Rejects sf' info SessionObject.all := by
  have hget : ∀ p ∈ SessionObject.all, SessionObject.get sf' p = SessionObject.get sf p :=
    List.map_inj_left.mp hobjects
  simp only [HalfLogin, hs, htoken, hmaster, hzone, rejects_congr hget]
  simp

/-- `snowflake_connect` at a reply: what it leaves is unconnected if it fails, exactly if the
reply does not log in halfway. -/
theorem loginReply_iff (hun : Unconnected s.sf s₁.sf) (htz : s₁.sf.timezone = s.sf.timezone)
    (resp : Option Json) :
    Triple (loginReply resp) s₁
      (fun status s' => LeavesUnconnected s status s' ↔ ¬ HalfLogin s.sf resp)
      (fun _ => ¬ HalfLogin s.sf resp) := by
  unfold loginReply
  cases hs : jsonCopyBool resp "success" with
  | error e =>
    have hno : ¬ HalfLogin s.sf resp := not_halfLogin (by simp [hs])
    exact Triple.update_bind (Triple.pure (leavesUnconnected_kept hun hno rfl))
  | ok success =>
    cases success with
    | false =>
      have hno : ¬ HalfLogin s.sf resp := not_halfLogin (by simp [hs])
      dsimp only
      split
      next => exact Triple.update_bind (Triple.pure (leavesUnconnected_kept hun hno rfl))
      next =>
        split
        next => exact Triple.stop hno
        next => exact Triple.update_bind (Triple.pure (leavesUnconnected_kept hun hno rfl))
    | true =>
      refine Triple.bind (Q := fun stored s₂ =>
        match stored with
        | false => LeavesUnconnected s .errorGeneral s₂ ↔ ¬ HalfLogin s.sf resp
        | true => ∃ token masterToken,
            jsonCopyString (Json.getObjectItem resp "data") "token" = .ok token ∧
            jsonCopyString (Json.getObjectItem resp "data") "masterToken" = .ok masterToken ∧
            s₂.sf = { s₁.sf with token := some token, masterToken := some masterToken })
        (setTokens_rule ?_ ?_ ?_) ?_
      · intro hbad err _
        have hno : ¬ HalfLogin s.sf resp := by
          rintro ⟨-, token, htoken, -⟩
          exact hbad token htoken
        exact leavesUnconnected_kept hun hno rfl
      · intro token htoken hbad err _
        have hhalf : HalfLogin s.sf resp := ⟨hs, token, htoken, .inl hbad⟩
        exact iff_of_false (not_leavesUnconnected (by decide) rfl) (not_not_intro hhalf)
      · intro token masterToken htoken hmaster
        exact ⟨token, masterToken, htoken, hmaster, rfl⟩
      · rintro (_ | _) s₂ h
        · exact Triple.pure h
        · obtain ⟨token, masterToken, htoken, hmaster, hsf⟩ := h
          have hobjects : s₂.sf.objects = s.sf.objects := by
            rw [hsf]
            exact hun.2.2
          have hzone : s₂.sf.timezone = s.sf.timezone := by
            rw [hsf]
            exact htz
          have hhalf := halfLogin_of_tokens hs htoken hmaster hobjects hzone
          have hstored : s₂.sf.token = some token := by rw [hsf]
          refine Triple.bind (setParameters_iff hstored hhalf) ?_
          rintro status s₃ (⟨rfl, hno⟩ | ⟨rfl, hyes, htoken'⟩)
          · exact Triple.pure (iff_of_true (fun h => absurd rfl h) hno)
          · exact Triple.pure (iff_of_false (not_leavesUnconnected (by decide) htoken')
              (not_not_intro hyes))

theorem completeParameters_unconnected {sf : SfConnect} (htoken : sf.token = none)
    (hmaster : sf.masterToken = none) :
    Unconnected sf (completeParameters sf) ∧ (completeParameters sf).timezone = sf.timezone := by
  unfold completeParameters
  dsimp only
  split
  · exact ⟨⟨htoken, hmaster, rfl⟩, rfl⟩
  · exact ⟨⟨htoken, hmaster, rfl⟩, rfl⟩

/-- The login request and what follows. -/
theorem login_iff (htoken : s.sf.token = none) (hmaster : s.sf.masterToken = none)
    {P : Prop}
    (hp : P ↔ ∀ resp, (requestPost fuel s.loginRequest).1 = some (true, resp) →
      ¬ HalfLogin s.sf resp) :
    Triple (login fuel) s.loginRequest (fun status s' => LeavesUnconnected s status s' ↔ P)
      (fun _ => P) := by
  obtain ⟨hun, htz⟩ := completeParameters_unconnected htoken hmaster
  -- without a master token the request cannot change the connection object
  have hran : Ran 1 s.loginRequest (requestPost fuel s.loginRequest).2 :=
    Triple.ended ((calls_ran fuel).1 none s.loginRequest)
  obtain ⟨l, -, -, hkept⟩ := hran
  have hempty : isStringEmpty s.loginRequest.sf.masterToken = true := by
    have hnone : s.loginRequest.sf.masterToken = none := hun.2.1
    rw [hnone]
    rfl
  have hsf := hkept (.inr hempty)
  unfold login
  refine Triple.bind (Triple.mono Triple.self (fun _ _ h => h) ?_) ?_
  · intro s' hrun
    refine hp.mpr fun resp hresp => ?_
    rw [hrun] at hresp
    cases hresp
  · rintro ⟨ok, resp⟩ s' hrun
    rw [hrun] at hsf hp
    have hsf' : s'.sf = completeParameters s.sf := hsf
    rw [← hsf'] at hun htz
    cases ok with
    | true =>
      have hP : P ↔ ¬ HalfLogin s.sf resp := by
        rw [hp]
        refine ⟨fun h => h resp rfl, fun h resp' hresp => ?_⟩
        cases hresp
        exact h
      rw [hP]
      exact loginReply_iff hun htz resp
    | false =>
      have hP : P := hp.mpr fun resp' hresp => by cases hresp
      refine Triple.gets_bind ?_
      split
      · exact Triple.update_bind (Triple.pure (leavesUnconnected_kept hun hP rfl))
      · exact Triple.pure (leavesUnconnected_kept hun hP rfl)

end Login

/-- `_snowflake_check_connection_parameters`: it fails if a parameter is missing. -/
theorem checkConnectionParameters_rule {s : Session} {Q : Status → Session → Prop}
    {E : Session → Prop}
    (hbad : isStringEmpty s.sf.account = true ∨ isStringEmpty s.sf.user = true ∨
      isStringEmpty s.sf.password = true → ∀ err, Q .errorGeneral { s with error := err })
    (hok : isStringEmpty s.sf.account = false → isStringEmpty s.sf.user = false →
      isStringEmpty s.sf.password = false →
      Q .success { s with sf := completeParameters s.sf }) :
    Triple checkConnectionParameters s Q E := by
  unfold checkConnectionParameters
  refine Triple.gets_bind ?_
  split
  next h => exact Triple.update_bind (Triple.pure (hbad (.inl h) _))
  next haccount =>
    split
    next h => exact Triple.update_bind (Triple.pure (hbad (.inr (.inl h)) _))
    next huser =>
      split
      next h => exact Triple.update_bind (Triple.pure (hbad (.inr (.inr h)) _))
      next hpassword =>
        exact Triple.update_bind (Triple.pure (hok (Bool.eq_false_iff.mpr haccount)
          (Bool.eq_false_iff.mpr huser) (Bool.eq_false_iff.mpr hpassword)))

/-- For every connection object without tokens and every reply: a connect that fails leaves it
unconnected exactly if the reply to the login request, if there is one, does not log in halfway. -/
theorem failed_login_iff (fuel : Nat) (s : Session) (htoken : s.sf.token = none)
    (hmaster : s.sf.masterToken = none) :
    Triple (snowflakeConnect fuel) s (LeavesUnconnected s) (fun _ => True) ↔
      ∀ resp, LoginAnswered fuel s resp → ¬ HalfLogin s.sf resp := by
  refine Triple.iff_of ?_
  unfold snowflakeConnect
  refine Triple.gets_bind ?_
  rw [if_neg (by simp [htoken, hmaster])]
  have hun : Unconnected s.sf s.sf := ⟨htoken, hmaster, rfl⟩
  refine Triple.update_bind ?_
  split
  next hdirect =>
    have hP : ∀ resp, LoginAnswered fuel s resp → ¬ HalfLogin s.sf resp := by
      intro resp h
      simp [h.directURL] at hdirect
    split
    · exact Triple.pure (leavesUnconnected_kept hun hP rfl)
    · exact Triple.pure (leavesUnconnected_kept hun hP rfl)
  next hdirect =>
    -- the passwords that are erased at the end are of no account
    refine Triple.bind (Q := fun checked s₁ =>
      Triple (loginIfChecked fuel checked) s₁
        (fun status s' => LeavesUnconnected s status s' ↔
          ∀ resp, LoginAnswered fuel s resp → ¬ HalfLogin s.sf resp)
        (fun _ => ∀ resp, LoginAnswered fuel s resp → ¬ HalfLogin s.sf resp))
      (checkConnectionParameters_rule ?_ ?_) ?_
    · intro hbad err
      have hP : ∀ resp, LoginAnswered fuel s resp → ¬ HalfLogin s.sf resp := by
        intro resp h
        simp [h.account, h.user, h.password] at hbad
      exact Triple.pure (leavesUnconnected_kept hun hP rfl)
    · intro haccount huser hpassword
      refine login_iff htoken hmaster ?_
      refine ⟨fun h resp hresp => ?_, fun h resp hresp => h resp hresp.answered⟩
      exact h resp ⟨by simpa using hdirect, haccount, huser, hpassword, hresp⟩
    · intro checked s₁ h
      refine Triple.bind h ?_
      intro status s' hiff
      refine Triple.update_bind ?_
      exact Triple.pure hiff

/-- A connection object before its login. -/
def newSf (database : Option String) : SfConnect :=
  { connectedSf with
    password := some "secret", database := database, token := none, masterToken := none }

/-- The server refuses the password. -/
def deniedReply : Json :=
  .obj [("data", .null), ("code", .str "390100"),
    ("message", .str "Incorrect username or password"), ("success", .bool false)]

theorem failed_login_denied :
    Triple (snowflakeConnect 4)
      (.start (newSf (some "DB")) .cleared [.answer 200 (some deniedReply)])
      (LeavesUnconnected (.start (newSf (some "DB")) .cleared [.answer 200 (some deniedReply)]))
      (fun _ => True) := by
  refine (failed_login_iff 4 _ rfl rfl).mpr fun resp h => ?_
  have hresp : some (true, some deniedReply) = some (true, resp) := h.answered
  cases hresp
  rintro ⟨hok, -⟩
  cases hok

/-- The server logs in, without the database that was asked for. -/
def noDatabaseReply : Json :=
  .obj [("data", .obj
      [("token", .str "s1"), ("masterToken", .str "m1"),
       ("sessionInfo", .obj [("databaseName", .null), ("schemaName", .null),
         ("warehouseName", .null), ("roleName", .str "PUBLIC")])]),
    ("code", .null), ("success", .bool true)]

/-- A connect with that reply. -/
def lostDatabase : Session :=
  .start (newSf (some "NEVER_EXISTS")) .cleared [.answer 200 (some noDatabaseReply)]

/-- The connect fails with both tokens stored, and the next one is refused. -/
theorem failed_login_keeps_tokens :
    (snowflakeConnect 4 lostDatabase).1 = some .errorGeneral ∧
      (snowflakeConnect 4 lostDatabase).2.tokens = (some "s1", some "m1") ∧
      (snowflakeConnect 4 (snowflakeConnect 4 lostDatabase).2).2.error.msg =
        some "Connection already exists." := by
  decide

end Snowflake
