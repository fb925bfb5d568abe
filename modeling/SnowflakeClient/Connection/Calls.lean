import SnowflakeClient.Connection.Session

/-!
# Rules for the calls

One rule for each function of `SnowflakeClient/Connection/Session.lean`: what has to hold for a
postcondition of it. Proofs about whole exchanges go by induction on the fuel, with the rules for
the step, and unfold nothing below.

* `Answered s s'`: between the two, one request was made and nothing else was touched.
* `callWith_rule`: what `curl_post_call` and `curl_get_call` share, by the code of the reply.
* `renewReply_eq`: the end of a renewal, by the tokens in the reply (`renewedTokens`).
* `curlPostCall_ends`: the calls return, or wait for an answer.
* `curlPostCall_described`: a call that fails has set the error, unless a request could not be made.
-/

namespace Snowflake

open Prog

/-- One request: at least one attempt is used up, and the error struct may have been set. -/
structure Answered (s s' : Session) : Prop where
  sf : s'.sf = s.sf
  renewals : s'.renewals = s.renewals
  log : s'.log = s.log
  attempts : s'.attempts.length < s.attempts.length
  suffix : s'.attempts <:+ s.attempts

/-- A request that failed: the error is set, unless the request could not be made. -/
structure Failed (s s' : Session) : Prop extends Answered s s' where
  described : .notMade ∉ s.attempts → s'.error.errorCode.code ≠ 0

/-- A request with the reply `json`. -/
structure Replied (json : Option Json) (s s' : Session) : Prop extends Answered s s' where
  reply : .answer 200 json ∈ s.attempts

/-- What `http_perform` did, by its result. -/
def Performed (s : Session) : Bool × Option Json → Session → Prop
  | (true, some json), s' => Replied (some json) s s'
  | _, s' => Failed s s'

/-- The text in `query_code` after the member `code` of a reply was read. -/
def queryCode (json : Option Json) : Option String :=
  match jsonCopyStringNoAlloc json "code" querycodeLen with
  | .ok code => some code
  | .error .itemNull => some ""
  | .error _ => none

/-- What `exchange` did, by its result. -/
def Exchanged (s : Session) : Option String × Option Json → Session → Prop
  | (none, _), s' => Failed s s'
  | (some code, json), s' => Replied json s s' ∧ queryCode json = some code

section Rules

variable {slot json : Option Json} {s : Session} {E : Session → Prop}

/-- The loop of `http_perform` waits for an answer, or one of the attempts ends it. -/
theorem httpPerformFrom_cases (slot : Option Json) (attempts : List Attempt) (s : Session) :
    httpPerformFrom slot attempts s = (none, { s with attempts := [] }) ∨
      ∃ r rest err, httpPerformFrom slot attempts s =
          (some r, { s with attempts := rest, error := err }) ∧
        rest.length < attempts.length ∧ rest <:+ attempts ∧
        (r.1 = true → r.2.isSome = true ∧ .answer 200 r.2 ∈ attempts) ∧
        (r.1 = false → .notMade ∉ attempts → err.errorCode.code ≠ 0) := by
  induction attempts with
  | nil => exact .inl rfl
  | cons a rest ih =>
    have hlen : rest.length < (a :: rest).length := by simp
    have hsuffix : rest <:+ a :: rest := List.suffix_cons a rest
    cases a with
    | notMade => exact .inr ⟨_, rest, s.error, rfl, hlen, hsuffix, by simp, by simp⟩
    | notPerformed msg =>
      exact .inr ⟨_, rest, _, rfl, hlen, hsuffix, by simp, fun _ _ => by simp [Status.code]⟩
    | answer httpCode body =>
      simp only [httpPerformFrom]
      split
      next hok =>
        cases body with
        | none => exact .inr ⟨_, rest, _, rfl, hlen, hsuffix, by simp, fun _ _ => by decide⟩
        | some json => exact .inr ⟨_, rest, s.error, rfl, hlen, hsuffix, by simp [hok], by simp⟩
      next =>
        split
        next =>
          -- another round
          obtain hwait | ⟨r, rest', err, hr, hlen', hsuffix', hsome, herr⟩ := ih
          · exact .inl hwait
          · exact .inr ⟨r, rest', err, hr, Nat.lt_trans hlen' hlen, hsuffix'.trans hsuffix,
              fun hok => ⟨(hsome hok).1, List.mem_cons_of_mem _ (hsome hok).2⟩,
              fun hf hno => herr hf fun hmem => hno (List.mem_cons_of_mem _ hmem)⟩
        next => exact .inr ⟨_, rest, _, rfl, hlen, hsuffix, by simp, fun _ _ => by decide⟩

theorem httpPerform_rule {Q : Bool × Option Json → Session → Prop}
    (hwait : E { s with attempts := [] })
    (hfail : ∀ json s', Failed s s' → Q (false, json) s')
    (hdone : ∀ json s', Replied (some json) s s' → Q (true, some json) s') :
    Triple (httpPerform slot) s Q E := by
  obtain h | ⟨⟨ok, json⟩, rest, err, h, hlen, hsuffix, hsome, herr⟩ :=
    httpPerformFrom_cases slot s.attempts s
  · exact Triple.of_stops h hwait
  · refine Triple.of_returns h ?_
    cases ok with
    | false => exact hfail json _ ⟨⟨rfl, rfl, rfl, hlen, hsuffix⟩, herr rfl⟩
    | true =>
      cases json with
      | none => exact absurd (hsome rfl).1 Bool.false_ne_true
      | some json => exact hdone json _ ⟨⟨rfl, rfl, rfl, hlen, hsuffix⟩, (hsome rfl).2⟩

theorem readQueryCode_rule {Q : Option String → Session → Prop}
    (hbad : ∀ err, err.errorCode.code ≠ 0 → Q none { s with error := err })
    (hcode : ∀ code, queryCode json = some code → Q (some code) s) :
    Triple (readQueryCode json) s Q E := by
  unfold readQueryCode
  unfold queryCode at hcode
  split
  next code h => exact Triple.pure (hcode code (by rw [h]))
  next h => exact Triple.pure (hcode "" (by rw [h]))
  next => exact Triple.update_bind (Triple.pure (hbad _ (by simp [Status.code])))

theorem exchange_rule {Q : Option String × Option Json → Session → Prop}
    (hwait : E { s with attempts := [] })
    (hfail : ∀ json s', Failed s s' → Q (none, json) s')
    (hcode : ∀ code json s', Replied json s s' → queryCode json = some code →
      Q (some code, json) s') :
    Triple (exchange slot) s Q E := by
  unfold exchange
  have hperform : Triple (httpPerform slot) s (Performed s) E :=
    httpPerform_rule hwait (fun _ _ h => h) fun _ _ h => h
  refine Triple.bind hperform ?_
  rintro ⟨_ | _, _ | json⟩ s' ha
  · exact Triple.pure (hfail none s' ha)
  · exact Triple.pure (hfail (some json) s' ha)
  · exact Triple.pure (hfail none s' ha)
  · refine Triple.bind (readQueryCode_rule (Q := fun code s'' => Q (code, some json) s'') ?_ ?_) ?_
    · exact fun err herr => hfail (some json) _
        ⟨⟨ha.sf, ha.renewals, ha.log, ha.attempts, ha.suffix⟩, fun _ => herr⟩
    · exact fun code hc => hcode code (some json) s' ha hc
    · exact fun code s'' h => Triple.pure h

/-- A call by the code of its reply: it fails, it is done, the session is to be renewed, or the
caller's `other` goes on. -/
theorem callWith_rule {renew : Prog Session Bool}
    {again : Option Json → Prog Session (Bool × Option Json)}
    {other : String → Option Json → Prog Session (Bool × Option Json)}
    {Q : Bool × Option Json → Session → Prop}
    (hwait : E { s with attempts := [] })
    (hfail : ∀ json s', Failed s s' → Q (false, json) s')
    (hdone : ∀ json s', Replied json s s' → queryCode json = some "" → Q (true, json) s')
    (hrenew : ∀ json s', Answered s s' →
      Triple renew { s' with log := s'.log ++ [.expired s'.renewals] }
        (fun renewed s'' =>
          bif renewed then Triple (again json) s'' Q E else Q (false, json) s'') E)
    (hother : ∀ code json s', Replied json s s' → queryCode json = some code →
      code ≠ sessionExpireCode → Triple (other code json) s' Q E) :
    Triple (callWith renew again other slot) s Q E := by
  unfold callWith
  have hexchange : Triple (exchange slot) s (Exchanged s) E :=
    exchange_rule hwait (fun _ _ h => h) fun _ _ _ ha hc => ⟨ha, hc⟩
  refine Triple.bind hexchange ?_
  rintro ⟨code, json⟩ s' h
  cases code with
  | none => exact Triple.pure (hfail json s' h)
  | some code =>
    obtain ⟨ha, hcode⟩ := h
    dsimp only
    split
    next h => exact Triple.pure (hdone json s' ha (h ▸ hcode))
    next =>
      split
      next =>
        refine Triple.update_bind (Triple.bind (hrenew json s' ha.toAnswered) ?_)
        rintro renewed s'' h
        cases renewed with
        | false => exact Triple.pure h
        | true => exact h
      next hne => exact hother code json s' ha hcode hne

/-- One round of the ping-pong loop of `curl_post_call`. -/
theorem pingPong_rule {fuel : Nat} {code : String} {Q : Bool × Option Json → Session → Prop}
    (hdone : code ≠ queryInProgressCode → code ≠ queryInProgressAsyncCode → Q (true, json) s)
    (hbad : ∀ err, err.errorCode.code ≠ 0 → Q (false, json) { s with error := err })
    (hget : Triple (curlGetCall fuel json) s
      (fun r s' => (r.1 = false → Q (false, r.2) s') ∧
        (∀ err, err.errorCode.code ≠ 0 → Q (false, r.2) { s' with error := err }) ∧
        (r.1 = true → ∀ code, queryCode r.2 = some code → Triple (pingPong fuel code r.2) s' Q E))
      E) :
    Triple (pingPong (fuel + 1) code json) s Q E := by
  unfold pingPong
  split
  next =>
    split
    next => exact Triple.update_bind (Triple.pure (hbad _ (by decide)))
    next =>
      refine Triple.bind hget ?_
      rintro ⟨ok, json'⟩ s' ⟨hfail, hbad', hnext⟩
      cases ok with
      | false => exact Triple.pure (hfail rfl)
      | true =>
        refine Triple.bind (readQueryCode_rule
          (Q := fun code s'' => code.elim (Q (false, json') s'')
            fun code => Triple (pingPong fuel code json') s'' Q E) hbad' (hnext rfl)) ?_
        rintro (_ | code) s'' h
        · exact Triple.pure h
        · exact h
  next hcode =>
    obtain ⟨hne, hne'⟩ := not_or.mp hcode
    exact Triple.pure (hdone hne hne')

/-! ## Renewal -/

/-- The tokens that a reply to the token request brings, if it passes the checks of
`renew_session` and its session token is a string: the session token, and the master token if that
is a string. -/
def renewedTokens (ok : Bool) (json : Option Json) : Option (String × Option String) :=
  if ok then
    match jsonCopyBool json "success", Json.getObjectItem json "data" with
    | .ok true, some data =>
      match jsonCopyString (some data) "sessionToken", jsonCopyString (some data) "masterToken" with
      | .ok token, .ok masterToken => some (token, some masterToken)
      | .ok token, .error _ => some (token, none)
      | .error _, _ => none
    | _, _ => none
  else none

/-- `set_tokens` by the strings that it finds. -/
theorem setTokens_rule {data : Option Json} {sessionTokenStr masterTokenStr : String}
    {Q : Bool → Session → Prop}
    (hnone : (∀ token, jsonCopyString data sessionTokenStr ≠ .ok token) →
      ∀ err, err.errorCode.code ≠ 0 → Q false { s with error := err })
    (hhalf : ∀ token, jsonCopyString data sessionTokenStr = .ok token →
      (∀ masterToken, jsonCopyString data masterTokenStr ≠ .ok masterToken) →
      ∀ err, err.errorCode.code ≠ 0 →
        Q false { s with sf := { s.sf with token := some token }, error := err })
    (hboth : ∀ token masterToken, jsonCopyString data sessionTokenStr = .ok token →
      jsonCopyString data masterTokenStr = .ok masterToken →
      Q true { s with sf := { s.sf with token := some token, masterToken := some masterToken } }) :
    Triple (setTokens data sessionTokenStr masterTokenStr) s Q E := by
  unfold setTokens
  cases ht : jsonCopyString data sessionTokenStr with
  | error e => exact Triple.update_bind (Triple.pure (hnone (by simp [ht]) _ (by decide)))
  | ok token =>
    refine Triple.update_bind ?_
    cases hm : jsonCopyString data masterTokenStr with
    | error e =>
      exact Triple.update_bind (Triple.pure (hhalf token ht (by simp [hm]) _ (by decide)))
    | ok masterToken => exact Triple.update_bind (Triple.pure (hboth token masterToken ht hm))

/-- The end of a renewal by the tokens that the reply brings. -/
theorem renewReply_rule {ok : Bool} {Q : Bool → Session → Prop}
    (hfail : ok = false ∨ json = none → renewedTokens ok json = none → Q false s)
    (hnone : renewedTokens ok json = none →
      ∀ err, err.errorCode.code ≠ 0 → Q false { s with error := err })
    (hhalf : ∀ token, renewedTokens ok json = some (token, none) →
      ∀ err, err.errorCode.code ≠ 0 →
        Q false { s with sf := { s.sf with token := some token }, error := err })
    (hboth : ∀ token masterToken, renewedTokens ok json = some (token, some masterToken) →
      Q true { s with sf := { s.sf with token := some token, masterToken := some masterToken } }) :
    Triple (renewReply ok json) s Q E := by
  unfold renewReply
  cases ok with
  | false => exact Triple.pure (hfail (.inl rfl) rfl)
  | true =>
    cases json with
    | none => exact Triple.pure (hfail (.inr rfl) rfl)
    | some j =>
      simp only [renewedTokens, if_true] at hnone hhalf hboth
      simp only [Bool.not_true, Option.isNone_some, Bool.or_self, Bool.false_eq_true, if_false]
      cases hs : jsonCopyBool (some j) "success" with
      | error e =>
        exact Triple.update_bind (Triple.pure (hnone (by rw [hs]) _ (by simp [Status.code])))
      | ok success =>
        cases success with
        | false => exact Triple.update_bind (Triple.pure (hnone (by rw [hs]) _ (by decide)))
        | true =>
          cases hd : Json.getObjectItem (some j) "data" with
          | none => exact Triple.update_bind (Triple.pure (hnone (by rw [hs, hd]) _ (by decide)))
          | some data =>
            simp only [hs, hd] at hnone hhalf hboth
            dsimp only
            cases ht : Json.getObjectItem (some data) "sessionToken" with
            | none =>
              have herr : jsonCopyString (some data) "sessionToken" = .error .itemMissing := by
                simp only [jsonCopyString, jsonCopy, ht]
              exact Triple.update_bind (Triple.pure (hnone (by rw [herr]) _ (by decide)))
            | some item =>
              refine setTokens_rule ?_ ?_ ?_
              · intro hbad
                refine hnone ?_
                split <;> simp_all
              · intro token hok hbad
                refine hhalf token ?_
                split <;> simp_all
              · intro token masterToken hok hok'
                exact hboth token masterToken (by rw [hok, hok'])

/-- `renew_session`: it refuses, or makes its request with one more renewal active. -/
theorem renewWith_rule {post : Prog Session (Bool × Option Json)} {Q : Bool → Session → Prop}
    (hrefuse : isStringEmpty s.sf.directURL = false ∨ isStringEmpty s.sf.masterToken = true →
      ∀ err, err.errorCode.code ≠ 0 → Q false { s with error := err })
    (hpost : isStringEmpty s.sf.directURL = true → isStringEmpty s.sf.masterToken = false →
      Triple post { s with renewals := s.renewals + 1 }
        (fun r s' => Triple (renewReply r.1 r.2) { s' with renewals := s'.renewals - 1 } Q E) E) :
    Triple (renewWith post) s Q E := by
  unfold renewWith
  refine Triple.gets_bind ?_
  split
  next h =>
    exact Triple.update_bind (Triple.pure (hrefuse (.inl (by simpa using h)) _ (by decide)))
  next h =>
    split
    next hm => exact Triple.update_bind (Triple.pure (hrefuse (.inr hm) _ (by decide)))
    next hm =>
      refine Triple.update_bind
        (Triple.bind (hpost (by simpa using h) (Bool.eq_false_iff.mpr hm)) ?_)
      rintro ⟨ok, json⟩ s' hr
      exact Triple.update_bind hr

/-! ## The fuel -/

/-- The number of attempts to come. -/
def Session.left (s : Session) : Nat := s.attempts.length

/-- With fuel for all the attempts, the calls end, or use up the attempts. -/
theorem calls_end (fuel : Nat) :
    (∀ slot s, 3 * s.left + 1 ≤ fuel → Triple (curlPostCall fuel slot) s
      (fun _ s' => s'.left < s.left) (fun s' => s'.attempts = [])) ∧
    (∀ code json s, 3 * s.left + 2 ≤ fuel → Triple (pingPong fuel code json) s
      (fun _ s' => s'.left ≤ s.left) (fun s' => s'.attempts = [])) ∧
    (∀ slot s, 3 * s.left + 1 ≤ fuel → Triple (curlGetCall fuel slot) s
      (fun _ s' => s'.left < s.left) (fun s' => s'.attempts = [])) ∧
    (∀ s, 3 * s.left + 2 ≤ fuel → Triple (renewSession fuel) s
      (fun _ s' => s'.left ≤ s.left) (fun s' => s'.attempts = [])) := by
  induction fuel with
  | zero => exact ⟨by omega, by omega, by omega, by omega⟩
  | succ fuel ih =>
    obtain ⟨ihpost, ihping, ihget, ihrenew⟩ := ih
    -- after a session-expired reply there is fuel for the renewal and for the second request
    have hrenewed : ∀ {again : Option Json → Prog Session (Bool × Option Json)} {s₀ : Session},
        (∀ slot s, 3 * s.left + 1 ≤ fuel → Triple (again slot) s
          (fun _ s' => s'.left < s.left) (fun s' => s'.attempts = [])) →
        3 * s₀.left + 1 ≤ fuel + 1 → ∀ json s', Answered s₀ s' →
        Triple (renewSession fuel) { s' with log := s'.log ++ [.expired s'.renewals] }
          (fun renewed s'' => bif renewed then Triple (again json) s''
              (fun _ s' => s'.left < s₀.left) (fun s' => s'.attempts = [])
            else s''.left < s₀.left) (fun s' => s'.attempts = []) := by
      intro again s₀ hagain hfuel json s' ha
      have hlt : s'.left < s₀.left := ha.attempts
      have hleft : 3 * s'.left + 2 ≤ fuel := by omega
      refine Triple.mono (ihrenew _ hleft) ?_ (fun _ h => h)
      intro renewed s'' hle
      have hle' : s''.left ≤ s'.left := hle
      cases renewed with
      | false => exact Nat.lt_of_le_of_lt hle' hlt
      | true =>
        refine (hagain json s'' (by omega)).mono (fun _ s₃ h₃ => ?_) (fun _ h => h)
        exact Nat.lt_trans h₃ (Nat.lt_of_le_of_lt hle' hlt)
    refine ⟨?_, ?_, ?_, ?_⟩
    · intro slot s hfuel
      unfold curlPostCall
      refine Triple.update_bind (callWith_rule rfl (fun _ s' ha => ha.attempts)
        (fun _ s' ha _ => ha.attempts) ?_ ?_)
      · have hleft : 3 * Session.left { s with log := s.log ++ [.post] } + 1 ≤ fuel + 1 := hfuel
        exact hrenewed ihpost hleft
      · intro code json s' ha _ _
        have hlt : s'.left < s.left := ha.attempts
        exact (ihping code json s' (by omega)).mono
          (fun _ s'' h => Nat.lt_of_le_of_lt h hlt) (fun _ h => h)
    · intro code json s hfuel
      refine pingPong_rule (fun _ _ => Nat.le_refl _) (fun _ _ => Nat.le_refl _) ?_
      refine (ihget json s (by omega)).mono ?_ (fun _ h => h)
      intro r s' hlt
      refine ⟨fun _ => Nat.le_of_lt hlt, fun _ _ => Nat.le_of_lt hlt, fun _ code _ => ?_⟩
      exact (ihping code r.2 s' (by omega)).mono
        (fun _ s'' h => Nat.le_trans h (Nat.le_of_lt hlt)) (fun _ h => h)
    · intro slot s hfuel
      unfold curlGetCall
      refine callWith_rule rfl (fun _ s' ha => ha.attempts) (fun _ s' ha _ => ha.attempts) ?_ ?_
      · exact hrenewed ihget hfuel
      · exact fun _ json s' ha _ _ => Triple.pure ha.attempts
    · intro s hfuel
      unfold renewSession
      refine Triple.update_bind (renewWith_rule (fun _ _ _ => Nat.le_refl _) fun _ _ => ?_)
      have hleft : 3 * s.left + 1 ≤ fuel := by omega
      refine Triple.mono (ihpost none _ hleft) ?_ (fun _ h => h)
      intro r s' hlt
      have hle : s'.left ≤ s.left := Nat.le_of_lt hlt
      exact renewReply_rule (fun _ _ => hle) (fun _ _ _ => hle) (fun _ _ _ _ => hle)
        (fun _ _ _ => hle)

/-- `curl_post_call` returns, or waits for an answer that does not come: the fuel is no bound of
its own. -/
theorem curlPostCall_ends {fuel : Nat} (slot : Option Json) {s : Session}
    (hfuel : 3 * s.attempts.length + 1 ≤ fuel) :
    Triple (curlPostCall fuel slot) s (fun _ _ => True) (fun s' => s'.attempts = []) :=
  ((calls_end fuel).1 slot s hfuel).mono (fun _ _ _ => trivial) (fun _ h => h)

/-! ## Errors -/

/-- The attempts to come are requests that can be made, whose replies are all `P`. -/
structure Heard (P : Option Json → Prop) (attempts : List Attempt) : Prop where
  made : .notMade ∉ attempts
  reply : ∀ json, .answer 200 json ∈ attempts → P json

/-- What a call hands over: a reply if it succeeded, an error if it failed. -/
structure Described (P : Option Json → Prop) (r : Bool × Option Json) (s' : Session) : Prop where
  heard : Heard P s'.attempts
  reply : r.1 = true → r.2.isSome = true ∧ P r.2
  error : r.1 = false → s'.error.errorCode.code ≠ 0

theorem isSome_of_queryCode {code : String} (h : queryCode json = some code) :
    json.isSome = true := by
  cases json with
  | some j => rfl
  | none => cases h

section Described

variable {P : Option Json → Prop} {s' : Session}

theorem Answered.heard (ha : Answered s s') (h : Heard P s.attempts) : Heard P s'.attempts where
  made hmem := h.made (ha.suffix.subset hmem)
  reply json hmem := h.reply json (ha.suffix.subset hmem)

theorem Described.of_error (h : Heard P s'.attempts) (herr : s'.error.errorCode.code ≠ 0) :
    Described P (false, json) s' :=
  ⟨h, fun hf => absurd hf Bool.false_ne_true, fun _ => herr⟩

theorem Described.of_reply (h : Heard P s'.attempts) (hsome : json.isSome = true) (hjson : P json) :
    Described P (true, json) s' :=
  ⟨h, fun _ => ⟨hsome, hjson⟩, fun hf => absurd hf.symm Bool.false_ne_true⟩

/-- What a renewal leaves: an error if it failed. -/
def RenewalDescribed (P : Option Json → Prop) (renewed : Bool) (s' : Session) : Prop :=
  Heard P s'.attempts ∧ (renewed = false → s'.error.errorCode.code ≠ 0)

theorem callWith_described {renew : Prog Session Bool}
    {again : Option Json → Prog Session (Bool × Option Json)}
    {other : String → Option Json → Prog Session (Bool × Option Json)}
    (hrenew : ∀ s, Heard P s.attempts → Triple renew s (RenewalDescribed P) (fun _ => True))
    (hagain : ∀ slot s, Heard P s.attempts →
      Triple (again slot) s (Described P) (fun _ => True))
    (hother : ∀ code json s, Heard P s.attempts → json.isSome = true ∧ P json →
      Triple (other code json) s (Described P) (fun _ => True))
    (slot : Option Json) (hheard : Heard P s.attempts) :
    Triple (callWith renew again other slot) s (Described P) (fun _ => True) := by
  refine callWith_rule trivial ?_ ?_ ?_ ?_
  · exact fun _ _ h => .of_error (h.toAnswered.heard hheard) (h.described hheard.made)
  · exact fun _ _ ha hcode => .of_reply (ha.toAnswered.heard hheard)
      (isSome_of_queryCode hcode) (hheard.reply _ ha.reply)
  · intro json s' ha
    refine Triple.mono (hrenew _ ?_) ?_ fun _ h => h
    · exact ha.heard hheard
    rintro (_ | _) s'' ⟨hheard'', herr⟩
    · exact .of_error hheard'' (herr rfl)
    · exact hagain json s'' hheard''
  · exact fun code json s' ha hcode _ => hother code json s' (ha.toAnswered.heard hheard)
      ⟨isSome_of_queryCode hcode, hheard.reply _ ha.reply⟩

theorem renewReply_described {r : Bool × Option Json} (h : Described P r s) :
    Triple (renewReply r.1 r.2) s (RenewalDescribed P) (fun _ => True) := by
  refine renewReply_rule ?_ ?_ ?_ ?_
  · rintro (hf | hnone) _
    · exact ⟨h.heard, fun _ => h.error hf⟩
    · refine ⟨h.heard, fun _ => h.error ?_⟩
      cases hr : r.1 with
      | false => rfl
      | true =>
        have hsome := (h.reply hr).1
        rw [hnone] at hsome
        cases hsome
  · exact fun _ _ herr => ⟨h.heard, fun _ => herr⟩
  · exact fun _ _ _ herr => ⟨h.heard, fun _ => herr⟩
  · exact fun _ _ _ => ⟨h.heard, fun hf => absurd hf.symm Bool.false_ne_true⟩

theorem renewWith_described {post : Prog Session (Bool × Option Json)}
    (hpost : ∀ s, Heard P s.attempts → Triple post s (Described P) (fun _ => True))
    (hheard : Heard P s.attempts) :
    Triple (renewWith post) s (RenewalDescribed P) (fun _ => True) := by
  refine renewWith_rule (fun _ _ herr => ⟨hheard, fun _ => herr⟩) ?_
  intro _ _
  refine Triple.mono (hpost _ ?_) ?_ fun _ h => h
  · exact hheard
  · exact fun r s' h => renewReply_described ⟨h.heard, h.reply, h.error⟩

/-- As long as requests can be made, a call that fails has set the error, and one that succeeds
hands over one of the replies. -/
theorem calls_described (P : Option Json → Prop) (fuel : Nat) :
    (∀ slot s, Heard P s.attempts →
      Triple (curlPostCall fuel slot) s (Described P) (fun _ => True)) ∧
    (∀ code json s, Heard P s.attempts → json.isSome = true ∧ P json →
      Triple (pingPong fuel code json) s (Described P) (fun _ => True)) ∧
    (∀ slot s, Heard P s.attempts →
      Triple (curlGetCall fuel slot) s (Described P) (fun _ => True)) ∧
    (∀ s, Heard P s.attempts →
      Triple (renewSession fuel) s (RenewalDescribed P) (fun _ => True)) := by
  induction fuel with
  | zero =>
    exact ⟨fun _ _ _ => Triple.stop trivial, fun _ _ _ _ _ => Triple.stop trivial,
      fun _ _ _ => Triple.stop trivial, fun _ _ => Triple.update_bind (Triple.stop trivial)⟩
  | succ fuel ih =>
    obtain ⟨ihpost, ihping, ihget, ihrenew⟩ := ih
    refine ⟨fun slot s hheard => ?_, fun code json s hheard hreply => ?_,
      fun slot s hheard => ?_, fun s hheard => ?_⟩
    · unfold curlPostCall
      refine Triple.update_bind (callWith_described ihrenew ihpost ihping slot ?_)
      exact hheard
    · refine pingPong_rule ?_ ?_ ?_
      · exact fun _ _ => .of_reply hheard hreply.1 hreply.2
      · exact fun _ herr => .of_error hheard herr
      · refine (ihget json s hheard).mono ?_ fun _ h => h
        intro r s' hget
        refine ⟨fun hf => .of_error hget.heard (hget.error hf),
          fun _ herr => .of_error hget.heard herr, ?_⟩
        exact fun hok code _ => ihping code r.2 s' hget.heard (hget.reply hok)
    · unfold curlGetCall
      refine callWith_described ihrenew ihget ?_ slot hheard
      exact fun _ json s' hheard' hreply => Triple.pure (.of_reply hheard' hreply.1 hreply.2)
    · unfold renewSession
      refine Triple.update_bind (renewWith_described (ihpost none) ?_)
      exact hheard

/-- A POST that fails has set the error, if all its requests could be made. -/
theorem curlPostCall_described (fuel : Nat) (slot : Option Json) (hheard : Heard P s.attempts) :
    Triple (curlPostCall fuel slot) s (Described P) (fun _ => True) :=
  (calls_described P fuel).1 slot s hheard

end Described

end Rules

end Snowflake
