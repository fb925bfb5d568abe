import SnowflakeClient.Connection.Calls

/-!
# Session renewal

Two properties of `renew_session`, and where they fail.

* It makes its token request through `curl_post_call`, which starts a renewal at a session-expired
  reply. So renewals nest exactly when such a reply arrives during a renewal
  (`renewal_flat_iff`), and then one expired reply can lead to any number of calls.
* `set_tokens` stores the session token before it looks at the master token. So a failed renewal
  has changed the session token if the reply had one and no master token; a renewal inside the
  renewal can change both (`renew_all_or_nothing_iff`).

`Ran` is what a call leaves behind: which lines it added to the log, and that the connection
object is as before unless a renewal got as far as its request. It is proved once, by induction on
the exchange (`calls_ran`).
-/

namespace Snowflake

open Prog

/-! ## What a call leaves behind -/

namespace Activity

/-- The line is a call of `renew_session`. -/
def isRenew : Activity → Bool
  | renew _ => true
  | _ => false

/-- The line is a session-expired reply. -/
def isExpired : Activity → Bool
  | expired _ => true
  | _ => false

end Activity

/-- The lines of a log: each session-expired reply has its call of `renew_session`, made with as
many renewals active, and brings two calls of `curl_post_call` at most, on top of `posts`. -/
structure Chain (posts : Nat) (l : List Activity) : Prop where
  renew_iff : ∀ n, .renew n ∈ l ↔ .expired n ∈ l
  renews : l.countP Activity.isRenew = l.countP Activity.isExpired
  posts : l.count .post ≤ posts + 2 * l.countP Activity.isExpired

namespace Chain

variable {a b : Nat} {l l' : List Activity}

theorem nil : Chain a [] := ⟨by simp, by simp, by simp⟩

theorem post : Chain 1 [.post] := ⟨by simp, by simp [Activity.isRenew, Activity.isExpired], by simp⟩

theorem append (h : Chain a l) (h' : Chain b l') : Chain (a + b) (l ++ l') where
  renew_iff n := by simp only [List.mem_append, h.renew_iff, h'.renew_iff]
  renews := by simp only [List.countP_append, h.renews, h'.renews]
  posts := by
    have := h.posts
    have := h'.posts
    simp only [List.countP_append, List.count_append]
    omega

/-- A session-expired reply, its renewal with one request, and the request that is made again. -/
theorem renewal (n : Nat) (h : Chain 1 l) (h' : Chain b l') (hb : b ≤ 1) :
    Chain 0 (.expired n :: .renew n :: (l ++ l')) where
  renew_iff k := by simp [h.renew_iff, h'.renew_iff]
  renews := by
    simp [List.countP_cons, Activity.isRenew, Activity.isExpired, h.renews, h'.renews]
  posts := by
    have := h.posts
    have := h'.posts
    simp [List.countP_cons, Activity.isExpired]
    omega

end Chain

/-- A call ran from `s` to `s'`. -/
def Ran (posts : Nat) (s s' : Session) : Prop :=
  ∃ l, s'.log = s.log ++ l ∧ Chain posts l ∧
    ((∀ n, .renew n ∉ l) ∨ isStringEmpty s.sf.masterToken = true → s'.sf = s.sf)

/-- `renew_session` ran from `s` to `s'`. -/
def Renewed (s s' : Session) : Prop :=
  ∃ l, s'.log = s.log ++ .renew s.renewals :: l ∧ Chain 1 l ∧
    (isStringEmpty s.sf.masterToken = true → s'.sf = s.sf)

namespace Ran

variable {a b : Nat} {s s' s'' : Session}

theorem refl : Ran a s s := ⟨[], by simp, .nil, fun _ => rfl⟩

theorem of_answered (h : Answered s s') : Ran a s s' := ⟨[], by simp [h.log], .nil, fun _ => h.sf⟩

theorem trans (h : Ran a s s') (h' : Ran b s' s'') : Ran (a + b) s s'' := by
  obtain ⟨l, hlog, hchain, hsf⟩ := h
  obtain ⟨l', hlog', hchain', hsf'⟩ := h'
  refine ⟨l ++ l', by rw [hlog', hlog, List.append_assoc], hchain.append hchain', ?_⟩
  rintro (hno | hempty)
  · have h₁ := hsf (.inl fun n hn => hno n (List.mem_append_left _ hn))
    have h₂ := hsf' (.inl fun n hn => hno n (List.mem_append_right _ hn))
    rw [h₂, h₁]
  · have h₁ := hsf (.inr hempty)
    have h₂ := hsf' (.inr (by rw [h₁]; exact hempty))
    rw [h₂, h₁]

/-- A session-expired reply at `s`, the renewal to `s'`, and the request that is made again. -/
theorem of_renewed (h : Renewed { s with log := s.log ++ [.expired s.renewals] } s')
    (hagain : Ran b s' s'') (hb : b ≤ 1) : Ran 0 s s'' := by
  obtain ⟨l, hlog, hchain, hsf⟩ := h
  obtain ⟨l', hlog', hchain', hsf'⟩ := hagain
  refine ⟨_, ?_, hchain.renewal s.renewals hchain' hb, ?_⟩
  · rw [hlog', hlog]
    simp
  · rintro (hno | hempty)
    · exact absurd (by simp) (hno s.renewals)
    · have h₁ := hsf hempty
      have h₂ := hsf' (.inr (by rw [h₁]; exact hempty))
      rw [h₂, h₁]

end Ran

section Calls

variable {renew : Prog Session Bool} {again : Option Json → Prog Session (Bool × Option Json)}
  {other : String → Option Json → Prog Session (Bool × Option Json)} {b : Nat}

theorem callWith_ran (hb : b ≤ 1)
    (hrenew : ∀ s, Triple renew s (fun _ => Renewed s) (Renewed s))
    (hagain : ∀ json s, Triple (again json) s (fun _ => Ran b s) (Ran b s))
    (hother : ∀ code json s, Triple (other code json) s (fun _ => Ran 0 s) (Ran 0 s))
    (slot : Option Json) (s : Session) :
    Triple (callWith renew again other slot) s (fun _ => Ran 0 s) (Ran 0 s) := by
  refine callWith_rule Ran.refl (fun _ _ h => Ran.of_answered h.toAnswered)
    (fun _ _ h _ => Ran.of_answered h.toAnswered) ?_ ?_
  · intro json s' ha
    have hfirst : Ran 0 s s' := Ran.of_answered ha
    have hrenewed : ∀ {s'' s₃}, Renewed { s' with log := s'.log ++ [.expired s'.renewals] } s'' →
        Ran b s'' s₃ → Ran 0 s s₃ := fun hr hran => hfirst.trans (Ran.of_renewed hr hran hb)
    refine (hrenew _).mono ?_ fun s'' hr => hrenewed hr Ran.refl
    rintro (_ | _) s'' hr
    · exact hrenewed hr Ran.refl
    · exact (hagain json s'').mono (fun _ _ => hrenewed hr) fun _ => hrenewed hr
  · intro code json s' ha _ _
    have hfirst : Ran 0 s s' := Ran.of_answered ha.toAnswered
    exact (hother code json s').mono (fun _ _ => hfirst.trans) fun _ => hfirst.trans

/-- A renewal keeps the connection object unless there is a master token. -/
theorem renewWith_ran {post : Prog Session (Bool × Option Json)}
    (hpost : ∀ s, Triple post s (fun _ => Ran 1 s) (Ran 1 s)) {s₀ s : Session}
    (hlog : s.log = s₀.log ++ [.renew s₀.renewals]) (hsf : s.sf = s₀.sf) :
    Triple (renewWith post) s (fun _ => Renewed s₀) (Renewed s₀) := by
  refine renewWith_rule ?_ ?_
  · intro _ err _
    exact ⟨[], hlog, .nil, fun _ => hsf⟩
  · intro _ hmaster
    -- with a master token, only the log is to be followed
    have hrenewed : ∀ {s' s'' : Session}, Ran 1 { s with renewals := s.renewals + 1 } s' →
        s''.log = s'.log → Renewed s₀ s'' := by
      rintro s' s'' ⟨l, hlog', hchain, -⟩ heq
      refine ⟨l, ?_, hchain, fun hempty => ?_⟩
      · rw [heq, hlog', hlog]
        simp
      · rw [hsf, hempty] at hmaster
        cases hmaster
    refine (hpost _).mono ?_ fun s' h => hrenewed h rfl
    intro r s' h
    exact renewReply_rule (fun _ _ => hrenewed h rfl) (fun _ _ _ => hrenewed h rfl)
      (fun _ _ _ _ => hrenewed h rfl) (fun _ _ _ => hrenewed h rfl)

end Calls

/-- What each of the calls leaves behind. -/
theorem calls_ran (fuel : Nat) :
    (∀ slot s, Triple (curlPostCall fuel slot) s (fun _ => Ran 1 s) (Ran 1 s)) ∧
    (∀ code json s, Triple (pingPong fuel code json) s (fun _ => Ran 0 s) (Ran 0 s)) ∧
    (∀ slot s, Triple (curlGetCall fuel slot) s (fun _ => Ran 0 s) (Ran 0 s)) ∧
    (∀ s, Triple (renewSession fuel) s (fun _ => Renewed s) (Renewed s)) := by
  induction fuel with
  | zero =>
    refine ⟨fun _ s => Triple.stop Ran.refl, fun _ _ s => Triple.stop Ran.refl,
      fun _ s => Triple.stop Ran.refl, fun s => ?_⟩
    exact Triple.update_bind (Triple.stop ⟨[], rfl, .nil, fun _ => rfl⟩)
  | succ fuel ih =>
    obtain ⟨ihpost, ihping, ihget, ihrenew⟩ := ih
    refine ⟨fun slot s => ?_, fun code json s => ?_, fun slot s => ?_, fun s => ?_⟩
    · unfold curlPostCall
      have hnote : Ran 1 s { s with log := s.log ++ [.post] } := ⟨_, rfl, .post, fun _ => rfl⟩
      refine Triple.update_bind ((callWith_ran (Nat.le_refl 1) ihrenew ihpost ihping slot _).mono
        (fun _ _ => hnote.trans) fun _ => hnote.trans)
    · refine pingPong_rule (fun _ _ => Ran.refl) (fun _ _ => Ran.refl) ?_
      refine (ihget json s).mono ?_ fun _ h => h
      intro r s' hget
      refine ⟨fun _ => hget, fun _ _ => hget, fun _ code _ => ?_⟩
      exact (ihping code r.2 s').mono (fun _ _ => hget.trans) fun _ => hget.trans
    · unfold curlGetCall
      exact callWith_ran (Nat.zero_le 1) ihrenew ihget (fun _ _ s' => Triple.pure Ran.refl) slot s
    · unfold renewSession
      exact Triple.update_bind (renewWith_ran (ihpost none) rfl rfl)

/-! ## Renewals inside renewals -/

/-- No call of `renew_session` is made while another is active, and the session-expired replies
outside of renewals bound the number of calls: one of `renew_session` and two of `curl_post_call`
for each of them. -/
structure RenewsFlat (log : List Activity) : Prop where
  flat : ∀ n, .renew n ∈ log → n = 0
  renews : log.countP Activity.isRenew ≤ log.count (.expired 0)
  posts : log.count .post ≤ 1 + 2 * log.count (.expired 0)

theorem countP_isExpired {l : List Activity} (h : ∀ n, .expired (n + 1) ∉ l) :
    l.countP Activity.isExpired = l.count (.expired 0) := by
  refine List.countP_congr ?_
  rintro (_ | n | n) hmem
  · decide
  · cases n with
    | zero => decide
    | succ n => exact absurd hmem (h n)
  · exact ⟨fun h => (by cases h), fun h => (by simp at h)⟩

/-- In every run of a POST, renewals do not nest, and its calls are bounded by the expired replies
outside of renewals, exactly if no session-expired reply arrives during a renewal. -/
theorem renewal_flat_iff (fuel : Nat) (slot : Option Json) (sf : SfConnect) (error : SfError)
    (attempts : List Attempt) :
    RenewsFlat (curlPostCall fuel slot (.start sf error attempts)).2.log ↔
      ∀ n, .expired (n + 1) ∉ (curlPostCall fuel slot (.start sf error attempts)).2.log := by
  have hran : Ran 1 (.start sf error attempts) _ :=
    Triple.ended ((calls_ran fuel).1 slot (.start sf error attempts))
  obtain ⟨l, hlog, hchain, -⟩ := hran
  have hl : (curlPostCall fuel slot (.start sf error attempts)).2.log = l := hlog
  rw [hl]
  constructor
  · intro h n hn
    exact Nat.succ_ne_zero n (h.flat (n + 1) ((hchain.renew_iff (n + 1)).mpr hn))
  · intro h
    have hcount := countP_isExpired h
    refine ⟨fun n hn => ?_, ?_, ?_⟩
    · cases n with
      | zero => rfl
      | succ n => exact absurd ((hchain.renew_iff (n + 1)).mp hn) (h n)
    · rw [hchain.renews, hcount]
    · rw [← hcount]
      exact hchain.posts

/-- The query and the token request are both told that the session expired: a second renewal is
started inside the first. -/
theorem renewal_nests :
    ¬ RenewsFlat (curlPostCall 5 none (.start connectedSf .cleared
      [.answer 200 (some (codeReply sessionExpireCode)),
       .answer 200 (some (codeReply sessionExpireCode))])).2.log := by
  intro h
  exact absurd (h.flat 1 (by decide)) (by decide)

/-! ## Half a renewal -/

/-- `sf->token` and `sf->master_token`. -/
def Session.tokens (s : Session) : Option String × Option String :=
  (s.sf.token, s.sf.masterToken)

/-- The state in which `renew_session`, called at `s`, makes its token request. -/
def Session.tokenRequest (s : Session) : Session :=
  { s with log := s.log ++ [.renew s.renewals], renewals := s.renewals + 1 }

/-- A renewal from `s` to `s'` that returned `renewed`: it stored both strings of the reply's
`data`, or left both tokens alone. -/
def AllOrNothing (s : Session) (reply : Option Json) (renewed : Bool) (s' : Session) : Prop :=
  match renewed with
  | true => ∃ token masterToken,
      Json.getObjectItem (Json.getObjectItem reply "data") "sessionToken" = some (.str token) ∧
      Json.getObjectItem (Json.getObjectItem reply "data") "masterToken" =
        some (.str masterToken) ∧
      s'.tokens = (some token, some masterToken)
  | false => s'.tokens = s.tokens

/-- When a renewal called at `s` is all-or-nothing, by the run `r` of its token request: it makes
none, or the reply has both tokens, or it has none and no renewal inside the request changed the
tokens, or it has the session token that was there already. -/
def RenewalSafe (s : Session) (r : Option (Bool × Option Json) × Session) : Prop :=
  isStringEmpty s.sf.directURL = false ∨ isStringEmpty s.sf.masterToken = true ∨
    match r with
    | (none, _) => True
    | (some (ok, json), s') =>
      match renewedTokens ok json with
      | some (_, some _) => True
      | some (token, none) => s.tokens = (some token, s'.sf.masterToken)
      | none => s'.tokens = s.tokens

/-- The reply that the run of a token request handed over. -/
def replyOf (r : Option (Bool × Option Json) × Session) : Option Json :=
  r.1.bind Prod.snd

/-- The strings that `renewedTokens` has are those of the reply's `data`. -/
theorem renewedTokens_both {ok : Bool} {json : Option Json} {token masterToken : String}
    (h : renewedTokens ok json = some (token, some masterToken)) :
    Json.getObjectItem (Json.getObjectItem json "data") "sessionToken" = some (.str token) ∧
      Json.getObjectItem (Json.getObjectItem json "data") "masterToken" =
        some (.str masterToken) := by
  unfold renewedTokens at h
  cases ok with
  | false => cases h
  | true =>
    rw [if_pos rfl] at h
    split at h
    next data _ hdata =>
      rw [hdata, ← jsonCopyString_ok, ← jsonCopyString_ok]
      split at h
      next ht hm =>
        cases h
        exact ⟨ht, hm⟩
      next => cases h
      next => cases h
    next => cases h

/-- For every previous pair of tokens and every reply: the renewal, if it returns, is
all-or-nothing exactly if it is safe. -/
theorem renew_all_or_nothing_iff (fuel : Nat) (s : Session) :
    Triple (renewSession (fuel + 1)) s
        (AllOrNothing s (replyOf (curlPostCall fuel none s.tokenRequest))) (fun _ => True) ↔
      RenewalSafe s (curlPostCall fuel none s.tokenRequest) := by
  refine Triple.iff_of ?_
  unfold renewSession
  refine Triple.update_bind (renewWith_rule ?_ ?_)
  · intro hrefuse err _
    exact ⟨fun _ => hrefuse.elim .inl fun h => .inr (.inl h), fun _ => rfl⟩
  · intro hdirect hmaster
    have hsafe : ∀ ok json s', RenewalSafe s (some (ok, json), s') ↔
        match renewedTokens ok json with
        | some (_, some _) => True
        | some (token, none) => s.tokens = (some token, s'.sf.masterToken)
        | none => s'.tokens = s.tokens := by
      simp [RenewalSafe, hdirect, hmaster]
    refine Triple.mono (Triple.self (s := s.tokenRequest)) ?_ ?_
    · rintro ⟨ok, json⟩ s' hrun
      rw [hrun, hsafe]
      refine renewReply_rule ?_ ?_ ?_ ?_
      · intro _ hnone
        rw [hnone]
        exact Iff.rfl
      · intro hnone err _
        rw [hnone]
        exact Iff.rfl
      · intro token hhalf err _
        rw [hhalf]
        exact ⟨Eq.symm, Eq.symm⟩
      · intro token masterToken hboth
        obtain ⟨ht, hm⟩ := renewedTokens_both hboth
        rw [hboth]
        exact ⟨fun _ => trivial, fun _ => ⟨token, masterToken, ht, hm, rfl⟩⟩
    · intro s' hrun
      rw [hrun]
      exact .inr (.inr trivial)

/-- The reply has a new session token and no master token. -/
def halfRenewal : Session :=
  .start connectedSf .cleared [.answer 200 (some (tokenReply [("sessionToken", .str "s2")]))]

/-- The renewal fails, with the session token replaced. -/
theorem half_renewal_changes_token :
    (renewSession 3 halfRenewal).1 = some false ∧
      halfRenewal.tokens = (some "session", some "master") ∧
      (renewSession 3 halfRenewal).2.tokens = (some "s2", some "master") := by
  decide

/-- In a run whose token request starts no renewal, only a reply with a new session token and
without a master token breaks it. -/
theorem renewalSafe_of_flat {fuel : Nat} {s : Session} {l : List Activity}
    (hlog : (curlPostCall fuel none s.tokenRequest).2.log = s.tokenRequest.log ++ l)
    (hflat : ∀ n, .renew n ∉ l)
    (hhalf : ∀ ok json token, (curlPostCall fuel none s.tokenRequest).1 = some (ok, json) →
      renewedTokens ok json = some (token, none) → s.sf.token = some token) :
    RenewalSafe s (curlPostCall fuel none s.tokenRequest) := by
  have hran : Ran 1 s.tokenRequest (curlPostCall fuel none s.tokenRequest).2 :=
    Triple.ended ((calls_ran fuel).1 none s.tokenRequest)
  obtain ⟨l', hlog', -, hsf⟩ := hran
  have heq : l' = l := List.append_cancel_left (hlog'.symm.trans hlog)
  have hkept := hsf (.inl (heq ▸ hflat))
  match hrun : curlPostCall fuel none s.tokenRequest with
  | (none, _) => exact .inr (.inr trivial)
  | (some (ok, json), s') =>
    rw [hrun] at hkept
    have hsf' : s'.sf = s.sf := hkept
    refine .inr (.inr ?_)
    match ht : renewedTokens ok json with
    | some (_, some _) => simp only [ht]
    | some (token, none) =>
      have htoken := hhalf ok json token (by rw [hrun]) ht
      simp only [ht, Session.tokens, hsf', htoken]
    | none => simp only [ht, Session.tokens, hsf']

end Snowflake
