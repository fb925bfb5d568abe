import SnowflakeClient.Connection.Calls

/-!
# What a successful POST hands over

`curl_post_call` returns `TRUE` only with a reply that ends the query: the codes that ask for a new
session or for another request have been dealt with (`curl_post_call_final`). The two facts behind
it go by induction on the exchange: a GET that succeeds was not told that the session expired, and
the ping-pong loop starts each round with a code that is not that one.
-/

namespace Snowflake

open Prog

/-- A reply that asks for nothing: its code, cut to six characters, is none of the special ones. -/
def FinalAnswer (json : Option Json) : Prop :=
  json.isSome = true ∧ ∀ code, Json.getObjectItem json "code" = some (.str code) →
    String.ofList (code.toList.take 6) ∉
      [sessionExpireCode, queryInProgressCode, queryInProgressAsyncCode]

/-- The code of the reply was read, and it is not one of `codes`. -/
def CodeNotIn (codes : List String) (json : Option Json) : Prop :=
  ∃ code, queryCode json = some code ∧ code ∉ codes

/-- The buffer holds the first six characters of a code that is a string. -/
theorem queryCode_of_str {json : Option Json} {code text : String}
    (h : queryCode json = some code) (ht : Json.getObjectItem json "code" = some (.str text)) :
    String.ofList (text.toList.take 6) = code := by
  unfold queryCode at h
  rw [jsonCopyStringNoAlloc_str querycodeLen ht] at h
  exact Option.some.inj h

theorem finalAnswer_of_codeNotIn {json : Option Json}
    (h : CodeNotIn [sessionExpireCode, queryInProgressCode, queryInProgressAsyncCode] json) :
    FinalAnswer json := by
  obtain ⟨code, hcode, hnot⟩ := h
  refine ⟨isSome_of_queryCode hcode, fun text ht => ?_⟩
  rw [queryCode_of_str hcode ht]
  exact hnot

/-- The codes that a call leaves behind: those that it returns on its own account are not among
`codes` if those of its retries and of what follows are not. -/
theorem callWith_code {renew : Prog Session Bool}
    {again : Option Json → Prog Session (Bool × Option Json)}
    {other : String → Option Json → Prog Session (Bool × Option Json)} {codes : List String}
    {slot : Option Json} {s : Session} (hempty : "" ∉ codes)
    (hagain : ∀ json s', Triple (again json) s' (fun r _ => r.1 = true → CodeNotIn codes r.2)
      fun _ => True)
    (hother : ∀ code json s', queryCode json = some code → code ≠ sessionExpireCode →
      Triple (other code json) s' (fun r _ => r.1 = true → CodeNotIn codes r.2) fun _ => True) :
    Triple (callWith renew again other slot) s (fun r _ => r.1 = true → CodeNotIn codes r.2)
      fun _ => True := by
  refine callWith_rule trivial ?_ ?_ ?_ ?_
  · exact fun _ _ _ h => absurd h Bool.false_ne_true
  · exact fun json s' _ hcode _ => ⟨"", hcode, hempty⟩
  · intro json s' _
    refine Triple.mono Triple.trivial ?_ (fun _ _ => trivial)
    rintro (_ | _) s'' _
    · exact fun h => absurd h Bool.false_ne_true
    · exact hagain json s''
  · exact fun code json s' _ hcode hne => hother code json s' hcode hne

/-- A GET that succeeds has a reply without the session-expired code. -/
theorem curlGetCall_code (fuel : Nat) (slot : Option Json) (s : Session) :
    Triple (curlGetCall fuel slot) s
      (fun r _ => r.1 = true → CodeNotIn [sessionExpireCode] r.2) (fun _ => True) := by
  induction fuel generalizing slot s with
  | zero => exact Triple.stop trivial
  | succ fuel ih =>
    unfold curlGetCall
    refine callWith_code (by decide) ih fun code json s' hcode hne => ?_
    exact Triple.pure fun _ => ⟨code, hcode, by simpa using hne⟩

/-- The loop starts a round with a code that was read from the reply. -/
theorem pingPong_code (fuel : Nat) {code : String} {json : Option Json} (s : Session)
    (hcode : queryCode json = some code) (hne : code ≠ sessionExpireCode) :
    Triple (pingPong fuel code json) s
      (fun r _ => r.1 = true →
        CodeNotIn [sessionExpireCode, queryInProgressCode, queryInProgressAsyncCode] r.2)
      (fun _ => True) := by
  induction fuel generalizing code json s with
  | zero => exact Triple.stop trivial
  | succ fuel ih =>
    refine pingPong_rule ?_ ?_ ?_
    · exact fun h₁ h₂ _ => ⟨code, hcode, by simp [hne, h₁, h₂]⟩
    · exact fun _ _ h => absurd h Bool.false_ne_true
    · refine (curlGetCall_code fuel json s).mono ?_ (fun _ _ => trivial)
      rintro ⟨ok, reply⟩ s' hget
      refine ⟨fun _ h => absurd h Bool.false_ne_true,
        fun _ _ h => absurd h Bool.false_ne_true, ?_⟩
      intro hok next hnext
      obtain ⟨code', hcode', hnot⟩ := hget hok
      -- the code of the next round is the one that the GET has looked at
      have heq : code' = next := Option.some.inj (hcode'.symm.trans hnext)
      subst heq
      exact ih s' hnext (by simpa using hnot)

theorem curlPostCall_code (fuel : Nat) (slot : Option Json) (s : Session) :
    Triple (curlPostCall fuel slot) s
      (fun r _ => r.1 = true →
        CodeNotIn [sessionExpireCode, queryInProgressCode, queryInProgressAsyncCode] r.2)
      (fun _ => True) := by
  induction fuel generalizing slot s with
  | zero => exact Triple.stop trivial
  | succ fuel ih =>
    unfold curlPostCall
    refine Triple.update_bind (callWith_code (by decide) ih fun code json s' hcode hne => ?_)
    exact pingPong_code fuel s' hcode hne

/-- For every server: when `curl_post_call` returns `TRUE`, `*json` is a final answer. -/
theorem curl_post_call_final (fuel : Nat) (slot : Option Json) (s : Session) {json : Option Json}
    (h : (curlPostCall fuel slot s).1 = some (true, json)) : FinalAnswer json := by
  have hrun : curlPostCall fuel slot s = (some (true, json), (curlPostCall fuel slot s).2) :=
    Prod.ext h rfl
  exact finalAnswer_of_codeNotIn ((curlPostCall_code fuel slot s).returned hrun rfl)

/-- A reply that says that the query runs on. -/
def inProgressReply (code : String) : Json :=
  .obj [("code", .str code), ("data", .obj [("getResultUrl", .str "/queries/1/result")])]

/-- A query that is in progress, whose session expires while it is asked for, and that is still in
progress after the renewal. -/
def longQuery : List Attempt :=
  [.answer 200 (some (inProgressReply queryInProgressCode)),
   .answer 503 none,
   .answer 200 (some (codeReply sessionExpireCode)),
   .answer 200 (some (tokenReply [("sessionToken", .str "s2"), ("masterToken", .str "m2")])),
   .answer 200 (some (inProgressReply queryInProgressAsyncCode)),
   .answer 200 (some (codeReply "000000"))]

theorem curl_post_call_final_longQuery : FinalAnswer (some (codeReply "000000")) :=
  curl_post_call_final 19 none (.start connectedSf .cleared longQuery) rfl

end Snowflake
