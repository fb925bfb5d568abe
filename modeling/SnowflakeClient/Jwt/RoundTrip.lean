import SnowflakeClient.Jwt.Token

/-!
# A token, signed and parsed again

* `serializePart_spec`: a header or a claim set has a text without dots from which the same tree is
  parsed. The `NUL` at the end of the printed tree is encoded too, so the text is never empty.
* `printable_buildClaimSet`, `getAlgorithmType_setAlgorithm`: what the calls of the interface build.
* `jwt_round_trip`: a token that is parsed from its text verifies the signature of that text.
-/

namespace Snowflake
namespace Jwt

/-! ## What the interface builds -/

section Build

variable {P : String × Json → Prop} {members : Members}

theorem forall_replaceItemInObject (h : ∀ m ∈ members, P m) {key : String} {item : Json}
    (hitem : P (key, item)) : ∀ m ∈ replaceItemInObject members key item, P m := by
  induction members with
  | nil => exact h
  | cons m members ih =>
    obtain ⟨hm, hrest⟩ := List.forall_mem_cons.mp h
    unfold replaceItemInObject
    split
    · exact List.forall_mem_cons.mpr ⟨hitem, hrest⟩
    · exact List.forall_mem_cons.mpr ⟨hm, ih hrest⟩

theorem forall_addOrReplaceJSON (h : ∀ m ∈ members, P m) {key : String} {item : Json}
    (hitem : P (key, item)) : ∀ m ∈ addOrReplaceJSON members key item, P m := by
  unfold addOrReplaceJSON
  apply forall_replaceItemInObject _ hitem
  split
  · exact h
  · intro m hm
    rcases List.mem_append.mp hm with hm | hm
    · exact h m hm
    · rw [List.mem_singleton.mp hm]
      exact hitem

theorem forall_deleteItemFromObject (h : ∀ m ∈ members, P m) (key : String) :
    ∀ m ∈ deleteItemFromObject members key, P m := by
  induction members with
  | nil => exact h
  | cons m members ih =>
    obtain ⟨hm, hrest⟩ := List.forall_mem_cons.mp h
    unfold deleteItemFromObject
    split
    · exact hrest
    · exact List.forall_mem_cons.mpr ⟨hm, ih hrest⟩

/-- A `long` of at most 53 bits is a `double`. -/
theorem toDouble_eq {n : Int} (h : -2 ^ 53 ≤ n ∧ n ≤ 2 ^ 53) : toDouble n = n := by
  have hexact : n.natAbs % 2 ^ (n.natAbs.log2 - 52) = 0 := by
    rcases Nat.lt_or_ge n.natAbs (2 ^ 53) with hlt | hge
    · have hlog : n.natAbs.log2 - 52 = 0 := by
        by_cases hzero : n.natAbs = 0
        · rw [hzero]
          rfl
        · have hlog := (Nat.log2_lt hzero).mpr hlt
          omega
      rw [hlog, pow_zero, Nat.mod_one]
    · rw [show n.natAbs = 2 ^ 53 by omega]
      decide
  have hround : n.natAbs / 2 ^ (n.natAbs.log2 - 52) * 2 ^ (n.natAbs.log2 - 52) = n.natAbs :=
    Nat.div_mul_cancel (Nat.dvd_of_mod_eq_zero hexact)
  have hpos : 0 < 2 ^ (n.natAbs.log2 - 52) := Nat.two_pow_pos _
  simp only [toDouble, hexact, Nat.mul_zero, hpos, true_or, if_true, hround]
  exact Int.sign_mul_natAbs n

/-- The texts and numbers that a call passes: a `std::string` is any bytes, and the numbers have at
most 53 bits. -/
def ClaimCall.Valid : ClaimCall → Prop
  | addString key value => (∀ c ∈ key.toList, c.toNat < 256) ∧ ∀ c ∈ value.toList, c.toNat < 256
  | addLong key number => (∀ c ∈ key.toList, c.toNat < 256) ∧ -2 ^ 53 ≤ number ∧ number ≤ 2 ^ 53
  | removeClaim _ => True

theorem isByte_cStr {s : String} (h : ∀ c ∈ s.toList, c.toNat < 256) :
    ∀ c ∈ (cStr s).toList, IsByte c := by
  intro c hc
  rw [cStr, String.toList_ofList] at hc
  exact ⟨by simpa using List.mem_takeWhile_imp hc, h c (List.takeWhile_sublist _ |>.mem hc)⟩

/-- The claim sets of the interface are the ones that can be printed. -/
theorem printable_buildClaimSet (calls : List ClaimCall) (h : ∀ call ∈ calls, call.Valid) :
    Printable (.obj (buildClaimSet calls)) := by
  induction calls using List.reverseRecOn with
  | nil => simp [Printable, buildClaimSet]
  | append_singleton calls call ih =>
    have hcalls := ih fun c hc => h c (List.mem_append_left _ hc)
    have hcall := h call (by simp)
    unfold buildClaimSet at hcalls ⊢
    rw [List.foldl_append, List.foldl_cons, List.foldl_nil]
    cases call with
    | addString key value =>
      exact forall_addOrReplaceJSON hcalls ⟨isByte_cStr hcall.1, isByte_cStr hcall.2⟩
    | addLong key number =>
      refine forall_addOrReplaceJSON hcalls ⟨isByte_cStr hcall.1, ?_⟩
      rw [toDouble_eq hcall.2]
      exact hcall.2
    | removeClaim key => exact forall_deleteItemFromObject hcalls _

theorem sameName_self (name : String) : Json.sameName name name = true := by
  unfold Json.sameName
  exact beq_self_eq_true _

theorem sameName_alg_typ : Json.sameName "alg" "typ" = false := by decide

theorem setAlgorithm_eq (type : AlgorithmType) :
    setAlgorithm buildHeader type = [("typ", .str "JWT"), ("alg", .str type.toString)] := by
  simp [setAlgorithm, buildHeader, addOrReplaceJSON, hasObjectItem, replaceItemInObject,
    sameName_self, sameName_alg_typ]

/-- A header keeps the algorithm that was set. -/
theorem getAlgorithmType_setAlgorithm (type : AlgorithmType) :
    getAlgorithmType (.obj (setAlgorithm buildHeader type)) = type := by
  have hitem : Json.getObjectItem (some (.obj (setAlgorithm buildHeader type))) "alg" =
      some (.str type.toString) := by
    simp [setAlgorithm_eq, Json.getObjectItem, Json.findMember, List.find?, sameName_self,
      sameName_alg_typ]
  rw [getAlgorithmType, hitem]
  exact AlgorithmType.ofString_toString type

theorem printable_setAlgorithm (type : AlgorithmType) :
    Printable (.obj (setAlgorithm buildHeader type)) := by
  rw [setAlgorithm_eq]
  have hnames : (∀ c ∈ "typ".toList, IsByte c) ∧ (∀ c ∈ "JWT".toList, IsByte c) ∧
      ∀ c ∈ "alg".toList, IsByte c := by simp [IsByte]
  have htype : ∀ c ∈ type.toString.toList, IsByte c := by
    cases type <;> simp [IsByte, AlgorithmType.toString]
  intro m hm
  simp only [List.mem_cons, List.not_mem_nil, or_false] at hm
  rcases hm with rfl | rfl
  · exact ⟨hnames.1, hnames.2.1⟩
  · exact ⟨hnames.2.2, htype⟩

end Build

/-! ## Texts without dots -/

theorem toUInt8_ne_dot {c : Char} (h : c ∈ Base64.base64UrlIndex) : c.toUInt8 ≠ dot := by
  have hdot : dot ∉ Base64.codes Base64.base64UrlIndex := by decide
  rintro heq
  exact hdot (heq ▸ List.mem_map_of_mem h)

/-- The text of some bytes is some digits, and decodes to the bytes. -/
theorem encodeText_spec {bytes : List UInt8} (h : bytes ≠ []) :
    ∃ text, encodeText bytes = .returned text ∧ text ≠ [] ∧ dot ∉ text ∧
      Base64.decodeURLNoPadding text = .returned bytes := by
  obtain ⟨text, henc, hne, hmem, hdec⟩ := Base64.urlNoPadding_comesBack h
  refine ⟨text.map Char.toUInt8, ?_, ?_, ?_, hdec⟩
  · rw [encodeText, henc, Run.returned_bind]
  · simpa using hne
  · intro hdot
    obtain ⟨c, hc, heq⟩ := List.mem_map.mp hdot
    exact toUInt8_ne_dot (hmem c hc) heq

theorem splitAtDot_append {text : List UInt8} (h : dot ∉ text) (rest : List UInt8) :
    splitAtDot (text ++ dot :: rest) = some (text, rest) := by
  have hall : ∀ c ∈ text, decide (c ≠ dot) = true := by
    intro c hc
    rw [decide_eq_true_eq]
    rintro rfl
    exact h hc
  have hidx : (text ++ dot :: rest).idxOf dot = text.length := by
    rw [List.idxOf_append_of_notMem h, List.idxOf_cons_self, Nat.add_zero]
  rw [splitAtDot, if_pos (by simp), hidx, List.takeWhile_append_of_pos hall]
  simp

variable (cjson : CJson)

theorem firstString_append_nul (text : CString) : firstString (text.bytes ++ [0]) = text := by
  apply CString.ext_bytes
  have hall : ∀ c ∈ text.bytes, decide (c ≠ 0) = true := by
    intro c hc
    rw [decide_eq_true_eq]
    rintro rfl
    exact text.noNul hc
  show (text.bytes ++ [0]).takeWhile (· ≠ 0) = text.bytes
  rw [List.takeWhile_append_of_pos hall]
  simp

/-- A part of a token has a text without dots, and comes back from it. -/
theorem serializePart_spec {root : Json} (h : Printable root) :
    ∃ text, serializePart cjson root = .returned text ∧ text ≠ [] ∧ dot ∉ text ∧
      parsePart cjson text = .returned root := by
  obtain ⟨printed, hprint, hparse⟩ := cjson.parse_print root h
  obtain ⟨text, henc, hne, hdot, hdec⟩ := encodeText_spec
    (by simp : printed.bytes ++ [0] ≠ [])
  refine ⟨text, ?_, hne, hdot, ?_⟩
  · rw [serializePart, serializeJSON, hprint, Run.ofCall_some, Run.returned_bind,
      Run.returned_bind, henc]
  · rw [parsePart, hdec, Run.returned_bind, parseJSON, if_neg (by simp), if_pos (by simp),
      firstString_append_nul, hparse, Run.ofCall_some]

theorem buildSigner_of_supported {type : AlgorithmType} (h : Supported type) :
    ∃ hash, buildSigner type = .returned hash := by
  rcases h with rfl | rfl | rfl
  · exact ⟨_, rfl⟩
  · exact ⟨_, rfl⟩
  · exact ⟨_, rfl⟩

/-! ## The round trip -/

variable {Key : Type} (rsa : Rsa Key) {priv pub : Key} {header claimSet : Json}

/-- The text of a token with the header and the claim set: the message, a dot and the text of the
signature. The token that is parsed from it has the same trees. -/
theorem serialize_ofText (hheader : Printable header) (hclaims : Printable claimSet) {hash : Hash}
    (hsigner : buildSigner (getAlgorithmType header) = .returned hash) (secret : List UInt8)
    (hpair : rsa.KeyPair priv pub) :
    ∃ msg sig text, (JWTObject.mk header claimSet secret).message cjson = .returned msg ∧
      rsa.digestSign hash priv msg = some sig ∧ sig ≠ [] ∧
      Base64.decodeURLNoPadding text = .returned sig ∧
      (JWTObject.mk header claimSet secret).serialize cjson rsa priv =
        .returned (msg ++ dot :: text, ⟨header, claimSet, text⟩) ∧
      JWTObject.ofText cjson (msg ++ dot :: text) = .returned ⟨header, claimSet, text⟩ := by
  obtain ⟨headerText, hserH, hneH, hdotH, hparseH⟩ := serializePart_spec cjson hheader
  obtain ⟨claimText, hserC, -, hdotC, hparseC⟩ := serializePart_spec cjson hclaims
  obtain ⟨sig, hsign, hsig, -, -⟩ := hpair hash (headerText ++ dot :: claimText)
  obtain ⟨text, henc, -, -, hdec⟩ := encodeText_spec hsig
  have hmsg : ∀ secret, (JWTObject.mk header claimSet secret).message cjson =
      .returned (headerText ++ dot :: claimText) := by
    intro secret
    simp only [JWTObject.message, hserH, hserC, Run.returned_bind]
  refine ⟨_, sig, text, hmsg secret, hsign, hsig, hdec, ?_, ?_⟩
  · simp only [JWTObject.serialize, hsigner, hmsg, Run.returned_bind, sign, hsign, henc]
  · have hlen : ¬(headerText ++ dot :: claimText ++ dot :: text).length = 0 := by simp
    rw [JWTObject.ofText, if_neg hlen, List.append_assoc, List.cons_append,
      splitAtDot_append hdotH]
    simp only [Run.ofCall_some, Run.returned_bind, hparseH, splitAtDot_append hdotC, hparseC]

/-- What `verify` computes: the check of the signature bytes in the token over its message, with any
key. -/
theorem verify_eq {secret msg : List UInt8} {hash : Hash}
    (hsigner : buildSigner (getAlgorithmType header) = .returned hash)
    (hmsg : (JWTObject.mk header claimSet secret).message cjson = .returned msg) (key : Key) :
    (JWTObject.mk header claimSet secret).verify cjson rsa key =
      if rsa.digestVerifyInit hash key msg then
        Base64.decodeURLNoPadding secret >>= fun sig =>
          .returned (rsa.digestVerifyFinal hash key msg sig)
      else .returned false := by
  simp only [JWTObject.verify, hsigner, hmsg, Run.returned_bind, verifySignature]

/-- A token with a supported algorithm is serialized to a text. What is parsed from the text has the
same header and claim texts and the signature bytes of `serialize`. With any key `verify` checks
those bytes over the message of `serialize`, and so it does with any other signature text in their
place, if that can be decoded; it succeeds for the signature of `serialize` with the public key. -/
theorem jwt_round_trip (hheader : Printable header) (hclaims : Printable claimSet)
    (halg : Supported (getAlgorithmType header)) (hpair : rsa.KeyPair priv pub)
    (secret : List UInt8) :
    ∃ hash msg sig text signed token,
      buildSigner (getAlgorithmType header) = .returned hash ∧
      (JWTObject.mk header claimSet secret).message cjson = .returned msg ∧
      rsa.digestSign hash priv msg = some sig ∧
      (JWTObject.mk header claimSet secret).serialize cjson rsa priv = .returned (text, signed) ∧
      JWTObject.ofText cjson text = .returned token ∧
      serializePart cjson token.header = serializePart cjson header ∧
      serializePart cjson token.claimSet = serializePart cjson claimSet ∧
      (∀ (rsa' : Rsa Key) (key : Key), token.verify cjson rsa' key =
        .returned (rsa'.digestVerifyInit hash key msg && rsa'.digestVerifyFinal hash key msg sig)) ∧
      (∀ (rsa' : Rsa Key) (key : Key) (secret' : List UInt8),
        JWTObject.verify cjson rsa' { token with secret := secret' } key =
          if rsa'.digestVerifyInit hash key msg then
            Base64.decodeURLNoPadding secret' >>= fun sig' =>
              .returned (rsa'.digestVerifyFinal hash key msg sig')
          else .returned false) ∧
      token.verify cjson rsa pub = .returned true := by
  obtain ⟨hash, hsigner⟩ := buildSigner_of_supported halg
  obtain ⟨msg, sig, text, hmsg, hsign, -, hdec, hser, hparse⟩ :=
    serialize_ofText cjson rsa hheader hclaims hsigner secret hpair
  obtain ⟨sig', hsign', -, hinit, hfinal⟩ := hpair hash msg
  obtain rfl : sig' = sig := Option.some.inj (hsign'.symm.trans hsign)
  -- the message does not depend on the signature in the token
  have hverify (rsa' : Rsa Key) (key : Key) (secret' : List UInt8) :=
    verify_eq cjson rsa' hsigner
      (show (JWTObject.mk header claimSet secret').message cjson = .returned msg from hmsg) key
  refine ⟨hash, msg, sig', _, _, _, hsigner, hmsg, hsign, hser, hparse, rfl, rfl,
    fun rsa' key => ?_, hverify, ?_⟩
  · rw [hverify, hdec, Run.returned_bind]
    cases rsa'.digestVerifyInit hash key msg <;> rfl
  · rw [hverify, hinit, if_pos rfl, hdec, Run.returned_bind, hfinal]

/-! ### An example -/

/-- A member of an object that can be printed, as numbers. -/
def memberCode (m : String × Json) : List Nat × (List Nat ⊕ Int) :=
  (m.1.toList.map Char.toNat,
    match m.2 with
    | .str value => .inl (value.toList.map Char.toNat)
    | .num value => .inr value
    | _ => .inr 0)

def codeMember (code : List Nat × (List Nat ⊕ Int)) : String × Json :=
  (String.ofList (code.1.map Char.ofNat),
    match code.2 with
    | .inl value => .str (String.ofList (value.map Char.ofNat))
    | .inr value => .num value)

theorem ofList_map_toNat (s : String) :
    String.ofList ((s.toList.map Char.toNat).map Char.ofNat) = s := by
  have hid : Char.ofNat ∘ Char.toNat = id := by
    funext c
    exact Char.ofNat_toNat c
  rw [List.map_map, hid, List.map_id, String.ofList_toList]

theorem codeMember_memberCode {m : String × Json} (h : IsClaim m.2) :
    codeMember (memberCode m) = m := by
  obtain ⟨name, value⟩ := m
  cases value with
  | str value => simp only [codeMember, memberCode, ofList_map_toNat]
  | num value => simp only [codeMember, memberCode, ofList_map_toNat]
  | null => exact h.elim
  | bool value => exact h.elim
  | arr items => exact h.elim
  | obj members => exact h.elim

/-- A printer that writes the number of the tree in ones. -/
def onesJson : CJson where
  print root := match root with
    | .obj members =>
      some ⟨List.replicate (Encodable.encode (members.map memberCode)) 49,
        by simp [List.mem_replicate]⟩
    | _ => none
  parse text :=
    (Encodable.decode (α := List (List Nat × (List Nat ⊕ Int))) text.bytes.length).map fun codes =>
      .obj (codes.map codeMember)
  parse_print root h := by
    cases root with
    | obj members =>
      refine ⟨_, rfl, ?_⟩
      have hback : (members.map memberCode).map codeMember = members := by
        rw [List.map_map]
        refine (List.map_congr_left fun m hm => ?_).trans (List.map_id members)
        exact codeMember_memberCode (h m hm).2
      simp only [List.length_replicate, Encodable.encodek, Option.map_some, hback]
    | null => exact h.elim
    | bool value => exact h.elim
    | num value => exact h.elim
    | str value => exact h.elim
    | arr items => exact h.elim

/-- A signature that is the key and the message. -/
def plainRsa : Rsa UInt8 where
  digestSign _ key msg := some (key :: msg)
  digestVerifyInit _ _ _ := true
  digestVerifyFinal _ key msg sig := sig == key :: msg

theorem plainRsa_keyPair (key : UInt8) : plainRsa.KeyPair key key := fun _ msg =>
  ⟨key :: msg, rfl, List.cons_ne_nil _ _, rfl, beq_self_eq_true _⟩

/-- A token of the interface with the claims `"string"` and `"number"`. -/
theorem jwt_round_trip_two_claims :
    ∃ text signed token,
      (JWTObject.mk (.obj (setAlgorithm buildHeader .rs256))
        (.obj (buildClaimSet [.addString "string" "value", .addLong "number" 200])) []).serialize
          onesJson plainRsa 7 = .returned (text, signed) ∧
      JWTObject.ofText onesJson text = .returned token ∧
      token.verify onesJson plainRsa 7 = .returned true := by
  have hclaims := printable_buildClaimSet [.addString "string" "value", .addLong "number" 200]
    (by simp [ClaimCall.Valid])
  have hheader := printable_setAlgorithm .rs256
  have halg : Supported (getAlgorithmType (.obj (setAlgorithm buildHeader .rs256))) :=
    .inl (getAlgorithmType_setAlgorithm .rs256)
  obtain ⟨_, _, _, text, signed, token, -, -, -, hser, hparse, -, -, -, -, hverify⟩ :=
    jwt_round_trip onesJson plainRsa hheader hclaims halg (plainRsa_keyPair 7) []
  exact ⟨text, signed, token, hser, hparse, hverify⟩

end Jwt
end Snowflake
