import SnowflakeClient.Connection.FailedLogin

/-!
# The host, the account and the region

What `_snowflake_check_connection_parameters` leaves when no host is set: it puts the host together
from the account and the region, and splits the account at its first dot after that.

`host_agrees_iff`: the host is that of the account and the region that are left, and a second call
changes nothing, unless a region is set and the account has one too, the host does not fit into its
buffer, or nothing is left of the account.
-/

namespace Snowflake

/-- The host of an account in a region. -/
def hostName (account : String) : Option String → String
  | some region => account ++ "." ++ region ++ ".snowflakecomputing.com"
  | none => account ++ ".snowflakecomputing.com"

/-- The parameters agree. -/
structure HostAgrees (s : Session) : Prop where
  host : s.sf.host = some (hostName (s.sf.account.getD "") s.sf.region)
  noDot : '.' ∉ (s.sf.account.getD "").toList
  again : checkConnectionParameters s = (some .success, s)

/-- The account does not begin with a dot; it has no other one if a region is set, and the host has
at most 1023 characters. There is one more case: the region that was set begins as the rest of the
host does, and is cut there. -/
def HostFits (account : List Char) : (region : Option (List Char)) → Prop
  | none => account.head? ≠ some '.' ∧ account.length ≤ 1000
  | some region =>
    account.head? ≠ some '.' ∧
      ('.' ∉ account ∧ account.length + region.length ≤ 999 ∨
        '.' ∈ account ∧ account.length = 1000 ∧
          "snowflakecomputing.com".toList <+: region ++ ".snowflakecomputing.com".toList)

section Complete

variable {sf : SfConnect} {account : String}

/-- The account before its first dot. -/
def accountPart (account : String) : String :=
  String.ofList (account.toList.takeWhile (· ≠ '.'))

/-- The region after the first dot of the account, if there is one. -/
def regionPart (account : String) (region : Option String) : Option String :=
  if '.' ∈ account.toList then
    some (String.ofList (account.toList.dropWhile (· ≠ '.')).tail)
  else region

theorem accountPart_of_noDot (h : '.' ∉ account.toList) : accountPart account = account := by
  have htake : account.toList.takeWhile (· ≠ '.') = account.toList := by
    rw [List.takeWhile_eq_self_iff]
    intro c hc
    have hne : c ≠ '.' := fun heq => h (heq ▸ hc)
    simpa using hne
  rw [accountPart, htake, String.ofList_toList]

theorem dot_notMem_accountPart : '.' ∉ (accountPart account).toList := by
  rw [accountPart, String.toList_ofList]
  intro h
  simpa using List.mem_takeWhile_imp h

/-- What a check leaves. -/
def checkedParameters (account : String) (sf : SfConnect) : SfConnect :=
  { sf with
    host := some (sf.host.getD (String.ofList ((hostName account sf.region).toList.take 1023)))
    account := some (accountPart account)
    region := regionPart account sf.region
    protocol := some (sf.protocol.getD "https")
    port := some (sf.port.getD "443") }

theorem completeParameters_eq (haccount : sf.account = some account) :
    completeParameters sf = checkedParameters account sf := by
  unfold completeParameters checkedParameters
  simp only [haccount, Option.getD_some]
  split
  next hdrop =>
    have hdot : '.' ∉ account.toList := by
      intro h
      simpa using List.dropWhile_eq_nil_iff.1 hdrop '.' h
    rw [accountPart_of_noDot hdot, regionPart, if_neg hdot, ← haccount]
    cases sf.region <;> rfl
  next d region hdrop =>
    have hdot : '.' ∈ account.toList := by
      by_contra h
      have hnil : account.toList.dropWhile (· ≠ '.') = [] := by
        rw [List.dropWhile_eq_nil_iff]
        intro c hc
        have hne : c ≠ '.' := fun heq => h (heq ▸ hc)
        simpa using hne
      rw [hnil] at hdrop
      cases hdrop
    rw [regionPart, if_pos hdot, hdrop]
    cases sf.region <;> rfl

/-- A second time there is nothing to fill in. -/
theorem completeParameters_again :
    completeParameters (checkedParameters account sf) = checkedParameters account sf := by
  rw [completeParameters_eq rfl, checkedParameters, accountPart_of_noDot dot_notMem_accountPart,
    regionPart, if_neg dot_notMem_accountPart]
  rfl

end Complete

/-! ## The host -/

section Host

variable {account : String}

theorem toList_hostName_none :
    (hostName account none).toList = account.toList ++ ".snowflakecomputing.com".toList :=
  String.toList_append

theorem toList_hostName_some (region : String) :
    (hostName account (some region)).toList =
      account.toList ++ '.' :: (region.toList ++ ".snowflakecomputing.com".toList) := by
  simp [hostName]

/-- The host of the two parts of an account is the one of the account. -/
theorem toList_hostName_parts (hdot : '.' ∈ account.toList) (region : Option String) :
    (hostName (accountPart account) (regionPart account region)).toList =
      account.toList ++ ".snowflakecomputing.com".toList := by
  obtain ⟨a, b, haccount, ha⟩ := List.eq_append_cons_of_mem hdot
  have hbefore : ∀ c ∈ a, decide (c ≠ '.') = true := by
    intro c hc
    have hne : c ≠ '.' := fun heq => ha (heq ▸ hc)
    simpa using hne
  have htake : account.toList.takeWhile (· ≠ '.') = a := by
    rw [haccount, List.takeWhile_append_of_pos hbefore]
    simp
  have hdrop : account.toList.dropWhile (· ≠ '.') = '.' :: b := by
    rw [haccount, List.dropWhile_append_of_pos hbefore]
    simp
  rw [regionPart, if_pos hdot, toList_hostName_some, accountPart, htake, hdrop]
  simp [haccount]

/-- The host that is cut off is the one of the parts only if the rest of it is in the region. -/
theorem take_eq_iff {account region : List Char} :
    (account ++ '.' :: (region ++ ".snowflakecomputing.com".toList)).take 1023 =
        account ++ ".snowflakecomputing.com".toList ↔
      account.length = 1000 ∧
        "snowflakecomputing.com".toList <+: region ++ ".snowflakecomputing.com".toList := by
  have hcut : account.length = 1000 →
      (account ++ '.' :: (region ++ ".snowflakecomputing.com".toList)).take 1023 =
        account ++ '.' :: (region ++ ".snowflakecomputing.com".toList).take 22 := by
    intro hlen
    rw [List.take_append, List.take_of_length_le (by omega), hlen]
    rfl
  have hsuffix : ".snowflakecomputing.com".toList = '.' :: "snowflakecomputing.com".toList := rfl
  have hbegins : "snowflakecomputing.com".toList <+: region ++ ".snowflakecomputing.com".toList ↔
      "snowflakecomputing.com".toList =
        (region ++ ".snowflakecomputing.com".toList).take 22 := List.prefix_iff_eq_take
  rw [hbegins]
  constructor
  · intro h
    have hlen : account.length = 1000 := by
      have hlen := congrArg List.length h
      have hsize : ".snowflakecomputing.com".toList.length = 23 := by decide
      simp only [List.length_take, List.length_append, List.length_cons, hsize] at hlen
      omega
    refine ⟨hlen, ?_⟩
    rw [hcut hlen, List.append_cancel_left_eq] at h
    nth_rewrite 2 [hsuffix] at h
    exact (List.cons.inj h).2.symm
  · rintro ⟨hlen, h⟩
    rw [hcut hlen, ← h]
    rfl

/-- The host is the one of the parts. -/
theorem host_eq_iff (region : Option String) :
    String.ofList ((hostName account region).toList.take 1023) =
        hostName (accountPart account) (regionPart account region) ∧
      account.toList.head? ≠ some '.' ↔
      HostFits account.toList (region.map String.toList) := by
  have hsize : ".snowflakecomputing.com".toList.length = 23 := by decide
  rw [← String.toList_inj, String.toList_ofList, and_comm]
  by_cases hdot : '.' ∈ account.toList
  · rw [toList_hostName_parts hdot]
    cases region with
    | none =>
      rw [toList_hostName_none, List.take_eq_self_iff, List.length_append, hsize]
      exact and_congr_right fun _ => by omega
    | some region =>
      rw [toList_hostName_some, take_eq_iff]
      simp [HostFits, hdot]
  · rw [accountPart_of_noDot hdot, regionPart, if_neg hdot, List.take_eq_self_iff]
    cases region with
    | none =>
      rw [toList_hostName_none, List.length_append, hsize]
      exact and_congr_right fun _ => by omega
    | some region =>
      rw [toList_hostName_some, List.length_append, List.length_cons, List.length_append, hsize]
      simp only [HostFits, Option.map_some, hdot, not_false_eq_true, true_and, false_and, or_false]
      exact and_congr_right fun _ => by omega

end Host

/-! ## The calls -/

theorem checkConnectionParameters_ok {s : Session} (haccount : isStringEmpty s.sf.account = false)
    (huser : isStringEmpty s.sf.user = false) (hpassword : isStringEmpty s.sf.password = false) :
    checkConnectionParameters s = (some .success, { s with sf := completeParameters s.sf }) := by
  unfold checkConnectionParameters
  change (if isStringEmpty s.sf.account = true then _ else _ : Prog Session Status) s = _
  rw [haccount, huser, hpassword]
  rfl

theorem checkConnectionParameters_noAccount {s : Session}
    (haccount : isStringEmpty s.sf.account = true) :
    (checkConnectionParameters s).1 = some .errorGeneral := by
  unfold checkConnectionParameters
  change ((if isStringEmpty s.sf.account = true then _ else _ : Prog Session Status) s).1 = _
  rw [haccount]
  rfl

/-- A check of what a check leaves changes nothing if something is left of the account. -/
theorem again_iff (s : Session) (account : String) (huser : isStringEmpty s.sf.user = false)
    (hpassword : isStringEmpty s.sf.password = false) :
    checkConnectionParameters { s with sf := checkedParameters account s.sf } =
        (some .success, { s with sf := checkedParameters account s.sf }) ↔
      isStringEmpty (some (accountPart account)) = false := by
  constructor
  · intro h
    by_contra hempty
    rw [Bool.not_eq_false] at hempty
    have hfails : (checkConnectionParameters
        { s with sf := checkedParameters account s.sf }).1 = some .errorGeneral :=
      checkConnectionParameters_noAccount hempty
    rw [h] at hfails
    cases hfails
  · intro h
    have hsecond : checkConnectionParameters { s with sf := checkedParameters account s.sf } =
        (some .success, { s with sf := completeParameters (checkedParameters account s.sf) }) :=
      checkConnectionParameters_ok h huser hpassword
    rwa [completeParameters_again] at hsecond

theorem isStringEmpty_accountPart {account : String} (h : account ≠ "") :
    isStringEmpty (some (accountPart account)) = false ↔ account.toList.head? ≠ some '.' := by
  have hcons : account.toList ≠ [] := fun hnil => h (String.toList_eq_nil_iff.1 hnil)
  have hempty : isStringEmpty (some (accountPart account)) = false ↔
      account.toList.takeWhile (· ≠ '.') ≠ [] := by
    simp [isStringEmpty, accountPart]
  rw [hempty]
  cases hchars : account.toList with
  | nil => exact absurd hchars hcons
  | cons c rest => simp [List.takeWhile_cons]

/-- With an account, a user and a password and without a host: the host that the check leaves is
that of the account and the region that it leaves, and a second check changes nothing, exactly if
the parameters fit (`HostFits`). -/
theorem host_agrees_iff (s : Session) (haccount : isStringEmpty s.sf.account = false)
    (huser : isStringEmpty s.sf.user = false) (hpassword : isStringEmpty s.sf.password = false)
    (hhost : s.sf.host = none) :
    (∃ s', checkConnectionParameters s = (some .success, s') ∧ HostAgrees s') ↔
      HostFits (s.sf.account.getD "").toList (s.sf.region.map String.toList) := by
  obtain ⟨account, hsome, hne⟩ : ∃ account, s.sf.account = some account ∧ account ≠ "" := by
    cases hsome : s.sf.account with
    | none =>
      rw [hsome] at haccount
      cases haccount
    | some account =>
      rw [hsome] at haccount
      exact ⟨account, rfl, by simpa [isStringEmpty] using haccount⟩
  have hleft : some (String.ofList ((hostName account s.sf.region).toList.take 1023)) =
      (checkedParameters account s.sf).host := by
    rw [checkedParameters, hhost, Option.getD_none]
  rw [checkConnectionParameters_ok haccount huser hpassword, completeParameters_eq hsome, hsome,
    Option.getD_some, ← host_eq_iff, ← isStringEmpty_accountPart hne,
    ← again_iff s account huser hpassword, ← Option.some_inj, hleft]
  constructor
  · rintro ⟨s', hs', hagrees⟩
    cases hs'
    exact ⟨hagrees.host, hagrees.again⟩
  · rintro ⟨heq, hagain⟩
    exact ⟨_, rfl, heq, dot_notMem_accountPart, hagain⟩

/-- A session that has not been checked. -/
def uncheckedSession (account : String) (region : Option String) : Session :=
  .start { newSf none with account := some account, host := none, region } .cleared []

theorem host_agrees_region :
    ∃ s', checkConnectionParameters (uncheckedSession "acme.eu" none) = (some .success, s') ∧
      HostAgrees s' := by
  refine (host_agrees_iff (uncheckedSession "acme.eu" none) rfl rfl rfl rfl).2 ?_
  have hhead : "acme.eu".toList.head? ≠ some '.' := by decide
  have hlen : "acme.eu".toList.length ≤ 1000 := by decide
  exact ⟨hhead, hlen⟩

/-- A region is set and the account has another: the host has both, and no longer agrees. -/
theorem host_agrees_twoRegions :
    ∃ s', checkConnectionParameters (uncheckedSession "acme.eu" (some "us")) = (some .success, s') ∧
      (s'.sf.account, s'.sf.region, s'.sf.host) =
        (some "acme", some "eu", some "acme.eu.us.snowflakecomputing.com") ∧ ¬HostAgrees s' := by
  have hvalues : (completeParameters (uncheckedSession "acme.eu" (some "us")).sf).account =
        some "acme" ∧
      (completeParameters (uncheckedSession "acme.eu" (some "us")).sf).region = some "eu" ∧
      (completeParameters (uncheckedSession "acme.eu" (some "us")).sf).host =
        some "acme.eu.us.snowflakecomputing.com" := by
    decide
  obtain ⟨haccount, hregion, hhost⟩ := hvalues
  refine ⟨_, checkConnectionParameters_ok rfl rfl rfl, by rw [haccount, hregion, hhost], ?_⟩
  intro hagrees
  have heq := hagrees.host
  rw [haccount, hregion, hhost] at heq
  revert heq
  decide

end Snowflake
