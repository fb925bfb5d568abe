import SnowflakeClient.CNumeral
import SnowflakeClient.StdString

/-!
# The proxy

`cpp/util/Proxy.cpp`. A proxy is given as `[protocol://][user:password@]machine[:port]`.

`stringToProxyParts_text`: the parts are read back from every such text. A search finds the end of a
part because the part does not have the separator in it; the password may have colons, since the
colon after the user is the first.
-/

namespace Snowflake

open CInt StdString

namespace Proxy

inductive Protocol where
  | none
  | http
  | https
  deriving DecidableEq, Repr

end Proxy

/-- The members of `Proxy`, with what a new one has. -/
structure Proxy where
  user : List Char := []
  pwd : List Char := []
  machine : List Char := []
  port : Nat := 0
  protocol : Proxy.Protocol := .none
  deriving DecidableEq, Repr

namespace Proxy

/-- The protocol, and the position after it. -/
def readProtocol (p : Proxy) (proxy : List Char) : Except OutOfRange (Proxy × Nat) :=
  match find proxy "://".toList 0 with
  | some found => do
    let protocol ← slice proxy 0 (some found)
    let scheme := if protocol = "http".toList then Protocol.http else .https
    .ok ({ p with protocol := scheme, port := if scheme = .http then 80 else 443 }, found + 3)
  | none => .ok ({ p with protocol := .http, port := 80 }, 0)

/-- The user and the password, and the position after them. -/
def readLogin (p : Proxy) (proxy : List Char) (pos : Nat) : Except OutOfRange (Proxy × Nat) :=
  match findChar proxy '@' pos with
  | some found => do
    let colonPos := findChar proxy ':' pos
    let user ← slice proxy pos colonPos
    -- `npos + 1` is 0
    let pos := (colonPos.map (· + 1)).getD 0
    let pwd ← slice proxy pos (some found)
    .ok ({ p with user, pwd }, found + 1)
  | none => .ok (p, pos)

/-- The machine and the port. -/
def readMachine (p : Proxy) (proxy : List Char) (pos : Nat) : Except OutOfRange Proxy :=
  match findChar proxy ':' pos with
  | some found => do
    let machine ← slice proxy pos (some found)
    let port ← slice proxy (found + 1) (some proxy.length)
    .ok { p with machine, port := toU32 (CNumeral.strtoull (cStr port)).value }
  | none => do
    let machine ← slice proxy pos (some proxy.length)
    .ok { p with machine }

/-- `stringToProxyParts`. -/
def stringToProxyParts (p : Proxy) (proxy : List Char) : Except OutOfRange Proxy :=
  if proxy = [] then .ok p
  else do
    let (p, pos) ← readProtocol p proxy
    let (p, pos) ← readLogin p proxy pos
    readMachine p proxy pos

/-- `Proxy(proxy_str)`. -/
def ofString (proxy : List Char) : Except OutOfRange Proxy := stringToProxyParts {} proxy

/-- `setProxyFromEnv`; `getenv` are the variables of the environment. -/
def setProxyFromEnv (p : Proxy) (getenv : String → Option (List Char)) : Except OutOfRange Proxy :=
  match getenv "all_proxy", getenv "https_proxy", getenv "http_proxy" with
  | some proxy, _, _ => stringToProxyParts p proxy
  | none, some proxy, _ => stringToProxyParts p proxy
  | none, none, some proxy => stringToProxyParts p proxy
  | none, none, none => .ok p

/-! ## It does not throw -/

section Total

variable (p : Proxy) (proxy : List Char)

theorem readProtocol_ok : ∃ p' pos, readProtocol p proxy = .ok (p', pos) ∧ pos ≤ proxy.length := by
  unfold readProtocol
  cases hfind : find proxy "://".toList 0 with
  | none => exact ⟨_, _, rfl, Nat.zero_le _⟩
  | some found =>
    obtain ⟨protocol, hslice⟩ := slice_ok (Nat.zero_le proxy.length) (some found)
    have hle : found + 3 ≤ proxy.length := (find_le hfind).2
    simp only [hslice]
    exact ⟨_, _, rfl, hle⟩

theorem readLogin_ok {pos : Nat} (hpos : pos ≤ proxy.length) :
    ∃ p' pos', readLogin p proxy pos = .ok (p', pos') ∧ pos' ≤ proxy.length := by
  unfold readLogin
  cases hfind : findChar proxy '@' pos with
  | none => exact ⟨_, _, rfl, hpos⟩
  | some found =>
    have hcolon : ((findChar proxy ':' pos).map (· + 1)).getD 0 ≤ proxy.length := by
      cases hcolon : findChar proxy ':' pos with
      | none => exact Nat.zero_le _
      | some colonPos => exact (find_le hcolon).2
    obtain ⟨user, huser⟩ := slice_ok hpos (findChar proxy ':' pos)
    obtain ⟨pwd, hpwd⟩ := slice_ok hcolon (some found)
    have hle : found + 1 ≤ proxy.length := (find_le hfind).2
    simp only [huser, hpwd]
    exact ⟨_, _, rfl, hle⟩

theorem readMachine_ok {pos : Nat} (hpos : pos ≤ proxy.length) :
    ∃ p', readMachine p proxy pos = .ok p' := by
  unfold readMachine
  cases hfind : findChar proxy ':' pos with
  | none =>
    obtain ⟨machine, hmachine⟩ := slice_ok hpos (some proxy.length)
    simp only [hmachine]
    exact ⟨_, rfl⟩
  | some found =>
    have hle : found + 1 ≤ proxy.length := (find_le hfind).2
    obtain ⟨machine, hmachine⟩ := slice_ok hpos (some found)
    obtain ⟨port, hport⟩ := slice_ok hle (some proxy.length)
    simp only [hmachine, hport]
    exact ⟨_, rfl⟩

/-- No text makes it throw. -/
theorem stringToProxyParts_ok : ∃ p', stringToProxyParts p proxy = .ok p' := by
  unfold stringToProxyParts
  split_ifs with hempty
  · exact ⟨p, rfl⟩
  · obtain ⟨p₁, pos, hprotocol, hpos⟩ := readProtocol_ok p proxy
    obtain ⟨p₂, pos', hlogin, hpos'⟩ := readLogin_ok p₁ proxy hpos
    obtain ⟨p₃, hmachine⟩ := readMachine_ok p₂ proxy hpos'
    refine ⟨p₃, ?_⟩
    rw [hprotocol]
    change (readLogin p₁ proxy pos >>= fun x => readMachine x.1 proxy x.2) = _
    rw [hlogin]
    exact hmachine

theorem setProxyFromEnv_ok (getenv : String → Option (List Char)) :
    ∃ p', setProxyFromEnv p getenv = .ok p' := by
  unfold setProxyFromEnv
  split
  · exact stringToProxyParts_ok ..
  · exact stringToProxyParts_ok ..
  · exact stringToProxyParts_ok ..
  · exact ⟨p, rfl⟩

end Total

/-! ## The parts of a text -/

/-- The schemes of a text. -/
inductive Scheme where
  | http
  | https
  deriving DecidableEq, Repr

namespace Scheme

def name : Scheme → List Char
  | http => "http".toList
  | https => "https".toList

def protocol : Scheme → Protocol
  | http => .http
  | https => .https

def port : Scheme → Nat
  | http => 80
  | https => 443

end Scheme

structure Login where
  user : List Char
  pwd : List Char
  user_colon : ':' ∉ user
  user_at : '@' ∉ user
  pwd_at : '@' ∉ pwd

/-- What `[scheme://][user:password@]machine[:port]` is made of. -/
structure Parts where
  scheme : Option Scheme
  login : Option Login
  machine : List Char
  machine_colon : ':' ∉ machine
  machine_at : '@' ∉ machine
  port : Option Decimal.Numeral
  port_lt : ∀ n ∈ port, n.value < 2 ^ 32

def schemeText : Option Scheme → List Char
  | none => []
  | some scheme => scheme.name ++ "://".toList

def loginText : Option Login → List Char
  | none => []
  | some login => login.user ++ ':' :: (login.pwd ++ ['@'])

def portText : Option Decimal.Numeral → List Char
  | none => []
  | some port => ':' :: port.chars

namespace Parts

def text (parts : Parts) : List Char :=
  schemeText parts.scheme ++ (loginText parts.login ++ (parts.machine ++ portText parts.port))

/-- The proxy with these parts, and the default of each that is missing. -/
def proxy (parts : Parts) : Proxy where
  user := (parts.login.map Login.user).getD []
  pwd := (parts.login.map Login.pwd).getD []
  machine := parts.machine
  port := (parts.port.map fun n => n.value).getD ((parts.scheme.map Scheme.port).getD 80)
  protocol := (parts.scheme.map Scheme.protocol).getD .http

/-- `://` is in the text only at the end of a scheme. -/
def SeparatorInScheme (parts : Parts) : Prop :=
  ∀ i, "://".toList <+: parts.text.drop i → ∃ scheme ∈ parts.scheme, i = scheme.name.length

end Parts

/-! ## Reading them back -/

theorem readProtocol_none (p : Proxy) {text : List Char} (h : ¬ "://".toList <:+: text) :
    readProtocol p text = .ok ({ p with protocol := .http, port := 80 }, 0) := by
  have hfind : find text "://".toList 0 = none := by
    rw [find, if_pos (Nat.zero_le _), List.drop_zero, CText.strstr_eq_none h]
    rfl
  unfold readProtocol
  rw [hfind]

theorem readProtocol_some (p : Proxy) (scheme : Scheme) (rest : List Char) :
    readProtocol p (scheme.name ++ ("://".toList ++ rest)) =
      .ok ({ p with protocol := scheme.protocol, port := scheme.port },
        scheme.name.length + 3) := by
  have hfind : find (scheme.name ++ ("://".toList ++ rest)) "://".toList 0 =
      some scheme.name.length := by
    rw [find, if_pos (Nat.zero_le _), List.drop_zero, CText.strstr_append]
    · simp
    · cases scheme <;> decide
    · intro d hd
      cases scheme <;> cases hd <;> decide
  have hslice : slice (scheme.name ++ ("://".toList ++ rest)) 0 (some scheme.name.length) =
      .ok scheme.name := by
    simpa using slice_mid (a := []) (b := scheme.name) (c := "://".toList ++ rest)
  unfold readProtocol
  simp only [hfind, hslice]
  cases scheme <;> rfl

theorem readProtocol_text (p : Proxy) (parts : Parts) (h : parts.SeparatorInScheme) :
    readProtocol p parts.text =
      .ok ({ p with protocol := (parts.scheme.map Scheme.protocol).getD .http,
                    port := (parts.scheme.map Scheme.port).getD 80 },
        (schemeText parts.scheme).length) := by
  unfold Parts.text
  cases hscheme : parts.scheme with
  | none =>
    apply readProtocol_none
    rintro ⟨s, t, hocc⟩
    obtain ⟨scheme, hsome, -⟩ := h s.length (by
      rw [Parts.text, hscheme, ← hocc, List.append_assoc, List.drop_left]
      exact List.prefix_append ..)
    rw [hscheme] at hsome
    cases hsome
  | some scheme =>
    rw [schemeText, List.append_assoc, readProtocol_some, List.length_append]
    rfl

theorem readLogin_some (p : Proxy) (login : Login) (front rest : List Char) :
    readLogin p (front ++ (login.user ++ ':' :: (login.pwd ++ '@' :: rest))) front.length =
      .ok ({ p with user := login.user, pwd := login.pwd },
        front.length + (login.user.length + (login.pwd.length + 1)) + 1) := by
  have hbefore : '@' ∉ login.user ++ ':' :: login.pwd := by
    simp [login.user_at, login.pwd_at]
  have hat : findChar (front ++ ((login.user ++ ':' :: login.pwd) ++ '@' :: rest)) '@'
      front.length = some (front.length + (login.user ++ ':' :: login.pwd).length) :=
    findChar_append hbefore
  have hcolon : findChar (front ++ (login.user ++ ':' :: (login.pwd ++ '@' :: rest))) ':'
      front.length = some (front.length + login.user.length) := findChar_append login.user_colon
  have huser : slice (front ++ (login.user ++ ':' :: (login.pwd ++ '@' :: rest))) front.length
      (some (front.length + login.user.length)) = .ok login.user := slice_mid
  have hpwd : slice ((front ++ login.user ++ [':']) ++ (login.pwd ++ '@' :: rest))
      (front ++ login.user ++ [':']).length
      (some ((front ++ login.user ++ [':']).length + login.pwd.length)) = .ok login.pwd := slice_mid
  have hend : front.length + login.user.length + 1 + login.pwd.length =
      front.length + (login.user.length + (login.pwd.length + 1)) := by omega
  simp only [List.append_assoc, List.cons_append, List.nil_append, List.length_append,
    List.length_cons, List.length_nil, Nat.zero_add, ← Nat.add_assoc] at hat hpwd hend ⊢
  rw [hend] at hpwd
  unfold readLogin
  simp only [hat, hcolon, huser, hpwd, Option.map_some, Option.getD_some]
  rfl

theorem readLogin_text (p : Proxy) (login : Option Login) {front rest : List Char}
    (h : '@' ∉ rest) :
    readLogin p (front ++ (loginText login ++ rest)) front.length =
      .ok ({ p with user := (login.map Login.user).getD p.user,
                    pwd := (login.map Login.pwd).getD p.pwd },
        (front ++ loginText login).length) := by
  cases login with
  | none =>
    unfold readLogin
    rw [loginText, List.nil_append, List.append_nil, findChar_eq_none h]
    rfl
  | some login =>
    have htext : loginText (some login) ++ rest =
        login.user ++ ':' :: (login.pwd ++ '@' :: rest) := by simp [loginText]
    have hlen : (front ++ loginText (some login)).length =
        front.length + (login.user.length + (login.pwd.length + 1)) + 1 := by
      simp [loginText]
      omega
    rw [htext, hlen, readLogin_some]
    rfl

/-- The port as `strtoul` reads it. -/
theorem strtoul_port (port : Decimal.Numeral) (h : port.value < 2 ^ 32) :
    toU32 (CNumeral.strtoull (cStr port.chars)).value = port.value := by
  have hnul : '\x00' ∉ port.chars := fun hmem => absurd (port.digit _ hmem) (by decide)
  let n : CNumeral.Numbered := ⟨[], by simp, .none, port, [], Decimal.stops_nil⟩
  have htext : n.text = port.chars := by simp [n, CNumeral.Numbered.text, CNumeral.Sign.text]
  have hvalue : n.value = port.value := rfl
  have hread := CNumeral.strtoull_text n
  rw [if_pos (show port.value < 2 ^ 64 by omega), htext, hvalue] at hread
  rw [cStr_of_noNul hnul, hread]
  change toU32 ((port.value : Int) % 2 ^ 64).toNat = port.value
  rw [toU32]
  omega

theorem readMachine_text (p : Proxy) {front machine : List Char} (port : Option Decimal.Numeral)
    (hmachine : ':' ∉ machine) (hport : ∀ n ∈ port, n.value < 2 ^ 32) :
    readMachine p (front ++ (machine ++ portText port)) front.length =
      .ok { p with machine, port := (port.map fun n => n.value).getD p.port } := by
  unfold readMachine
  cases port with
  | none =>
    rw [portText, List.append_nil, findChar_eq_none hmachine]
    simp only [slice_rest]
    rfl
  | some port =>
    have hrest : slice ((front ++ machine ++ [':']) ++ port.chars)
        (front ++ machine ++ [':']).length
        (some ((front ++ machine ++ [':']) ++ port.chars).length) = .ok port.chars := slice_rest
    have hname : slice (front ++ (machine ++ ':' :: port.chars)) front.length
        (some (front.length + machine.length)) = .ok machine := slice_mid
    have hvalue := strtoul_port port (hport port rfl)
    simp only [List.append_assoc, List.cons_append, List.nil_append, List.length_append,
      List.length_cons, List.length_nil, Nat.zero_add, ← Nat.add_assoc] at hrest
    rw [portText, findChar_append hmachine]
    simp only [hname, hrest, List.length_append, List.length_cons, ← Nat.add_assoc]
    change Except.ok { p with
      machine, port := toU32 (CNumeral.strtoull (cStr port.chars)).value } = _
    rw [hvalue]
    rfl

/-- The parts are read back. -/
theorem stringToProxyParts_text (parts : Parts) (hne : parts.text ≠ [])
    (hsep : parts.SeparatorInScheme) : ofString parts.text = .ok parts.proxy := by
  have hat : '@' ∉ parts.machine ++ portText parts.port := by
    rw [List.mem_append, not_or]
    refine ⟨parts.machine_at, ?_⟩
    cases parts.port with
    | none => exact List.not_mem_nil
    | some port =>
      intro hmem
      rcases List.mem_cons.1 hmem with heq | hmem
      · exact absurd heq (by decide)
      · exact absurd (port.digit _ hmem) (by decide)
  unfold ofString stringToProxyParts
  rw [if_neg hne, readProtocol_text {} parts hsep]
  change (readLogin _ parts.text _ >>= fun x => readMachine x.1 parts.text x.2) = _
  unfold Parts.text
  rw [readLogin_text _ parts.login hat]
  change readMachine _ _ _ = _
  rw [← List.append_assoc, readMachine_text _ parts.port parts.machine_colon parts.port_lt]
  rfl

/-- `https://u:a:b@m:5050`. -/
def allParts : Parts where
  scheme := some .https
  login := some ⟨['u'], "a:b".toList, by decide, by decide, by decide⟩
  machine := ['m']
  machine_colon := by decide
  machine_at := by decide
  port := some (.ofNat 5050)
  port_lt := by
    rintro n ⟨⟩
    decide

theorem stringToProxyParts_allParts :
    allParts.text ≠ [] ∧ allParts.SeparatorInScheme ∧
      ofString allParts.text = .ok allParts.proxy := by
  have hsep : allParts.SeparatorInScheme := by
    intro i hi
    have hlen : i < 20 := by
      have hle := hi.length_le
      rw [List.length_drop] at hle
      have htext : allParts.text.length = 20 := by decide
      have hpat : "://".toList.length = 3 := by decide
      omega
    refine ⟨.https, rfl, ?_⟩
    revert hi
    interval_cases i <;> decide
  have hne : allParts.text ≠ [] := by decide
  exact ⟨hne, hsep, stringToProxyParts_text allParts hne hsep⟩

end Proxy
end Snowflake
