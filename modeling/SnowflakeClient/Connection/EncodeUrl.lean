import SnowflakeClient.CText

/-!
# The URL of a request

`encode_url` (`lib/connection.c`) with curl's `curl_easy_escape` (`deps/curl-7.58.0/lib/escape.c`).
The text is printed into a buffer whose size is added up before. `SF_CALLOC` ends the process when
there is no memory, so a run returns or it writes outside of the buffer.

* `encodeUrl_eq`, `url_buffer_accounting`: every text fits into its buffer, and is the pieces that
  its arguments give.
* `query_pieces_iff`: the query is the parameters, the request id and the extra parameters, unless
  there are only extra parameters: no `&` is put between the request id and them.
-/

namespace Snowflake
namespace Url

/-- `Curl_isunreserved`. -/
def isUnreserved (c : Char) : Bool := c.isAlphanum || c ∈ ['-', '.', '_', '~']

/-- A digit of `%02X`. -/
def hexDigit (n : Nat) : Char := "0123456789ABCDEF".toList.getD n '0'

/-- `curl_easy_escape`. -/
def curlEasyEscape (text : List Char) : List Char :=
  text.flatMap fun c =>
    if isUnreserved c then [c] else ['%', hexDigit (c.toNat / 16), hexDigit (c.toNat % 16)]

/-- `is_string_empty`: `NULL` is empty too. -/
def isStringEmpty (str : Option (List Char)) : Bool := str.getD [] = []

/-- `URL_KEY_VALUE`, without what `encode_url` writes into it. -/
structure UrlKeyValue where
  key : List Char
  value : Option (List Char)

namespace UrlKeyValue

/-- `formatted_key`. -/
def formattedKey (v : UrlKeyValue) : List Char := if isStringEmpty v.value then [] else v.key

/-- `formatted_value`. -/
def formattedValue (v : UrlKeyValue) : List Char :=
  if isStringEmpty v.value then curlEasyEscape [] else curlEasyEscape (v.value.getD [])

end UrlKeyValue

def defaultSnowflakeBaseUrl : List Char := "snowflakecomputing.com".toList

/-- `request_guid`. -/
def requestGuid : UrlKeyValue where
  key := "request_guid=".toList
  value := some "00000000-0000-0000-0000-000000000000".toList

/-- The text of `format`, with the `.` of the account and the `:` of the port. -/
def formatUrl (dot colon : List Char) (protocol account host port url : List Char) : List Char :=
  protocol ++ "://".toList ++ account ++ dot ++ host ++ colon ++ port ++ url

/-- The URL before the query, and `base_url_size`. -/
def baseUrl (protocol account : List Char) (host port : Option (List Char)) (url : List Char) :
    List Char × Nat :=
  let size (static : Nat) (account host port : List Char) :=
    1 + static + (protocol.length + account.length + host.length + port.length + url.length +
      "?".length)
  match isStringEmpty port, isStringEmpty host with
  | false, false =>
    let (host, port) := (host.getD [], port.getD [])
    (formatUrl [] [':'] protocol [] host port url, size 4 [] host port)
  | true, false =>
    let host := host.getD []
    (formatUrl [] [] protocol [] host [] url, size 3 [] host [])
  | false, true =>
    let port := port.getD []
    (formatUrl ['.'] [':'] protocol account defaultSnowflakeBaseUrl port url,
      size 5 account defaultSnowflakeBaseUrl port)
  | true, true =>
    (formatUrl ['.'] [] protocol account defaultSnowflakeBaseUrl [] url,
      size 4 account defaultSnowflakeBaseUrl [])

/-- What a parameter adds to `encoded_url_size`. -/
def paramSize (v : UrlKeyValue) : Nat :=
  v.formattedKey.length + v.formattedValue.length + "&".length

/-- What the extra parameters add to it. -/
def extraSize (numArgs : Nat) : (extraUrlParams : Option (List Char)) → Nat
  | none => 0
  | some extra => if 0 < numArgs then extra.length + "&".length else extra.length

/-- `encoded_url_size`. -/
def encodedUrlSize (baseUrlSize : Nat) (vars : List UrlKeyValue)
    (extraUrlParams : Option (List Char)) : Nat :=
  baseUrlSize + (vars.map paramSize).sum +
    (requestGuid.formattedKey.length + requestGuid.formattedValue.length) +
    extraSize vars.length extraUrlParams

/-- The loop that adds the parameters. -/
def addParams (size : Nat) : (encodedUrl : List Char) → List UrlKeyValue → Run Empty (List Char)
  | encodedUrl, [] => .returned encodedUrl
  | encodedUrl, v :: vars => do
    let encodedUrl ← CText.strncat size encodedUrl v.formattedKey v.formattedKey.length
    let encodedUrl ← CText.strncat size encodedUrl v.formattedValue v.formattedValue.length
    let encodedUrl ← CText.strncat size encodedUrl ['&'] 1
    addParams size encodedUrl vars

/-- The extra parameters, which are only set apart from other parameters. -/
def addExtra (size : Nat) (encodedUrl : List Char) (numArgs : Nat)
    (extraUrlParams : Option (List Char)) : Run Empty (List Char) :=
  if isStringEmpty extraUrlParams then .returned encodedUrl
  else do
    let extra := extraUrlParams.getD []
    let encodedUrl ←
      if numArgs ≠ 0 then CText.strncat size encodedUrl ['&'] 1 else .returned encodedUrl
    CText.strncat size encodedUrl extra extra.length

/-- `encode_url`. -/
def encodeUrl (protocol account : List Char) (host port : Option (List Char)) (url : List Char)
    (vars : List UrlKeyValue) (extraUrlParams : Option (List Char)) : Run Empty (List Char) := do
  let (base, baseUrlSize) := baseUrl protocol account host port url
  let size := encodedUrlSize baseUrlSize vars extraUrlParams
  let encodedUrl ← CText.snprintf size baseUrlSize base
  let encodedUrl ← CText.strncat size encodedUrl ['?'] 1
  let encodedUrl ← addParams size encodedUrl vars
  let encodedUrl ←
    CText.strncat size encodedUrl requestGuid.formattedKey requestGuid.formattedKey.length
  let encodedUrl ←
    CText.strncat size encodedUrl requestGuid.formattedValue requestGuid.formattedValue.length
  addExtra size encodedUrl vars.length extraUrlParams

/-! ## The text -/

/-- A parameter in the query, with its `&`. -/
def paramText (v : UrlKeyValue) : List Char := v.formattedKey ++ v.formattedValue ++ ['&']

/-- The request id in the query. -/
def guidText : List Char := requestGuid.formattedKey ++ requestGuid.formattedValue

/-- The extra parameters in the query. -/
def extraText (numArgs : Nat) (extraUrlParams : Option (List Char)) : List Char :=
  if isStringEmpty extraUrlParams then []
  else (if numArgs ≠ 0 then ['&'] else []) ++ extraUrlParams.getD []

/-- The text after the `?`. -/
def query (vars : List UrlKeyValue) (extraUrlParams : Option (List Char)) : List Char :=
  vars.flatMap paramText ++ guidText ++ extraText vars.length extraUrlParams

theorem length_paramText (v : UrlKeyValue) : (paramText v).length = paramSize v := by
  simp only [paramText, paramSize, List.length_append, List.length_singleton]
  rfl

theorem addParams_eq (size : Nat) (vars : List UrlKeyValue) (text : List Char)
    (h : text.length + (vars.map paramSize).sum < size) :
    addParams size text vars = .returned (text ++ vars.flatMap paramText) := by
  induction vars generalizing text with
  | nil => rw [addParams, List.flatMap_nil, List.append_nil]
  | cons v vars ih =>
    rw [List.map_cons, List.sum_cons, ← length_paramText] at h
    simp only [paramText, List.length_append, List.length_singleton] at h
    rw [addParams, CText.strncat_length (by omega), Run.returned_bind,
      CText.strncat_length (by rw [List.length_append]; omega), Run.returned_bind,
      show (1 : Nat) = ['&'].length from rfl,
      CText.strncat_length (by simp only [List.length_append, List.length_singleton]; omega),
      Run.returned_bind, ih]
    · simp only [List.flatMap_cons, paramText, List.append_assoc]
    · simp only [List.length_append, List.length_singleton]
      omega

theorem addExtra_eq (size numArgs : Nat) (extra : Option (List Char)) (text : List Char)
    (h : text.length + (extraText numArgs extra).length < size) :
    addExtra size text numArgs extra = .returned (text ++ extraText numArgs extra) := by
  unfold extraText at h ⊢
  unfold addExtra
  by_cases hempty : isStringEmpty extra = true
  · rw [if_pos hempty, if_pos hempty, List.append_nil]
  rw [if_neg hempty] at h
  rw [if_neg hempty, if_neg hempty]
  by_cases hargs : numArgs ≠ 0
  · rw [if_pos hargs, List.length_append, List.length_singleton] at h
    have hamp : (CText.strncat size text ['&'] 1 : Run Empty _) = .returned (text ++ ['&']) :=
      CText.strncat_length (by rw [List.length_singleton]; omega)
    have htext : (CText.strncat size (text ++ ['&']) (extra.getD []) (extra.getD []).length :
        Run Empty _) = .returned (text ++ ['&'] ++ extra.getD []) :=
      CText.strncat_length (by rw [List.length_append, List.length_singleton]; omega)
    simp only [if_pos hargs, hamp, Run.returned_bind, htext, List.append_assoc]
  · rw [if_neg hargs, List.nil_append] at h
    simp only [if_neg hargs, Run.returned_bind, CText.strncat_length h, List.nil_append]

/-- The size of the base is that of its text, with the `?` and the `NUL`. -/
theorem snd_baseUrl (protocol account : List Char) (host port : Option (List Char))
    (url : List Char) :
    (baseUrl protocol account host port url).2 =
      (baseUrl protocol account host port url).1.length + 2 := by
  have hsep : "://".toList.length = 3 := rfl
  have hquery : "?".length = 1 := rfl
  unfold baseUrl
  split <;>
    simp only [formatUrl, List.length_append, List.length_singleton, List.length_nil, hsep,
      hquery] <;> omega

theorem length_extraText_le (numArgs : Nat) (extra : Option (List Char)) :
    (extraText numArgs extra).length ≤ extraSize numArgs extra := by
  have hamp : "&".length = 1 := rfl
  unfold extraText isStringEmpty extraSize
  cases extra with
  | none => simp
  | some extra =>
    by_cases hargs : numArgs = 0
    · simp only [Option.getD_some, hargs, ne_eq, not_true_eq_false, if_false, List.nil_append,
        Nat.lt_irrefl, decide_eq_true_eq]
      split <;> simp
    · simp only [Option.getD_some, ne_eq, hargs, not_false_eq_true, if_true,
        Nat.pos_of_ne_zero hargs, decide_eq_true_eq, hamp]
      split <;> simp

theorem length_params (vars : List UrlKeyValue) :
    (vars.flatMap paramText).length = (vars.map paramSize).sum := by
  rw [List.length_flatMap]
  simp only [length_paramText]

theorem length_query (vars : List UrlKeyValue) (extra : Option (List Char)) :
    (query vars extra).length = (vars.map paramSize).sum +
      (requestGuid.formattedKey.length + requestGuid.formattedValue.length) +
      (extraText vars.length extra).length := by
  simp only [query, guidText, List.length_append, length_params]

/-- Every text fits into the buffer. -/
theorem encodeUrl_eq (protocol account : List Char) (host port : Option (List Char))
    (url : List Char) (vars : List UrlKeyValue) (extra : Option (List Char)) :
    encodeUrl protocol account host port url vars extra =
      .returned ((baseUrl protocol account host port url).1 ++ '?' :: query vars extra) := by
  have hbase := snd_baseUrl protocol account host port url
  have hextra := length_extraText_le vars.length extra
  have hparams := length_params vars
  unfold encodeUrl
  generalize baseUrl protocol account host port url = base at hbase ⊢
  obtain ⟨base, baseUrlSize⟩ := base
  dsimp only at hbase ⊢
  have hsize : encodedUrlSize baseUrlSize vars extra =
      baseUrlSize + (vars.map paramSize).sum + (requestGuid.formattedKey.length +
        requestGuid.formattedValue.length) + extraSize vars.length extra := rfl
  generalize encodedUrlSize baseUrlSize vars extra = size at hsize ⊢
  rw [CText.snprintf_of_lt (by omega) (by omega), Run.returned_bind,
    show (1 : Nat) = ['?'].length from rfl,
    CText.strncat_length (by rw [List.length_singleton]; omega), Run.returned_bind,
    addParams_eq _ _ _ (by rw [List.length_append, List.length_singleton]; omega),
    Run.returned_bind,
    CText.strncat_length
      (by simp only [List.length_append, List.length_singleton, hparams]; omega),
    Run.returned_bind,
    CText.strncat_length
      (by simp only [List.length_append, List.length_singleton, hparams]; omega),
    Run.returned_bind, addExtra_eq]
  · simp only [query, guidText, List.append_assoc, List.cons_append, List.nil_append]
  · simp only [List.length_append, List.length_singleton, hparams]
    omega

theorem length_url_lt (protocol account : List Char) (host port : Option (List Char))
    (url : List Char) (vars : List UrlKeyValue) (extra : Option (List Char)) :
    ((baseUrl protocol account host port url).1 ++ '?' :: query vars extra).length <
      encodedUrlSize (baseUrl protocol account host port url).2 vars extra := by
  have hbase := snd_baseUrl protocol account host port url
  have hextra := length_extraText_le vars.length extra
  rw [List.length_append, List.length_cons, length_query]
  unfold encodedUrlSize
  omega

/-! ### Its pieces, from the arguments -/

/-- The URL before the query: a host takes the place of the account, and the port is left out if it
is empty. -/
inductive BaseText (protocol account url : List Char) :
    (host port : Option (List Char)) → List Char → Prop
  | hostPort {host port : List Char} (hhost : host ≠ []) (hport : port ≠ []) :
    BaseText protocol account url (some host) (some port)
      (protocol ++ "://".toList ++ host ++ ":".toList ++ port ++ url)
  | host {host : List Char} {port : Option (List Char)} (hhost : host ≠ [])
    (hport : isStringEmpty port = true) :
    BaseText protocol account url (some host) port (protocol ++ "://".toList ++ host ++ url)
  | port {host : Option (List Char)} {port : List Char} (hhost : isStringEmpty host = true)
    (hport : port ≠ []) :
    BaseText protocol account url host (some port)
      (protocol ++ "://".toList ++ account ++ ".snowflakecomputing.com:".toList ++ port ++ url)
  | account {host port : Option (List Char)} (hhost : isStringEmpty host = true)
    (hport : isStringEmpty port = true) :
    BaseText protocol account url host port
      (protocol ++ "://".toList ++ account ++ ".snowflakecomputing.com".toList ++ url)

/-- A parameter without a value leaves its `&` only. -/
def paramPiece (v : UrlKeyValue) : List Char :=
  match v.value with
  | some (c :: value) => v.key ++ curlEasyEscape (c :: value) ++ "&".toList
  | _ => "&".toList

/-- The `&` before the extra parameters is only put after other parameters. -/
def extraPiece (vars : List UrlKeyValue) (extra : Option (List Char)) : List Char :=
  match vars, extra with
  | [], some (c :: extra) => c :: extra
  | _ :: _, some (c :: extra) => "&".toList ++ c :: extra
  | _, _ => []

theorem isStringEmpty_eq_false {str : Option (List Char)} (h : isStringEmpty str = false) :
    ∃ c text, str = some (c :: text) := by
  cases str with
  | none => cases h
  | some text =>
    cases text with
    | nil => cases h
    | cons c text => exact ⟨c, text, rfl⟩

theorem baseText_baseUrl (protocol account : List Char) (host port : Option (List Char))
    (url : List Char) :
    BaseText protocol account url host port (baseUrl protocol account host port url).1 := by
  have hdefault : defaultSnowflakeBaseUrl = "snowflakecomputing.com".toList := rfl
  have hdot : ".snowflakecomputing.com".toList = '.' :: "snowflakecomputing.com".toList := by decide
  have hcolon : ".snowflakecomputing.com:".toList =
      '.' :: "snowflakecomputing.com".toList ++ [':'] := by decide
  have hport' : ":".toList = [':'] := by decide
  unfold baseUrl
  cases hport : isStringEmpty port with
  | false =>
    obtain ⟨p, port, rfl⟩ := isStringEmpty_eq_false hport
    cases hhost : isStringEmpty host with
    | false =>
      obtain ⟨h, host, rfl⟩ := isStringEmpty_eq_false hhost
      have htext : BaseText protocol account url (some (h :: host)) (some (p :: port)) _ :=
        .hostPort (List.cons_ne_nil h host) (List.cons_ne_nil p port)
      simpa [formatUrl, hport'] using htext
    | true =>
      have htext : BaseText protocol account url host (some (p :: port)) _ :=
        .port hhost (List.cons_ne_nil p port)
      simpa [formatUrl, hdefault, hcolon] using htext
  | true =>
    cases hhost : isStringEmpty host with
    | false =>
      obtain ⟨h, host, rfl⟩ := isStringEmpty_eq_false hhost
      have htext : BaseText protocol account url (some (h :: host)) port _ :=
        .host (List.cons_ne_nil h host) hport
      simpa [formatUrl] using htext
    | true =>
      have htext : BaseText protocol account url host port _ := .account hhost hport
      simpa [formatUrl, hdefault, hdot] using htext

theorem paramText_eq (v : UrlKeyValue) : paramText v = paramPiece v := by
  obtain ⟨key, value⟩ := v
  rcases value with _ | (_ | ⟨c, value⟩) <;> rfl

theorem extraText_eq (vars : List UrlKeyValue) (extra : Option (List Char)) :
    extraText vars.length extra = extraPiece vars extra := by
  rcases extra with _ | (_ | ⟨c, extra⟩) <;> cases vars <;> rfl

/-- Escaping does not change the request id. -/
theorem guidText_eq :
    guidText = "request_guid=00000000-0000-0000-0000-000000000000".toList := by decide

/-- The base is the text of its format and is printed in full, the URL is the base with its other
pieces, and it fits into the buffer with its `NUL`. -/
theorem url_buffer_accounting (protocol account : List Char) (host port : Option (List Char))
    (url : List Char) (vars : List UrlKeyValue) (extra : Option (List Char)) :
    ∃ base text, BaseText protocol account url host port base ∧
      (baseUrl protocol account host port url).1 = base ∧
      base.length < (baseUrl protocol account host port url).2 ∧
      encodeUrl protocol account host port url vars extra = .returned text ∧
      text = base ++ "?".toList ++ vars.flatMap paramPiece ++
        "request_guid=00000000-0000-0000-0000-000000000000".toList ++ extraPiece vars extra ∧
      text.length + 1 ≤ encodedUrlSize (baseUrl protocol account host port url).2 vars extra := by
  have hbase := snd_baseUrl protocol account host port url
  have hparams : paramText = paramPiece := funext paramText_eq
  refine ⟨_, _, baseText_baseUrl protocol account host port url, rfl, by omega, encodeUrl_eq ..,
    ?_, length_url_lt ..⟩
  rw [query, hparams, guidText_eq, extraText_eq]
  simp only [List.append_assoc]
  rfl

/-! ## The query as the server reads it -/

theorem isUnreserved_hexDigit (n : Nat) : isUnreserved (hexDigit n) = true := by
  have hall : ∀ c ∈ "0123456789ABCDEF".toList, isUnreserved c = true := by
    simp [isUnreserved, Char.isAlphanum, Char.isAlpha, Char.isDigit, Char.isUpper]
  have hzero : isUnreserved '0' = true := by decide
  unfold hexDigit
  rcases Nat.lt_or_ge n "0123456789ABCDEF".toList.length with hlt | hge
  · rw [List.getD_eq_getElem _ _ hlt]
    exact hall _ (List.getElem_mem hlt)
  · rwa [List.getD_eq_default _ _ hge]

/-- Escaping yields only unreserved characters and `%XX`. -/
theorem mem_curlEasyEscape {text : List Char} {c : Char} (h : c ∈ curlEasyEscape text) :
    isUnreserved c = true ∨ c = '%' := by
  obtain ⟨x, -, hc⟩ := List.mem_flatMap.mp h
  split at hc
  · next hx =>
    rw [List.mem_singleton.mp hc]
    exact .inl hx
  · simp only [List.mem_cons, List.not_mem_nil, or_false] at hc
    rcases hc with rfl | rfl | rfl
    · exact .inr rfl
    · exact .inl (isUnreserved_hexDigit _)
    · exact .inl (isUnreserved_hexDigit _)

theorem amp_notMem_curlEasyEscape (text : List Char) : '&' ∉ curlEasyEscape text := by
  intro h
  rcases mem_curlEasyEscape h with h | h
  · exact absurd h (by decide)
  · exact absurd h (by decide)

/-- A parameter as the server reads it: none if its value is empty. -/
def paramPieces (v : UrlKeyValue) : List (List Char) :=
  if isStringEmpty v.value then [] else [v.key ++ curlEasyEscape (v.value.getD [])]

/-- The key has the form `name=`. -/
def KeyNamed (v : UrlKeyValue) : Prop := ∃ name, '&' ∉ name ∧ v.key = name ++ ['=']

theorem pieces_paramText {v : UrlKeyValue} (h : KeyNamed v) (rest : List Char) :
    CText.pieces '&' (paramText v ++ rest) = paramPieces v ++ CText.pieces '&' rest := by
  obtain ⟨name, hname, hkey⟩ := h
  unfold paramText paramPieces UrlKeyValue.formattedKey UrlKeyValue.formattedValue
  rw [List.append_assoc _ ['&'], List.singleton_append, CText.pieces_append_cons]
  congr 1
  by_cases hempty : isStringEmpty v.value = true
  · rw [if_pos hempty, if_pos hempty, if_pos hempty]
    rfl
  · rw [if_neg hempty, if_neg hempty, if_neg hempty]
    have hnot : '&' ∉ v.key ++ curlEasyEscape (v.value.getD []) := by
      rw [hkey]
      simp [hname, amp_notMem_curlEasyEscape]
    exact CText.pieces_of_notMem hnot (by simp [hkey])

theorem pieces_params {vars : List UrlKeyValue} (h : ∀ v ∈ vars, KeyNamed v) (rest : List Char) :
    CText.pieces '&' (vars.flatMap paramText ++ rest) =
      vars.flatMap paramPieces ++ CText.pieces '&' rest := by
  induction vars with
  | nil => rfl
  | cons v vars ih =>
    obtain ⟨hv, hvars⟩ := List.forall_mem_cons.mp h
    rw [List.flatMap_cons, List.flatMap_cons, List.append_assoc, pieces_paramText hv, ih hvars,
      List.append_assoc]

theorem amp_notMem_guidText : '&' ∉ guidText := by
  rw [guidText_eq]
  decide

theorem guidText_ne_nil : guidText ≠ [] := by
  rw [guidText_eq]
  decide

/-- The text after the first `?`. -/
def afterQuestionMark (text : List Char) : List Char := (text.dropWhile (· ≠ '?')).tail

theorem afterQuestionMark_append {base : List Char} (h : '?' ∉ base) (rest : List Char) :
    afterQuestionMark (base ++ '?' :: rest) = rest := by
  have hall : ∀ c ∈ base, decide (c ≠ '?') = true := by
    intro c hc
    rw [decide_eq_true_eq]
    rintro rfl
    exact h hc
  rw [afterQuestionMark, List.dropWhile_append_of_pos hall]
  simp

theorem questionMark_notMem_baseUrl {protocol account url : List Char}
    {host port : Option (List Char)} (hprotocol : '?' ∉ protocol) (haccount : '?' ∉ account)
    (hhost : '?' ∉ host.getD []) (hport : '?' ∉ port.getD []) (hurl : '?' ∉ url) :
    '?' ∉ (baseUrl protocol account host port url).1 := by
  have hsep : '?' ∉ "://".toList := by decide
  have hdefault : '?' ∉ defaultSnowflakeBaseUrl := by decide
  unfold baseUrl
  split <;> simp [formatUrl, hprotocol, haccount, hhost, hport, hurl, hdefault]

/-- What the server is to read. -/
def expectedPieces (vars : List UrlKeyValue) (extra : Option (List Char)) : List (List Char) :=
  vars.flatMap paramPieces ++ "request_guid=00000000-0000-0000-0000-000000000000".toList ::
    CText.pieces '&' (extra.getD [])

theorem pieces_query_iff {vars : List UrlKeyValue} (hvars : ∀ v ∈ vars, KeyNamed v)
    {extra : Option (List Char)} (hextra : (extra.getD []).head? ≠ some '&') :
    CText.pieces '&' (query vars extra) = expectedPieces vars extra ↔
      vars ≠ [] ∨ isStringEmpty extra = true := by
  rw [query, List.append_assoc, pieces_params hvars, expectedPieces, ← guidText_eq,
    List.append_cancel_left_eq, extraText]
  by_cases hempty : isStringEmpty extra = true
  · have hnil : extra.getD [] = [] := by simpa [isStringEmpty] using hempty
    rw [if_pos hempty, List.append_nil, hnil,
      CText.pieces_of_notMem amp_notMem_guidText guidText_ne_nil]
    exact iff_of_true rfl (.inr hempty)
  rw [if_neg hempty]
  by_cases hargs : vars = []
  · have hne : extra.getD [] ≠ [] := by simpa [isStringEmpty] using hempty
    obtain ⟨first, rest, hpieces, hlong⟩ :=
      CText.pieces_append_of_head hne hextra amp_notMem_guidText
    rw [hargs, List.length_nil, if_neg (by simp), List.nil_append, hlong, hpieces]
    -- there is one piece less than there should be
    refine iff_of_false (fun h => ?_) (by simp [hempty])
    have hlen := congrArg List.length h
    simp at hlen
  · have hlength : vars.length ≠ 0 := by simpa using hargs
    rw [if_pos hlength, List.singleton_append, CText.pieces_append_cons,
      CText.pieces_of_notMem amp_notMem_guidText guidText_ne_nil]
    exact iff_of_true rfl (.inl hargs)

/-- The pieces of the query are the parameters that have a value, the request id and the extra
parameters, exactly when there are parameters or no extra parameters. -/
theorem query_pieces_iff {protocol account url : List Char} {host port : Option (List Char)}
    {vars : List UrlKeyValue} {extra : Option (List Char)} (hprotocol : '?' ∉ protocol)
    (haccount : '?' ∉ account) (hhost : '?' ∉ host.getD []) (hport : '?' ∉ port.getD [])
    (hurl : '?' ∉ url) (hvars : ∀ v ∈ vars, KeyNamed v)
    (hextra : (extra.getD []).head? ≠ some '&') :
    (∃ text, encodeUrl protocol account host port url vars extra = .returned text ∧
      CText.pieces '&' (afterQuestionMark text) = expectedPieces vars extra) ↔
      vars ≠ [] ∨ isStringEmpty extra = true := by
  have hbase := questionMark_notMem_baseUrl hprotocol haccount hhost hport hurl
  rw [← pieces_query_iff hvars hextra, encodeUrl_eq]
  constructor
  · rintro ⟨text, htext, hpieces⟩
    cases htext
    rwa [afterQuestionMark_append hbase] at hpieces
  · intro h
    exact ⟨_, rfl, by rwa [afterQuestionMark_append hbase]⟩

/-- A request with one parameter and an extra one. -/
theorem query_pieces_two :
    ∃ text, encodeUrl "https".toList "acme".toList none none "/session".toList
        [⟨"a=".toList, some "x y".toList⟩] (some "b=2".toList) = .returned text ∧
      CText.pieces '&' (afterQuestionMark text) =
        expectedPieces [⟨"a=".toList, some "x y".toList⟩] (some "b=2".toList) :=
  (query_pieces_iff (by decide) (by decide) (by decide) (by decide) (by decide)
    (by
      intro v hv
      rw [List.mem_singleton.mp hv]
      exact ⟨['a'], by decide, rfl⟩)
    (by decide)).mpr (.inl (by simp))

/-- Without parameters the extra ones are glued to the request id. -/
theorem query_glued :
    encodeUrl "https".toList "acme".toList none none "/q".toList [] (some "b=2".toList) =
        .returned ("https://acme.snowflakecomputing.com/q?".toList ++
          "request_guid=00000000-0000-0000-0000-000000000000b=2".toList) ∧
      expectedPieces [] (some "b=2".toList) =
        ["request_guid=00000000-0000-0000-0000-000000000000".toList, "b=2".toList] := by
  refine ⟨?_, by decide⟩
  rw [encodeUrl_eq]
  decide

end Url
end Snowflake
