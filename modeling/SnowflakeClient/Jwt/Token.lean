import SnowflakeClient.CString
import SnowflakeClient.Run
import SnowflakeClient.Connection.Json
import SnowflakeClient.Util.Base64Url

/-!
# JSON web tokens

`JWTObject` with its header, claim set and signer (`cpp/jwt/`). A header and a claim set are each a
`cJSON` tree; a character of a `String` in it stands for one byte.

`cJSON`'s printer and parser and OpenSSL's signatures are arguments, `CJson` and `Rsa`. A run is
`outside` if it reads where there is no buffer, and `raised` with the message of the exception.
-/

namespace Snowflake
namespace Jwt

/-! ## Trees -/

section Members

/-- The members of an object. -/
abbrev Members := List (String × Json)

/-- `cJSON_HasObjectItem`. -/
def hasObjectItem (members : Members) (key : String) : Bool :=
  members.any fun m => Json.sameName key m.1

/-- `cJSON_ReplaceItemInObject`: the first member with the name, in any case, takes the new name
too. -/
def replaceItemInObject : Members → String → Json → Members
  | [], _, _ => []
  | m :: members, key, item =>
    if Json.sameName key m.1 then (key, item) :: members
    else m :: replaceItemInObject members key item

/-- `CJSONOperation::addOrReplaceJSON`. An item that was added is replaced by itself. -/
def addOrReplaceJSON (members : Members) (key : String) (item : Json) : Members :=
  let members := if hasObjectItem members key then members else members ++ [(key, item)]
  replaceItemInObject members key item

/-- `cJSON_DeleteItemFromObject`. -/
def deleteItemFromObject : Members → String → Members
  | [], _ => []
  | m :: members, key =>
    if Json.sameName key m.1 then members else m :: deleteItemFromObject members key

end Members

/-- The string that `c_str` points to. -/
def cStr (s : String) : String := String.ofList (s.toList.takeWhile (· ≠ '\x00'))

/-- The conversion of a `long` to `double`: 53 bits, and half-way cases go to the even one. -/
def toDouble (n : Int) : Int :=
  let step := 2 ^ (n.natAbs.log2 - 52)
  let quot := n.natAbs / step
  let rem := n.natAbs % step
  let rounded := if 2 * rem < step ∨ (2 * rem = step ∧ quot % 2 = 0) then quot else quot + 1
  n.sign * (rounded * step : Nat)

/-! ## Header and claim set -/

/-- `AlgorithmType`. -/
inductive AlgorithmType where
  | hs256 | hs384 | hs512
  | rs256 | rs384 | rs512
  | es256 | es384 | es512
  | unknown
  deriving DecidableEq, Repr

namespace AlgorithmType

/-- `AlgorithmTypeMapper::toString`. -/
def toString : AlgorithmType → String
  | hs256 => "HS256"
  | hs384 => "HS384"
  | hs512 => "HS512"
  | rs256 => "RS256"
  | rs384 => "RS384"
  | rs512 => "RS512"
  | es256 => "ES256"
  | es384 => "ES384"
  | es512 => "ES512"
  | unknown => "UNKNOWN"

/-- `reverse_map_`. -/
def reverseMap : List (String × AlgorithmType) :=
  [("HS256", hs256), ("HS384", hs384), ("HS512", hs512), ("RS256", rs256), ("RS384", rs384),
    ("RS512", rs512), ("ES256", es256), ("ES384", es384), ("ES512", es512), ("UNKNOWN", unknown)]

/-- `AlgorithmTypeMapper::toAlgorithmType`. -/
def ofString (type : String) : AlgorithmType := (reverseMap.lookup type).getD unknown

theorem ofString_toString (type : AlgorithmType) : ofString type.toString = type := by
  cases type <;> decide

end AlgorithmType

/-- The members of a new `CJSONHeader`. -/
def buildHeader : Members := addOrReplaceJSON [] "typ" (.str "JWT")

def setAlgorithm (members : Members) (type : AlgorithmType) : Members :=
  addOrReplaceJSON members "alg" (.str type.toString)

def getAlgorithmType (root : Json) : AlgorithmType :=
  match Json.getObjectItem (some root) "alg" with
  | some (.str value) => .ofString value
  | _ => .unknown

/-- The calls that change a `CJSONClaimSet`. -/
inductive ClaimCall where
  | addString (key value : String)
  | addLong (key : String) (number : Int)
  | removeClaim (key : String)

def ClaimCall.apply (members : Members) : ClaimCall → Members
  | addString key value => addOrReplaceJSON members (cStr key) (.str (cStr value))
  | addLong key number => addOrReplaceJSON members (cStr key) (.num (toDouble number))
  | removeClaim key => deleteItemFromObject members (cStr key)

/-- A claim set after the calls. -/
def buildClaimSet (calls : List ClaimCall) : Members := calls.foldl ClaimCall.apply []

/-! ## Texts -/

/-- A character that can be in a C string. -/
def IsByte (c : Char) : Prop := c ≠ '\x00' ∧ c.toNat < 256

/-- A string, or an integer that a `double` holds. -/
def IsClaim : Json → Prop
  | .str value => ∀ c ∈ value.toList, IsByte c
  | .num value => -2 ^ 53 ≤ value ∧ value ≤ 2 ^ 53
  | _ => False

/-- An object with string and integer members. -/
def Printable : Json → Prop
  | .obj members => ∀ m ∈ members, (∀ c ∈ m.1.toList, IsByte c) ∧ IsClaim m.2
  | _ => False

/-- `cJSON_Print` and `cJSON_Parse`, for which parsing undoes printing. `none` is `NULL`. -/
structure CJson where
  print : Json → Option CString
  parse : CString → Option Json
  parse_print : ∀ root, Printable root → ∃ text, print root = some text ∧ parse text = some root

/-- The C string at the front of `bytes`. -/
def firstString (bytes : List UInt8) : CString where
  bytes := bytes.takeWhile (· ≠ 0)
  noNul h := by simpa using List.mem_takeWhile_imp h

variable (cjson : CJson)

/-- `CJSONOperation::serialize`, with the final `NUL`. -/
def serializeJSON (root : Json) : Run String (List UInt8) := do
  let text ← .ofCall "Error serializing JSon object" (cjson.print root)
  .returned (text.bytes ++ [0])

/-- `CJSONOperation::parse`. An empty vector has the null pointer for its data, which
`cJSON_Parse` refuses. -/
def parseJSON (text : List UInt8) : Run String Json :=
  if text = [] then .raised "Error parsing JSon object"
  else if 0 ∈ text then .ofCall "Error parsing JSon object" (cjson.parse (firstString text))
  else .outside

/-- The text that `encodeURLNoPadding` returns, as bytes. -/
def encodeText (bytes : List UInt8) : Run String (List UInt8) := do
  let text ← Base64.encodeURLNoPadding bytes
  .returned (text.map Char.toUInt8)

/-- `serialize` of a header and of a claim set. -/
def serializePart (root : Json) : Run String (List UInt8) := do
  encodeText (← serializeJSON cjson root)

/-- `parseHeader` and `parseClaimset`. -/
def parsePart (text : List UInt8) : Run String Json := do
  parseJSON cjson (← Base64.decodeURLNoPadding text)

/-! ## Signatures -/

/-- The hash function of an `RSASigner`. -/
inductive Hash where
  | sha256
  | sha384
  | sha512
  deriving DecidableEq, Repr

/-- OpenSSL's signatures: `EVP_DigestSign*`, where `none` is a failure of one of the calls,
`EVP_DigestVerifyInit` with the update, and `EVP_DigestVerifyFinal`. -/
structure Rsa (Key : Type) where
  digestSign : Hash → Key → (msg : List UInt8) → Option (List UInt8)
  digestVerifyInit : Hash → Key → (msg : List UInt8) → Bool
  digestVerifyFinal : Hash → Key → (msg sig : List UInt8) → Bool

variable {Key : Type}

/-- A private and a public key: every message has a signature, which is as long as the modulus, and
verification accepts it. -/
def Rsa.KeyPair (rsa : Rsa Key) (priv pub : Key) : Prop :=
  ∀ hash msg, ∃ sig, rsa.digestSign hash priv msg = some sig ∧ sig ≠ [] ∧
    rsa.digestVerifyInit hash pub msg = true ∧ rsa.digestVerifyFinal hash pub msg sig = true

/-- `ISigner::buildSigner`: each signer is known by its hash function. -/
def buildSigner : AlgorithmType → Run String Hash
  | .rs256 => .returned .sha256
  | .rs384 => .returned .sha384
  | .rs512 => .returned .sha512
  | _ => .raised "Algorithm type not implemented"

/-- An algorithm with a signer. -/
def Supported (type : AlgorithmType) : Prop := type = .rs256 ∨ type = .rs384 ∨ type = .rs512

variable (rsa : Rsa Key)

/-- `RSASigner::sign`: a failure is the empty text. -/
def sign (hash : Hash) (key : Key) (msg : List UInt8) : Run String (List UInt8) :=
  match rsa.digestSign hash key msg with
  | none => .returned []
  | some buf => encodeText buf

/-- `RSASigner::verify`. -/
def verifySignature (hash : Hash) (key : Key) (msg sig : List UInt8) : Run String Bool :=
  if rsa.digestVerifyInit hash key msg then do
    let sigDecode ← Base64.decodeURLNoPadding sig
    .returned (rsa.digestVerifyFinal hash key msg sigDecode)
  else .returned false

/-! ## Tokens -/

/-- `JWTObject`. -/
structure JWTObject where
  header : Json
  claimSet : Json
  secret : List UInt8

/-- The `.` sign. -/
def dot : UInt8 := '.'.toUInt8

/-- What is before and after the first dot. -/
def splitAtDot (text : List UInt8) : Option (List UInt8 × List UInt8) :=
  if dot ∈ text then some (text.takeWhile (· ≠ dot), text.drop (text.idxOf dot + 1)) else none

namespace JWTObject

/-- The constructor from a text. -/
def ofText (input : List UInt8) : Run String JWTObject :=
  if input.length = 0 then .raised "Empty input string"
  else do
    let (header, remain) ← .ofCall "Fail to extract header" (splitAtDot input)
    let header ← parsePart cjson header
    let (claimSet, secret) ← .ofCall "Fail to extract token" (splitAtDot remain)
    let claimSet ← parsePart cjson claimSet
    .returned { header, claimSet, secret }

/-- `msg` of `verify` and `serialize`. -/
def message (jwt : JWTObject) : Run String (List UInt8) := do
  let header ← serializePart cjson jwt.header
  let claimSet ← serializePart cjson jwt.claimSet
  .returned (header ++ dot :: claimSet)

def verify (jwt : JWTObject) (key : Key) : Run String Bool := do
  let signer ← buildSigner (getAlgorithmType jwt.header)
  let msg ← jwt.message cjson
  verifySignature rsa signer key msg jwt.secret

/-- `serialize`: the text, and the token with its new `secret`. -/
def serialize (jwt : JWTObject) (key : Key) : Run String (List UInt8 × JWTObject) := do
  let signer ← buildSigner (getAlgorithmType jwt.header)
  let msg ← jwt.message cjson
  let secret ← sign rsa signer key msg
  .returned (msg ++ dot :: secret, { jwt with secret })

end JWTObject

end Jwt
end Snowflake
