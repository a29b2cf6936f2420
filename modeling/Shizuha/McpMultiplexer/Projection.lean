import Shizuha.Js.Utf8
import Shizuha.Telemetry.PrefixFingerprint

/-!
# The projection envelope

What an agent may reach is signed by the producer, over a nonce of the
multiplexer's own choosing, and travels through a socket nobody trusts. The
reader is strict: the text has to be the canonical one of the value it parses
to, so that no key can be there twice, every field has to be of its kind, and
no field may be missing or left over.

Signatures are checked by the platform: `verify` of the public key's 32 bytes,
the signed bytes and the signature.
-/

namespace Shizuha.McpMultiplexer

open Js Telemetry

structure Crypto where
  verify : Bytes → Bytes → Bytes → Bool
  /-- What the engine says of a text it cannot parse. -/
  syntaxError : Text → Text

structure McpProjectionClaims where
  mcpServices : List Text
  fingerprint : Text
  /-- A text or a number. -/
  catalogVersion : Json
  agentAudience : Text
  issuedAt : ℤ
  expiresAt : ℤ
  generation : ℤ
  leaseDeadline : ℤ
  kid : Text

structure McpProjectionEnvelope where
  projection : McpProjectionClaims
  /-- The projection as it was parsed, which is what is signed. -/
  projectionJson : Json
  nonce : Text
  signature : Text

structure VerifiedMcpProjection where
  claims : McpProjectionClaims
  allowedServices : List Text
  verifiedAtWallMs : ℚ
  verifiedAtMonoMs : ℚ
  monoDeadlineMs : ℚ
  sSlowMs : ℚ

def maxLifetimeMs : ℚ := 5000

def defaultSSlowMs : ℚ := 500

def refreshMarginMs : ℚ := 250

def protocolTag : Text := js "shizuha-hive-projection/v1"

def reject {α : Type} (message : Text) : Except Text α :=
  .error (js "mcp_projection_invalid: " ++ message)

/-- `if (!condition) reject(message)`. -/
def require (condition : Bool) (message : String) : Except Text Unit :=
  if condition then .ok () else reject (js message)

/-- `Number.isSafeInteger`. -/
def isSafeInteger (x : ℚ) : Bool := x.den = 1 ∧ |x| ≤ 2 ^ 53 - 1

/-! ## Canonical text -/

mutual

/-- Every number in the value is a safe integer. Minus zero reads as zero here,
and is refused for not being canonical. -/
def safeNumbers : Json → Bool
  | .num (.finite x) => isSafeInteger x.val
  | .num (.infinite _) => false
  | .arr items => safeItems items
  | .obj fields => safeFields fields
  | _ => true

def safeItems : List Json → Bool
  | [] => true
  | v :: rest => safeNumbers v && safeItems rest

def safeFields : List (Text × Json) → Bool
  | [] => true
  | (_, v) :: rest => safeNumbers v && safeFields rest

end

def canonicalizeProjectionJson (v : Json) : Except Text Text := do
  require (safeNumbers v) "numbers must be safe integers"
  return stableJson v

/-- `projectionSigningPreimage`. -/
def projectionSigningPreimage (nonce : Bytes) (projection : Json) : Except Text Bytes := do
  require (nonce.length = 32) "nonce must be exactly 32 raw bytes"
  let text ← canonicalizeProjectionJson projection
  return utf8Encode protocolTag ++ [0] ++ nonce ++ [0] ++ utf8Encode text

/-! ## Reading fields -/

def fieldsOf : Json → Option (List (Text × Json))
  | .obj fields => some fields
  | _ => none

def plainObject (v : Option Json) (field : String) : Except Text (List (Text × Json)) :=
  match v.bind fieldsOf with
  | some fields => .ok fields
  | none => reject (js field ++ js " must be a plain object")

def prop (fields : List (Text × Json)) (name : String) : Option Json :=
  (fields.find? fun f => f.1 = js name).map (·.2)

/-- `Object.keys(fields).sort().join(',')`. -/
def keyList (fields : List (Text × Json)) : Text :=
  join [44] ((fields.map (·.1)).insertionSort fun k l => keyLE k l)

/-- A text that passes a check, or a refusal. -/
def textField (v : Option Json) (check : Text → Bool) (message : String) : Except Text Text :=
  match v with
  | some (.str s) => if check s then .ok s else reject (js message)
  | _ => reject (js message)

/-- A number that is a safe integer and passes a check. -/
def integerField (v : Option Json) (check : ℤ → Bool) (message : String) : Except Text ℤ :=
  match v with
  | some (.num (.finite x)) =>
      if isSafeInteger x.val && check x.val.num then .ok x.val.num else reject (js message)
  | _ => reject (js message)

def parseTimestampMs (v : Option Json) (field : String) : Except Text ℤ :=
  integerField v (fun n => 0 < n) (field ++ " must be a positive epoch-millisecond integer")

def parseGeneration (v : Option Json) : Except Text ℤ :=
  integerField v (fun n => 0 ≤ n) "generation must be a non-negative integer"

def isLowerOrDigit (u : UInt16) : Bool := (97 ≤ u && u ≤ 122) || isDigit u

/-- `/^[a-z0-9][a-z0-9-]{0,63}$/`. -/
def isService (s : Text) : Bool :=
  match s with
  | [] => false
  | u :: rest =>
      isLowerOrDigit u && decide (rest.length ≤ 63) && rest.all fun v => isLowerOrDigit v || v == 45

/-- `/^[A-Za-z0-9._:-]{1,128}$/`. -/
def isKid (s : Text) : Bool :=
  decide (1 ≤ s.length ∧ s.length ≤ 128) &&
    s.all fun u => isDigit u || (65 ≤ u && u ≤ 90) || (97 ≤ u && u ≤ 122) || u == 46 || u == 95 ||
      u == 58 || u == 45

/-- `/^(?:sha256:)?[a-f0-9]{64}$/`. -/
def isHex64 (s : Text) : Bool :=
  let digits := if startsWith s (js "sha256:") then s.drop 7 else s
  decide (digits.length = 64) && digits.all fun u => isDigit u || (97 ≤ u && u ≤ 102)

/-- `/^[A-Za-z0-9_-]{n}$/`. -/
def isBase64urlOf (n : ℕ) (s : Text) : Bool := decide (s.length = n) && s.all isBase64url

def serviceNames : List Json → Except Text (List Text)
  | [] => .ok []
  | v :: rest => do
      let s ← textField (some v) isService "mcp_services contains an invalid service name"
      let names ← serviceNames rest
      return s :: names

/-- Strictly ascending by code units. -/
def ascending : List Text → Bool
  | a :: b :: rest => decide (a < b) && ascending (b :: rest)
  | _ => true

def parseServices (v : Option Json) : Except Text (List Text) :=
  match v with
  | some (.arr items) => do
      let services ← serviceNames items
      require (services.length ≤ 64 && ascending services) "mcp_services must be sorted and unique"
      require (services ≠ []) "mcp_services must not be empty"
      return services
  | _ => reject (js "mcp_services must be an array")

/-- A text of 1 to 128 units, or a safe integer from 0 on. -/
def isCatalogVersion : Option Json → Bool
  | some (.str s) => decide (0 < s.length ∧ s.length ≤ 128)
  | some (.num (.finite x)) => isSafeInteger x.val && decide (0 ≤ x.val)
  | _ => false

def isNumber (n : ℚ) : Option Json → Bool
  | some (.num (.finite x)) => x.val = n
  | _ => false

def isText (s : String) : Option Json → Bool
  | some (.str t) => t = js s
  | _ => false

def parseClaims (projection : List (Text × Json)) : Except Text McpProjectionClaims := do
  let catalog := prop projection "catalog_version"
  require (isCatalogVersion catalog) "catalog_version is invalid"
  require (isNumber 1 (prop projection "schema_version")) "schema_version unsupported"
  require (isText "hive" (prop projection "source")) "source must be hive"
  let services ← parseServices (prop projection "mcp_services")
  let fingerprint ← textField (prop projection "fingerprint") isHex64 "fingerprint is invalid"
  let audience ← textField (prop projection "agent_audience") (fun s => s ≠ [])
    "agent_audience is invalid"
  let issuedAt ← parseTimestampMs (prop projection "issued_at") "issued_at"
  let expiresAt ← parseTimestampMs (prop projection "expires_at") "expires_at"
  let generation ← parseGeneration (prop projection "generation")
  let leaseDeadline ← parseTimestampMs (prop projection "lease_deadline") "lease_deadline"
  let kid ← textField (prop projection "kid") isKid "kid is invalid"
  return {
    mcpServices := services
    fingerprint := fingerprint
    catalogVersion := catalog.getD .null
    agentAudience := audience
    issuedAt := issuedAt
    expiresAt := expiresAt
    generation := generation
    leaseDeadline := leaseDeadline
    kid := kid }

def projectionFields : Text :=
  js "agent_audience,catalog_version,expires_at,fingerprint,generation,issued_at,kid,lease_deadline,mcp_services,schema_version,source"

/-- What a fetch comes back with. -/
inductive RawEnvelope where
  | text (s : Text)
  | buffer (bytes : Bytes)

def RawEnvelope.decoded : RawEnvelope → Text
  | .text s => s
  | .buffer bytes => utf8Decode bytes

def parseJson (crypto : Crypto) (text : Text) : Except Text Json :=
  match Json.parse text with
  | some v => .ok v
  | none => reject (js "malformed JSON: " ++ crypto.syntaxError text)

def parseStrictProjection (crypto : Crypto) (raw : RawEnvelope) :
    Except Text McpProjectionEnvelope := do
  let text := raw.decoded
  require (text ≠ [] && decide ((utf8Encode text).length ≤ 64 * 1024)) "envelope size is invalid"
  let parsed ← parseJson crypto text
  let canonical ← canonicalizeProjectionJson parsed
  require (canonical = text) "envelope is not canonical or contains duplicate keys"
  let envelope ← plainObject (some parsed) "envelope"
  require (keyList envelope = js "nonce,projection,signature") "envelope fields mismatch"
  let projection ← plainObject (prop envelope "projection") "projection"
  require (keyList projection = projectionFields) "projection fields mismatch"
  let claims ← parseClaims projection
  let nonce ← textField (prop envelope "nonce") (isBase64urlOf 43) "nonce is invalid"
  let signature ← textField (prop envelope "signature") (isBase64urlOf 86) "signature is invalid"
  return ⟨claims, .obj projection, nonce, signature⟩

/-! ## The keyring -/

/-- One item of the keyring, `none` for a key that is not current. -/
def parseKey (v : Json) (taken : List Text) : Except Text (Option (Text × Bytes)) := do
  let item ← plainObject (some v) "keyring key"
  require (keyList item = js "current,kid,public_key") "keyring key fields mismatch"
  let kid ← textField (prop item "kid") isKid "keyring kid invalid"
  match prop item "current" with
  | some (.bool true) => do
      let publicKey ← textField (prop item "public_key") (fun _ => true) "keyring public_key invalid"
      require (kid ∉ taken) "duplicate current keyring kid"
      require (isBase64urlOf 43 publicKey) "keyring public_key invalid"
      return some (kid, base64urlDecode publicKey)
  | some (.bool false) => return none
  | _ => reject (js "keyring current invalid")

def parseKeys (taken : List (Text × Bytes)) : List Json → Except Text (List (Text × Bytes))
  | [] => .ok taken
  | v :: rest => do
      match ← parseKey v (taken.map (·.1)) with
      | none => parseKeys taken rest
      | some key => parseKeys (taken ++ [key]) rest

/-- The current keys, by their ids. -/
def parsePinnedMcpProjectionKeyring (raw : Text) : Except Text (List (Text × Bytes)) :=
  match Json.parse raw with
  | none => reject (js "pinned keyring JSON malformed")
  | some parsed => do
      let keyring ← plainObject (some parsed) "keyring"
      match prop keyring "keys" with
      | some (.arr items) => do
          require (keyList keyring = js "keys,schema_version" &&
            isNumber 1 (prop keyring "schema_version")) "pinned keyring schema invalid"
          let keys ← parseKeys [] items
          require (keys ≠ []) "pinned keyring has no current key"
          return keys
      | _ => reject (js "pinned keyring schema invalid")

/-! ## Verification -/

/-- The least of the four bounds on what is left of a projection. Differences
of safe integers are exact wherever they are below the first bound. -/
def remainingMs (claims : McpProjectionClaims) (wallNowMs sSlowMs : ℚ) : ℚ :=
  min maxLifetimeMs
    (min (claims.expiresAt - claims.issuedAt)
      (min (claims.expiresAt - wallNowMs - sSlowMs) (claims.leaseDeadline - wallNowMs - sSlowMs)))

def lookupKey (keys : List (Text × Bytes)) (kid : Text) : Except Text Bytes :=
  match keys.find? fun k => k.1 = kid with
  | some key => .ok key.2
  | none => reject (js "kid is stale or unknown")

def verifyMcpProjectionEnvelope (crypto : Crypto) (raw : RawEnvelope) (expectedNonce : Bytes)
    (expectedAudience pinnedKeyringJson : Text) (sSlow : Option ℚ) (wallNowMs monoNowMs : ℚ) :
    Except Text VerifiedMcpProjection := do
  let envelope ← parseStrictProjection crypto raw
  let claims := envelope.projection
  let nonce := base64urlDecode envelope.nonce
  require (nonce = expectedNonce) "nonce mismatch"
  let keys ← parsePinnedMcpProjectionKeyring pinnedKeyringJson
  let key ← lookupKey keys claims.kid
  let preimage ← projectionSigningPreimage nonce envelope.projectionJson
  require (crypto.verify key preimage (base64urlDecode envelope.signature))
    "signature verification failed"
  require (claims.agentAudience = expectedAudience) "agent_audience mismatch"
  let sSlowMs := sSlow.getD defaultSSlowMs
  require (isSafeInteger sSlowMs && decide (0 ≤ sSlowMs ∧ sSlowMs ≤ maxLifetimeMs))
    "local S_slow is invalid"
  require (isSafeInteger wallNowMs && isSafeInteger monoNowMs) "clock reading is ambiguous"
  let lifetime : ℚ := claims.expiresAt - claims.issuedAt
  require (isSafeInteger lifetime && decide (lifetime ≤ maxLifetimeMs))
    "projection lifetime exceeds five seconds"
  let remaining := remainingMs claims wallNowMs sSlowMs
  require (isSafeInteger remaining && decide (0 < remaining)) "projection lifetime is non-positive"
  require (isSafeInteger (monoNowMs + remaining)) "monotonic deadline overflow"
  return {
    claims := claims
    allowedServices := claims.mcpServices
    verifiedAtWallMs := wallNowMs
    verifiedAtMonoMs := monoNowMs
    monoDeadlineMs := monoNowMs + remaining
    sSlowMs := sSlowMs }

end Shizuha.McpMultiplexer
