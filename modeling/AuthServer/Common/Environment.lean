import AuthServer.Common.Text

/-!
# What the server takes from libraries and configuration

Cryptographic primitives, codecs and configuration values are parameters of the
model. The programs never depend on how a hash is computed; statements that need a
property of one, such as the absence of collisions, state it as a hypothesis.
-/

namespace AuthServer

/-- `argon2::Hashed`: the two JSON texts of a stored password. -/
structure Hashed where
  secretData : String
  credentialData : String
  deriving DecidableEq

/-- The claims of a validated JWT that a caller reads. -/
structure JwtClaims where
  sub : Option String
  sid : Option String
  aud : Option String
  deriving DecidableEq

/-- `RateLimitConfig`: how many requests of a kind one key may make in a window of seconds, with
the defaults of the source. -/
structure RateLimitConfig where
  loginEmailMax : Nat := 5
  loginEmailWindow : Nat := 900
  loginIpMax : Nat := 20
  loginIpWindow : Nat := 900
  signupIpMax : Nat := 3
  signupIpWindow : Nat := 3600
  verifyEmailIpMax : Nat := 10
  verifyEmailIpWindow : Nat := 60
  deriving DecidableEq

/-- Library functions and configuration. -/
structure Env where
  /-- `sha256::base64_url`. -/
  sha256 : String → String
  /-- `HmacSha256::compute` under the configured key. -/
  hmac : String → String
  /-- `argon2::hash`, with the drawn salt as second argument. -/
  argon2Hash : String → String → Hashed
  /-- `argon2::verify`. -/
  argon2Verify : String → String → String → Bool
  /-- The hash a login is verified against when there is no credential. -/
  dummyHash : Hashed
  /-- `serde_json::from_str`. -/
  parseJson : String → Option Json
  /-- `Uuid::to_string` and `Uuid::parse_str`. -/
  showUuid : Uuid → String
  parseUuid : String → Option Uuid
  /-- `NaiveDateTime::format` and `parse_from_str` with the format of the device store. -/
  showDateTime : NaiveDateTime → String
  parseDateTime : String → Option NaiveDateTime
  /-- `str::to_lowercase` and `str::to_uppercase`. -/
  toLowercase : String → String
  toUppercase : String → String
  /-- `LOWER` of Postgres. -/
  sqlLower : String → String
  /-- `JwtValidator::validate_allow_expired`. -/
  validateAllowExpired : String → Option JwtClaims
  issuerUrl : String
  accessTtlSeconds : Nat
  idTtlSeconds : Nat
  clientCacheTtlSeconds : Nat
  pendingTtlSeconds : Nat
  ratelimit : RateLimitConfig := {}

end AuthServer
