import AuthServer.Crypto.RsaKeys

/-!
# Signing and validating tokens

`JwtSigner` and `JwtValidator` over the key provider, and the key set published for clients. A
signature is kept as the private key that made it: RS256 verifies with a public key exactly what
the matching private key has signed.

## Implementation notes

A token is its parsed header, claims and signature; texts that do not parse as a token are refused
before any key is looked up and are left out. The claim checks are those of the `jsonwebtoken`
crate with the options the validator sets.
-/

namespace AuthServer

open Storage Concurrent

/-- The algorithm of a token header. -/
inductive Algorithm where
  | rs256
  | other (name : String)
  deriving DecidableEq

/-- A token: header, claims, and the key that made its signature if any key did. -/
structure SignedJwt (L : RsaLib) where
  alg : Algorithm
  typ : Option String
  kid : Option String
  claims : JsonMap
  signature : Option L.Private

namespace SignedJwt

open KeyHandler

variable {L : RsaLib}

namespace JwtSigner

variable (env : Env)

def nowSeconds : KeyHandler L Int := do
  let at_ : NaiveDateTime ← perform .now
  return max 0 (numSeconds at_)

def baseClaims (subject audience : String) (ttl : Nat) (extra : JsonMap) : KeyHandler L JsonMap := do
  let at_ ← nowSeconds
  let jti : Uuid ← perform .newUuid
  let base : JsonMap :=
    [("iss", .str env.issuerUrl), ("aud", .str audience), ("sub", .str subject),
      ("jti", .str (env.showUuid jti)), ("exp", .num (at_ + ttl))]
  return base.setAll extra

def signedWithType (claims : JsonMap) (typ : Option String) : KeyHandler L (SignedJwt L) := do
  let (kid, key) ← RsaKeyProvider.activeEncodingKey
  return ⟨.rs256, some (typ.getD "JWT"), some kid, claims, some key⟩

def signAccessToken (subject audience : String) (extra : JsonMap) : KeyHandler L (SignedJwt L) := do
  let claims ← baseClaims env subject audience env.accessTtlSeconds extra
  signedWithType claims (some "at+jwt")

/-- What an id token adds to the base claims: extra claims win over `auth_time` and `nonce`. -/
def idClaims (claims : JsonMap) (nonce : Option String) (authTime : Int) (extra : JsonMap) : JsonMap :=
  let claims := claims.set "auth_time" (.num authTime)
  let claims := match nonce with
    | some n => if n = "" then claims else claims.set "nonce" (.str n)
    | none => claims
  claims.setAll extra

def signIdToken (subject audience : String) (nonce : Option String) (authTime : Int)
    (extra : JsonMap) : KeyHandler L (SignedJwt L) := do
  let claims ← baseClaims env subject audience env.idTtlSeconds []
  signedWithType (idClaims claims nonce authTime extra) none

end JwtSigner

/-- `Validation`, with the options the validator sets. -/
structure Validation where
  issuer : String
  audience : Option String
  validateExp : Bool
  leeway : Int

namespace Validation

/-- A time claim that parses. -/
def time : Option Json → Option Int
  | some (.num n) => if 0 ≤ n then some n else none
  | _ => none

/-- The text of an array element. -/
def text? : Json → Option String
  | .str s => some s
  | _ => none

/-- A claim that is one text or several. -/
def texts : Option Json → Option (List String)
  | some (.str s) => some [s]
  | some (.arr items) => items.mapM text?
  | _ => none

/-- `iss` and `exp` are required; `nbf` and, where one is expected, `aud` are checked when they are
there. -/
def accepts (v : Validation) (now : Int) (claims : JsonMap) : Bool :=
  match time (claims.get "exp"), texts (claims.get "iss") with
  | some exp, some issuers =>
    !(v.validateExp && decide (exp < now - v.leeway)) &&
    !((time (claims.get "nbf")).any fun nbf => decide (now + v.leeway < nbf)) &&
    issuers.contains v.issuer &&
    (match v.audience, texts (claims.get "aud") with
      | some aud, some auds => auds.contains aud
      | _, _ => true)
  | _, _ => false

end Validation

/-- `decode`: the signature first, then the claims. -/
def decode (token : SignedJwt L) (key : L.Public) (v : Validation) (now : Int) : Option JsonMap :=
  if token.signature.map L.publicOf = some key ∧ v.accepts now token.claims = true then
    some token.claims
  else none

namespace JwtValidator

variable (env : Env)

def validateInternal (token : SignedJwt L) (expectedAudience : Option String)
    (allowExpired : Bool) : KeyHandler L (Option JsonMap) := do
  if token.alg ≠ .rs256 then
    return none
  match ← RsaKeyProvider.decodingKeyByKid token.kid with
  | none => return none
  | some key =>
    let at_ : NaiveDateTime ← perform .now
    let validation : Validation :=
      { issuer := env.issuerUrl, audience := expectedAudience
        validateExp := !allowExpired, leeway := if allowExpired then 0 else 60 }
    return token.decode key validation (numSeconds at_)

def validate (token : SignedJwt L) : KeyHandler L (Option JsonMap) :=
  validateInternal env token none false

def validateAllowExpired (token : SignedJwt L) : KeyHandler L (Option JsonMap) :=
  validateInternal env token none true

end JwtValidator

/-- The loop of `jwks`: a key that disappears in between is left out. -/
def jwksEntries : List (String × L.Public) → KeyHandler L (List (String × L.Public))
  | [] => return []
  | entry :: rest => do
    let found : Option L.Public ← perform (.publicKey entry.1)
    let published ← jwksEntries rest
    return found.toList.map (fun key => (entry.1, key)) ++ published

/-- The published key set: kids with the keys whose modulus and exponent are shown. -/
def jwks : KeyHandler L (List (String × L.Public)) := do
  let entries : List (String × L.Public) ← perform .allPublicKeys
  jwksEntries entries

end SignedJwt

/-- The calls on the keys. -/
inductive KeyCall (L : RsaLib) where
  | restart
  | rotate
  | retire (kid : String)
  | signAccessToken (subject audience : String) (extra : JsonMap)
  | signIdToken (subject audience : String) (nonce : Option String) (authTime : Int)
      (extra : JsonMap)
  | validate (token : SignedJwt L)
  | validateAllowExpired (token : SignedJwt L)
  | jwks

/-- What a call returns. -/
def KeyCall.Answer {L : RsaLib} : KeyCall L → Type
  | .restart => Except String Unit
  | .rotate => String
  | .retire _ => Except String Bool
  | .signAccessToken _ _ _ | .signIdToken _ _ _ _ _ => SignedJwt L
  | .validate _ | .validateAllowExpired _ => Option JsonMap
  | .jwks => List (String × L.Public)

/-- A call returns or panics. -/
abbrev KeyCall.Ret {L : RsaLib} (call : KeyCall L) : Type := Except String call.Answer

open KeyHandler in
/-- The program of a call: all but a restart run in the process that is up. -/
def KeyCall.program {L : RsaLib} (env : Env) : (call : KeyCall L) → KeyHandler L call.Answer
  | .restart => perform .init
  | .rotate => perform .enter >>= fun _ => RsaKeyProvider.rotate
  | .retire kid => perform .enter >>= fun _ => RsaKeyProvider.retire kid
  | .signAccessToken subject audience extra =>
    perform .enter >>= fun _ => SignedJwt.JwtSigner.signAccessToken env subject audience extra
  | .signIdToken subject audience nonce authTime extra =>
    perform .enter >>= fun _ =>
      SignedJwt.JwtSigner.signIdToken env subject audience nonce authTime extra
  | .validate token => perform .enter >>= fun _ => SignedJwt.JwtValidator.validate env token
  | .validateAllowExpired token =>
    perform .enter >>= fun _ => SignedJwt.JwtValidator.validateAllowExpired env token
  | .jwks => perform .enter >>= fun _ => SignedJwt.jwks

def keyServer (L : RsaLib) (env : Env) :
    Server (KeyRes L) (KeyWorld L) (KeyChoice L) (KeyCall.Ret (L := L)) where
  exec := KeyWorld.exec
  program call := (call.program env).run

/-- Configurations of the key server. -/
abbrev KeyConfig (L : RsaLib) := Config (KeyRes L) (KeyWorld L) (KeyCall.Ret (L := L))

end AuthServer
