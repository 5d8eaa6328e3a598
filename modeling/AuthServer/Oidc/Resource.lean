import AuthServer.Crypto.Jwt
import AuthServer.Oauth.Token.Issuer
import AuthServer.Session.Repository

/-!
# The userinfo endpoint

A request presents an access token; the answer is about the user whose id is the
token's subject. A token with a session id is only good as long as the session is.

## Implementation notes

A presented token is one that was signed by a key of the server, or it is refused
whatever its content. Which keys are known at the time of a request is a parameter of
the request: how the set of keys changes is modelled with the keys.
-/

namespace AuthServer

open Handler

/-- The token in a request. -/
inductive BearerToken where
  | absent
  /-- No token by its form, or not signed by a key of the server. -/
  | unverified
  | signed (jwt : Jwt)

namespace JwtValidator

variable (env : Env)

def isAccessTokenType (token : Jwt) : Bool := Text.eqIgnoreAsciiCase token.typ "at+jwt"

/-- The options of `validate`: expiry with the default leeway, no audience. -/
def validation : SignedJwt.Validation :=
  { issuer := env.issuerUrl, audience := none, validateExp := true, leeway := 60 }

/-- The claims of a token whose key is known, if they are accepted at the time of the call. -/
def validate (keys : String → Bool) (token : Jwt) : Handler (Option JsonMap) := do
  if !keys token.kid then return none
  let at_ ← now
  if (validation env).accepts (numSeconds at_) token.claims then return some token.claims
  return none

end JwtValidator

/-- The answer of the userinfo endpoint. -/
inductive UserinfoResponse where
  | ok (info : JsonMap)
  | invalidToken
  | insufficientScope

namespace OidcResource

variable (env : Env)

/-- The names that a token asks for at this endpoint. -/
def requestedClaims (claims : JsonMap) : List String :=
  match claims.get "claims_userinfo" with
  | some (.arr items) => items.filterMap Json.asStr
  | _ => []

/-- The claims about a user that the scopes and the requested names admit. -/
def userinfoClaims (user : User) (scopeSet requested : List String) : JsonMap :=
  let claim := fun (scope name : String) (value : Option Json) =>
    if scopeSet.contains scope || requested.contains name then
      (value.map fun v => (name, v)).toList
    else []
  [("sub", .str (env.showUuid user.id))] ++
    claim "email" "email" (some (.str user.email)) ++
    claim "email" "email_verified" (some (.bool user.emailVerified)) ++
    claim "profile" "preferred_username" (some (.str user.username)) ++
    claim "profile" "given_name" (user.firstName.map .str) ++
    claim "profile" "family_name" (user.lastName.map .str) ++
    claim "profile" "name"
      (user.firstName.bind fun f => user.lastName.map fun l => .str (f ++ " " ++ l))

/-- A token without a session id has no session to check. -/
def sessionBound (claims : JsonMap) : Handler Bool :=
  match claims.get "sid" with
  | none | some .null => return true
  | some value =>
    match value.asStr.bind env.parseUuid with
    | none => return false
    | some sid => do
      let session ← SessionRepository.findById sid
      return session.isSome

/-- The answer for a token with valid claims. -/
def answer (claims : JsonMap) : Handler UserinfoResponse := do
  let scopeSet := Scopes.parse (some (((claims.get "scope").bind Json.asStr).getD ""))
  if !scopeSet.contains "openid" then return .insufficientScope
  match ((claims.get "sub").bind Json.asStr).bind env.parseUuid with
  | none => return .invalidToken
  | some userId =>
    let found ← query (.userById userId)
    match found.filter User.enabled with
    | none => return .invalidToken
    | some user =>
      if ← sessionBound env claims then
        return .ok (userinfoClaims env user scopeSet (requestedClaims claims))
      return .invalidToken

def userinfo (keys : String → Bool) (token : BearerToken) : Handler UserinfoResponse := do
  match token with
  | .absent | .unverified => return .invalidToken
  | .signed jwt =>
    if !JwtValidator.isAccessTokenType jwt then return .invalidToken
    match ← JwtValidator.validate env keys jwt with
    | none => return .invalidToken
    | some claims => answer env claims

end OidcResource

end AuthServer
