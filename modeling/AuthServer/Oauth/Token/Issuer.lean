import AuthServer.Oauth.Protocol
import AuthServer.Store.World

/-!
# Issuing tokens

Signed tokens are kept as their header and claims; the signature is not modelled.
The new refresh token is inserted in the transaction the caller has opened.
-/

namespace AuthServer

open Handler Storage

/-- A signed token, as far as its holders can read it. -/
structure Jwt where
  typ : String
  kid : String
  claims : JsonMap

/-- The answer of a successful grant. -/
structure TokenPayload where
  tokenType : String
  expiresIn : Nat
  accessToken : Jwt
  refreshToken : Option String
  scope : String
  idToken : Option Jwt

namespace RoleRepository

/-- One role and its ancestors, each role visited once. The fuel bounds the length of a chain
of parents. -/
def walkAncestors (all : List Role) :
    Nat → Role → List String × List Uuid → List String × List Uuid
  | 0, _, acc => acc
  | fuel + 1, role, (sink, visited) =>
    if visited.contains role.id then (sink, visited)
    else
      let sink := if sink.contains role.name then sink else sink ++ [role.name]
      let visited := role.id :: visited
      match role.parentId with
      | none => (sink, visited)
      | some parentId =>
        match all.find? fun r => r.id == parentId with
        | none => (sink, visited)
        | some parent => walkAncestors all fuel parent (sink, visited)

/-- Assigned roles and all their ancestors. A chain without repetition has at most one role
that is not in the table, the first. -/
def effectiveNames (direct all : List Role) : List String :=
  (direct.foldl (fun acc r => walkAncestors all (all.length + 1) r acc) ([], [])).1

def findEffectiveNamesByUserId (userId : Uuid) : Handler (List String) := do
  let direct ← query (.rolesByUser userId)
  let all ← query .allRoles
  return effectiveNames direct all

end RoleRepository

namespace JwtSigner

variable (env : Env)

/-- `now_seconds`: whole seconds since the epoch, zero before it. -/
def nowSeconds : Handler Int := do
  let at_ ← now
  return max 0 (numSeconds at_)

def baseClaims (subject audience : String) (ttl : Nat) (extra : JsonMap) : Handler JsonMap := do
  let at_ ← nowSeconds
  let jti ← newUuid
  let base : JsonMap :=
    [("iss", .str env.issuerUrl), ("aud", .str audience), ("sub", .str subject),
      ("jti", .str (env.showUuid jti)), ("exp", .num (at_ + ttl))]
  return base.setAll extra

def signedWithType (claims : JsonMap) (typ : Option String) : Handler Jwt := do
  let kid ← perform .activeKid
  return ⟨typ.getD "JWT", kid, claims⟩

def signAccessToken (subject audience : String) (extra : JsonMap) : Handler Jwt := do
  let claims ← baseClaims env subject audience env.accessTtlSeconds extra
  signedWithType claims (some "at+jwt")

/-- A nonce is only set when it is not empty; extra claims win over the base. -/
def signIdToken (subject audience : String) (nonce : Option String) (authTime : Int)
    (extra : JsonMap) : Handler Jwt := do
  let claims ← baseClaims env subject audience env.idTtlSeconds []
  let claims := claims.set "auth_time" (.num authTime)
  let claims := match nonce with
    | some n => if n = "" then claims else claims.set "nonce" (.str n)
    | none => claims
  signedWithType (claims.setAll extra) none

end JwtSigner

namespace TokenIssuer

variable (env : Env)

def refreshTokenTtlDays : Int := 30

/-- `names` sorted, as the source sorts them for a stable token. -/
def sortedNames (names : List String) : List String := names.insertionSort fun a b => a ≤ b

def buildAccessTokenClaims (user : User) (client : Client) (session : UserSession)
    (roles : List String) (scope : Option String) (request : ClaimsRequest) : JsonMap :=
  let claims : JsonMap :=
    [("client_id", .str client.clientId), ("email", .str user.email),
      ("username", .str user.username), ("sid", .str (env.showUuid session.id)),
      ("roles", .arr (roles.map .str)), ("scope", .str (scope.getD ""))]
  if request.userinfoClaims.isEmpty then claims
  else claims.set "claims_userinfo" (.arr ((sortedNames request.userinfoClaims).map .str))

def buildIdTokenClaims (user : User) (session : UserSession) (scopes : List String)
    (request : ClaimsRequest) : JsonMap :=
  let asked := fun name => request.idTokenClaims.contains name
  let profile := scopes.contains "profile"
  let claim := fun (present : Bool) (name : String) (value : Option Json) =>
    if present then (value.map fun v => (name, v)).toList else []
  [("sid", .str (env.showUuid session.id))] ++
    claim (scopes.contains "email" || asked "email") "email" (some (.str user.email)) ++
    claim (scopes.contains "email" || asked "email_verified") "email_verified"
      (some (.bool user.emailVerified)) ++
    claim (profile || asked "preferred_username") "preferred_username"
      (some (.str user.username)) ++
    claim (profile || asked "given_name") "given_name" (user.firstName.map .str) ++
    claim (profile || asked "family_name") "family_name" (user.lastName.map .str) ++
    claim (profile || asked "name") "name"
      (user.firstName.bind fun f => user.lastName.map fun l => .str (f ++ " " ++ l))

/-- `client_credentials`: an access token only. -/
def issueForClient (client : Client) (scope : Option String) : Handler TokenPayload := do
  let claims : JsonMap := [("scope", .str (scope.getD "")), ("client_id", .str client.clientId)]
  let accessToken ← JwtSigner.signAccessToken env client.clientId client.clientId claims
  return ⟨"Bearer", env.accessTtlSeconds, accessToken, none, scope.getD "", none⟩

/-- Access token, refresh token and, for scope `openid`, an id token. -/
def issue (user : User) (client : Client) (session : UserSession)
    (scope nonce claimsRequestedJson : Option String) : Handler TokenPayload := do
  let roles ← RoleRepository.findEffectiveNamesByUserId user.id
  let request := ClaimsRequest.parse env claimsRequestedJson
  let accessToken ← JwtSigner.signAccessToken env (env.showUuid user.id) client.clientId
    (buildAccessTokenClaims env user client session roles scope request)
  let refreshTokenRaw ← urlSafe 48
  let at_ ← now
  let id ← newUuid
  tx (.insertRefreshToken
    { id, userId := user.id, clientId := client.id, sessionId := session.id
      tokenHash := env.hmac refreshTokenRaw
      expiresAt := some (at_ + seconds (refreshTokenTtlDays * 86400))
      revoked := false, createdAt := at_ })
  if (Scopes.parse scope).contains "openid" then
    let idToken ← JwtSigner.signIdToken env (env.showUuid user.id) client.clientId nonce
      (session.createdAt.fdiv 1000000)
      (buildIdTokenClaims env user session (Scopes.parse scope) request)
    return ⟨"Bearer", env.accessTtlSeconds, accessToken, some refreshTokenRaw, scope.getD "",
      some idToken⟩
  return ⟨"Bearer", env.accessTtlSeconds, accessToken, some refreshTokenRaw, scope.getD "", none⟩

end TokenIssuer

end AuthServer
