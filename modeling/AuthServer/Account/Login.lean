import AuthServer.Oauth.Token.Issuer
import AuthServer.Session.Service

/-!
# Login
-/

namespace AuthServer

open Handler

namespace UserRepository

variable (env : Env)

/-- Lookup by email without case. -/
def findByEmail (email : String) : Handler (Option User) := do
  let normalized := env.toLowercase (Text.trim email)
  if normalized = "" then return none
  query (.userByEmail normalized)

/-- An identifier with an `@` is an email; any other is a username first. -/
def findByIdentifier (identifier : String) : Handler (Option User) := do
  if Text.containsChar identifier '@' then findByEmail env identifier
  else
    match ← query (.userByUsername identifier) with
    | some u => return some u
    | none => findByEmail env identifier

end UserRepository

namespace LoginService

variable (env : Env)

/-- A credential is verified even when there is none, against a dummy. -/
def authenticate (identifier rawPassword : Option String) : Handler (Option User) := do
  match (identifier.map Text.trim).filter fun s => s != "",
      rawPassword.filter fun p => p != "" with
  | some identifier, some rawPassword =>
    let user ← UserRepository.findByIdentifier env identifier
    let credential ← match user with
      | some u => query (.credentialByUserAndType u.id "password")
      | none => pure none
    match user, credential with
    | some u, some c =>
      let ok := env.argon2Verify rawPassword (c.secretData.getD "") (c.credentialData.getD "")
      if ok && u.enabled && u.emailVerified then return some u
      return none
    | _, _ =>
      -- the dummy verification takes time but decides nothing
      let _ := env.argon2Verify rawPassword env.dummyHash.secretData
        env.dummyHash.credentialData
      return none
  | _, _ => return none

end LoginService

/-- The answer of a successful login. -/
structure LoginResponse where
  session : UserSession
  user : User
  roles : List String
  deriving DecidableEq

/-- Login: check the credentials, then create a session. -/
def login (env : Env) (identifier password ipAddress userAgent : Option String) :
    Handler (Option LoginResponse) := do
  match ← LoginService.authenticate env identifier password with
  | none => return none
  | some user =>
    let session ← SessionService.createSession env user.id user.email user.username
      user.emailVerified user.enabled ipAddress userAgent
    let roles ← RoleRepository.findEffectiveNamesByUserId user.id
    return some ⟨session, user, roles⟩

end AuthServer
