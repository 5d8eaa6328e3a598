import AuthServer.Account.Password
import AuthServer.Oauth.Logout

/-!
# Administration of users, sessions, clients and consents

Every endpoint first requires a session of a user with the role `admin`.
-/

namespace AuthServer

open Handler

/-- A user as the admin endpoints show them. -/
structure UserSummary where
  id : String
  email : String
  username : String
  enabled : Bool
  emailVerified : Bool
  roles : List String
  deriving DecidableEq

/-- The responses of the admin endpoints. -/
inductive AdminResponse where
  | ok (summary : UserSummary)
  | created (summary : UserSummary)
  | noContent
  | badRequest (message : String)
  | unauthorized (message : String)
  | forbidden (message : String)
  | notFound (message : String)
  | conflict (message : String)
  | internalServerError (message : String)
  deriving DecidableEq

/-- The body of `PATCH /admin/users/{id}`. -/
structure UserUpdateRequest where
  firstName : Option String := none
  lastName : Option String := none
  enabled : Option Bool := none
  emailVerified : Option Bool := none
  newPassword : Option String := none
  deriving DecidableEq

/-- The body of `POST /admin/users`. -/
structure UserCreateRequest where
  email : Option String := none
  username : Option String := none
  password : Option String := none
  firstName : Option String := none
  lastName : Option String := none
  enabled : Option Bool := none
  emailVerified : Option Bool := none
  deriving DecidableEq

/-- The body of a client update, as far as it is read. -/
structure ClientRequest where
  clientSecret : Option String := none
  name : Option String := none
  clientType : Option String := none
  scopes : Option String := none
  grantTypes : Option String := none
  responseTypes : Option String := none
  pkceRequired : Option Bool := none
  enabled : Option Bool := none
  baseUrl : Option String := none
  description : Option String := none
  frontchannelLogoutUri : Option String := none
  backchannelLogoutUri : Option String := none
  deriving DecidableEq

/-- A client as the admin endpoints show it; a redirect URI is its id and its text. -/
structure ClientSummary where
  id : String
  clientId : String
  name : Option String
  clientType : Option String
  scopes : Option String
  grantTypes : Option String
  responseTypes : Option String
  pkceRequired : Bool
  enabled : Bool
  baseUrl : Option String
  description : Option String
  frontchannelLogoutUri : Option String
  backchannelLogoutUri : Option String
  redirectUris : List (String × String)
  deriving DecidableEq

def ClientSummary.fromClient (env : Env) (c : Client) : ClientSummary where
  id := env.showUuid c.id
  clientId := c.clientId
  name := c.name
  clientType := c.clientType
  scopes := c.scopes
  grantTypes := c.grantTypes
  responseTypes := c.responseTypes
  pkceRequired := c.pkceRequired
  enabled := c.enabled
  baseUrl := c.baseUrl
  description := c.description
  frontchannelLogoutUri := c.frontchannelLogoutUri
  backchannelLogoutUri := c.backchannelLogoutUri
  redirectUris := c.redirectUris.map fun r => (env.showUuid r.id, r.uri)

namespace AdminResource

variable (env : Env)

/-- The calling admin's session. A failed lookup counts as no session. -/
def requireAdmin (token : Option String) : Handler (Except AdminResponse SessionWithUser) := do
  match token with
  | none => return .error (.unauthorized "authentication required")
  | some token =>
    match ← attempt (SessionService.findActiveSession env token) with
    | .ok (some session) =>
      match ← attempt (RoleRepository.findEffectiveNamesByUserId session.session.userId) with
      | .error _ => return .error (.internalServerError "role lookup failed")
      | .ok roles =>
        if roles.contains "admin" then return .ok session
        return .error (.forbidden "forbidden")
    | _ => return .error (.unauthorized "authentication required")

/-- The rows of a new user, one statement after the other. -/
def insertAccount (body : UserCreateRequest) (email username password : String) :
    Handler User := do
  let at_ ← now
  let id ← newUuid
  let user : User :=
    { id, email, emailVerified := body.emailVerified.getD false, username
      firstName := body.firstName, lastName := body.lastName, enabled := body.enabled.getD true
      createdAt := at_, updatedAt := at_ }
  stmt (.insertUser user)
  let salt ← perform .salt
  let hashed := env.argon2Hash password salt
  let credentialId ← newUuid
  stmt (.insertCredential
    { id := credentialId, credentialType := "password", secretData := some hashed.secretData
      credentialData := some hashed.credentialData, createdAt := at_, updatedAt := at_
      userId := id })
  match ← query (.roleByName "user") with
  | none => pure ()
  | some (role : Role) => ignore (stmt (.insertUserRole ⟨id, role.id⟩))
  return user

def createUser (token : Option String) (body : UserCreateRequest) : Handler AdminResponse := do
  match ← requireAdmin env token with
  | .error r => return r
  | .ok _ =>
    let email := Text.trim (body.email.getD "")
    let username := Text.trim (body.username.getD "")
    let password := body.password.getD ""
    if email = "" ∨ username = "" ∨ password.utf8ByteSize < 8 then
      return .badRequest "email, username, password (>=8 chars) are required"
    let normalized := env.toLowercase email
    match ← UserRepository.findByEmail env normalized with
    | some _ => return .conflict "email already registered"
    | none =>
      match ← query (.userByUsername username) with
      | some (_ : User) => return .conflict "username already taken"
      | none =>
        let user ← insertAccount env body normalized username password
        let roles : List Role ← query (.rolesByUser user.id)
        return .created ⟨env.showUuid user.id, user.email, user.username, user.enabled,
          user.emailVerified, roles.map Role.name⟩

/-- The edited user row. -/
def applyUpdate (user : User) (body : UserUpdateRequest) : User :=
  { user with
    firstName := body.firstName.or user.firstName
    lastName := body.lastName.or user.lastName
    enabled := body.enabled.getD user.enabled
    emailVerified := body.emailVerified.getD user.emailVerified }

/-- Disabling the user or withdrawing the verification of their email ends their sessions. -/
def kicksSessions (user : User) (body : UserUpdateRequest) : Bool :=
  body.enabled == some false || (user.emailVerified && body.emailVerified == some false)

/-- Verifying the email only refreshes the cached snapshots. -/
def refreshesCache (user : User) (body : UserUpdateRequest) : Bool :=
  !user.emailVerified && body.emailVerified == some true

/-- The sessions are ended before the row is changed, and the outcome of ending them is
dropped. -/
def updateUserRow (user : User) (body : UserUpdateRequest) : Handler User := do
  let edited := applyUpdate user body
  if kicksSessions user body then ignore (SessionRepository.deleteAllByUserId env user.id)
  let at_ ← now
  let edited := { edited with updatedAt := at_ }
  let _ ← stmt (.updateUser edited)
  if !kicksSessions user body && refreshesCache user body then
    ignore (SessionRepository.invalidateCacheByUserId env user.id)
  return edited

/-- The new password of an update, if one is given. -/
def newPassword (body : UserUpdateRequest) : Option String := body.newPassword.filter fun p => p != ""

def updateUser (token : Option String) (path : String) (body : UserUpdateRequest) :
    Handler AdminResponse := do
  match ← requireAdmin env token with
  | .error r => return r
  | .ok _ =>
    match env.parseUuid path with
    | none => return .badRequest "invalid userId"
    | some userId =>
      match ← query (.userById userId) with
      | none => return .notFound "user not found"
      | some user =>
        let edited ← updateUserRow env user body
        match newPassword body with
        | none => pure ()
        | some np =>
          if np.utf8ByteSize < 8 then
            return .badRequest "password must be at least 8 characters"
          PasswordFlow.rotatePassword env userId np
          ignore (SessionRepository.deleteAllByUserId env userId)
        let roles : List Role ← query (.rolesByUser userId)
        return .ok ⟨env.showUuid edited.id, edited.email, edited.username, edited.enabled,
          edited.emailVerified, roles.map Role.name⟩

def deleteUser (token : Option String) (path : String) : Handler AdminResponse := do
  match ← requireAdmin env token with
  | .error r => return r
  | .ok calling =>
    match env.parseUuid path with
    | none => return .badRequest "invalid userId"
    | some userId =>
      if calling.session.userId = userId then
        return .badRequest "cannot delete your own account"
      ignore (SessionRepository.deleteAllByUserId env userId)
      let _ ← stmt (.deleteUser userId)
      return .noContent

/-- The refresh tokens are revoked first; the outcome of deleting the session is dropped. -/
def revokeSession (token : Option String) (path : String) : Handler AdminResponse := do
  match ← requireAdmin env token with
  | .error r => return r
  | .ok _ =>
    match env.parseUuid path with
    | none => return .badRequest "invalid id"
    | some id =>
      LogoutFlow.terminate env id
      return .noContent

/-- The edited client. -/
def applyClientUpdate (client : Client) (body : ClientRequest) (secret : Option String) : Client :=
  { client with
    clientSecret := secret.or client.clientSecret
    name := body.name.or client.name
    clientType := body.clientType.or client.clientType
    scopes := body.scopes.or client.scopes
    grantTypes := body.grantTypes.or client.grantTypes
    responseTypes := body.responseTypes.or client.responseTypes
    pkceRequired := body.pkceRequired.getD client.pkceRequired
    enabled := body.enabled.getD client.enabled
    baseUrl := body.baseUrl.or client.baseUrl
    description := body.description.or client.description
    frontchannelLogoutUri := body.frontchannelLogoutUri.or client.frontchannelLogoutUri
    backchannelLogoutUri := body.backchannelLogoutUri.or client.backchannelLogoutUri }

/-- The hash of a new secret, if one is given. -/
def newSecret (body : ClientRequest) : Handler (Option String) := do
  match body.clientSecret.filter fun s => s != "" with
  | none => return none
  | some s =>
    let salt ← perform .salt
    return some (ClientSecretHasher.hash env s salt)

def updateClient (token : Option String) (path : String) (body : ClientRequest) :
    Handler (Except AdminResponse ClientSummary) := do
  match ← requireAdmin env token with
  | .error r => return .error r
  | .ok _ =>
    match env.parseUuid path with
    | none => return .error (.badRequest "invalid id")
    | some id =>
      match ← ClientRepository.findById id with
      | none => return .error (.notFound "client not found")
      | some existing =>
        let secret ← newSecret env body
        let at_ ← now
        let edited := { applyClientUpdate existing body secret with updatedAt := at_ }
        let _ ← ClientRepository.update edited.toClientRow
        let fresh ← ClientRepository.findById id
        return .ok (.fromClient env (fresh.getD edited))

/-- The consent is deleted whether or not it exists. -/
def revokeConsent (token : Option String) (path : String) : Handler AdminResponse := do
  match ← requireAdmin env token with
  | .error r => return r
  | .ok _ =>
    match env.parseUuid path with
    | none => return .badRequest "invalid id"
    | some id =>
      let _ ← stmt (.deleteConsent id)
      return .noContent

end AdminResource

end AuthServer
