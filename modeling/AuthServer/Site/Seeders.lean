import AuthServer.Site.Commands

/-!
# The seeders

What a process does before it serves requests: the roles `user` and `admin`, the first admin
account, and the clients `web-app` and `service-client`. Each seeder takes the bootstrap lock
in a transaction of its own and looks before it writes.
-/

namespace AuthServer

open Handler

namespace Bootstrap

variable (env : Env)

/-- `lock::acquire` in a transaction that is committed at once. -/
def acquireLock : SiteHandler Unit :=
  SiteHandler.role (RoleHandler.transaction (RoleHandler.sql .advisoryLock))

def ensureCoreRoles : SiteHandler Unit := SiteHandler.role RoleBootstrap.ensureCoreRoles

def createAdminUser : Handler User := do
  let at_ ← now
  let id ← newUuid
  let user : User :=
    { id, email := "admin@gmail.com", emailVerified := true, username := "admin"
      firstName := some "Admin", lastName := some "User", enabled := true, createdAt := at_
      updatedAt := at_ }
  stmt (.insertUser user)
  let salt ← perform .salt
  let hashed := env.argon2Hash "admin123" salt
  let credentialId ← newUuid
  stmt (.insertCredential
    { id := credentialId, credentialType := "password", secretData := some hashed.secretData
      credentialData := some hashed.credentialData, createdAt := at_, updatedAt := at_
      userId := id })
  return user

/-- The account that is there, or a new one. -/
def adminUser : Handler User := do
  match ← UserRepository.findByEmail env "admin@gmail.com" with
  | some u => return u
  | none => createAdminUser env

def assignAdminRole (userId : Uuid) : SiteHandler Unit := do
  match ← SiteHandler.server (query (.roleByName "admin")) with
  | none => throw (.other "admin role missing after bootstrap")
  | some (role : Role) =>
    let assigned ← SiteHandler.sql (.isAssigned userId role.id)
    if !(assigned : Bool) then
      SiteHandler.server (stmt (.insertUserRole ⟨userId, role.id⟩))

def ensureAdminUser : SiteHandler Unit := do
  acquireLock
  let user ← SiteHandler.server (adminUser env)
  assignAdminRole user.id

/-- `ClientRepository::persist` of a client with its redirect URIs. -/
def persistClient (client : ClientRow) (uris : List RedirectUri) : SiteHandler Unit := do
  SiteHandler.sql (.persistClient client uris)
  SiteHandler.server (ClientRepository.invalidate client.clientId)

/-- The row of `web-app`. -/
def webApp (id : Uuid) (at_ : NaiveDateTime) : ClientRow where
  id
  clientId := "web-app"
  clientSecret := none
  name := some "Web App"
  clientType := some "public"
  grantTypes := some "authorization_code refresh_token"
  responseTypes := some "code"
  scopes := some "openid profile email"
  pkceRequired := true
  enabled := true
  baseUrl := some "http://localhost:3000"
  description := some "Bootstrap public client for local OAuth testing"
  accessTokenTtl := some 900
  refreshTokenTtl := some 2592000
  frontchannelLogoutUri := none
  backchannelLogoutUri := none
  createdAt := at_
  updatedAt := at_

/-- The row of `service-client`. -/
def serviceClient (id : Uuid) (secret : String) (at_ : NaiveDateTime) : ClientRow where
  id
  clientId := "service-client"
  clientSecret := some secret
  name := some "Service Client"
  clientType := some "confidential"
  grantTypes := some "client_credentials"
  responseTypes := some ""
  scopes := some "openid profile email"
  pkceRequired := false
  enabled := true
  baseUrl := none
  description := some "Confidential client for machine-to-machine (client_credentials)"
  accessTokenTtl := some 900
  refreshTokenTtl := some 0
  frontchannelLogoutUri := none
  backchannelLogoutUri := none
  createdAt := at_
  updatedAt := at_

def ensureWebApp : SiteHandler Unit := do
  match ← SiteHandler.server (ClientRepository.findByClientId env "web-app") with
  | some _ => return ()
  | none =>
    let at_ ← SiteHandler.server now
    let id ← SiteHandler.server newUuid
    let uriId ← SiteHandler.server newUuid
    persistClient (webApp id at_)
      [{ id := uriId, clientId := id, uri := "http://localhost:3000/callback", createdAt := at_ }]

def serviceClientBootstrapSecret : String := "service-secret-change-me"

/-- A client that still has the bootstrap secret as plain text gets its hash. -/
def migrateSecret (existing : Client) : SiteHandler Unit := do
  if existing.clientSecret = some serviceClientBootstrapSecret then
    let salt ← SiteHandler.server (perform .salt)
    SiteHandler.sql (.setClientSecret existing.id
      (ClientSecretHasher.hash env serviceClientBootstrapSecret salt))
    SiteHandler.server (ClientRepository.invalidate existing.clientId)

def ensureServiceClient : SiteHandler Unit := do
  match ← SiteHandler.server (ClientRepository.findByClientId env "service-client") with
  | some existing => migrateSecret env existing
  | none =>
    let at_ ← SiteHandler.server now
    let id ← SiteHandler.server newUuid
    let salt ← SiteHandler.server (perform .salt)
    persistClient
      (serviceClient id (ClientSecretHasher.hash env serviceClientBootstrapSecret salt) at_) []

def ensureBootstrapClients : SiteHandler Unit := do
  acquireLock
  ensureWebApp env
  ensureServiceClient env

/-- The seeders in the order of `main`. -/
def start : SiteHandler Unit := do
  ensureCoreRoles
  ensureAdminUser env
  ensureBootstrapClients env

end Bootstrap

end AuthServer
