import AuthServer.Common.Text
import AuthServer.Storage.Table

/-!
# Rows of the Postgres tables

The columns of each table of the migrations, with the PRIMARY KEY and UNIQUE
constraints of the table as its clash relation.
-/

namespace AuthServer

open Storage

/-- A row of `users`. -/
structure User where
  id : Uuid
  email : String
  emailVerified : Bool
  username : String
  firstName : Option String
  lastName : Option String
  enabled : Bool
  createdAt : NaiveDateTime
  updatedAt : NaiveDateTime
  deriving DecidableEq

instance : Keyed User where
  clash a b := decide (a.id = b.id ∨ a.email = b.email ∨ a.username = b.username)
  clash_self _ := by simp
  clash_symm _ _ := by simp only [eq_comm]

/-- A row of `credentials`; the source's `credential_type` is the column `type`. -/
structure Credential where
  id : Uuid
  credentialType : String
  secretData : Option String
  credentialData : Option String
  createdAt : NaiveDateTime
  updatedAt : NaiveDateTime
  userId : Uuid
  deriving DecidableEq

instance : Keyed Credential where
  clash a b := decide (a.id = b.id)
  clash_self _ := by simp
  clash_symm _ _ := by simp only [eq_comm]

/-- A row of `user_sessions`. -/
structure UserSession where
  id : Uuid
  userId : Uuid
  sessionToken : String
  ipAddress : Option String
  userAgent : Option String
  expiresAt : Option NaiveDateTime
  lastAccessedAt : Option NaiveDateTime
  createdAt : NaiveDateTime
  deriving DecidableEq

instance : Keyed UserSession where
  clash a b := decide (a.id = b.id ∨ a.sessionToken = b.sessionToken)
  clash_self _ := by simp
  clash_symm _ _ := by simp only [eq_comm]

/-- A session joined with the user it belongs to. -/
structure SessionWithUser where
  session : UserSession
  userEmail : String
  userUsername : String
  userEmailVerified : Bool
  userEnabled : Bool
  deriving DecidableEq

/-- The columns of `clients`. -/
structure ClientRow where
  id : Uuid
  clientId : String
  clientSecret : Option String
  name : Option String
  clientType : Option String
  grantTypes : Option String
  responseTypes : Option String
  scopes : Option String
  pkceRequired : Bool
  enabled : Bool
  baseUrl : Option String
  description : Option String
  accessTokenTtl : Option Int
  refreshTokenTtl : Option Int
  frontchannelLogoutUri : Option String
  backchannelLogoutUri : Option String
  createdAt : NaiveDateTime
  updatedAt : NaiveDateTime
  deriving DecidableEq

instance : Keyed ClientRow where
  clash a b := decide (a.id = b.id ∨ a.clientId = b.clientId)
  clash_self _ := by simp
  clash_symm _ _ := by simp only [eq_comm]

/-- A row of `redirect_uris`. -/
structure RedirectUri where
  id : Uuid
  clientId : Uuid
  uri : String
  createdAt : NaiveDateTime
  deriving DecidableEq

instance : Keyed RedirectUri where
  clash a b := decide (a.id = b.id ∨ (a.clientId = b.clientId ∧ a.uri = b.uri))
  clash_self _ := by simp
  clash_symm _ _ := by simp only [eq_comm]

/-- A client together with its redirect URIs, as the repository hydrates it. -/
structure Client extends ClientRow where
  redirectUris : List RedirectUri
  deriving DecidableEq

/-- A row of `refresh_tokens`. -/
structure RefreshToken where
  id : Uuid
  userId : Uuid
  clientId : Uuid
  sessionId : Uuid
  tokenHash : String
  expiresAt : Option NaiveDateTime
  revoked : Bool
  createdAt : NaiveDateTime
  deriving DecidableEq

/-- Whom a refresh token is for. -/
def RefreshToken.owner (r : RefreshToken) : Uuid × Uuid × Uuid := (r.userId, r.clientId, r.sessionId)

instance : Keyed RefreshToken where
  clash a b := decide (a.id = b.id ∨ a.tokenHash = b.tokenHash)
  clash_self _ := by simp
  clash_symm _ _ := by simp only [eq_comm]

/-- A row of `user_consents`. -/
structure UserConsent where
  id : Uuid
  userId : Uuid
  clientId : Uuid
  scopes : String
  grantedAt : NaiveDateTime
  updatedAt : NaiveDateTime
  deriving DecidableEq

instance : Keyed UserConsent where
  clash a b := decide (a.id = b.id ∨ (a.userId = b.userId ∧ a.clientId = b.clientId))
  clash_self _ := by simp
  clash_symm _ _ := by simp only [eq_comm]

/-- A row of `password_resets`. -/
structure PasswordReset where
  id : Uuid
  userId : Uuid
  tokenHash : String
  expiresAt : NaiveDateTime
  consumedAt : Option NaiveDateTime
  createdAt : NaiveDateTime
  deriving DecidableEq

instance : Keyed PasswordReset where
  clash a b := decide (a.id = b.id ∨ a.tokenHash = b.tokenHash)
  clash_self _ := by simp
  clash_symm _ _ := by simp only [eq_comm]

/-- A row of `email_verifications`. -/
structure EmailVerification where
  id : Uuid
  userId : Uuid
  tokenHash : String
  expiresAt : NaiveDateTime
  consumedAt : Option NaiveDateTime
  createdAt : NaiveDateTime
  deriving DecidableEq

instance : Keyed EmailVerification where
  clash a b := decide (a.id = b.id ∨ a.tokenHash = b.tokenHash)
  clash_self _ := by simp
  clash_symm _ _ := by simp only [eq_comm]

/-- A row of `roles`. -/
structure Role where
  id : Uuid
  name : String
  description : Option String
  parentId : Option Uuid
  createdAt : NaiveDateTime
  deriving DecidableEq

instance : Keyed Role where
  clash a b := decide (a.id = b.id ∨ a.name = b.name)
  clash_self _ := by simp
  clash_symm _ _ := by simp only [eq_comm]

/-- A row of `user_roles`. -/
structure UserRole where
  userId : Uuid
  roleId : Uuid
  deriving DecidableEq

instance : Keyed UserRole where
  clash a b := decide (a = b)
  clash_self _ := by simp
  clash_symm _ _ := by simp only [eq_comm]

end AuthServer
