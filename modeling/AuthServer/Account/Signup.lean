import AuthServer.Account.Password
import AuthServer.Common.RateLimit

/-!
# Signup and email verification

## Implementation notes

The statements that a signup sends inside its transaction take effect together when it commits, so
they are one statement of the model, after the lookups and draws between them.
-/

namespace AuthServer

open Handler

/-- The body of `POST /auth/signup`. -/
structure SignupRequest where
  email : Option String := none
  password : Option String := none
  username : Option String := none
  firstName : Option String := none
  lastName : Option String := none
  deriving DecidableEq

/-- Why a signup was refused. -/
inductive SignupError where
  | invalidRequest (description : String)
  | conflict (description : String)
  deriving DecidableEq

/-- Why a verification was refused. -/
inductive VerifyEmailError where
  | invalidRequest (description : String)
  | invalidToken (description : String)
  deriving DecidableEq

/-- The answer of a signup. -/
structure SignupSuccess where
  userId : Uuid
  verificationTokenRaw : String
  deriving DecidableEq

namespace SignupFlow

variable (env : Env)

def verificationTokenTtlHours : Int := 24

def verificationTokenBytes : Nat := 32

/-- What a database error of the transaction is answered with. -/
def mapDbErr : DbError → SignupError
  | .uniqueViolation => .conflict "email or username already registered"
  | _ => .invalidRequest "internal"

/-- The role a new account gets; a failed lookup finds none. -/
def defaultRole : Except DbError (Option Role) → Option Uuid
  | .ok (some r) => some r.id
  | _ => none

/-- The rows of a new account, and the token that verifies its email. -/
def register (req : SignupRequest) (email username : String) (at_ : NaiveDateTime)
    (hashed : Hashed) : Handler (Except SignupError SignupSuccess) := do
  let userId ← newUuid
  let credentialId ← newUuid
  let role ← trySql (.query (.roleByName "user"))
  let tokenRaw ← urlSafe verificationTokenBytes
  let verificationId ← newUuid
  match ← trySql (.stmt (.signup
      { id := userId, email, emailVerified := false, username, firstName := req.firstName
        lastName := req.lastName, enabled := true, createdAt := at_, updatedAt := at_ }
      { id := credentialId, credentialType := "password", secretData := some hashed.secretData
        credentialData := some hashed.credentialData, createdAt := at_, updatedAt := at_, userId }
      (defaultRole role)
      { id := verificationId, userId, tokenHash := env.hmac tokenRaw
        expiresAt := at_ + seconds (verificationTokenTtlHours * 3600), consumedAt := none
        createdAt := at_ })) with
  | .ok _ => return .ok ⟨userId, tokenRaw⟩
  | .error e => return .error (mapDbErr e)

def signup (req : SignupRequest) : Handler (Except SignupError SignupSuccess) := do
  let email := req.email.getD ""
  let password := req.password.getD ""
  let username := req.username.getD ""
  if Text.trim email = "" ∨ Text.trim password = "" ∨ Text.trim username = "" then
    return .error (.invalidRequest "email, password, username are required")
  if password.utf8ByteSize < PasswordFlow.minPasswordLen then
    return .error (.invalidRequest "password must be at least 8 characters")
  let normalized := env.toLowercase (Text.trim email)
  let at_ ← now
  let salt ← perform .salt
  let hashed := env.argon2Hash password salt
  match ← trySql (.query (.userByEmail normalized)) with
  | .error _ => return .error (.invalidRequest "internal")
  | .ok (some (_ : User)) => return .error (.conflict "email already registered")
  | .ok none =>
    match ← trySql (.query (.userByUsername username)) with
    | .error _ => return .error (.invalidRequest "internal")
    | .ok (some (_ : User)) => return .error (.conflict "username already taken")
    | .ok none => register env req normalized username at_ hashed

def verifyEmail (tokenRaw : String) : Handler (Except VerifyEmailError Uuid) := do
  if Text.trim tokenRaw = "" then return .error (.invalidRequest "token is required")
  match ← trySql (.query (.emailVerificationByHash (env.hmac tokenRaw))) with
  | .error _ | .ok none => return .error (.invalidToken "verification token not found")
  | .ok (some (verification : EmailVerification)) =>
    if verification.consumedAt.isSome then
      return .error (.invalidToken "verification token already used")
    let at_ ← now
    if verification.expiresAt < at_ then
      return .error (.invalidToken "verification token expired")
    match ← trySql (.stmt (.verifyEmail verification.userId verification.id)) with
    | .error _ => return .error (.invalidToken "internal")
    | .ok _ => return .ok verification.userId

end SignupFlow

namespace SignupResource

variable (env : Env)

/-- `POST /auth/signup`. -/
def signup (req : HttpRequest) (body : SignupRequest) :
    Handler (Except SignupError SignupSuccess) := do
  applyIpLimit req Keys.rlSignupIp env.ratelimit.signupIpMax env.ratelimit.signupIpWindow
  SignupFlow.signup env body

/-- `POST /auth/verify-email`; a body without a token has an empty one. -/
def verifyEmail (req : HttpRequest) (token : Option String) :
    Handler (Except VerifyEmailError Uuid) := do
  applyIpLimit req Keys.rlVerifyEmail env.ratelimit.verifyEmailIpMax
    env.ratelimit.verifyEmailIpWindow
  SignupFlow.verifyEmail env (token.getD "")

end SignupResource

end AuthServer
