import AuthServer.Account.Login

/-!
# Password reset and password change
-/

namespace AuthServer

open Handler

/-- Why a reset was refused. -/
inductive ResetError where
  | invalidToken
  | weakPassword
  deriving DecidableEq

/-- Why a change was refused. -/
inductive ChangeError where
  | wrongPassword
  | weakPassword
  deriving DecidableEq

namespace PasswordFlow

variable (env : Env)

def resetTokenTtlMinutes : Int := 30

def resetTokenBytes : Nat := 32

def minPasswordLen : Nat := 8

/-- Issue a reset token for an enabled account. -/
def requestReset (identifier : String) : Handler (Option String) := do
  let trimmed := Text.trim identifier
  if trimmed = "" then return none
  let found ← UserRepository.findByIdentifier env trimmed
  match found.filter fun u => u.enabled with
  | none => return none
  | some user =>
    let tokenRaw ← urlSafe resetTokenBytes
    let at_ ← now
    let id ← newUuid
    stmt (.insertPasswordReset
      { id, userId := user.id, tokenHash := env.hmac tokenRaw
        expiresAt := at_ + seconds (resetTokenTtlMinutes * 60), consumedAt := none
        createdAt := at_ })
    return some tokenRaw

/-- Replace the password of a user, or give them their first one. -/
def rotatePassword (userId : Uuid) (newPassword : String) : Handler Unit := do
  let salt ← perform .salt
  let hashed := env.argon2Hash newPassword salt
  let at_ ← now
  match ← query (.credentialByUserAndType userId "password") with
  | some c =>
    let _ ← stmt (.updateCredential
      { c with
        secretData := some hashed.secretData
        credentialData := some hashed.credentialData
        updatedAt := at_ })
  | none =>
    let id ← newUuid
    stmt (.insertCredential
      { id, credentialType := "password", secretData := some hashed.secretData
        credentialData := some hashed.credentialData, createdAt := at_, updatedAt := at_, userId })

/-- Rotate the password, consume the reset tokens of the user, then end all their sessions. -/
def consumeReset (tokenRaw newPassword : String) : Handler (Except ResetError Unit) := do
  if newPassword.utf8ByteSize < minPasswordLen then return .error .weakPassword
  if Text.trim tokenRaw = "" then return .error .invalidToken
  match ← query (.passwordResetByHash (env.hmac tokenRaw)) with
  | none => return .error .invalidToken
  | some reset =>
    let at_ ← now
    if reset.consumedAt.isSome || decide (reset.expiresAt < at_) then
      return .error .invalidToken
    rotatePassword env reset.userId newPassword
    stmt (.markConsumed reset.id)
    let _ ← stmt (.consumeSiblingTokens reset.userId reset.id)
    let _ ← SessionRepository.deleteAllByUserId env reset.userId
    return .ok ()

/-- Rotate the password, then end all sessions but the current one. -/
def changePassword (userId : Uuid) (currentSessionId : Option Uuid)
    (oldPassword newPassword : String) : Handler (Except ChangeError Unit) := do
  if newPassword.utf8ByteSize < minPasswordLen then return .error .weakPassword
  match ← query (.userById userId) with
  | none => return .error .wrongPassword
  | some _ =>
    match ← query (.credentialByUserAndType userId "password") with
    | none => return .error .wrongPassword
    | some c =>
      if !env.argon2Verify oldPassword (c.secretData.getD "") (c.credentialData.getD "") then
        return .error .wrongPassword
      rotatePassword env userId newPassword
      match currentSessionId with
      | some sid =>
        let _ ← SessionRepository.deleteAllByUserIdExcept env userId sid
      | none =>
        let _ ← SessionRepository.deleteAllByUserId env userId
      return .ok ()

end PasswordFlow

end AuthServer
