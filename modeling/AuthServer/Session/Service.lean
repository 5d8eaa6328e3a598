import AuthServer.Session.Repository

/-!
# Creating, looking up and ending sessions
-/

namespace AuthServer

open Handler

namespace SessionService

variable (env : Env)

/-- Eight hours. -/
def sessionTtlHours : Int := 8

/-- A session of a user, with a fresh id and a fresh token. -/
def createSession (userId : Uuid) (email username : String) (emailVerified enabled : Bool)
    (ipAddress userAgent : Option String) : Handler UserSession := do
  let at_ ← now
  let id ← newUuid
  let sessionToken ← urlSafe 32
  let session : UserSession :=
    { id, userId, sessionToken, ipAddress, userAgent
      expiresAt := some (at_ + seconds (sessionTtlHours * 3600))
      lastAccessedAt := some at_
      createdAt := at_ }
  SessionRepository.persist env session email username emailVerified enabled
  return session

/-- A session is accepted when it is found, has not expired and its user is enabled. -/
def findActiveSession (sessionToken : String) : Handler (Option SessionWithUser) := do
  if Text.trim sessionToken = "" then return none
  match ← SessionRepository.findByToken env sessionToken with
  | none => return none
  | some hydrated =>
    let at_ ← now
    if hydrated.session.expiresAt.any fun e => decide (e < at_) then return none
    if !hydrated.userEnabled then return none
    let bump ← now
    ignore (SessionRepository.updateLastAccessed hydrated.session.id bump)
    return some hydrated

/-- True when a session was deleted. -/
def logout (sessionToken : String) : Handler Bool := do
  match ← findActiveSession env sessionToken with
  | none => return false
  | some hit =>
    let affected ← SessionRepository.delete env hit.session.id
    return decide (0 < affected)

end SessionService

end AuthServer
