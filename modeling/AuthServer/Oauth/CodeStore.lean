import AuthServer.Store.World

/-!
# One-shot stores of authorization codes and pending authorizations
-/

namespace AuthServer

open Handler

namespace AuthCodeStore

variable (env : Env)

/-- The key is the hash of the code; an existing entry is not overwritten. -/
def put (code : AuthorizationCode) : Handler Unit := do
  let at_ ← now
  let ttl := numSeconds (code.expiresAt - at_)
  if ttl ≤ 0 then return ()
  let _ ← redis (.authCode (.setnx (env.sha256 code.code) { code with createdAt := some at_ }
    (seconds ttl)))

/-- Read and delete in one command. -/
def consume (code : String) : Handler (Option AuthorizationCode) := do
  if code = "" then return none
  match ← redis (.authCode (.getdel (env.sha256 code))) with
  | none => return none
  | some stored =>
    let at_ ← now
    if stored.expiresAt < at_ then return none
    return some stored

end AuthCodeStore

namespace PendingAuthorizationStore

variable (env : Env)

def put (pending : PendingAuthorization) : Handler Unit := do
  if pending.requestId = "" then
    throw (.other "PendingAuthorization.request_id is required")
  let at_ ← now
  let ttl := numSeconds (pending.expiresAt - at_)
  if 0 < ttl then
    redis (.pending (.setex pending.requestId pending (seconds ttl)))
  else if pending.expiresAt = 0 then
    -- an unset expiry falls back to the configured time to live
    redis (.pending (.setex pending.requestId pending (seconds env.pendingTtlSeconds)))
  else return ()

/-- An expired entry is as good as none. -/
def decode (raw : Option PendingAuthorization) : Handler (Option PendingAuthorization) := do
  match raw with
  | none => return none
  | some p =>
    let at_ ← now
    if p.expiresAt < at_ then return none
    return some p

def get (requestId : String) : Handler (Option PendingAuthorization) := do
  if requestId = "" then return none
  let raw ← redis (.pending (.get requestId))
  decode raw

/-- Read and delete in one command. -/
def take (requestId : String) : Handler (Option PendingAuthorization) := do
  if requestId = "" then return none
  let raw ← redis (.pending (.getdel requestId))
  decode raw

end PendingAuthorizationStore

end AuthServer
