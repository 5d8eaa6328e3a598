import AuthServer.Store.World

/-!
# Sessions in Postgres with their cache in Redis

Lookups by raw token read the cache first and fill it from Postgres. Deletions
invalidate the cache before they delete the row and stop if Redis fails.
-/

namespace AuthServer

open Concurrent Handler Storage

namespace SessionSnapshot

/-- The cache keeps neither the raw token nor the last access. -/
def intoSessionWithUser (s : SessionSnapshot) : SessionWithUser where
  session :=
    { id := s.id, userId := s.userId, sessionToken := "", ipAddress := s.ipAddress
      userAgent := s.userAgent, expiresAt := s.expiresAt, lastAccessedAt := none
      createdAt := s.createdAt }
  userEmail := s.userEmail
  userUsername := s.userUsername
  userEmailVerified := s.userEmailVerified
  userEnabled := s.userEnabled

def fromSessionWithUser (h : SessionWithUser) : SessionSnapshot where
  id := h.session.id
  userId := h.session.userId
  userEmail := h.userEmail
  userUsername := h.userUsername
  userEmailVerified := h.userEmailVerified
  userEnabled := h.userEnabled
  ipAddress := h.session.ipAddress
  userAgent := h.session.userAgent
  expiresAt := h.session.expiresAt
  createdAt := h.session.createdAt

end SessionSnapshot

namespace SessionRepository

variable (env : Env)

def findById (id : Uuid) : Handler (Option UserSession) := query (.sessionById id)

/-- Whole seconds until an instant, by the clock at the time of the call. -/
def ttlSeconds (expiresAt : NaiveDateTime) : Handler Int := do
  let at_ ← now
  return numSeconds (expiresAt - at_)

/-- Failures of the cache are misses. -/
def readCache (tokenHash : String) : Handler (Option SessionWithUser) := do
  match ← tryRedis (.session (.get tokenHash)) with
  | .ok (some snap) => return some snap.intoSessionWithUser
  | .ok none => return none
  | .error _ => return none

def populateCacheWithTtl (tokenHash : String) (hydrated : SessionWithUser) (ttl : Int) :
    Handler Unit := do
  let _ ← tryRedis (.session (.setex tokenHash (.fromSessionWithUser hydrated) (seconds ttl)))

/-- Sessions without expiry and expired ones are not cached. -/
def populateCache (tokenHash : String) (hydrated : SessionWithUser) : Handler Unit := do
  match hydrated.session.expiresAt with
  | none => return ()
  | some expiresAt =>
    let ttl ← ttlSeconds expiresAt
    if ttl ≤ 0 then return ()
    populateCacheWithTtl tokenHash hydrated ttl

/-- Cache first, then the join of session and user, then fill the cache. -/
def findByToken (sessionToken : String) : Handler (Option SessionWithUser) := do
  if sessionToken = "" then return none
  let tokenHash := env.sha256 sessionToken
  match ← readCache tokenHash with
  | some hit => return some hit
  | none =>
    match ← query (.sessionWithUser sessionToken) with
    | none => return none
    | some hydrated =>
      populateCache tokenHash hydrated
      return some hydrated

/-- Insert the row, then warm the cache with the user fields the caller has at hand. -/
def persist (session : UserSession) (email username : String) (verified enabled : Bool) :
    Handler Unit := do
  stmt (.insertSession session)
  match session.expiresAt with
  | none => return ()
  | some expiresAt =>
    let ttl ← ttlSeconds expiresAt
    if 0 < ttl then
      populateCacheWithTtl (env.sha256 session.sessionToken)
        ⟨session, email, username, verified, enabled⟩ ttl

def updateLastAccessed (sessionId : Uuid) (at_ : NaiveDateTime) : Handler Unit :=
  stmt (.updateLastAccessed sessionId at_)

def invalidateNowOrAbort (sessionToken : String) : Handler Unit := do
  match ← tryRedis (.session (.del (env.sha256 sessionToken))) with
  | .ok _ => return ()
  | .error e => throw (.redisUnavailable e)

/-- Delete one session: cache entry, then refresh tokens, then the row. -/
def delete (id : Uuid) : Handler Nat := do
  match ← query (.sessionTokenById id) with
  | some token => invalidateNowOrAbort env token
  | none => pure ()
  stmt (.revokeBySession id)
  stmt (.deleteSession id)

/-- `DEL` for each token; the reply is the number of failures. -/
def invalidateAll : List String → Handler Nat
  | [] => return 0
  | token :: tokens => do
    match ← tryRedis (.session (.del (env.sha256 token))) with
    | .ok _ => invalidateAll tokens
    | .error _ =>
      let failed ← invalidateAll tokens
      return failed + 1

/-- Best effort: failures of Redis are dropped. -/
def invalidateCacheByUserId (userId : Uuid) : Handler Unit := do
  let tokens ← query (.sessionTokensByUser userId)
  let _ ← invalidateAll env tokens

/-- Delete the sessions of a user; one failed `DEL` stops it before Postgres is touched. -/
def deleteAllByUserId (userId : Uuid) : Handler Nat := do
  let tokens ← query (.sessionTokensByUser userId)
  let failed ← invalidateAll env tokens
  if 0 < failed then
    throw (.redisUnavailable s!"bulk invalidation failed: {failed} keys")
  stmt (.revokeByUser userId)
  stmt (.deleteSessionsByUser userId)

/-- The same, sparing one session. -/
def deleteAllByUserIdExcept (userId keepSessionId : Uuid) : Handler Nat := do
  let rows ← query (.sessionTokensByUserExcept userId keepSessionId)
  let failed ← invalidateAll env (rows.map Prod.snd)
  if 0 < failed then
    throw (.redisUnavailable s!"selective invalidation failed: {failed} keys")
  stmt (.revokeByUserExcept userId keepSessionId)
  stmt (.deleteSessionsByUserExcept userId keepSessionId)

end SessionRepository

end AuthServer
