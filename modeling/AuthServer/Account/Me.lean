import AuthServer.Replies
import AuthServer.Scenario

/-!
# The account page

`GET /auth/me` shows the session of the request and its user. The cached snapshot of a session
lacks the raw token and the last access, and the endpoint shows what the lookup has filled in for
them.
-/

namespace AuthServer

open Concurrent Handler

/-- The session part of a body. -/
structure SessionPayload where
  sessionToken : String
  expiresAt : Option String
  lastAccessedAt : Option String
  deriving DecidableEq

structure UserPayload where
  id : String
  email : String
  username : String
  emailVerified : Bool
  roles : List String
  deriving DecidableEq

structure MeResponse where
  session : SessionPayload
  user : UserPayload
  deriving DecidableEq

/-- The text of an instant is a parameter. -/
def SessionPayload.fromSession (display : NaiveDateTime → String) (s : UserSession) :
    SessionPayload where
  sessionToken := s.sessionToken
  expiresAt := s.expiresAt.map display
  lastAccessedAt := s.lastAccessedAt.map display

def UserPayload.fromSessionWithUser (env : Env) (s : SessionWithUser) (roles : List String) :
    UserPayload where
  id := env.showUuid s.session.userId
  email := s.userEmail
  username := s.userUsername
  emailVerified := s.userEmailVerified
  roles := roles

namespace LoginResource

variable (env : Env) (display : NaiveDateTime → String)

/-- `GET /auth/me`; no session means `401`. -/
def me (bearer : Option String) : Handler (Option MeResponse) := do
  match bearer with
  | none => return none
  | some token =>
    match ← SessionService.findActiveSession env token with
    | none => return none
    | some hydrated =>
      let roles ← RoleRepository.findEffectiveNamesByUserId hydrated.session.userId
      return some ⟨.fromSession display hydrated.session, .fromSessionWithUser env hydrated roles⟩

variable {env display} {token : String} {h : SessionWithUser} {es rs : Replies}

/-- The body that a lookup followed by a lookup of roles leads to. -/
theorem returns_me {names : List String}
    (hfound : Returns (SessionService.findActiveSession env token).run es (.ok (some h)))
    (hroles : Returns (RoleRepository.findEffectiveNamesByUserId h.session.userId).run rs
      (.ok names)) :
    Returns (me env display (some token)).run (es ++ rs)
      (.ok (some ⟨.fromSession display h.session, .fromSessionWithUser env h names⟩)) := by
  refine Returns.bindE_ok.mpr ⟨es, rs, some h, rfl, hfound, ?_⟩
  exact Returns.bindE_ok.mpr ⟨rs, [], names, by simp, hroles, Returns.pureE_ok.mpr ⟨rfl, rfl⟩⟩

/-- The reply of the cache to the lookup of a session. -/
abbrev cacheReply (env : Env) (token : String) (r : Except String (Option SessionSnapshot)) :
    Reply Res :=
  ⟨.redis (.session (.get (env.sha256 token))), r⟩

/-- The reply of the database to the lookup of a session. -/
abbrev rowReply (token : String) (h : SessionWithUser) : Reply Res :=
  ⟨.sql (.query (.sessionWithUser token)), (.ok (some h) : Except DbError (Option SessionWithUser))⟩

section Samples

open Scenario

/-- The sample session after a later visit. -/
def visited : SessionWithUser :=
  ⟨{ session with lastAccessedAt := some (seconds 60) }, "ada@example.org", "ada", true, true⟩

/-- The replies after the lookup: the session is live, and its last access is written. -/
abbrev visitReplies : Replies :=
  [⟨.now, seconds 120⟩, ⟨.now, seconds 120⟩,
    ⟨.sql (.stmt (.updateLastAccessed session.id (seconds 120))), (.ok () : Except DbError Unit)⟩]

abbrev fillReplies : Replies :=
  [⟨.now, seconds 120⟩, ⟨.redis (.session (.setex (Scenario.env.sha256 "session-a")
    (.fromSessionWithUser visited) (seconds 28680))), (.ok () : Except String Unit)⟩]

abbrev roleReplies : Replies :=
  [⟨.sql (.query (.rolesByUser session.userId)), (.ok [] : Except DbError (List Role))⟩,
    ⟨.sql (.query .allRoles), (.ok [] : Except DbError (List Role))⟩]

end Samples

end LoginResource

end AuthServer
