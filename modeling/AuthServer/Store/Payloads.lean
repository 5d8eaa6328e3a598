import AuthServer.Store.Rows
import AuthServer.Storage.FixedWindow

/-!
# Values kept in Redis

The payloads of the Redis namespaces and the commands the server sends to them.

## Implementation notes

Payloads that the server writes and reads as JSON of the same type are kept as
values of that type. The device hash is kept field by field, as the source does.
The key of a namespace is the part after its prefix, so distinct namespaces have
distinct keys by construction.
-/

namespace AuthServer

open Storage

/-- The cached form of a session, without its raw token. -/
structure SessionSnapshot where
  id : Uuid
  userId : Uuid
  userEmail : String
  userUsername : String
  userEmailVerified : Bool
  userEnabled : Bool
  ipAddress : Option String
  userAgent : Option String
  expiresAt : Option NaiveDateTime
  createdAt : NaiveDateTime
  deriving DecidableEq

/-- The cached form of a redirect URI; its owner is the enclosing client. -/
structure RedirectUriSnapshot where
  id : Uuid
  uri : String
  createdAt : NaiveDateTime
  deriving DecidableEq

/-- The cached form of a client. -/
structure ClientSnapshot extends ClientRow where
  redirectUris : List RedirectUriSnapshot
  deriving DecidableEq

/-- A stored authorization code. -/
structure AuthorizationCode where
  code : String
  clientId : String
  userId : Uuid
  sessionId : Uuid
  redirectUri : String
  scope : Option String
  state : Option String
  nonce : Option String
  codeChallenge : Option String
  codeChallengeMethod : Option String
  claimsRequested : Option String
  expiresAt : NaiveDateTime
  createdAt : Option NaiveDateTime
  deriving DecidableEq

/-- An authorization request that waits for the user's consent. -/
structure PendingAuthorization where
  requestId : String
  sessionId : Uuid
  userId : Uuid
  clientId : String
  redirectUri : String
  responseType : String
  scope : Option String
  state : Option String
  nonce : Option String
  prompt : Option String
  maxAge : Option Int
  codeChallenge : Option String
  codeChallengeMethod : Option String
  claimsRequested : Option String
  expiresAt : NaiveDateTime
  deriving DecidableEq

/-- The Redis namespaces. -/
structure Redis where
  sessions : Expiring String SessionSnapshot
  clients : Expiring String ClientSnapshot
  authCodes : Expiring String AuthorizationCode
  pending : Expiring String PendingAuthorization
  userCodes : Expiring String String
  devices : Expiring String (Fields String String)
  counters : Expiring String Nat

/-- An empty Redis. -/
def Redis.empty : Redis :=
  ⟨.empty, .empty, .empty, .empty, .empty, .empty, .empty⟩

/-- A Redis command, by namespace. -/
inductive RedisCmd where
  | session (c : Kv String SessionSnapshot)
  | client (c : Kv String ClientSnapshot)
  | authCode (c : Kv String AuthorizationCode)
  | pending (c : Kv String PendingAuthorization)
  | userCode (c : Kv String String)
  | device (c : HashCmd String String String)
  | counter (c : CounterCmd String)
  deriving DecidableEq

/-- The reply of a Redis command. -/
def RedisCmd.Res : RedisCmd → Type
  | .session c => c.Res
  | .client c => c.Res
  | .authCode c => c.Res
  | .pending c => c.Res
  | .userCode c => c.Res
  | .device c => c.Res
  | .counter c => c.Res

/-- Execute a Redis command. -/
def RedisCmd.exec (now : NaiveDateTime) : (c : RedisCmd) → Redis → c.Res × Redis
  | .session c, r => let (x, s) := c.exec now r.sessions; (x, { r with sessions := s })
  | .client c, r => let (x, s) := c.exec now r.clients; (x, { r with clients := s })
  | .authCode c, r => let (x, s) := c.exec now r.authCodes; (x, { r with authCodes := s })
  | .pending c, r => let (x, s) := c.exec now r.pending; (x, { r with pending := s })
  | .userCode c, r => let (x, s) := c.exec now r.userCodes; (x, { r with userCodes := s })
  | .device c, r => let (x, s) := c.exec now r.devices; (x, { r with devices := s })
  | .counter c, r => let (x, s) := c.exec now r.counters; (x, { r with counters := s })

end AuthServer
