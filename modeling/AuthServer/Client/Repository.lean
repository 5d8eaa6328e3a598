import AuthServer.Store.World

/-!
# Clients, their cache and their secrets
-/

namespace AuthServer

open Handler Storage

namespace ClientSnapshot

def fromEntity (c : Client) : ClientSnapshot where
  toClientRow := c.toClientRow
  redirectUris := c.redirectUris.map fun r => ⟨r.id, r.uri, r.createdAt⟩

def intoEntity (s : ClientSnapshot) : Client where
  toClientRow := s.toClientRow
  redirectUris := s.redirectUris.map fun r => ⟨r.id, s.id, r.uri, r.createdAt⟩

end ClientSnapshot

namespace ClientRepository

variable (env : Env)

/-- Failures of the cache are misses. -/
def readCache (clientId : String) : Handler (Option Client) := do
  match ← tryRedis (.client (.get clientId)) with
  | .ok (some snap) => return some snap.intoEntity
  | .ok none => return none
  | .error _ => return none

def populateCache (client : Client) : Handler Unit := do
  let ttl ← perform (.jitteredTtl env.clientCacheTtlSeconds)
  let _ ← tryRedis (.client (.setex client.clientId (.fromEntity client)
    (seconds (Int.ofNat ttl))))

def fetchRedirectUris (clientId : Uuid) : Handler (List RedirectUri) :=
  query (.redirectUris clientId)

def findById (id : Uuid) : Handler (Option Client) := do
  match ← query (.clientById id) with
  | none => return none
  | some row =>
    let uris ← fetchRedirectUris row.id
    return some ⟨row, uris⟩

/-- Cache first, then the row and its redirect URIs, then fill the cache. -/
def findByClientId (clientId : String) : Handler (Option Client) := do
  if clientId = "" then return none
  match ← readCache clientId with
  | some c => return some c
  | none =>
    match ← query (.clientByClientId clientId) with
    | none => return none
    | some row =>
      let uris ← fetchRedirectUris row.id
      let client : Client := ⟨row, uris⟩
      populateCache env client
      return some client

def isRedirectUriAllowed (clientId : Uuid) (redirectUri : String) : Handler Bool := do
  let count : Nat ← query (.redirectUriCount clientId redirectUri)
  return decide (0 < count)

def invalidate (clientId : String) : Handler Unit := do
  if clientId = "" then return ()
  let _ ← tryRedis (.client (.del clientId))

/-- A client without redirect URIs, as an admin creates it; the transaction is its one `INSERT`. -/
def persist (client : ClientRow) : Handler Unit := do
  stmt (.insertClient client)
  invalidate client.clientId

def update (client : ClientRow) : Handler (Option ClientRow) := do
  let updated : Option ClientRow ← stmt (.updateClient client)
  match updated with
  | some c => invalidate c.clientId
  | none => pure ()
  return updated

def delete (id : Uuid) : Handler (Option String) := do
  match ← query (.clientById id) with
  | none => return none
  | some row =>
    let _ ← stmt (.deleteClient id)
    invalidate row.clientId
    return some row.clientId

def addRedirectUri (uri : RedirectUri) : Handler Unit := do
  stmt (.insertRedirectUri uri)
  match ← query (.clientById uri.clientId) with
  | some row => invalidate row.clientId
  | none => pure ()

def removeRedirectUri (id : Uuid) : Handler Nat := do
  let owning : Option String ← query (.redirectUriOwner id)
  let affected : Nat ← stmt (.deleteRedirectUri id)
  if 0 < affected then
    match owning with
    | some cid => invalidate cid
    | none => pure ()
  return affected

end ClientRepository

namespace ClientSecretHasher

/-- The two halves of a stored secret around its first pipe. -/
def halves (stored : String) : Option (String × String) :=
  let l := stored.toList
  if l.contains '|' then
    some (String.ofList (l.takeWhile (· != '|')), String.ofList ((l.dropWhile (· != '|')).drop 1))
  else none

def hash (env : Env) (rawSecret salt : String) : String :=
  let parts := env.argon2Hash rawSecret salt
  parts.secretData ++ "|" ++ parts.credentialData

def isHashed (stored : String) : Bool :=
  stored.toList.head? == some '{' && stored.toList.contains '|'

/-- Hashed secrets go to Argon2, legacy plaintext secrets are compared. -/
def verify (env : Env) (presented stored : String) : Bool :=
  match halves stored with
  | some (secretData, credentialData) =>
    if isHashed stored then env.argon2Verify presented secretData credentialData
    else presented == stored
  | none => presented == stored

end ClientSecretHasher

/-- Public clients pass; confidential ones need a matching secret. The token, revocation and
introspection endpoints carry the same function each. -/
def authenticateClient (env : Env) (client : Client) (presented : Option String) : Bool :=
  if Text.toAsciiLowercase (client.clientType.getD "") != "confidential" then true
  else match presented, client.clientSecret with
    | some secret, some stored => secret != "" && ClientSecretHasher.verify env secret stored
    | _, _ => false

end AuthServer
