import AuthServer.Common.Environment
import AuthServer.Store.Rows
import Mathlib.Data.List.Sort
import Mathlib.Data.List.Dedup

/-!
# Postgres

The tables, the transactions that are open, and every SQL statement the server
sends. Statements on the pool commit by themselves; the statements of a
transaction see the committed rows and the transaction's own writes, and become
visible to others when it commits.

## Implementation notes

Only `refresh_tokens` is written inside transactions. A row that a transaction
has locked or written, and the parents of a row it has inserted, hold back every
statement that would change or delete them: such a statement has no result until
the transaction ends. A failed statement aborts its transaction, and the commit of
an aborted transaction rolls it back and reports success, as Postgres does.
-/

namespace AuthServer

open Storage

/-- Why a statement failed. -/
inductive DbError where
  | uniqueViolation
  | foreignKeyViolation
  | transactionAborted
  | failure (text : String)
  deriving DecidableEq

/-- The committed rows. -/
structure Tables where
  users : Table User
  credentials : Table Credential
  sessions : Table UserSession
  clients : Table ClientRow
  redirectUris : Table RedirectUri
  refreshTokens : Table RefreshToken
  consents : Table UserConsent
  passwordResets : Table PasswordReset
  roles : Table Role
  userRoles : Table UserRole
  emailVerifications : Table EmailVerification

/-- A write of a transaction to `refresh_tokens`. -/
inductive Write where
  | insert (t : RefreshToken)
  | setRevoked (id : Uuid) (revoked : Bool)
  deriving DecidableEq

/-- `SET revoked = …`. -/
def RefreshToken.setRevoked (revoked : Bool) : Setter RefreshToken where
  apply t := { t with revoked }
  clash_left _ _ := rfl

/-- The effect of a write. -/
def Write.apply (t : Table RefreshToken) : Write → Table RefreshToken
  | .insert r => (t.insert r).getD t
  | .setRevoked id revoked => t.update (fun r => r.id == id) (RefreshToken.setRevoked revoked)

/-- An open transaction: its writes in order and the rows it has locked. -/
structure OpenTx where
  tid : Nat
  writes : List Write
  locked : List Uuid
  aborted : Bool
  deriving DecidableEq

instance : Keyed OpenTx where
  clash a b := decide (a.tid = b.tid)
  clash_self _ := by simp
  clash_symm _ _ := by simp only [eq_comm]

namespace OpenTx

/-- Add locks and writes to a transaction. -/
def record (locks : List Uuid) (writes : List Write) : Setter OpenTx where
  apply x := { x with locked := locks ++ x.locked, writes := x.writes ++ writes }
  clash_left _ _ := rfl

/-- Mark a transaction as aborted. -/
def abort : Setter OpenTx where
  apply x := { x with aborted := true }
  clash_left _ _ := rfl

/-- The rows a transaction sees. -/
def view (x : OpenTx) (t : Table RefreshToken) : Table RefreshToken := x.writes.foldl Write.apply t

/-- The rows a transaction has inserted. -/
def inserted (x : OpenTx) : List RefreshToken :=
  x.writes.filterMap fun
    | .insert t => some t
    | .setRevoked _ _ => none

end OpenTx

/-- The database. -/
structure Postgres where
  tables : Tables
  txs : Table OpenTx

namespace Postgres

/-- The open transaction of a thread. -/
def tx? (pg : Postgres) (tid : Nat) : Option OpenTx := pg.txs.find? fun x => x.tid == tid

/-- Some open transaction has locked the row. -/
def locked (pg : Postgres) (id : Uuid) : Bool := pg.txs.rows.any fun x => x.locked.contains id

/-- A transaction of another thread has locked the row. -/
def lockedByOther (pg : Postgres) (tid : Nat) (id : Uuid) : Bool :=
  pg.txs.rows.any fun x => x.tid != tid && x.locked.contains id

/-- Some open transaction has inserted a row that satisfies `p`. -/
def inserting (pg : Postgres) (p : RefreshToken → Bool) : Bool :=
  pg.txs.rows.any fun x => x.inserted.any p

/-- A transaction of another thread has inserted a row with a key of `t`. -/
def insertingClash (pg : Postgres) (tid : Nat) (t : RefreshToken) : Bool :=
  pg.txs.rows.any fun x => x.tid != tid && x.inserted.any fun r => Keyed.clash r t

/-- Add locks and writes to the transaction of a thread. -/
def record (pg : Postgres) (tid : Nat) (locks : List Uuid) (writes : List Write) : Postgres :=
  { pg with txs := pg.txs.update (fun x => x.tid == tid) (OpenTx.record locks writes) }

/-- Abort the transaction of a thread. -/
def abort (pg : Postgres) (tid : Nat) : Postgres :=
  { pg with txs := pg.txs.update (fun x => x.tid == tid) OpenTx.abort }

/-- End the transaction of a thread. -/
def close (pg : Postgres) (tid : Nat) : Postgres :=
  { pg with txs := pg.txs.delete fun x => x.tid == tid }

/-- Replace the committed refresh tokens. -/
def setRefreshTokens (pg : Postgres) (t : Table RefreshToken) : Postgres :=
  { pg with tables := { pg.tables with refreshTokens := t } }

end Postgres

/-- The `SELECT` statements on the pool. -/
inductive Query where
  | sessionWithUser (token : String)
  | sessionById (id : Uuid)
  | sessionTokenById (id : Uuid)
  | sessionTokensByUser (userId : Uuid)
  | sessionTokensByUserExcept (userId keep : Uuid)
  | userById (id : Uuid)
  | userByEmail (normalized : String)
  | userByUsername (username : String)
  | credentialByUserAndType (userId : Uuid) (credentialType : String)
  | clientById (id : Uuid)
  | clientByClientId (clientId : String)
  | redirectUris (clientId : Uuid)
  | redirectUriCount (clientId : Uuid) (uri : String)
  | redirectUriOwner (id : Uuid)
  | refreshTokenByHash (hash : String)
  | clientIdsBySession (sessionId : Uuid)
  | consent (userId clientId : Uuid)
  | passwordResetByHash (hash : String)
  | rolesByUser (userId : Uuid)
  | allRoles
  | roleByName (name : String)
  | emailVerificationByHash (hash : String)
  deriving DecidableEq

/-- The rows a `SELECT` returns. -/
def Query.Res : Query → Type
  | .sessionWithUser _ => Option SessionWithUser
  | .sessionById _ => Option UserSession
  | .sessionTokenById _ => Option String
  | .sessionTokensByUser _ => List String
  | .sessionTokensByUserExcept _ _ => List (Uuid × String)
  | .userById _ | .userByEmail _ | .userByUsername _ => Option User
  | .credentialByUserAndType _ _ => Option Credential
  | .clientById _ | .clientByClientId _ => Option ClientRow
  | .redirectUris _ => List RedirectUri
  | .redirectUriCount _ _ => Nat
  | .redirectUriOwner _ => Option String
  | .refreshTokenByHash _ => Option RefreshToken
  | .clientIdsBySession _ => List Uuid
  | .consent _ _ => Option UserConsent
  | .passwordResetByHash _ => Option PasswordReset
  | .rolesByUser _ | .allRoles => List Role
  | .roleByName _ => Option Role
  | .emailVerificationByHash _ => Option EmailVerification

/-- The join of `user_sessions` and `users` by session token. -/
def Tables.sessionWithUser (t : Tables) (token : String) : Option SessionWithUser :=
  (t.sessions.find? fun s => s.sessionToken == token).bind fun s =>
    (t.users.find? fun u => u.id == s.userId).map fun u =>
      ⟨s, u.email, u.username, u.emailVerified, u.enabled⟩

/-- Execute a `SELECT`. -/
def Query.exec (env : Env) (t : Tables) : (q : Query) → q.Res
  | .sessionWithUser token => t.sessionWithUser token
  | .sessionById id => t.sessions.find? fun s => s.id == id
  | .sessionTokenById id => (t.sessions.find? fun s => s.id == id).map UserSession.sessionToken
  | .sessionTokensByUser uid =>
    (t.sessions.select fun s => s.userId == uid).map UserSession.sessionToken
  | .sessionTokensByUserExcept uid keep =>
    (t.sessions.select fun s => s.userId == uid && s.id != keep).map
      fun s => (s.id, s.sessionToken)
  | .userById id => t.users.find? fun u => u.id == id
  | .userByEmail e => t.users.find? fun u => env.sqlLower u.email == e
  | .userByUsername n => t.users.find? fun u => u.username == n
  | .credentialByUserAndType uid ty =>
    t.credentials.find? fun c => c.userId == uid && c.credentialType == ty
  | .clientById id => t.clients.find? fun c => c.id == id
  | .clientByClientId cid => t.clients.find? fun c => c.clientId == cid
  | .redirectUris cid =>
    (t.redirectUris.select fun r => r.clientId == cid).insertionSort
      fun a b => a.createdAt ≤ b.createdAt
  | .redirectUriCount cid uri => t.redirectUris.count fun r => r.clientId == cid && r.uri == uri
  | .redirectUriOwner id =>
    (t.redirectUris.find? fun r => r.id == id).bind fun r =>
      (t.clients.find? fun c => c.id == r.clientId).map ClientRow.clientId
  | .refreshTokenByHash h => t.refreshTokens.find? fun r => r.tokenHash == h
  | .clientIdsBySession sid =>
    ((t.refreshTokens.select fun r => r.sessionId == sid).map RefreshToken.clientId).dedup
  | .consent uid cid => t.consents.find? fun c => c.userId == uid && c.clientId == cid
  | .passwordResetByHash h => t.passwordResets.find? fun r => r.tokenHash == h
  | .rolesByUser uid =>
    t.roles.select fun r => t.userRoles.rows.any fun ur => ur.userId == uid && ur.roleId == r.id
  | .allRoles => t.roles.rows
  | .roleByName name => t.roles.find? fun r => r.name == name
  | .emailVerificationByHash h => t.emailVerifications.find? fun v => v.tokenHash == h

end AuthServer
