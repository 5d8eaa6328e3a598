import AuthServer.Store.Postgres

/-!
# The writing SQL statements

Statements on the pool and the statements of transactions. A statement without a
result is blocked by an open transaction.

## Implementation notes

The family revocation of a transaction is one `UPDATE` in the source. Under READ
COMMITTED it first fixes the matching rows and then visits them one by one, waiting
for locks and re-evaluating its condition on the latest version of each. These are
the two statements `familyScan` and `familyRow` here.
-/

namespace AuthServer

open Storage

/-- The writing statements on the pool. -/
inductive Stmt where
  | insertSession (s : UserSession)
  | updateLastAccessed (id : Uuid) (at_ : NaiveDateTime)
  | revokeBySession (sessionId : Uuid)
  | revokeByUser (userId : Uuid)
  | revokeByUserExcept (userId keep : Uuid)
  | deleteSession (id : Uuid)
  | deleteSessionsByUser (userId : Uuid)
  | deleteSessionsByUserExcept (userId keep : Uuid)
  | updateRevoked (id : Uuid) (revoked : Bool)
  | sweepRefreshTokens (cutoff : NaiveDateTime)
  | insertUser (u : User)
  | updateUser (u : User)
  | deleteUser (id : Uuid)
  | insertCredential (c : Credential)
  | updateCredential (c : Credential)
  | insertClient (c : ClientRow)
  | updateClient (c : ClientRow)
  | deleteClient (id : Uuid)
  | insertRedirectUri (r : RedirectUri)
  | deleteRedirectUri (id : Uuid)
  | insertConsent (c : UserConsent)
  | updateConsent (c : UserConsent)
  | deleteConsent (id : Uuid)
  | insertPasswordReset (r : PasswordReset)
  | markConsumed (id : Uuid)
  | consumeSiblingTokens (userId keep : Uuid)
  | insertUserRole (r : UserRole)
  | signup (u : User) (c : Credential) (roleId : Option Uuid) (v : EmailVerification)
  | verifyEmail (userId verificationId : Uuid)
  deriving DecidableEq

/-- What a statement reports: nothing, the number of affected rows, or the updated row. -/
def Stmt.Res : Stmt → Type
  | .insertSession _ | .updateLastAccessed _ _ | .revokeBySession _ | .revokeByUser _
  | .revokeByUserExcept _ _ | .updateRevoked _ _ | .insertUser _ | .insertCredential _
  | .insertRedirectUri _ | .insertConsent _ | .updateConsent _ | .insertPasswordReset _
  | .markConsumed _ | .insertUserRole _ | .signup _ _ _ _ | .verifyEmail _ _
  | .insertClient _ => Unit
  | .deleteSession _ | .deleteSessionsByUser _ | .deleteSessionsByUserExcept _ _
  | .sweepRefreshTokens _ | .deleteUser _ | .deleteRedirectUri _ | .deleteClient _
  | .deleteConsent _ | .consumeSiblingTokens _ _ => Nat
  | .updateUser _ => Option User
  | .updateCredential _ => Option Credential
  | .updateClient _ => Option ClientRow

namespace Tables

def hasUser (t : Tables) (id : Uuid) : Bool := t.users.rows.any fun u => u.id == id

def hasClient (t : Tables) (id : Uuid) : Bool := t.clients.rows.any fun c => c.id == id

def hasSession (t : Tables) (id : Uuid) : Bool := t.sessions.rows.any fun s => s.id == id

def hasRole (t : Tables) (id : Uuid) : Bool := t.roles.rows.any fun r => r.id == id

end Tables

/-- `SET last_accessed_at = …`. -/
def UserSession.setLastAccessed (at_ : NaiveDateTime) : Setter UserSession where
  apply s := { s with lastAccessedAt := some at_ }
  clash_left _ _ := rfl

/-- `SET consumed_at = …`. -/
def PasswordReset.setConsumed (at_ : NaiveDateTime) : Setter PasswordReset where
  apply r := { r with consumedAt := some at_ }
  clash_left _ _ := rfl

/-- `SET consumed_at = …`. -/
def EmailVerification.setConsumed (at_ : NaiveDateTime) : Setter EmailVerification where
  apply v := { v with consumedAt := some at_ }
  clash_left _ _ := rfl

/-- `SET email_verified = TRUE, updated_at = …`. -/
def User.setVerified (at_ : NaiveDateTime) : Setter User where
  apply u := { u with emailVerified := true, updatedAt := at_ }
  clash_left _ _ := rfl

/-- `SET scopes = …, updated_at = …`. -/
def UserConsent.setScopes (scopes : String) (at_ : NaiveDateTime) : Setter UserConsent where
  apply c := { c with scopes, updatedAt := at_ }
  clash_left _ _ := rfl

/-- `UPDATE clients` leaves the keys and `created_at` alone. -/
def ClientRow.setColumns (c : ClientRow) : Setter ClientRow where
  apply r := { c with id := r.id, clientId := r.clientId, createdAt := r.createdAt }
  clash_left _ _ := rfl

/-- `UPDATE credentials` leaves the key and `created_at` alone. -/
def Credential.setColumns (c : Credential) : Setter Credential where
  apply r := { c with id := r.id, createdAt := r.createdAt }
  clash_left _ _ := rfl

namespace Postgres

/-- The result of a statement on the pool; `none` while it is blocked. -/
abbrev Outcome (α : Type) := Option (Except DbError α × Postgres)

variable {α : Type}

/-- The statement commits. -/
def commits (pg : Postgres) (x : α) (t : Tables) : Outcome α := some (.ok x, { pg with tables := t })

/-- The statement fails and changes nothing. -/
def fails (pg : Postgres) (e : DbError) : Outcome α := some (.error e, pg)

/-- `INSERT` with its uniqueness and foreign key checks. -/
def insertRow {ρ : Type} [Keyed ρ] (pg : Postgres) (table : Table ρ) (row : ρ) (parents : Bool)
    (put : Table ρ → Tables) : Outcome Unit :=
  match table.insert row with
  | none => pg.fails .uniqueViolation
  | some t => if parents then pg.commits () (put t) else pg.fails .foreignKeyViolation

/-- `UPDATE refresh_tokens SET revoked = TRUE WHERE p AND revoked = FALSE`. -/
def revokeWhere (pg : Postgres) (p : RefreshToken → Bool) : Outcome Unit :=
  if (pg.tables.refreshTokens.select fun r => p r && !r.revoked).any fun r => pg.locked r.id then
    none
  else pg.commits () { pg.tables with
    refreshTokens := pg.tables.refreshTokens.update (fun r => p r && !r.revoked)
      (RefreshToken.setRevoked true) }

/-- A deletion that cascades to refresh tokens is blocked by a transaction that has locked one
of them or has inserted another one of the kind. -/
def cascadeBlocked (pg : Postgres) (p : RefreshToken → Bool) : Bool :=
  (pg.tables.refreshTokens.select p).any (fun r => pg.locked r.id) || pg.inserting p

/-- `DELETE FROM user_sessions WHERE p`, with the cascade to `refresh_tokens`. -/
def deleteSessions (pg : Postgres) (p : UserSession → Bool) : Outcome Nat :=
  let ids := (pg.tables.sessions.select p).map UserSession.id
  if pg.cascadeBlocked fun r => ids.contains r.sessionId then none
  else pg.commits ids.length { pg.tables with
    sessions := pg.tables.sessions.delete p
    refreshTokens := pg.tables.refreshTokens.delete fun r => ids.contains r.sessionId }

/-- `DELETE FROM users WHERE id = …`, with every cascade. -/
def deleteUser (pg : Postgres) (id : Uuid) : Outcome Nat :=
  let t := pg.tables
  let ids := (t.sessions.select fun s => s.userId == id).map UserSession.id
  let doomed := fun r : RefreshToken => r.userId == id || ids.contains r.sessionId
  if pg.cascadeBlocked doomed then none
  else pg.commits (t.users.count fun u => u.id == id) { t with
    users := t.users.delete fun u => u.id == id
    credentials := t.credentials.delete fun c => c.userId == id
    sessions := t.sessions.delete fun s => s.userId == id
    refreshTokens := t.refreshTokens.delete doomed
    consents := t.consents.delete fun c => c.userId == id
    passwordResets := t.passwordResets.delete fun r => r.userId == id
    userRoles := t.userRoles.delete fun r => r.userId == id
    emailVerifications := t.emailVerifications.delete fun v => v.userId == id }

/-- `DELETE FROM clients WHERE id = …`, with every cascade. -/
def deleteClient (pg : Postgres) (id : Uuid) : Outcome Nat :=
  let t := pg.tables
  if pg.cascadeBlocked fun r => r.clientId == id then none
  else pg.commits (t.clients.count fun c => c.id == id) { t with
    clients := t.clients.delete fun c => c.id == id
    redirectUris := t.redirectUris.delete fun r => r.clientId == id
    refreshTokens := t.refreshTokens.delete fun r => r.clientId == id
    consents := t.consents.delete fun c => c.clientId == id }

/-- `UPDATE users … RETURNING *`: every column but `id` and `created_at`. -/
def updateUser (pg : Postgres) (u : User) : Outcome (Option User) :=
  match pg.tables.users.replace (fun r => r.id == u.id)
      fun r => { u with id := r.id, createdAt := r.createdAt } with
  | none => pg.fails .uniqueViolation
  | some users => pg.commits (users.find? fun r => r.id == u.id) { pg.tables with users }

/-- `UPDATE credentials … RETURNING *`. -/
def updateCredential (pg : Postgres) (c : Credential) : Outcome (Option Credential) :=
  let credentials := pg.tables.credentials.update (fun r => r.id == c.id) c.setColumns
  match credentials.find? fun r => r.id == c.id with
  | none => pg.commits none pg.tables
  | some r =>
    if pg.tables.hasUser c.userId then pg.commits (some r) { pg.tables with credentials }
    else pg.fails .foreignKeyViolation

/-- `INSERT INTO user_roles … ON CONFLICT DO NOTHING`. -/
def insertUserRole (pg : Postgres) (r : UserRole) : Outcome Unit :=
  match pg.tables.userRoles.insert r with
  | none => pg.commits () pg.tables
  | some userRoles =>
    if pg.tables.hasUser r.userId && pg.tables.hasRole r.roleId then
      pg.commits () { pg.tables with userRoles }
    else pg.fails .foreignKeyViolation

/-- The tables after a signup. -/
def signedUp (t : Tables) (users : Table User) (credentials : Table Credential)
    (verifications : Table EmailVerification) (userId : Uuid) (roleId : Option Uuid) : Tables :=
  { t with
    users, credentials, emailVerifications := verifications
    userRoles := match roleId with
      | none => t.userRoles
      | some role => (t.userRoles.insert ⟨userId, role⟩).getD t.userRoles }

/-- The transaction of a signup, from its first `INSERT` to `COMMIT`. Only a clash with another
user is told apart from other failures. -/
def signup (pg : Postgres) (u : User) (c : Credential) (roleId : Option Uuid)
    (v : EmailVerification) : Outcome Unit :=
  match pg.tables.users.insert u with
  | none => pg.fails .uniqueViolation
  | some users =>
    match pg.tables.credentials.insert c, pg.tables.emailVerifications.insert v with
    | some credentials, some verifications =>
      if c.userId = u.id ∧ v.userId = u.id ∧ roleId.all pg.tables.hasRole then
        pg.commits () (signedUp pg.tables users credentials verifications u.id roleId)
      else pg.fails .transactionAborted
    | _, _ => pg.fails .transactionAborted

/-- `UPDATE clients … RETURNING *`. -/
def updateClient (pg : Postgres) (c : ClientRow) : Outcome (Option ClientRow) :=
  let clients := pg.tables.clients.update (fun r => r.id == c.id) c.setColumns
  pg.commits (clients.find? fun r => r.id == c.id) { pg.tables with clients }

end Postgres

/-- Execute a writing statement on the pool. -/
def Stmt.exec (now : NaiveDateTime) (pg : Postgres) : (s : Stmt) → Postgres.Outcome s.Res
  | .insertSession s =>
    pg.insertRow pg.tables.sessions s (pg.tables.hasUser s.userId)
      fun sessions => { pg.tables with sessions }
  | .updateLastAccessed id at_ =>
    pg.commits () { pg.tables with
      sessions := pg.tables.sessions.update (fun s => s.id == id) (UserSession.setLastAccessed at_) }
  | .revokeBySession sid => pg.revokeWhere fun r => r.sessionId == sid
  | .revokeByUser uid => pg.revokeWhere fun r => r.userId == uid
  | .revokeByUserExcept uid keep => pg.revokeWhere fun r => r.userId == uid && r.sessionId != keep
  | .deleteSession id => pg.deleteSessions fun s => s.id == id
  | .deleteSessionsByUser uid => pg.deleteSessions fun s => s.userId == uid
  | .deleteSessionsByUserExcept uid keep => pg.deleteSessions fun s => s.userId == uid && s.id != keep
  | .updateRevoked id revoked =>
    if pg.locked id then none
    else pg.commits () { pg.tables with
      refreshTokens := pg.tables.refreshTokens.update (fun r => r.id == id)
        (RefreshToken.setRevoked revoked) }
  | .sweepRefreshTokens cutoff =>
    let expired := fun r : RefreshToken => r.expiresAt.any fun e => decide (e < cutoff)
    if (pg.tables.refreshTokens.select expired).any fun r => pg.locked r.id then none
    else pg.commits (pg.tables.refreshTokens.count expired) { pg.tables with
      refreshTokens := pg.tables.refreshTokens.delete expired }
  | .insertUser u =>
    pg.insertRow pg.tables.users u true fun users => { pg.tables with users }
  | .updateUser u => pg.updateUser u
  | .deleteUser id => pg.deleteUser id
  | .insertCredential c =>
    pg.insertRow pg.tables.credentials c (pg.tables.hasUser c.userId)
      fun credentials => { pg.tables with credentials }
  | .updateCredential c => pg.updateCredential c
  | .insertClient c =>
    pg.insertRow pg.tables.clients c true fun clients => { pg.tables with clients }
  | .updateClient c => pg.updateClient c
  | .deleteClient id => pg.deleteClient id
  | .insertRedirectUri r =>
    pg.insertRow pg.tables.redirectUris r (pg.tables.hasClient r.clientId)
      fun redirectUris => { pg.tables with redirectUris }
  | .deleteRedirectUri id =>
    pg.commits (pg.tables.redirectUris.count fun r => r.id == id) { pg.tables with
      redirectUris := pg.tables.redirectUris.delete fun r => r.id == id }
  | .insertConsent c =>
    pg.insertRow pg.tables.consents c
      (pg.tables.hasUser c.userId && pg.tables.hasClient c.clientId)
      fun consents => { pg.tables with consents }
  | .updateConsent c =>
    pg.commits () { pg.tables with
      consents := pg.tables.consents.update (fun r => r.id == c.id)
        (UserConsent.setScopes c.scopes c.updatedAt) }
  | .deleteConsent id =>
    pg.commits (pg.tables.consents.count fun c => c.id == id) { pg.tables with
      consents := pg.tables.consents.delete fun c => c.id == id }
  | .insertPasswordReset r =>
    pg.insertRow pg.tables.passwordResets r (pg.tables.hasUser r.userId)
      fun passwordResets => { pg.tables with passwordResets }
  | .markConsumed id =>
    pg.commits () { pg.tables with
      passwordResets := pg.tables.passwordResets.update (fun r => r.id == id)
        (PasswordReset.setConsumed now) }
  | .consumeSiblingTokens uid keep =>
    let open_ := fun r : PasswordReset => r.userId == uid && r.id != keep && r.consumedAt.isNone
    pg.commits (pg.tables.passwordResets.count open_) { pg.tables with
      passwordResets := pg.tables.passwordResets.update open_ (PasswordReset.setConsumed now) }
  | .insertUserRole r => pg.insertUserRole r
  | .signup u c roleId v => pg.signup u c roleId v
  | .verifyEmail uid id =>
    -- the two `UPDATE`s of the transaction of `verify_email`
    pg.commits () { pg.tables with
      users := pg.tables.users.update (fun u => u.id == uid) (User.setVerified now)
      emailVerifications := pg.tables.emailVerifications.update (fun v => v.id == id)
        (EmailVerification.setConsumed now) }

/-- The statements of transactions. -/
inductive TxStmt where
  | begin
  | commit
  | rollback
  | findForUpdate (hash : String)
  | insertRefreshToken (t : RefreshToken)
  | updateRevoked (id : Uuid) (revoked : Bool)
  | familyScan (sessionId : Uuid)
  | familyRow (sessionId id : Uuid)
  deriving DecidableEq

/-- What a statement of a transaction reports. -/
def TxStmt.Res : TxStmt → Type
  | .begin | .commit | .rollback | .insertRefreshToken _ | .updateRevoked _ _ => Unit
  | .findForUpdate _ => Option RefreshToken
  | .familyScan _ => List Uuid
  | .familyRow _ _ => Bool

namespace Postgres

variable {α : Type}

/-- Execute a statement inside the transaction of a thread. -/
def inTx (pg : Postgres) (tid : Nat) (f : OpenTx → Outcome α) : Outcome α :=
  match pg.tx? tid with
  | none => none
  | some x => if x.aborted then pg.fails .transactionAborted else f x

/-- `SELECT … WHERE token_hash = … FOR UPDATE`. -/
def findForUpdate (pg : Postgres) (tid : Nat) (hash : String) (x : OpenTx) :
    Outcome (Option RefreshToken) :=
  match (x.view pg.tables.refreshTokens).find? fun r => r.tokenHash == hash with
  | none => some (.ok none, pg)
  | some r => if pg.lockedByOther tid r.id then none else some (.ok (some r), pg.record tid [r.id] [])

/-- `INSERT INTO refresh_tokens`. -/
def insertRefreshToken (pg : Postgres) (tid : Nat) (t : RefreshToken) (x : OpenTx) : Outcome Unit :=
  if pg.insertingClash tid t then none
  else match (x.view pg.tables.refreshTokens).insert t with
    | none => some (.error .uniqueViolation, pg.abort tid)
    | some _ =>
      if pg.tables.hasUser t.userId && pg.tables.hasClient t.clientId &&
          pg.tables.hasSession t.sessionId then
        some (.ok (), pg.record tid [t.id] [.insert t])
      else some (.error .foreignKeyViolation, pg.abort tid)

/-- `UPDATE refresh_tokens SET revoked = … WHERE id = …` on the latest version of the row, if it
satisfies `p`; the reply says whether it does. -/
def updateRow (pg : Postgres) (tid : Nat) (id : Uuid) (p : RefreshToken → Bool) (revoked : Bool)
    (x : OpenTx) : Outcome Bool :=
  match (x.view pg.tables.refreshTokens).find? fun r => r.id == id with
  | none => some (.ok false, pg)
  | some r =>
    if pg.lockedByOther tid id then none
    else if p r then some (.ok true, pg.record tid [id] [.setRevoked id revoked])
    else some (.ok false, pg)

/-- `COMMIT`: the writes become visible, unless the transaction was aborted. -/
def commit (pg : Postgres) (tid : Nat) : Outcome Unit :=
  match pg.tx? tid with
  | none => none
  | some x =>
    if x.aborted then some (.ok (), pg.close tid)
    else some (.ok (), (pg.close tid).setRefreshTokens (x.view pg.tables.refreshTokens))

end Postgres

/-- Execute a statement of a transaction. -/
def TxStmt.exec (tid : Nat) (pg : Postgres) : (s : TxStmt) → Postgres.Outcome s.Res
  | .begin => (pg.txs.insert ⟨tid, [], [], false⟩).map fun txs => (.ok (), { pg with txs })
  | .commit => pg.commit tid
  | .rollback => some (.ok (), pg.close tid)
  | .findForUpdate hash => pg.inTx tid (pg.findForUpdate tid hash)
  | .insertRefreshToken t => pg.inTx tid (pg.insertRefreshToken tid t)
  | .updateRevoked id revoked =>
    (pg.inTx tid (pg.updateRow tid id (fun _ => true) revoked)).map fun y =>
      (y.1.map fun _ => (), y.2)
  | .familyScan sid => pg.inTx tid fun x =>
    some (.ok (((x.view pg.tables.refreshTokens).select fun r =>
      r.sessionId == sid && !r.revoked).map RefreshToken.id), pg)
  | .familyRow sid id =>
    pg.inTx tid (pg.updateRow tid id (fun r => r.sessionId == sid && !r.revoked) true)

/-- The state left by a statement of a transaction that fails for a reason outside the model. -/
def TxStmt.fail (tid : Nat) (pg : Postgres) : TxStmt → Postgres
  | .begin => pg
  | .commit | .rollback => pg.close tid
  | _ => pg.abort tid

end AuthServer
