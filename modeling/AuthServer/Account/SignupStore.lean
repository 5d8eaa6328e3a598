import AuthServer.Account.Signup
import AuthServer.Concurrent.Replay
import AuthServer.Storage.Inserts

/-!
# The transaction of a signup, statement by statement

`SignupFlow::signup` with every statement of its transaction as a step of its own: the lookups and
insertions inside the transaction, and the lookup of the default role on another connection between
them. The rows it reads and writes are a store of its own here.

## Implementation notes

A failed statement aborts its transaction; the failure of the insertion into `user_roles` is not
looked at by the code, but the statements after it are refused. A failed `COMMIT` counts as rolled
back. A transaction that is dropped by an early return is rolled back before the answer.
-/

namespace AuthServer

open Concurrent Storage

/-- A row of the tables that a signup reads or writes. -/
inductive SignupRow where
  | user (u : User)
  | credential (c : Credential)
  | role (r : Role)
  | userRole (r : UserRole)
  | verification (v : EmailVerification)
  deriving DecidableEq

namespace SignupRow

/-- Rows of one table clash as its constraints say. -/
def clash : SignupRow → SignupRow → Bool
  | .user a, .user b => Keyed.clash a b
  | .credential a, .credential b => Keyed.clash a b
  | .role a, .role b => Keyed.clash a b
  | .userRole a, .userRole b => Keyed.clash a b
  | .verification a, .verification b => Keyed.clash a b
  | _, _ => false

instance : Keyed SignupRow where
  clash := clash
  clash_self a := by cases a <;> exact Keyed.clash_self _
  clash_symm a b := by
    cases a <;> cases b
    all_goals first | rfl | exact Keyed.clash_symm _ _

def isUser (id : Uuid) : SignupRow → Bool
  | .user u => u.id == id
  | _ => false

def isRole (id : Uuid) : SignupRow → Bool
  | .role r => r.id == id
  | _ => false

/-- The rows that the foreign keys of a row refer to. -/
def parents : SignupRow → List (SignupRow → Bool)
  | .user _ | .role _ => []
  | .credential c => [isUser c.userId]
  | .userRole r => [isUser r.userId, isRole r.roleId]
  | .verification v => [isUser v.userId]

end SignupRow

/-- The shared state. -/
structure SignupWorld where
  db : Inserts SignupRow
  now : NaiveDateTime := 0
  uuids : List Uuid := []
  tokens : List String := []

/-- The statements of a signup. -/
inductive SignupSql where
  | findByName (name : String)
  | begin
  | userByEmail (normalized : String)
  | userByUsername (username : String)
  | insert (r : SignupRow)
  | insertOrSkip (r : SignupRow)
  | commit
  | rollback
  deriving DecidableEq

/-- What a statement reports; an insertion tells whether it has added its row. -/
def SignupSql.Res : SignupSql → Type
  | .findByName _ => Option Role
  | .userByEmail _ | .userByUsername _ => Option SignupRow
  | .insert _ | .insertOrSkip _ => Bool
  | .begin | .commit | .rollback => Unit

/-- The error that a refused statement is answered with. -/
def InsertError.toDb : InsertError → DbError
  | .duplicate => .uniqueViolation
  | .orphan => .foreignKeyViolation
  | .aborted => .transactionAborted

namespace SignupSql

/-- The reply of a statement inside a transaction. -/
def reply {α : Type} (y : Except InsertError α × Inserts SignupRow) :
    Except DbError α × Inserts SignupRow :=
  (y.1.mapError InsertError.toDb, y.2)

def roleNamed (name : String) : SignupRow → Option Role
  | .role r => if r.name == name then some r else none
  | _ => none

def hasEmail (env : Env) (normalized : String) : SignupRow → Bool
  | .user u => env.sqlLower u.email == normalized
  | _ => false

def hasUsername (username : String) : SignupRow → Bool
  | .user u => u.username == username
  | _ => false

/-- Execute a statement that the environment lets succeed. -/
def exec (env : Env) (tid : Nat) (s : Inserts SignupRow) :
    (q : SignupSql) → Option (Except DbError q.Res × Inserts SignupRow)
  | .findByName name => some (.ok (s.committed.rows.findSome? (roleNamed name)), s)
  | .begin => (s.begin tid).map fun s => (.ok (), s)
  | .userByEmail normalized => (s.select tid (hasEmail env normalized)).map reply
  | .userByUsername username => (s.select tid (hasUsername username)).map reply
  | .insert r => (s.insert tid false r.parents r).map reply
  | .insertOrSkip r => (s.insert tid true r.parents r).map reply
  | .commit => (s.commit tid).map fun s => (.ok (), s)
  | .rollback => some (.ok (), s.close tid)

/-- The state left by a statement that fails for a reason outside the model. -/
def fail (tid : Nat) (s : Inserts SignupRow) : SignupSql → Inserts SignupRow
  | .findByName _ | .begin => s
  | .userByEmail _ | .userByUsername _ | .insert _ | .insertOrSkip _ => s.onTx tid InsertTx.abort
  | .commit | .rollback => s.close tid

end SignupSql

/-- The commands of a signup. -/
inductive SignupOp where
  | sql (q : SignupSql)
  | now
  | salt
  | newUuid
  | urlSafe (byteLength : Nat)
  deriving DecidableEq

/-- The reply of a command. -/
def SignupRes : SignupOp → Type
  | .sql q => Except DbError q.Res
  | .now => NaiveDateTime
  | .salt | .urlSafe _ => String
  | .newUuid => Uuid

/-- Execute a command. -/
def SignupWorld.exec (env : Env) (tid : Nat) (op : SignupOp) (ch : Choice) (w₀ : SignupWorld) :
    Option (SignupRes op × SignupWorld) :=
  let w := { w₀ with now := w₀.now + ch.elapse }
  match op with
  | .sql q =>
    match ch.fail with
    | some text => some (.error (.failure text), { w with db := q.fail tid w.db })
    | none => (q.exec env tid w.db).map fun y => (y.1, { w with db := y.2 })
  | .now => some (w.now, w)
  | .salt => some (ch.text, w)
  | .newUuid =>
    if w.uuids.contains ch.uuid then none
    else some (ch.uuid, { w with uuids := ch.uuid :: w.uuids })
  | .urlSafe _ =>
    if w.tokens.contains ch.text then none
    else some (ch.text, { w with tokens := ch.text :: w.tokens })

/-- A program of a signup; what is thrown is its answer. -/
abbrev SignupProg := ExceptT SignupError (Prog SignupRes)

namespace SignupTx

variable {α : Type}

/-- Issue a command. -/
def perform (op : SignupOp) : SignupProg (SignupRes op) := ExceptT.lift (Prog.perform op)

/-- A statement whose failure is answered. -/
def sql (f : DbError → SignupError) (q : SignupSql) : SignupProg q.Res := do
  match (← perform (.sql q) : Except DbError q.Res) with
  | .ok x => pure x
  | .error e => throw (f e)

/-- The outcome of a program as a value. -/
def attempt (h : SignupProg α) : SignupProg (Except SignupError α) :=
  ExceptT.mk (h.run >>= fun x => pure (.ok x))

def mapDbErr (_ : DbError) : SignupError := .invalidRequest "internal"

def mapUniqueOrInternal : DbError → SignupError
  | .uniqueViolation => .conflict "email or username already registered"
  | _ => .invalidRequest "internal"

/-- A transaction that is dropped by an early return is rolled back. -/
def transaction (body : SignupProg α) : SignupProg α := do
  sql mapDbErr .begin
  match ← attempt body with
  | .ok a =>
    sql mapDbErr .commit
    return a
  | .error e =>
    let _ ← perform (.sql .rollback)
    throw e

variable (env : Env)

/-- The default role, if it is there; what becomes of the insertion is not looked at. -/
def assignDefaultRole (userId : Uuid) : SignupProg Unit := do
  match (← perform (.sql (.findByName "user")) : Except DbError (Option Role)) with
  | .ok (some role) =>
    let _ ← perform (.sql (.insertOrSkip (.userRole ⟨userId, role.id⟩)))
  | _ => return ()

/-- The token that verifies the email of a new account. -/
def addToken (userId : Uuid) (at_ : NaiveDateTime) : SignupProg SignupSuccess := do
  let tokenRaw ← perform (.urlSafe SignupFlow.verificationTokenBytes)
  let verificationId ← perform .newUuid
  let _ ← sql mapDbErr (.insert (.verification
    { id := verificationId, userId, tokenHash := env.hmac tokenRaw
      expiresAt := at_ + seconds (SignupFlow.verificationTokenTtlHours * 3600), consumedAt := none
      createdAt := at_ }))
  return ⟨userId, tokenRaw⟩

/-- The rows of a new account. -/
def register (req : SignupRequest) (email username : String) (at_ : NaiveDateTime)
    (hashed : Hashed) : SignupProg SignupSuccess := do
  let userId ← perform .newUuid
  let _ ← sql mapUniqueOrInternal (.insert (.user
    { id := userId, email, emailVerified := false, username, firstName := req.firstName
      lastName := req.lastName, enabled := true, createdAt := at_, updatedAt := at_ }))
  let credentialId ← perform .newUuid
  let _ ← sql mapDbErr (.insert (.credential
    { id := credentialId, credentialType := "password", secretData := some hashed.secretData
      credentialData := some hashed.credentialData, createdAt := at_, updatedAt := at_, userId }))
  assignDefaultRole userId
  addToken env userId at_

/-- The body of the transaction. -/
def body (req : SignupRequest) (email username : String) (at_ : NaiveDateTime)
    (hashed : Hashed) : SignupProg SignupSuccess := do
  let existsEmail ← sql mapDbErr (.userByEmail email)
  if Option.isSome existsEmail then throw (.conflict "email already registered")
  let existsUsername ← sql mapDbErr (.userByUsername username)
  if Option.isSome existsUsername then throw (.conflict "username already taken")
  register env req email username at_ hashed

def signup (req : SignupRequest) : SignupProg SignupSuccess := do
  let email := req.email.getD ""
  let password := req.password.getD ""
  let username := req.username.getD ""
  if Text.trim email = "" ∨ Text.trim password = "" ∨ Text.trim username = "" then
    throw (.invalidRequest "email, password, username are required")
  if password.utf8ByteSize < PasswordFlow.minPasswordLen then
    throw (.invalidRequest "password must be at least 8 characters")
  let at_ ← perform .now
  let salt ← perform .salt
  transaction (body env req (env.toLowercase (Text.trim email)) username at_
    (env.argon2Hash password salt))

end SignupTx

/-- Configurations of a server of signups. -/
abbrev SignupConfig := Config SignupRes SignupWorld
  fun _ : SignupRequest => Except SignupError SignupSuccess

def signupServer (env : Env) :
    Server SignupRes SignupWorld Choice fun _ : SignupRequest => Except SignupError SignupSuccess where
  exec := SignupWorld.exec env
  program req := (SignupTx.signup env req).run

theorem signupServer_program (env : Env) (req : SignupRequest) :
    (signupServer env).program req = (SignupTx.signup env req).run := by
  rw [signupServer]

/-! ## The transaction of a thread in its replies -/

/-- What the replies of a thread say: the rows of its open transaction, whether that is aborted, and
the rows it has committed. -/
structure SignupDraft where
  tx : Option (List SignupRow × Bool) := none
  added : List SignupRow := []

namespace SignupDraft

/-- The draft after one more reply. -/
def next (d : SignupDraft) : Reply SignupRes → SignupDraft
  | ⟨.sql .begin, .ok _⟩ => { d with tx := some ([], false) }
  | ⟨.sql (.insert r), .ok true⟩ | ⟨.sql (.insertOrSkip r), .ok true⟩ =>
    { d with tx := d.tx.map fun x => (x.1 ++ [r], x.2) }
  | ⟨.sql (.userByEmail _), .error _⟩ | ⟨.sql (.userByUsername _), .error _⟩
  | ⟨.sql (.insert _), .error _⟩ | ⟨.sql (.insertOrSkip _), .error _⟩ =>
    { d with tx := d.tx.map fun _ => ([], true) }
  | ⟨.sql .commit, .ok _⟩ => ⟨none, d.added ++ (d.tx.map Prod.fst).getD []⟩
  | ⟨.sql .commit, .error _⟩ | ⟨.sql .rollback, _⟩ => { d with tx := none }
  | _ => d

/-- The draft after all replies. -/
def after (es : List (Reply SignupRes)) : SignupDraft := es.foldl next {}

end SignupDraft

/-- The rows that a thread has added for good. -/
def SignupTx.added (m : Moment SignupRes SignupWorld) (tid : Nat) : List SignupRow :=
  (SignupDraft.after (m.own tid)).added

end AuthServer
