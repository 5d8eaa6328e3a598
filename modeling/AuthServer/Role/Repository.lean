import AuthServer.Concurrent.Interleaving
import AuthServer.Graph.Parents
import AuthServer.Store.World

/-!
# The role repository

The statements of the role repository with their transactions, `set_parent` with its walk over
the locked rows, and the bootstrap of the core roles. No other component writes roles, so the
table is a store of its own here.

## Implementation notes

`SELECT … FOR UPDATE` over the whole table waits while another transaction has locked all roles
or holds a changed row, and returns the latest committed rows. An `UPDATE` waits for the lock of
its row; that its foreign key also waits for the lock of the parent row is not modelled, which
only allows more interleavings.
-/

namespace AuthServer

open Storage Concurrent

/-- `RoleError`. -/
inductive RoleError where
  | cycle (message : String)
  | db (e : DbError)
  deriving DecidableEq

/-- The change of `parent_id`. -/
def Role.setParent (parentId : Option Uuid) : Setter Role where
  apply r := { r with parentId }
  clash_left _ _ := rfl

/-- An open transaction: the rows that `FOR UPDATE` has locked, in the version it returned, and
the changes that are not committed yet. -/
structure RoleTx where
  tid : Nat
  advisory : Bool := false
  scanned : Option (List (Uuid × Option Uuid)) := none
  writes : List (Uuid × Option Uuid) := []
  aborted : Bool := false
  deriving DecidableEq

instance : Keyed RoleTx where
  clash a b := decide (a.tid = b.tid)
  clash_self _ := by simp
  clash_symm _ _ := by simp only [eq_comm]

namespace RoleTx

/-- The roles as the transaction sees them. -/
def view (x : RoleTx) (t : Table Role) : Table Role :=
  x.writes.foldl (fun t w => t.update (fun r => r.id == w.1) (Role.setParent w.2)) t

/-- The transaction holds the lock of a row. -/
def locks (x : RoleTx) (id : Uuid) : Bool :=
  (x.scanned.getD []).any (fun r => r.1 == id) || x.writes.any fun w => w.1 == id

/-- The setters of the fields of a transaction. -/
def abort : Setter RoleTx where
  apply x := { x with aborted := true }
  clash_left _ _ := rfl

def takeAdvisory : Setter RoleTx where
  apply x := { x with advisory := true }
  clash_left _ _ := rfl

def scan (rows : List (Uuid × Option Uuid)) : Setter RoleTx where
  apply x := { x with scanned := some rows }
  clash_left _ _ := rfl

def write (id : Uuid) (parentId : Option Uuid) : Setter RoleTx where
  apply x := { x with writes := x.writes ++ [(id, parentId)] }
  clash_left _ _ := rfl

end RoleTx

/-- The committed roles, the open transactions, the clock and the drawn ids. -/
structure RoleStore where
  roles : Table Role
  txs : Table RoleTx := .empty
  now : NaiveDateTime := 0
  uuids : List Uuid := []

/-- The statements of the repository and of the bootstrap lock. -/
inductive RoleSql where
  | findByName (name : String)
  | insert (role : Role)
  | begin
  | commit
  | rollback
  | advisoryLock
  | selectForUpdate
  | updateParent (parentId : Option Uuid) (id : Uuid)
  deriving DecidableEq

/-- What a statement reports. -/
def RoleSql.Res : RoleSql → Type
  | .findByName _ => Option Role
  | .insert _ | .begin | .commit | .rollback | .advisoryLock => Unit
  | .selectForUpdate => List (Uuid × Option Uuid)
  | .updateParent _ _ => Nat

namespace RoleStore

variable {α : Type}

/-- The transaction of a thread. -/
def tx? (s : RoleStore) (tid : Nat) : Option RoleTx := s.txs.find? fun x => x.tid == tid

/-- Change the transaction of a thread. -/
def onTx (s : RoleStore) (tid : Nat) (f : Setter RoleTx) : RoleStore :=
  { s with txs := s.txs.update (fun x => x.tid == tid) f }

/-- The transaction of a thread is over. -/
def close (s : RoleStore) (tid : Nat) : RoleStore :=
  { s with txs := s.txs.delete fun x => x.tid == tid }

/-- Some other transaction satisfies a condition. -/
def anyOther (s : RoleStore) (tid : Nat) (p : RoleTx → Bool) : Bool :=
  s.txs.rows.any fun x => x.tid != tid && p x

/-- A role with this id is committed. -/
def hasRole (s : RoleStore) (id : Uuid) : Bool := s.roles.rows.any fun r => r.id == id

/-- Execute a statement inside the transaction of a thread. -/
def inTx (s : RoleStore) (tid : Nat) (f : RoleTx → Option (Except DbError α × RoleStore)) :
    Option (Except DbError α × RoleStore) :=
  match s.tx? tid with
  | none => none
  | some x => if x.aborted then some (.error .transactionAborted, s) else f x

/-- `SELECT id, parent_id FROM roles FOR UPDATE`. -/
def selectForUpdate (s : RoleStore) (tid : Nat) (x : RoleTx) :
    Option (Except DbError (List (Uuid × Option Uuid)) × RoleStore) :=
  if s.anyOther tid fun y => y.scanned.isSome || !y.writes.isEmpty then none
  else
    let rows := (x.view s.roles).rows.map fun r => (r.id, r.parentId)
    some (.ok rows, s.onTx tid (RoleTx.scan rows))

/-- `UPDATE roles SET parent_id = … WHERE id = …`. -/
def updateParent (s : RoleStore) (tid : Nat) (parentId : Option Uuid) (id : Uuid) :
    Option (Except DbError Nat × RoleStore) :=
  if !s.hasRole id then some (.ok 0, s)
  else if s.anyOther tid fun y => y.locks id then none
  else if parentId.any fun p => !s.hasRole p then
    some (.error .foreignKeyViolation, s.onTx tid RoleTx.abort)
  else some (.ok 1, s.onTx tid (RoleTx.write id parentId))

/-- `COMMIT`: the changes become visible, unless the transaction was aborted. -/
def commit (s : RoleStore) (tid : Nat) : Option (Except DbError Unit × RoleStore) :=
  match s.tx? tid with
  | none => none
  | some x =>
    if x.aborted then some (.ok (), s.close tid)
    else some (.ok (), { s.close tid with roles := x.view s.roles })

/-- `INSERT INTO roles`, a transaction of its own. -/
def insert (s : RoleStore) (role : Role) : Option (Except DbError Unit × RoleStore) :=
  match s.roles.insert role with
  | none => some (.error .uniqueViolation, s)
  | some roles =>
    if role.parentId.any fun p => !s.hasRole p then some (.error .foreignKeyViolation, s)
    else some (.ok (), { s with roles })

end RoleStore

/-- Execute a statement that the environment lets succeed. -/
def RoleSql.exec (tid : Nat) (s : RoleStore) :
    (q : RoleSql) → Option (Except DbError q.Res × RoleStore)
  | .findByName name => some (.ok (s.roles.find? fun r => r.name == name), s)
  | .insert role => s.insert role
  | .begin => (s.txs.insert { tid }).map fun txs => (.ok (), { s with txs })
  | .commit => s.commit tid
  | .rollback => some (.ok (), s.close tid)
  | .advisoryLock => s.inTx tid fun _ =>
    if s.anyOther tid RoleTx.advisory then none
    else some (.ok (), s.onTx tid RoleTx.takeAdvisory)
  | .selectForUpdate => s.inTx tid (s.selectForUpdate tid)
  | .updateParent parentId id => s.inTx tid fun _ => s.updateParent tid parentId id

/-- The state left by a statement that fails for a reason outside the model. -/
def RoleSql.fail (tid : Nat) (s : RoleStore) : RoleSql → RoleStore
  | .findByName _ | .insert _ | .begin => s
  | .commit | .rollback => s.close tid
  | .advisoryLock | .selectForUpdate | .updateParent _ _ => s.onTx tid RoleTx.abort

/-- The commands of the programs below. -/
inductive RoleOp where
  | sql (q : RoleSql)
  | now
  | newUuid
  deriving DecidableEq

/-- The reply of a command. -/
def RoleRes : RoleOp → Type
  | .sql q => Except DbError q.Res
  | .now => NaiveDateTime
  | .newUuid => Uuid

/-- Execute a command. -/
def RoleStore.exec (tid : Nat) (op : RoleOp) (ch : Choice) (s₀ : RoleStore) :
    Option (RoleRes op × RoleStore) :=
  let s := { s₀ with now := s₀.now + ch.elapse }
  match op with
  | .sql q =>
    match ch.fail with
    | some text => some (.error (.failure text), q.fail tid s)
    | none => q.exec tid s
  | .now => some (s.now, s)
  | .newUuid =>
    if s.uuids.contains ch.uuid then none
    else some (ch.uuid, { s with uuids := ch.uuid :: s.uuids })

/-- A program of the repository. -/
abbrev RoleHandler := ExceptT RoleError (Prog RoleRes)

namespace RoleHandler

variable {α : Type}

/-- Issue a command. -/
def perform (op : RoleOp) : RoleHandler (RoleRes op) := ExceptT.lift (Prog.perform op)

/-- A statement whose failure is propagated. -/
def sql (q : RoleSql) : RoleHandler q.Res := do
  match (← perform (.sql q) : Except DbError q.Res) with
  | .ok x => pure x
  | .error e => throw (.db e)

/-- The outcome of a program as a value. -/
def attempt (h : RoleHandler α) : RoleHandler (Except RoleError α) :=
  ExceptT.mk (h.run >>= fun x => pure (.ok x))

/-- A transaction that is dropped by a propagated error is rolled back. -/
def transaction (body : RoleHandler α) : RoleHandler α := do
  sql .begin
  match ← attempt body with
  | .ok a =>
    sql .commit
    return a
  | .error e =>
    let _ ← perform (.sql .rollback)
    throw e

end RoleHandler

namespace RoleRepository

open RoleHandler

/-- `parent_of.get(&c).copied().flatten()`, where the map is collected from the rows: of two rows
with one id the later one counts. -/
def parentOf (all : List (Uuid × Option Uuid)) (c : Uuid) : Option Uuid :=
  (all.reverse.find? fun r => r.1 == c).bind Prod.snd

/-- The walk of `set_parent` from the new parent upwards: it meets the child or a role twice. -/
def meetsCycle (all : List (Uuid × Option Uuid)) (childId newParent : Uuid) : Bool :=
  (Graph.walk (parentOf all) childId (all.length + 2) (some newParent) []).getD true

def findByName (name : String) : RoleHandler (Option Role) := sql (.findByName name)

def persist (role : Role) : RoleHandler Unit := sql (.insert role)

/-- The part of `set_parent` that is only done for a new parent. -/
def guardCycle (childId : Uuid) : Option Uuid → RoleHandler Unit
  | none => pure ()
  | some newParent => do
    let all ← sql .selectForUpdate
    if meetsCycle all childId newParent then
      throw (.cycle "cycle detected in role hierarchy")

def setParent (childId : Uuid) (parentId : Option Uuid) : RoleHandler Unit :=
  if parentId = some childId then throw (.cycle "role cannot be its own parent")
  else transaction do
    guardCycle childId parentId
    let _ ← sql (.updateParent parentId childId)

end RoleRepository

namespace RoleBootstrap

open RoleHandler

def ensureRole (name description : String) : RoleHandler Unit := do
  match ← RoleRepository.findByName name with
  | some _ => return ()
  | none =>
    let id ← perform .newUuid
    let createdAt ← perform .now
    RoleRepository.persist
      { id, name, description := some description, parentId := none, createdAt }

/-- The edge from `admin` to `user` is set once both exist; what becomes of it is not looked
at. -/
def wireAdmin : Option Role → Option Role → RoleHandler Unit
  | some admin, some user => do
    if admin.parentId.isNone then
      let _ ← attempt (RoleRepository.setParent admin.id (some user.id))
  | _, _ => return ()

def ensureCoreRoles : RoleHandler Unit := do
  transaction (sql .advisoryLock)
  ensureRole "user" "Standard authenticated user"
  ensureRole "admin" "Full administrative access"
  let admin ← RoleRepository.findByName "admin"
  let user ← RoleRepository.findByName "user"
  wireAdmin admin user

end RoleBootstrap

/-- The calls that write roles. -/
inductive RoleCall where
  | setParent (childId : Uuid) (parentId : Option Uuid)
  | persist (role : Role)
  | ensureCoreRoles

/-- The program of a call. -/
def RoleCall.program : RoleCall → RoleHandler Unit
  | .setParent childId parentId => RoleRepository.setParent childId parentId
  | .persist role => RoleRepository.persist role
  | .ensureCoreRoles => RoleBootstrap.ensureCoreRoles

/-- Configurations of the server of these calls. -/
abbrev RoleConfig := Config RoleRes RoleStore fun _ : RoleCall => Except RoleError Unit

def roleServer : Server RoleRes RoleStore Choice fun _ : RoleCall => Except RoleError Unit where
  exec := RoleStore.exec
  program call := call.program.run

end AuthServer
