import AuthServer.Client.Registration
import AuthServer.Concurrent.Translate
import AuthServer.Role.Repository
import AuthServer.Server

/-!
# A deployment: the server, its roles and its seeders

The requests of the server leave the roles alone, and the role repository has a store of its
own. A deployment has both on one database, together with the statements that only the seeders
and the role endpoints send.

## Implementation notes

The store of the role repository is read off the tables: a program of the role repository runs
on the deployment as it stands, and so does a program of the server. `persist` of a client with
its redirect URIs is one statement here, its transaction from the first `INSERT` to `COMMIT`:
what it inserts becomes visible at once, and a transaction that waits for another one on the
same `client_id` fails when that one has committed.
-/

namespace AuthServer

open Storage Concurrent

/-- The server's shared state and the open transactions of the role repository. -/
structure Site where
  world : World
  roleTxs : Table RoleTx

/-- The statements of the seeders and of the role endpoints. -/
inductive SiteSql where
  | persistClient (client : ClientRow) (uris : List RedirectUri)
  | setClientSecret (id : Uuid) (secret : String)
  | isAssigned (userId roleId : Uuid)
  | unassign (userId roleId : Uuid)
  deriving DecidableEq

/-- What a statement reports. -/
def SiteSql.Res : SiteSql → Type
  | .persistClient _ _ | .setClientSecret _ _ => Unit
  | .isAssigned _ _ => Bool
  | .unassign _ _ => Nat

/-- `SET client_secret = …, updated_at = NOW()`. -/
def ClientRow.setSecret (secret : String) (at_ : NaiveDateTime) : Setter ClientRow where
  apply c := { c with clientSecret := some secret, updatedAt := at_ }
  clash_left _ _ := rfl

/-- One `INSERT INTO redirect_uris` after the other, each with the id of the client. -/
def insertUris (clientId : Uuid) : List RedirectUri → Table RedirectUri →
    Option (Table RedirectUri)
  | [], t => some t
  | r :: rs, t => (t.insert { r with clientId }).bind (insertUris clientId rs)

/-- The transaction of `persist`. -/
def Postgres.persistClient (pg : Postgres) (client : ClientRow) (uris : List RedirectUri) :
    Postgres.Outcome Unit :=
  match pg.tables.clients.insert client with
  | none => pg.fails .uniqueViolation
  | some clients =>
    match insertUris client.id uris pg.tables.redirectUris with
    | none => pg.fails .uniqueViolation
    | some redirectUris => pg.commits () { pg.tables with clients, redirectUris }

theorem Postgres.persistClient_cases {pg pg' : Postgres} {client : ClientRow} {uris : List RedirectUri} {r : Except DbError Unit} (h : pg.persistClient client uris = some (r, pg')) :
    ((∃ e, r = .error e) ∧ pg' = pg) ∨
      (r = .ok () ∧ ∃ clients redirectUris, pg.tables.clients.insert client = some clients ∧
        insertUris client.id uris pg.tables.redirectUris = some redirectUris ∧
        pg' = { pg with tables := { pg.tables with clients, redirectUris } }) := by
  unfold persistClient at h
  split at h
  · cases h
    exact .inl ⟨⟨_, rfl⟩, rfl⟩
  · next clients hclients =>
    split at h
    · cases h
      exact .inl ⟨⟨_, rfl⟩, rfl⟩
    · next redirectUris huris =>
      cases h
      exact .inr ⟨rfl, clients, redirectUris, hclients, huris, rfl⟩

/-- Execute a statement that the environment lets succeed. -/
def SiteSql.exec (now : NaiveDateTime) (pg : Postgres) : (q : SiteSql) → Postgres.Outcome q.Res
  | .persistClient client uris => pg.persistClient client uris
  | .setClientSecret id secret =>
    pg.commits () { pg.tables with
      clients := pg.tables.clients.update (fun c => c.id == id) (ClientRow.setSecret secret now) }
  | .isAssigned userId roleId =>
    some (.ok (pg.tables.userRoles.rows.any fun r => r.userId == userId && r.roleId == roleId), pg)
  | .unassign userId roleId =>
    let those := fun r : UserRole => r.userId == userId && r.roleId == roleId
    pg.commits (pg.tables.userRoles.count those) { pg.tables with
      userRoles := pg.tables.userRoles.delete those }

/-- The commands of a deployment. -/
inductive SiteOp where
  | server (op : Op)
  | role (op : RoleOp)
  | sql (q : SiteSql)
  deriving DecidableEq

/-- The reply to a command. -/
def SiteRes : SiteOp → Type
  | .server op => Res op
  | .role op => RoleRes op
  | .sql q => Except DbError q.Res

namespace Site

/-- The store of the role repository. -/
def roleStore (s : Site) : RoleStore :=
  ⟨s.world.pg.tables.roles, s.roleTxs, s.world.now, s.world.uuids⟩

/-- The deployment after the store of the role repository has changed. -/
def withRoleStore (s : Site) (r : RoleStore) : Site where
  world := { s.world with
    now := r.now, uuids := r.uuids
    pg := { s.world.pg with tables := { s.world.pg.tables with roles := r.roles } } }
  roleTxs := r.txs

/-- Execute a command. -/
def exec (env : Env) (tid : Nat) (op : SiteOp) (ch : Choice) (s : Site) :
    Option (SiteRes op × Site) :=
  match op with
  | .server op => (World.exec env tid op ch s.world).map fun y => (y.1, { s with world := y.2 })
  | .role op => (s.roleStore.exec tid op ch).map fun y => (y.1, s.withRoleStore y.2)
  | .sql q =>
    let w := s.world.elapse ch.elapse
    match ch.fail with
    | some text => some (.error (.failure text), { s with world := w })
    | none => (q.exec w.now w.pg).map fun y => (y.1, { s with world := { w with pg := y.2 } })

variable {env : Env} {tid : Nat} {ch : Choice} {s s' : Site}

/-- A statement of the deployment fails without an effect, or has its own. -/
theorem exec_sql {q : SiteSql} {r : Except DbError q.Res}
    (h : exec env tid (.sql q) ch s = some (r, s')) :
    ((∃ e, r = .error e) ∧ s' = { s with world := s.world.elapse ch.elapse }) ∨
      ∃ pg', q.exec (s.world.now + ch.elapse) s.world.pg = some (r, pg') ∧
        s' = { s with world := { s.world.elapse ch.elapse with pg := pg' } } := by
  unfold exec at h
  dsimp only at h
  split at h
  · next text heq =>
    cases h
    exact .inl ⟨⟨_, rfl⟩, rfl⟩
  · obtain ⟨⟨x, pg'⟩, hexec, heq⟩ := Option.map_eq_some_iff.mp h
    cases heq
    exact .inr ⟨pg', hexec, rfl⟩

end Site

/-- A program of a deployment. -/
abbrev SiteHandler := ExceptT Failure (Prog SiteRes)

namespace SiteHandler

variable {α : Type}

/-- Issue a command. -/
def perform (op : SiteOp) : SiteHandler (SiteRes op) := ExceptT.lift (Prog.perform op)

/-- A statement whose failure is propagated. -/
def sql (q : SiteSql) : SiteHandler q.Res := do
  match (← perform (.sql q) : Except DbError q.Res) with
  | .ok x => pure x
  | .error e => throw (.db e)

/-- A program of the server. -/
def server (h : Handler α) : SiteHandler α :=
  ExceptT.mk (h.run.translate fun op => Prog.perform (.server op))

/-- A program of the role repository, whose outcome the caller inspects. -/
def tryRole (h : RoleHandler α) : SiteHandler (Except RoleError α) :=
  ExceptT.lift (h.run.translate fun op => Prog.perform (.role op))

/-- A program of the role repository whose failure is propagated. -/
def role (h : RoleHandler α) : SiteHandler α := do
  match ← tryRole h with
  | .ok x => pure x
  | .error (.db e) => throw (.db e)
  | .error (.cycle message) => throw (.other message)

end SiteHandler

end AuthServer
