import AuthServer.Concurrent.Edits
import AuthServer.Replies
import AuthServer.Scenario
import AuthServer.Store.Frames

/-!
# Edits of one user or client at the same time

An admin's edit reads the row, sets some columns in memory and writes all columns back with a second
statement, so that the later of two such writes restores what the earlier one has changed. The
verification of an email address sets its column in one statement. Nothing is lost when the row that
is written back is still the one that was read.
-/

namespace AuthServer

open Concurrent Handler Storage AdminResource

namespace EditRace

/-! ## The columns that requests set -/

/-- The columns of `users` that requests set. -/
inductive UserColumn where
  | firstName
  | lastName
  | enabled
  | emailVerified
  deriving DecidableEq

def UserColumn.Val : UserColumn → Type
  | .firstName | .lastName => Option String
  | .enabled | .emailVerified => Bool

def userColumns : Columns User where
  Col := UserColumn
  Val := UserColumn.Val
  get u
    | .firstName => u.firstName
    | .lastName => u.lastName
    | .enabled => u.enabled
    | .emailVerified => u.emailVerified

/-- What an admin's edit sets. -/
def updateEdit (body : UserUpdateRequest) : Edit userColumns
  | .firstName => body.firstName.map fun v => ({some v} : Set (Option String))
  | .lastName => body.lastName.map fun v => ({some v} : Set (Option String))
  | .enabled => body.enabled.map fun b => ({b} : Set Bool)
  | .emailVerified => body.emailVerified.map fun b => ({b} : Set Bool)

/-- What the verification of an email address sets. -/
def verifyEdit : Edit userColumns
  | .emailVerified => some ({true} : Set Bool)
  | _ => none

/-- What a request sets in the row of a user. -/
def userEdit : Call → Edit userColumns
  | .updateUser _ _ body => updateEdit body
  | .verifyEmail _ _ => verifyEdit
  | _ => fun _ => none

/-- The columns of `clients` that requests set. -/
inductive ClientColumn where
  | clientSecret
  | name
  | clientType
  | scopes
  | grantTypes
  | responseTypes
  | pkceRequired
  | enabled
  | baseUrl
  | description
  | frontchannelLogoutUri
  | backchannelLogoutUri
  deriving DecidableEq

def ClientColumn.Val : ClientColumn → Type
  | .pkceRequired | .enabled => Bool
  | _ => Option String

def clientColumns : Columns ClientRow where
  Col := ClientColumn
  Val := ClientColumn.Val
  get c
    | .clientSecret => c.clientSecret
    | .name => c.name
    | .clientType => c.clientType
    | .scopes => c.scopes
    | .grantTypes => c.grantTypes
    | .responseTypes => c.responseTypes
    | .pkceRequired => c.pkceRequired
    | .enabled => c.enabled
    | .baseUrl => c.baseUrl
    | .description => c.description
    | .frontchannelLogoutUri => c.frontchannelLogoutUri
    | .backchannelLogoutUri => c.backchannelLogoutUri

/-- What an admin's edit of a client sets; a secret is stored as a hash under some salt. -/
def clientUpdateEdit (env : Env) (body : ClientRequest) : Edit clientColumns
  | .clientSecret => (body.clientSecret.filter fun s => s != "").map fun s =>
    Set.range fun salt => some (ClientSecretHasher.hash env s salt)
  | .name => body.name.map text
  | .clientType => body.clientType.map text
  | .scopes => body.scopes.map text
  | .grantTypes => body.grantTypes.map text
  | .responseTypes => body.responseTypes.map text
  | .pkceRequired => body.pkceRequired.map fun b => ({b} : Set Bool)
  | .enabled => body.enabled.map fun b => ({b} : Set Bool)
  | .baseUrl => body.baseUrl.map text
  | .description => body.description.map text
  | .frontchannelLogoutUri => body.frontchannelLogoutUri.map text
  | .backchannelLogoutUri => body.backchannelLogoutUri.map text
where
  text (v : String) : Set (Option String) := {some v}

/-- What a request sets in the row of a client. -/
def clientEdit (env : Env) : Call → Edit clientColumns
  | .adminUpdateClient _ _ body => clientUpdateEdit env body
  | _ => fun _ => none

/-! ## No edit is lost -/

/-- The row of a user. -/
def userOf (userId : Uuid) (w : World) : Option User :=
  w.pg.tables.users.find? fun u => u.id == userId

/-- The row of a client. -/
def clientOf (id : Uuid) (w : World) : Option ClientRow :=
  w.pg.tables.clients.find? fun c => c.id == id

/-- A request has edited a user and has succeeded. -/
def UserEdited (env : Env) (userId : Uuid) : (call : Call) → Ret call → Prop
  | .updateUser _ path _, y => env.parseUuid path = some userId ∧ ∃ summary, y = .ok (.ok summary)
  | .verifyEmail _ _, y => y = .ok (.ok userId)
  | _, _ => False

/-- A request has edited a client and has succeeded. -/
def ClientEdited (env : Env) (id : Uuid) : (call : Call) → Ret call → Prop
  | .adminUpdateClient _ path _, y => env.parseUuid path = some id ∧ ∃ summary, y = .ok (.ok summary)
  | _, _ => False

/-- A request may edit a user. -/
def EditsUser (env : Env) (userId : Uuid) : Call → Prop
  | .updateUser _ path _ => env.parseUuid path = some userId
  | .verifyEmail _ _ => True
  | _ => False

/-- A request may edit a client. -/
def EditsClient (env : Env) (id : Uuid) : Call → Prop
  | .adminUpdateClient _ path _ => env.parseUuid path = some id
  | _ => False

/-- Two requests that set different columns of one row and have both succeeded have left a row with
the values of both. -/
structure NothingLost (env : Env) (R : Uuid → Call → Call → Rules) : Prop where
  user : ∀ userId call call' w c i j y y', (userOf userId w).isSome = true →
    (userEdit call).Apart (userEdit call') →
    Run (server env) (R userId call call') (Config.start w) c →
    c.answered i call y → UserEdited env userId call y →
    c.answered j call' y' → UserEdited env userId call' y' →
    ∃ row, userOf userId c.moment.world = some row ∧
      (userEdit call).Carries row ∧ (userEdit call').Carries row
  client : ∀ id call call' w c i j y y', (clientOf id w).isSome = true →
    (clientEdit env call).Apart (clientEdit env call') →
    Run (server env) (R id call call') (Config.start w) c →
    c.answered i call y → ClientEdited env id call y →
    c.answered j call' y' → ClientEdited env id call' y' →
    ∃ row, clientOf id c.moment.world = some row ∧
      (clientEdit env call).Carries row ∧ (clientEdit env call').Carries row

/-- Any interleaving of two requests. -/
def interleaved (_ : Uuid) (call call' : Call) : Rules where
  admits x := x = call ∨ x = call'

/-- The user that a request has read. -/
def userReply (userId : Uuid) (found : Option User) : Reply Res :=
  ⟨.sql (.query (.userById userId)), (.ok found : Except DbError (Option User))⟩

/-- The client that a request has read. -/
def clientReply (id : Uuid) (found : Option ClientRow) : Reply Res :=
  ⟨.sql (.query (.clientById id)), (.ok found : Except DbError (Option ClientRow))⟩

/-- All columns of a row are written back only while the row is the one that the request has read. -/
def unchanged (id : Uuid) (call call' : Call) : Rules where
  admits x := x = call ∨ x = call'
  allows m tid op _ :=
    (∀ u found, op = .sql (.stmt (.updateUser u)) → userReply id found ∈ m.own tid →
      userOf id m.world = found) ∧
    ∀ c found, op = .sql (.stmt (.updateClient c)) → clientReply id found ∈ m.own tid →
      clientOf id m.world = found

section Users

variable {env : Env} {userId : Uuid} {es : Replies} {st : Stmt}

/-- An edit writes the columns it sets and leaves the others as they were. -/
theorem turns_applyUpdate (user : User) (body : UserUpdateRequest) (at_ : NaiveDateTime) :
    (updateEdit body).Turns user { applyUpdate user body with updatedAt := at_ } := by
  constructor
  · intro col vs h
    cases col
    all_goals
      obtain ⟨v, hv, rfl⟩ := Option.map_eq_some_iff.mp h
      simp only [userColumns, applyUpdate, hv]
      rfl
  · intro col h
    cases col
    all_goals
      have hnone := Option.map_eq_none_iff.mp h
      simp only [userColumns, applyUpdate, hnone]
      rfl

theorem turns_setVerified (user : User) (at_ : NaiveDateTime) :
    verifyEdit.Turns user ((User.setVerified at_).apply user) := by
  constructor
  · intro col vs h
    cases col
    case emailVerified =>
      cases h
      rfl
    all_goals cases h
  · intro col h
    cases col
    case emailVerified => cases h
    all_goals rfl

/-- The kinds of statements that write users. -/
theorem kind_of_writesUsers (st : Stmt) (h : st.writesUsers = true) :
    [.enrol, .profile, .confirm, .drop].contains st.kind = true := by
  cases st with
  | insertUser | updateUser | signup | verifyEmail | deleteUser => rfl
  | _ => cases h

theorem leavesUsers {α : Type} {h : Handler α} {ks : List Kind} (hu : h.Uses (Within ks))
    (hks : [.enrol, .profile, .confirm, .drop].any ks.contains = false) :
    h.Uses fun op => op.isStmt Stmt.writesUsers = false :=
  hu.not_isStmt kind_of_writesUsers hks

/-- The edited row is written back; the sessions have been ended before, if they have to be. -/
def writeBack (env : Env) (user : User) (body : UserUpdateRequest) : Handler User := do
  let at_ ← now
  let _ ← stmt (.updateUser { AdminResource.applyUpdate user body with updatedAt := at_ })
  if !AdminResource.kicksSessions user body && AdminResource.refreshesCache user body then
    ignore (SessionRepository.invalidateCacheByUserId env user.id)
  return { AdminResource.applyUpdate user body with updatedAt := at_ }

theorem updateUserRow_eq (user : User) (body : UserUpdateRequest) :
    updateUserRow env user body =
      if kicksSessions user body then
        ignore (SessionRepository.deleteAllByUserId env user.id) >>= fun _ => writeBack env user body
      else writeBack env user body := rfl

variable {body : UserUpdateRequest} {token : Option String} {call : Call}

/-- The row of a user is written once, with the columns set in it. -/
theorem issues_writeBack {user : User} (hst : st.writesUsers = true)
    (h : Issues (writeBack env user body).run es (.sql (.stmt st))) :
    ∃ at_, st = .updateUser { applyUpdate user body with updatedAt := at_ } := by
  have hnow : now.Uses (Within [.read]) := uses_now rfl
  have hrefresh : (ignore (SessionRepository.invalidateCacheByUserId env user.id)).Uses
      fun op => op.isStmt Stmt.writesUsers = false :=
    leavesUsers (uses_ignore (SessionRepository.uses_invalidateCacheByUserId env user.id).uses) rfl
  unfold writeBack at h
  obtain ⟨es₁, es₂, at_, rfl, -, h⟩ := skip_stmt (leavesUsers hnow rfl) hst h
  rcases Issues.of_bindE h with h | ⟨es₃, es₄, x, rfl, -, h⟩
  · exact ⟨at_, issues_stmt h⟩
  · refine absurd h (not_issues_stmt ?_ hst)
    split
    · exact uses_bind hrefresh fun _ => uses_pure _
    · exact uses_pure _

theorem issues_updateUserRow {user : User} (hst : st.writesUsers = true)
    (h : Issues (updateUserRow env user body).run es (.sql (.stmt st))) :
    ∃ at_, st = .updateUser { applyUpdate user body with updatedAt := at_ } := by
  have hpurge : (ignore (SessionRepository.deleteAllByUserId env user.id)).Uses
      fun op => op.isStmt Stmt.writesUsers = false :=
    leavesUsers (uses_ignore (SessionRepository.uses_deleteAllByUserId env user.id).uses) rfl
  rw [updateUserRow_eq] at h
  split at h
  · obtain ⟨es₁, es₂, x, rfl, -, h⟩ := skip_stmt hpurge hst h
    exact issues_writeBack hst h
  · exact issues_writeBack hst h

/-- An edit of a user writes back the row it has read with its columns set. -/
theorem issues_updateUser {path : String} (hpath : env.parseUuid path = some userId)
    (hst : st.writesUsers = true)
    (h : Issues (updateUser env token path body).run es (.sql (.stmt st))) :
    ∃ found at_, userReply userId (some found) ∈ es ∧
      st = .updateUser { applyUpdate found body with updatedAt := at_ } := by
  have hquery : (query (.userById userId)).Uses (Within [.read]) := uses_query rfl
  unfold updateUser at h
  obtain ⟨es₁, es₂, who, rfl, -, h⟩ :=
    skip_stmt (leavesUsers (uses_requireAdmin env token).uses rfl) hst h
  split at h
  · exact absurd h Issues.not_pure
  rw [hpath] at h
  dsimp only at h
  obtain ⟨es₃, es₄, found, rfl, hread, h⟩ := skip_stmt (leavesUsers hquery rfl) hst h
  split at h
  · exact absurd h Issues.not_pure
  · next found =>
    have hmem : userReply userId (some found) ∈ es₁ ++ (es₃ ++ es₄) := by
      rw [returns_sql hread]
      exact List.mem_append_right _ List.mem_cons_self
    rcases Issues.of_bindE h with h | ⟨es₅, es₆, edited, rfl, -, h⟩
    · obtain ⟨at_, rfl⟩ := issues_updateUserRow hst h
      exact ⟨found, at_, hmem, rfl⟩
    · -- what follows writes credentials and ends sessions
      refine absurd h (not_issues_stmt ?_ hst)
      repeat' first
        | with_reducible exact uses_pure _ | with_reducible refine uses_bind ?_ fun _ => ?_ | split
        | exact uses_query rfl | exact leavesUsers Footprint.uses rfl
        | exact uses_ignore (leavesUsers Footprint.uses rfl)
        | refine uses_bind ?_ fun _ => ?_

/-- A row that has been written back was written with success. -/
theorem returns_updateUserRow {user edited : User}
    (h : Returns (updateUserRow env user body).run es (.ok edited)) :
    ∃ u x, (⟨.sql (.stmt (.updateUser u)), (.ok x : Except DbError (Option User))⟩ : Reply Res) ∈
      es := by
  have hback : ∀ {es : Replies}, Returns (writeBack env user body).run es (.ok edited) →
      ∃ u x, (⟨.sql (.stmt (.updateUser u)), (.ok x : Except DbError (Option User))⟩ : Reply Res) ∈
        es := by
    intro es h
    unfold writeBack at h
    obtain ⟨es₁, es₂, at_, rfl, -, h⟩ := h.seq
    obtain ⟨es₃, es₄, x, rfl, hwrite, -⟩ := h.seq
    rw [returns_sql hwrite]
    exact ⟨_, x, List.mem_append_right _ List.mem_cons_self⟩
  rw [updateUserRow_eq] at h
  split at h
  · obtain ⟨es₁, es₂, x, rfl, -, h⟩ := h.seq
    obtain ⟨u, y, hmem⟩ := hback h
    exact ⟨u, y, List.mem_append_right _ hmem⟩
  · exact hback h

/-- Whoever is not an admin is refused. -/
theorem returns_requireAdmin_error {r : AdminResponse}
    (h : Returns (requireAdmin env token).run es (.ok (.error r))) :
    ∀ summary, r ≠ .ok summary := by
  rintro summary rfl
  unfold requireAdmin at h
  split at h
  · cases h.ret.2
  · obtain ⟨es₁, es₂, session, rfl, -, h⟩ := h.seq
    split at h
    · obtain ⟨es₃, es₄, roles, rfl, -, h⟩ := h.seq
      split at h
      · cases h.ret.2
      · split at h
        · cases h.ret.2
        · cases h.ret.2
    · cases h.ret.2

theorem returns_updateUser {path : String} {summary : UserSummary}
    (h : Returns (updateUser env token path body).run es (.ok (.ok summary))) :
    ∃ u x, (⟨.sql (.stmt (.updateUser u)), (.ok x : Except DbError (Option User))⟩ : Reply Res) ∈
      es := by
  unfold updateUser at h
  obtain ⟨es₁, es₂, who, rfl, hwho, h⟩ := h.seq
  split at h
  · exact absurd h.ret.2.symm (returns_requireAdmin_error hwho summary)
  split at h
  · cases h.ret.2
  obtain ⟨es₃, es₄, found, rfl, -, h⟩ := h.seq
  split at h
  · cases h.ret.2
  obtain ⟨es₅, es₆, edited, rfl, hrow, -⟩ := h.seq
  obtain ⟨u, x, hmem⟩ := returns_updateUserRow hrow
  exact ⟨u, x, by simp [hmem]⟩

/-- The verification of an email address sets the column in one statement. -/
theorem issues_verifyEmail {req : HttpRequest} (hst : st.writesUsers = true)
    (h : Issues (SignupResource.verifyEmail env req token).run es (.sql (.stmt st))) :
    ∃ uid id, st = .verifyEmail uid id := by
  have hquery : ∀ q, (trySql (.query q)).Uses (Within [.read]) := fun q => uses_trySql rfl
  have hnow : now.Uses (Within [.read]) := uses_now rfl
  unfold SignupResource.verifyEmail SignupFlow.verifyEmail at h
  obtain ⟨es₁, es₂, _, rfl, -, h⟩ := skip_stmt (leavesUsers (uses_applyIpLimit _ _ _ _).uses rfl) hst h
  split at h
  · exact absurd h Issues.not_pure
  obtain ⟨es₃, es₄, found, rfl, -, h⟩ := skip_stmt (leavesUsers (hquery _) rfl) hst h
  split at h
  · exact absurd h Issues.not_pure
  · exact absurd h Issues.not_pure
  · next verification =>
    split at h
    · exact absurd h Issues.not_pure
    obtain ⟨es₅, es₆, at_, rfl, -, h⟩ := skip_stmt (leavesUsers hnow rfl) hst h
    split at h
    · exact absurd h Issues.not_pure
    rcases Issues.of_bindE h with h | ⟨es₇, es₈, x, rfl, -, h⟩
    · exact ⟨verification.userId, verification.id, stmt_of_issues (uses_trySql rfl) h⟩
    · split at h
      · exact absurd h Issues.not_pure
      · exact absurd h Issues.not_pure

theorem returns_verifyEmail {req : HttpRequest}
    (h : Returns (SignupResource.verifyEmail env req token).run es (.ok (.ok userId))) :
    ∃ id x, (⟨.sql (.stmt (.verifyEmail userId id)), (.ok x : Except DbError Unit)⟩ : Reply Res) ∈
      es := by
  unfold SignupResource.verifyEmail SignupFlow.verifyEmail at h
  obtain ⟨es₁, es₂, _, rfl, -, h⟩ := h.seq
  split at h
  · cases h.ret.2
  obtain ⟨es₃, es₄, found, rfl, -, h⟩ := h.seq
  split at h
  · cases h.ret.2
  · cases h.ret.2
  · next verification =>
    split at h
    · cases h.ret.2
    obtain ⟨es₅, es₆, at_, rfl, -, h⟩ := h.seq
    split at h
    · cases h.ret.2
    obtain ⟨es₇, es₈, x, rfl, hwrite, h⟩ := h.seq
    split at h
    · cases h.ret.2
    · next x =>
      obtain ⟨rfl, hid⟩ := h.ret
      cases hid
      refine ⟨verification.id, x, ?_⟩
      rw [returns_perform.mp hwrite]
      exact List.mem_append_right _ (List.mem_append_right _ (List.mem_append_right _
        List.mem_cons_self))

/-- Writing a user with success; a verification counts for its own user. -/
def userWrite (userId : Uuid) : Marking Res Unit
  | .sql (.stmt (.updateUser _)), .ok _ => some ()
  | .sql (.stmt (.verifyEmail uid _)), .ok _ => if uid = userId then some () else none
  | _, _ => none

theorem userOf_eq_some {w : World} {row : User} :
    userOf userId w = some row ↔ row ∈ w.pg.tables.users ∧ (row.id == userId) = true := by
  refine Table.find?_eq_some fun a b ha hb => ?_
  simp only [beq_iff_eq] at ha hb
  simp [Keyed.clash, ha, hb]

variable {tid : Nat} {op : Op} {ch : Choice} {w w' : World} {r : Res op} {row : User}

/-- A command that does not write users leaves the row alone. -/
theorem userOf_frame (he : World.exec env tid op ch w = some (r, w'))
    (hop : op.isStmt Stmt.writesUsers = false) :
    userOf userId w' = userOf userId w ∧ userWrite userId op r = none := by
  have husers : w'.pg.tables.users = w.pg.tables.users := by
    refine World.exec_frame Tables.users (fun _ _ => rfl) he fun st hst => ?_
    subst hst
    exact Stmt.users_effect hop _ _
  refine ⟨by rw [userOf, husers, userOf], ?_⟩
  unfold userWrite
  split
  · cases hop
  · cases hop
  · rfl

/-- Writing back the row that is stored with columns set turns it by the edit. -/
theorem userOf_updateUser {u : User} {y : Except DbError (Option User)}
    (he : World.exec env tid (.sql (.stmt (.updateUser u))) ch w = some (y, w'))
    (hrow : userOf userId w = some row) (hid : u.id = row.id) (hcreated : u.createdAt = row.createdAt) :
    (userOf userId w' = some row ∧ userWrite userId (.sql (.stmt (.updateUser u))) y = none) ∨
      userOf userId w' = some u := by
  obtain ⟨-, ⟨⟨e, rfl⟩, hpg⟩ | hexec⟩ := World.exec_stmt he
  · refine .inl ⟨?_, rfl⟩
    rw [userOf, hpg]
    exact hrow
  · obtain ⟨hmem, hkey⟩ := userOf_eq_some.mp hrow
    simp only [Stmt.exec, Postgres.updateUser] at hexec
    split at hexec
    · obtain ⟨rfl, hpg⟩ := Prod.mk.inj (Option.some.inj hexec)
      refine .inl ⟨?_, rfl⟩
      rw [userOf, ← hpg]
      exact hrow
    · next users husers =>
      obtain ⟨rfl, hpg⟩ := Prod.mk.inj (Option.some.inj hexec)
      refine .inr (userOf_eq_some.mpr ⟨?_, by rw [hid]; exact hkey⟩)
      rw [← hpg]
      refine (Table.mem_replace husers).mpr ⟨row, hmem, ?_⟩
      rw [if_pos (by simp [hid]), ← hid, ← hcreated]

/-- A verification sets the column of its own user. -/
theorem userOf_verifyEmail {uid id : Uuid} {y : Except DbError Unit}
    (he : World.exec env tid (.sql (.stmt (.verifyEmail uid id))) ch w = some (y, w'))
    (hrow : userOf userId w = some row) :
    (userOf userId w' = some row ∧ userWrite userId (.sql (.stmt (.verifyEmail uid id))) y = none) ∨
      userOf userId w' = some ((User.setVerified (w.now + ch.elapse)).apply row) := by
  obtain ⟨-, ⟨⟨e, rfl⟩, hpg⟩ | hexec⟩ := World.exec_stmt he
  · refine .inl ⟨?_, rfl⟩
    rw [userOf, hpg]
    exact hrow
  · obtain ⟨rfl, hpg⟩ := Prod.mk.inj (Option.some.inj hexec)
    have hfind : userOf userId w' = (userOf userId w).map fun u =>
        if u.id == uid then (User.setVerified (w.now + ch.elapse)).apply u else u := by
      rw [userOf, ← hpg]
      exact Table.find?_update fun _ => rfl
    rw [hrow, Option.map_some] at hfind
    have hkey := beq_iff_eq.mp (userOf_eq_some.mp hrow).2
    by_cases huid : uid = userId
    · rw [if_pos (by simp [hkey, huid])] at hfind
      exact .inr hfind
    · rw [if_neg (by simp [hkey, Ne.symm huid])] at hfind
      exact .inl ⟨hfind, if_neg huid⟩

/-- What a command of an edit does to the row. -/
theorem user_step (hcall : EditsUser env userId call)
    (hissues : Issues ((server env).program call) es op)
    (hsame : ∀ u found, op = .sql (.stmt (.updateUser u)) → userReply userId found ∈ es →
      userOf userId w = found)
    (he : World.exec env tid op ch w = some (r, w')) (hrow : userOf userId w = some row) :
    (userOf userId w' = some row ∧ userWrite userId op r = none) ∨
      ∃ row', userOf userId w' = some row' ∧ (userEdit call).Turns row row' := by
  cases hop : op.isStmt Stmt.writesUsers with
  | false =>
    obtain ⟨hsame, hmark⟩ := userOf_frame he hop
    exact .inl ⟨hsame.trans hrow, hmark⟩
  | true =>
    unfold Op.isStmt at hop
    split at hop
    · next st =>
      rw [server_program] at hissues
      cases call with
      | updateUser token path body =>
        obtain ⟨found, at_, hread, rfl⟩ := issues_updateUser hcall hop hissues
        cases hrow.symm.trans (hsame _ _ rfl hread)
        rcases userOf_updateUser he hrow rfl rfl with hkept | hnew
        · exact .inl hkept
        · exact .inr ⟨_, hnew, turns_applyUpdate row body at_⟩
      | verifyEmail req token =>
        obtain ⟨uid, id, rfl⟩ := issues_verifyEmail hop hissues
        rcases userOf_verifyEmail he hrow with hkept | hnew
        · exact .inl hkept
        · exact .inr ⟨_, hnew, turns_setVerified row _⟩
      | _ => cases hcall
    · cases hop

/-- A request that has succeeded may edit the user, and has written. -/
theorem UserEdited.edits {y : Ret call} (h : UserEdited env userId call y) :
    EditsUser env userId call := by
  cases call with
  | updateUser => exact h.1
  | verifyEmail => trivial
  | _ => cases h

theorem UserEdited.marked {R : Rules} {w₀ : World} {c : State} {i : Nat} {y : Ret call}
    (h : UserEdited env userId call y) (run : Run (server env) R (Config.start w₀) c)
    (ha : c.answered i call y) : c.moment.Marked (userWrite userId) i () := by
  have hret := (run.replayed (Config.start_replayed w₀)).returns ha
  rw [server_program] at hret
  rw [Moment.marked_iff_own]
  cases call with
  | updateUser token path body =>
    obtain ⟨-, summary, rfl⟩ := h
    obtain ⟨u, x, hmem⟩ := returns_updateUser hret
    exact ⟨_, hmem, rfl⟩
  | verifyEmail req token =>
    obtain rfl := h
    obtain ⟨id, x, hmem⟩ := returns_verifyEmail hret
    exact ⟨_, hmem, if_pos rfl⟩
  | _ => cases h

end Users

section Clients

variable {env : Env} {id : Uuid} {es : Replies} {st : Stmt}

/-- The secret of an edit is none, or the hash of the new one. -/
def SecretOf (env : Env) (body : ClientRequest) (secret : Option String) : Prop :=
  match body.clientSecret.filter fun s => s != "" with
  | none => secret = none
  | some s => ∃ salt, secret = some (ClientSecretHasher.hash env s salt)

/-- An edit writes the columns it sets and leaves the others as they were. -/
theorem turns_applyClientUpdate (client : Client) (body : ClientRequest) {secret : Option String}
    (hsecret : SecretOf env body secret) (at_ : NaiveDateTime) :
    (clientUpdateEdit env body).Turns client.toClientRow
      { (applyClientUpdate client body secret).toClientRow with updatedAt := at_ } := by
  unfold SecretOf at hsecret
  constructor
  · intro col vs h
    cases col
    case clientSecret =>
      obtain ⟨s, hs, rfl⟩ := Option.map_eq_some_iff.mp h
      rw [hs] at hsecret
      obtain ⟨salt, rfl⟩ := hsecret
      exact ⟨salt, rfl⟩
    all_goals
      obtain ⟨v, hv, rfl⟩ := Option.map_eq_some_iff.mp h
      simp only [clientColumns, applyClientUpdate, hv]
      rfl
  · intro col h
    cases col
    case clientSecret =>
      rw [Option.map_eq_none_iff.mp h] at hsecret
      obtain rfl := hsecret
      rfl
    all_goals
      have hnone := Option.map_eq_none_iff.mp h
      simp only [clientColumns, applyClientUpdate, hnone]
      rfl

/-- The kinds of statements that write clients. -/
theorem kind_of_writesClients (st : Stmt) (h : st.writesClients = true) :
    [.client, .drop].contains st.kind = true := by
  cases st with
  | insertClient | updateClient | deleteClient => rfl
  | _ => cases h

theorem leavesClients {α : Type} {h : Handler α} {ks : List Kind} (hu : h.Uses (Within ks))
    (hks : [.client, .drop].any ks.contains = false) :
    h.Uses fun op => op.isStmt Stmt.writesClients = false :=
  hu.not_isStmt kind_of_writesClients hks

variable {body : ClientRequest} {call : Call}

theorem returns_newSecret {secret : Option String}
    (h : Returns (newSecret env body).run es (.ok secret)) :
    SecretOf env body secret := by
  unfold newSecret at h
  unfold SecretOf
  cases hs : body.clientSecret.filter fun s => s != "" with
  | none =>
    rw [hs] at h
    exact h.ret.2
  | some s =>
    rw [hs] at h
    obtain ⟨es₁, es₂, salt, rfl, -, h⟩ := h.seq
    exact ⟨salt, h.ret.2⟩

theorem returns_findById {client : Client}
    (h : Returns (ClientRepository.findById id).run es (.ok (some client))) :
    clientReply id (some client.toClientRow) ∈ es := by
  unfold ClientRepository.findById at h
  obtain ⟨es₁, es₂, found, rfl, hread, h⟩ := h.seq
  rw [returns_sql hread]
  split at h
  · cases h.ret.2
  · next row =>
    obtain ⟨es₃, es₄, uris, rfl, -, h⟩ := h.seq
    obtain rfl := Option.some.inj h.ret.2
    exact List.mem_cons_self

/-- An edit of a client writes back the row it has read with its columns set. -/
theorem issues_updateClient {token : Option String} {path : String}
    (hpath : env.parseUuid path = some id) (hst : st.writesClients = true)
    (h : Issues (updateClient env token path body).run es (.sql (.stmt st))) :
    ∃ (found : Client) (secret : Option String) (at_ : NaiveDateTime),
      clientReply id (some found.toClientRow) ∈ es ∧ SecretOf env body secret ∧
      st = .updateClient
        { (applyClientUpdate found body secret).toClientRow with updatedAt := at_ } := by
  have hnow : now.Uses (Within [.read]) := uses_now rfl
  unfold updateClient at h
  obtain ⟨es₁, es₂, who, rfl, -, h⟩ :=
    skip_stmt (leavesClients (uses_requireAdmin env token).uses rfl) hst h
  split at h
  · exact absurd h Issues.not_pure
  rw [hpath] at h
  dsimp only at h
  obtain ⟨es₃, es₄, found, rfl, hread, h⟩ :=
    skip_stmt (leavesClients (ClientRepository.uses_findById id).uses rfl) hst h
  split at h
  · exact absurd h Issues.not_pure
  · next found =>
    obtain ⟨es₅, es₆, secret, rfl, hsecret, h⟩ :=
      skip_stmt (leavesClients (uses_newSecret env body).uses rfl) hst h
    obtain ⟨es₇, es₈, at_, rfl, -, h⟩ := skip_stmt (leavesClients hnow rfl) hst h
    have hmem : clientReply id (some found.toClientRow) ∈ es₁ ++ (es₃ ++ (es₅ ++ (es₇ ++ es₈))) :=
      List.mem_append_right _ (List.mem_append_left _ (returns_findById hread))
    refine ⟨found, secret, at_, hmem, returns_newSecret hsecret, ?_⟩
    rcases Issues.of_bindE h with h | ⟨es₉, es₁₀, x, rfl, -, h⟩
    · unfold ClientRepository.update at h
      rcases Issues.of_bindE h with h | ⟨es₉, es₁₀, updated, rfl, -, h⟩
      · exact issues_stmt h
      · refine absurd h (not_issues_stmt ?_ hst)
        split
        · exact uses_bind (leavesClients (ClientRepository.uses_invalidate _).uses rfl)
            fun _ => uses_pure _
        · exact uses_pure _
    · refine absurd h (not_issues_stmt ?_ hst)
      exact uses_bind (leavesClients (ClientRepository.uses_findById id).uses rfl) fun _ => uses_pure _

theorem returns_updateClient {token : Option String} {path : String} {summary : ClientSummary}
    (h : Returns (updateClient env token path body).run es (.ok (.ok summary))) :
    ∃ c x, (⟨.sql (.stmt (.updateClient c)), (.ok x : Except DbError (Option ClientRow))⟩ :
      Reply Res) ∈ es := by
  unfold updateClient at h
  obtain ⟨es₁, es₂, who, rfl, hwho, h⟩ := h.seq
  split at h
  · cases h.ret.2
  split at h
  · cases h.ret.2
  obtain ⟨es₃, es₄, found, rfl, -, h⟩ := h.seq
  split at h
  · cases h.ret.2
  obtain ⟨es₅, es₆, secret, rfl, -, h⟩ := h.seq
  obtain ⟨es₇, es₈, at_, rfl, -, h⟩ := h.seq
  obtain ⟨es₉, es₁₀, updated, rfl, hupdate, -⟩ := h.seq
  unfold ClientRepository.update at hupdate
  obtain ⟨es₁₁, es₁₂, x, rfl, hwrite, -⟩ := hupdate.seq
  rw [returns_sql hwrite]
  exact ⟨_, x, by
    refine List.mem_append_right _ (List.mem_append_right _ (List.mem_append_right _
      (List.mem_append_right _ (List.mem_append_left _ ?_))))
    exact List.mem_cons_self⟩

/-- Writing a client with success. -/
def clientWrite : Marking Res Unit
  | .sql (.stmt (.updateClient _)), .ok _ => some ()
  | _, _ => none

variable {tid : Nat} {op : Op} {ch : Choice} {w w' : World} {r : Res op} {row : ClientRow}

theorem clientOf_frame (he : World.exec env tid op ch w = some (r, w'))
    (hop : op.isStmt Stmt.writesClients = false) :
    clientOf id w' = clientOf id w ∧ clientWrite op r = none := by
  have hclients : w'.pg.tables.clients = w.pg.tables.clients := by
    refine World.exec_frame Tables.clients (fun _ _ => rfl) he fun st hst => ?_
    subst hst
    exact Stmt.clients_effect hop _ _
  refine ⟨by rw [clientOf, hclients, clientOf], ?_⟩
  unfold clientWrite
  split
  · cases hop
  · rfl

theorem clientOf_updateClient {c : ClientRow} {y : Except DbError (Option ClientRow)}
    (he : World.exec env tid (.sql (.stmt (.updateClient c))) ch w = some (y, w'))
    (hrow : clientOf id w = some row) (hid : c.id = row.id) :
    (clientOf id w' = some row ∧ clientWrite (.sql (.stmt (.updateClient c))) y = none) ∨
      clientOf id w' = some (c.setColumns.apply row) := by
  obtain ⟨-, ⟨⟨e, rfl⟩, hpg⟩ | hexec⟩ := World.exec_stmt he
  · refine .inl ⟨?_, rfl⟩
    rw [clientOf, hpg]
    exact hrow
  · obtain ⟨rfl, hpg⟩ := Prod.mk.inj (Option.some.inj hexec)
    refine .inr ?_
    have hfind : clientOf id w' = (clientOf id w).map fun r =>
        if r.id == c.id then c.setColumns.apply r else r := by
      rw [clientOf, ← hpg]
      exact Table.find?_update fun _ => rfl
    rw [hfind, hrow, Option.map_some, if_pos (by simp [hid])]

/-- What a command of an edit does to the row. -/
theorem client_step (hcall : EditsClient env id call)
    (hissues : Issues ((server env).program call) es op)
    (hsame : ∀ c found, op = .sql (.stmt (.updateClient c)) → clientReply id found ∈ es →
      clientOf id w = found)
    (he : World.exec env tid op ch w = some (r, w')) (hrow : clientOf id w = some row) :
    (clientOf id w' = some row ∧ clientWrite op r = none) ∨
      ∃ row', clientOf id w' = some row' ∧ (clientEdit env call).Turns row row' := by
  cases hop : op.isStmt Stmt.writesClients with
  | false =>
    obtain ⟨hsame, hmark⟩ := clientOf_frame he hop
    exact .inl ⟨hsame.trans hrow, hmark⟩
  | true =>
    unfold Op.isStmt at hop
    split at hop
    · next st =>
      rw [server_program] at hissues
      cases call with
      | adminUpdateClient token path body =>
        obtain ⟨found, secret, at_, hread, hsecret, rfl⟩ :=
          issues_updateClient hcall hop hissues
        cases hrow.symm.trans (hsame _ _ rfl hread)
        rcases clientOf_updateClient he hrow rfl with hkept | hnew
        · exact .inl hkept
        · exact .inr ⟨_, hnew, turns_applyClientUpdate found body hsecret at_⟩
      | _ => cases hcall
    · cases hop

theorem ClientEdited.edits {y : Ret call} (h : ClientEdited env id call y) :
    EditsClient env id call := by
  cases call with
  | adminUpdateClient => exact h.1
  | _ => cases h

theorem ClientEdited.marked {R : Rules} {w₀ : World} {c : State} {i : Nat} {y : Ret call}
    (h : ClientEdited env id call y) (run : Run (server env) R (Config.start w₀) c)
    (ha : c.answered i call y) : c.moment.Marked clientWrite i () := by
  have hret := (run.replayed (Config.start_replayed w₀)).returns ha
  rw [server_program] at hret
  rw [Moment.marked_iff_own]
  cases call with
  | adminUpdateClient token path body =>
    obtain ⟨-, summary, rfl⟩ := h
    obtain ⟨c, x, hmem⟩ := returns_updateClient hret
    exact ⟨_, hmem, rfl⟩
  | _ => cases h

end Clients

/-- No edit is lost while the row that is written back is the one that was read. -/
theorem edits_kept_if_unchanged (env : Env) : NothingLost env unchanged where
  user userId call call' w c i j y y' hw hapart run ha hy ha' hy' := by
    have hedits : ∀ x, (unchanged userId call call').admits x → EditsUser env userId x := by
      rintro x (rfl | rfl)
      · exact hy.edits
      · exact hy'.edits
    have hedited : c.Edited (userOf userId) userEdit (userWrite userId) := by
      refine run.edited hw (apart_of_pair hapart) ?_
      intro c₁ tid t op k ch r w' row run₁ ht hp hallow he hrow
      exact user_step (hedits _ (run₁.admitted t (List.mem_of_getElem? ht))) (run₁.issues ht hp)
        hallow.1 he hrow
    exact hedited.both ha ha' (hy.marked run ha) (hy'.marked run ha')
  client id call call' w c i j y y' hw hapart run ha hy ha' hy' := by
    have hedits : ∀ x, (unchanged id call call').admits x → EditsClient env id x := by
      rintro x (rfl | rfl)
      · exact hy.edits
      · exact hy'.edits
    have hedited : c.Edited (clientOf id) (clientEdit env) clientWrite := by
      refine run.edited hw (apart_of_pair hapart) ?_
      intro c₁ tid t op k ch r w' row run₁ ht hp hallow he hrow
      exact client_step (hedits _ (run₁.admitted t (List.mem_of_getElem? ht))) (run₁.issues ht hp)
        hallow.2 he hrow
    exact hedited.both ha ha' (hy.marked run ha) (hy'.marked run ha')

/-! ## Two edits at the same time -/

/-- A second user, whom the sample user may edit as an admin. -/
def bob : User := { Scenario.alice with id := 9, email := "bob@example.com", username := "bob" }

def sampleWorld : World :=
  Scenario.world { Scenario.tables with
    users := ⟨[Scenario.alice, bob], by decide⟩
    roles := Scenario.one ⟨10, "admin", none, none, 0⟩
    userRoles := Scenario.one ⟨1, 10⟩ }

/-- An edit of the second user. -/
def editBob (body : UserUpdateRequest) : Call :=
  .updateUser (some "session-a") "00000000-0000-0000-0000-000000000009" body

/-- One edit sets a name, the other disables the user. -/
def rename : UserUpdateRequest := { firstName := some "Bob" }

def disable : UserUpdateRequest := { enabled := some false }

/-- The user is read for the name to be set, then disabled, and then the name is written. -/
def renameAroundDisable : List (Label Call Choice) :=
  [.spawn (editBob rename), .spawn (editBob disable)] ++ Scenario.steps 0 10 ++
    Scenario.steps 1 13 ++ Scenario.steps 0 3

def isEdit (bodies : List UserUpdateRequest) : Call → Bool
  | .updateUser token path body =>
    token == some "session-a" && path == "00000000-0000-0000-0000-000000000009" &&
      bodies.contains body
  | _ => false

theorem eq_of_isEdit {bodies : List UserUpdateRequest} {call : Call}
    (h : isEdit bodies call = true) : ∃ body ∈ bodies, call = editBob body := by
  unfold isEdit at h
  split at h
  · next token path body =>
    simp only [Bool.and_eq_true, beq_iff_eq, List.contains_iff_mem] at h
    obtain ⟨⟨rfl, rfl⟩, hbody⟩ := h
    exact ⟨body, hbody, rfl⟩
  · cases h

/-- An edit of the second user that has succeeded. -/
def succeededAs (body : UserUpdateRequest) : (call : Call) → Ret call → Bool
  | .updateUser token path body', .ok (.ok _) => isEdit [body] (.updateUser token path body')
  | _, _ => false

theorem answered_of_succeededAs {c : State} {i : Nat} {body : UserUpdateRequest}
    (h : c.replied i (succeededAs body) = true) :
    ∃ summary, c.answered i (editBob body) (.ok (.ok summary)) := by
  obtain ⟨call, y, ha, hcall⟩ := Config.answered_of_replied h
  unfold succeededAs at hcall
  split at hcall
  · next summary =>
    obtain ⟨body', hbody, heq⟩ := eq_of_isEdit hcall
    obtain rfl := List.mem_singleton.mp hbody
    cases heq
    exact ⟨summary, ha⟩
  · cases hcall

/-- Setting a name enables a user again who has been disabled in between. -/
theorem disable_lost : ¬ NothingLost Scenario.lawfulEnv interleaved := by
  intro h
  have hplay : (Config.start sampleWorld : State).reaches (server Scenario.lawfulEnv)
      (isEdit [rename, disable]) (fun _ => true) renameAroundDisable
      (fun c => c.replied 0 (succeededAs rename) && c.replied 1 (succeededAs disable) &&
        (userOf 9 c.moment.world).any User.enabled) = true := by
    decide +kernel
  have hadmits : ∀ call, isEdit [rename, disable] call = true →
      (interleaved 9 (editBob rename) (editBob disable)).admits call := by
    intro call hcall
    obtain ⟨body, hbody, rfl⟩ := eq_of_isEdit hcall
    rcases List.mem_cons.mp hbody with rfl | hbody
    · exact .inl rfl
    · exact .inr (congrArg editBob (List.mem_singleton.mp hbody))
  obtain ⟨c, run, htest⟩ := Config.run_of_reaches hadmits (fun _ _ _ _ _ => trivial) hplay
  rw [Bool.and_eq_true, Bool.and_eq_true] at htest
  obtain ⟨⟨hrename, hdisable⟩, henabled⟩ := htest
  obtain ⟨summary, ha⟩ := answered_of_succeededAs hrename
  obtain ⟨summary', ha'⟩ := answered_of_succeededAs hdisable
  have hpath : Scenario.lawfulEnv.parseUuid "00000000-0000-0000-0000-000000000009" = some 9 := by
    decide +kernel
  have hapart : (userEdit (editBob rename)).Apart (userEdit (editBob disable)) := by
    intro col
    cases col with
    | firstName => exact .inr rfl
    | _ => exact .inl rfl
  obtain ⟨row, hrow, -, hcarries⟩ := h.user 9 _ _ sampleWorld c 0 1 _ _ rfl hapart run ha
    ⟨hpath, summary, rfl⟩ ha' ⟨hpath, summary', rfl⟩
  have hoff : row.enabled = false := hcarries .enabled _ rfl
  rw [hrow, Option.any_some, hoff] at henabled
  cases henabled

end EditRace

end AuthServer
