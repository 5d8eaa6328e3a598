import AuthServer.Footprint
import AuthServer.Site.Seeders

/-!
# The requests of a deployment

The role endpoints of the admin API, and the server that executes them together with the
requests of the server and the seeders.
-/

namespace AuthServer

open Concurrent Handler

namespace RoleResource

variable (env : Env)

/-- The responses of the role endpoints. -/
inductive Response where
  | ok (message : String) (roles : List String)
  | parentSet (child parent : String)
  | parentCleared (child : String)
  | rejected (r : AdminResponse)
  deriving DecidableEq

/-- The names of the roles of a user. -/
def namesOf (userId : Uuid) : Handler (List String) := do
  let roles : List Role ← query (.rolesByUser userId)
  return roles.map Role.name

/-- The outcome of the insertion is dropped. -/
def assignRole (token : Option String) (path roleName : String) : SiteHandler Response := do
  match ← SiteHandler.server (AdminResource.requireAdmin env token) with
  | .error r => return .rejected r
  | .ok _ =>
    match env.parseUuid path with
    | none => return .rejected (.badRequest "invalid userId")
    | some userId =>
      let user : Option User ← SiteHandler.server (query (.userById userId))
      let role : Option Role ← SiteHandler.server (query (.roleByName roleName))
      match user, role with
      | some _, some role =>
        let assigned ← SiteHandler.sql (.isAssigned userId role.id)
        if !(assigned : Bool) then
          SiteHandler.server (ignore (stmt (.insertUserRole ⟨userId, role.id⟩)))
        let names ← SiteHandler.server (namesOf userId)
        return .ok "role assigned" names
      | _, _ => return .rejected (.notFound "user or role not found")

/-- The outcome of the deletion is dropped. -/
def revokeRole (token : Option String) (path roleName : String) : SiteHandler Response := do
  match ← SiteHandler.server (AdminResource.requireAdmin env token) with
  | .error r => return .rejected r
  | .ok _ =>
    match env.parseUuid path with
    | none => return .rejected (.badRequest "invalid userId")
    | some userId =>
      match ← SiteHandler.server (query (.roleByName roleName)) with
      | none => return .rejected (.notFound "role not found")
      | some (role : Role) =>
        let _ ← SiteHandler.perform (.sql (.unassign userId role.id))
        let names ← SiteHandler.server (namesOf userId)
        return .ok "role revoked" names

def setRoleParent (token : Option String) (childName parentName : String) :
    SiteHandler Response := do
  match ← SiteHandler.server (AdminResource.requireAdmin env token) with
  | .error r => return .rejected r
  | .ok _ =>
    let child : Option Role ← SiteHandler.server (query (.roleByName childName))
    let parent : Option Role ← SiteHandler.server (query (.roleByName parentName))
    match child, parent with
    | some child, some parent =>
      match ← SiteHandler.tryRole (RoleRepository.setParent child.id (some parent.id)) with
      | .ok _ => return .parentSet childName parentName
      | .error (.cycle message) => return .rejected (.badRequest message)
      | .error (.db e) => throw (.db e)
    | _, _ => return .rejected (.notFound "role not found")

/-- The outcome of the change is dropped. -/
def clearRoleParent (token : Option String) (childName : String) : SiteHandler Response := do
  match ← SiteHandler.server (AdminResource.requireAdmin env token) with
  | .error r => return .rejected r
  | .ok _ =>
    match ← SiteHandler.server (query (.roleByName childName)) with
    | none => return .rejected (.notFound "role not found")
    | some (child : Role) =>
      let _ ← SiteHandler.tryRole (RoleRepository.setParent child.id none)
      return .parentCleared childName

end RoleResource

/-- A request to a deployment, or the start of one of its processes. -/
inductive SiteCall where
  | request (call : Call)
  | createClient (token : Option String) (body : ClientCreateRequest)
  | deleteClient (token : Option String) (path : String)
  | addRedirectUri (token : Option String) (path : String) (uri : Option String)
  | removeRedirectUri (token : Option String) (uriPath : String)
  | assignRole (token : Option String) (path roleName : String)
  | revokeRole (token : Option String) (path roleName : String)
  | setRoleParent (token : Option String) (childName parentName : String)
  | clearRoleParent (token : Option String) (childName : String)
  | start

/-- What a request answers with when it does not end with a propagated error. -/
def SiteCall.Answer : SiteCall → Type
  | .request call => call.Answer
  | .createClient _ _ | .addRedirectUri _ _ _ => Except AdminResponse ClientSummary
  | .deleteClient _ _ | .removeRedirectUri _ _ => AdminResponse
  | .assignRole _ _ _ | .revokeRole _ _ _ | .setRoleParent _ _ _ | .clearRoleParent _ _ =>
    RoleResource.Response
  | .start => Unit

/-- What a request ends with. -/
abbrev SiteRet (c : SiteCall) : Type := Except Failure c.Answer

/-- The handler of a request. -/
def siteHandler (env : Env) : (c : SiteCall) → SiteHandler c.Answer
  | .request call => SiteHandler.server (handler env call)
  | .createClient token body => SiteHandler.server (AdminResource.createClient env token body)
  | .deleteClient token path => SiteHandler.server (AdminResource.deleteClient env token path)
  | .addRedirectUri token path uri =>
    SiteHandler.server (AdminResource.addRedirectUri env token path uri)
  | .removeRedirectUri token uriPath =>
    SiteHandler.server (AdminResource.removeRedirectUri env token uriPath)
  | .assignRole token path roleName => RoleResource.assignRole env token path roleName
  | .revokeRole token path roleName => RoleResource.revokeRole env token path roleName
  | .setRoleParent token child parent => RoleResource.setRoleParent env token child parent
  | .clearRoleParent token child => RoleResource.clearRoleParent env token child
  | .start => Bootstrap.start env

/-- The server of a deployment. -/
def site (env : Env) : Server SiteRes Site Choice SiteRet where
  exec := Site.exec env
  program c := (siteHandler env c).run

abbrev SiteRules := Regime SiteRes Site Choice SiteCall

/-- A component call stands for no request of its own where statements are about a component;
the endpoints of clients and redirect URIs are calls of the deployment. -/
def Call.isRepositoryWrite : Call → Bool
  | .createClient _ | .updateClient _ | .deleteClient _ | .addRedirectUri _
  | .removeRedirectUri _ => true
  | _ => false

/-- The requests that arrive from outside. -/
def endpoints : SiteRules where
  admits
    | .request call => call.isRepositoryWrite = false
    | _ => True

/-! ## What the programs of a deployment issue -/

namespace SiteHandler

variable {α β : Type} {ok : SiteOp → Prop}

/-- Every command the handler can issue satisfies a predicate. -/
def Uses (h : SiteHandler α) (ok : SiteOp → Prop) : Prop := h.run.Uses ok

theorem uses_pure (x : α) : Uses (pure x) ok := trivial

theorem uses_throw (e : Failure) : Uses (throw e : SiteHandler α) ok := trivial

theorem uses_bind {h : SiteHandler α} {f : α → SiteHandler β} (hh : h.Uses ok)
    (hf : ∀ x, (f x).Uses ok) : (h >>= f).Uses ok := Prog.Uses.bindE hh hf

theorem uses_ite {c : Prop} [Decidable c] {h h' : SiteHandler α} (h₁ : h.Uses ok)
    (h₂ : h'.Uses ok) : Uses (if c then h else h') ok := by
  split
  · exact h₁
  · exact h₂

theorem uses_perform {op : SiteOp} (h : ok op) : (perform op).Uses ok := ⟨h, fun _ => trivial⟩

theorem uses_sql {q : SiteSql} (h : ok (.sql q)) : (sql q).Uses ok := by
  refine uses_bind (uses_perform h) fun r => ?_
  cases r <;> trivial

/-- A program of the server issues what it issues there. -/
theorem uses_server {h : Handler α} {own : Op → Prop} (hh : h.Uses own)
    (hok : ∀ op, own op → ok (.server op)) : (server h).Uses ok :=
  hh.run.translate fun op hop => ⟨hok op hop, fun _ => trivial⟩

theorem uses_tryRole {h : RoleHandler α} (hok : ∀ op, ok (.role op)) : (tryRole h).Uses ok := by
  have huses : h.run.Uses fun _ => True := Prog.uses_true _
  have hrole : (h.run.translate fun op => Prog.perform (.role op) : Prog SiteRes _).Uses ok :=
    huses.translate fun op _ => ⟨hok op, fun _ => trivial⟩
  exact Prog.Uses.bind hrole fun _ => trivial

theorem uses_role {h : RoleHandler α} (hok : ∀ op, ok (.role op)) : (role h).Uses ok := by
  refine uses_bind (uses_tryRole hok) fun r => ?_
  split <;> trivial

end SiteHandler

end AuthServer
