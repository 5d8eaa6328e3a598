import AuthServer.Alone
import AuthServer.Concurrent.Serial
import AuthServer.Site.Endpoints

/-!
# Only safe redirect URIs are registered

Rows of `redirect_uris` are written by `add_redirect_uri` and by the seeder of `web-app`, and
by nothing else; the first writes texts that pass its test, the second a fixed text.
-/

namespace AuthServer

open Concurrent Storage Handler AdminResource

namespace SafeUris

/-- The texts a command can insert. -/
def inserts : SiteOp → List String
  | .server (.sql (.stmt (.insertRedirectUri r))) => [r.uri]
  | .sql (.persistClient _ uris) => uris.map RedirectUri.uri
  | _ => []

/-- Every text that a command inserts is safe. -/
def InsertsSafe (op : SiteOp) : Prop := ∀ uri ∈ inserts op, SafeUri uri

/-- Every registered redirect URI is safe. -/
def SafeRows (s : Site) : Prop := ∀ r ∈ s.world.pg.tables.redirectUris, SafeUri r.uri

section Steps

variable {env : Env} {tid : Nat} {ch : Choice} {now : NaiveDateTime} {t : Tables}
  {pg pg' : Postgres} {row : RedirectUri}

/-- A statement on the pool adds the row it inserts and no other. -/
theorem mem_effect {st : Stmt} (h : row ∈ (st.effect now t).redirectUris) :
    row ∈ t.redirectUris ∨ st = .insertRedirectUri row := by
  cases st with
  | insertRedirectUri r =>
    cases hins : t.redirectUris.insert r with
    | none =>
      rw [Stmt.effect, hins] at h
      exact .inl h
    | some t' =>
      rw [Stmt.effect, hins] at h
      rcases (Table.mem_insert hins).mp h with hmem | rfl
      · exact .inl hmem
      · exact .inr rfl
  | deleteClient => exact .inl (Table.mem_delete.mp h).1
  | deleteRedirectUri => exact .inl (Table.mem_delete.mp h).1
  | updateCredential c =>
    simp only [Stmt.effect] at h
    split at h
    · exact .inl h
    · exact .inl h
  | _ => exact .inl h

/-- The rows of a persisted client have the texts that were given. -/
theorem mem_insertUris {clientId : Uuid} {uris : List RedirectUri} {t t' : Table RedirectUri}
    (h : insertUris clientId uris t = some t') (hrow : row ∈ t') :
    row ∈ t ∨ row.uri ∈ uris.map RedirectUri.uri := by
  induction uris generalizing t with
  | nil =>
    cases h
    exact .inl hrow
  | cons r rs ih =>
    obtain ⟨t₁, hins, hrest⟩ := Option.bind_eq_some_iff.mp h
    rcases ih hrest with hmem | hmem
    · rcases (Table.mem_insert hins).mp hmem with hmem | rfl
      · exact .inl hmem
      · exact .inr List.mem_cons_self
    · exact .inr (List.mem_cons_of_mem _ hmem)

/-- A command adds rows with the texts it inserts. -/
theorem mem_exec {op : SiteOp} {s s' : Site} {r : SiteRes op}
    (h : Site.exec env tid op ch s = some (r, s'))
    (hrow : row ∈ s'.world.pg.tables.redirectUris) :
    row ∈ s.world.pg.tables.redirectUris ∨ row.uri ∈ inserts op := by
  cases op with
  | server op =>
    obtain ⟨⟨x, w⟩, hexec, heq⟩ := Option.map_eq_some_iff.mp h
    cases heq
    rcases World.exec_tables hexec with htables | ⟨st, y, hop, htables⟩ | ⟨-, tokens, htables⟩
    · exact .inl (htables ▸ hrow)
    · rw [htables] at hrow
      rcases mem_effect hrow with hmem | rfl
      · exact .inl hmem
      · obtain rfl : op = _ := congrArg Sigma.fst hop
        exact .inr List.mem_cons_self
    · rw [htables] at hrow
      exact .inl hrow
  | role op =>
    obtain ⟨⟨x, store⟩, hexec, heq⟩ := Option.map_eq_some_iff.mp h
    cases heq
    exact .inl hrow
  | sql q =>
    rcases Site.exec_sql h with ⟨-, rfl⟩ | ⟨pg', hexec, rfl⟩
    · exact .inl hrow
    · cases q with
      | persistClient client uris =>
        rcases Postgres.persistClient_cases hexec with ⟨-, rfl⟩ | ⟨-, _, _, -, huris, rfl⟩
        · exact .inl hrow
        · exact mem_insertUris huris hrow
      | _ =>
        cases hexec
        exact .inl hrow

end Steps

section Programs

variable {α : Type} (env : Env)

/-- A command of the server that inserts nothing unsafe. -/
def Spares (op : Op) : Prop := InsertsSafe (.server op)

theorem spares_of_nil {op : Op} (h : inserts (.server op) = []) : Spares op := by
  intro uri huri
  rw [h] at huri
  cases huri

/-- Outside the statement of new redirect URIs nothing is inserted. -/
theorem spares_of_within {ks : List Kind} (hks : ks.contains .uri = false) {op : Op}
    (h : Within ks op) : Spares op := by
  intro uri huri
  unfold inserts at huri
  split at huri
  · next r heq =>
    cases heq
    exact absurd (h.symm.trans hks) (by decide)
  · next heq => cases heq
  · cases huri

theorem spares {h : Handler α} {ks : List Kind} (hf : Footprint h ks)
    (hks : ks.contains .uri = false) : h.Uses Spares :=
  hf.uses.of_within fun _ => spares_of_within hks

instance footprint_createClient (token : Option String) (body : ClientCreateRequest) :
    Footprint (createClient env token body) [.read, .fill, .touch, .client] := by
  unfold createClient
  exact .built

instance footprint_removeRedirectUri (token : Option String) (uriPath : String) :
    Footprint (removeRedirectUri env token uriPath) [.read, .fill, .touch, .client] := by
  unfold removeRedirectUri
  exact .built

instance footprint_deleteClient (token : Option String) (path : String) :
    Footprint (deleteClient env token path) [.read, .fill, .touch, .drop] := by
  unfold deleteClient
  exact .built

instance : Footprint (Bootstrap.adminUser env) [.read, .enrol, .credential] := by
  unfold Bootstrap.adminUser
  exact .built

/-- The endpoint inserts a text that has passed the test. -/
theorem spares_addRedirectUri (token : Option String) (path : String) (raw : Option String) :
    (addRedirectUri env token path raw).Uses Spares := by
  refine uses_bind (spares inferInstance rfl) fun r => ?_
  split
  · exact uses_pure _
  · split
    · exact uses_pure _
    · split
      · exact uses_pure _
      · next uri huri =>
        have hsafe : SafeUri uri := (checkRedirectUri_eq_ok.mp huri).2.2
        refine uses_bind (spares inferInstance rfl) fun c => ?_
        split
        · exact uses_pure _
        · refine uses_bind (uses_newUuid (spares_of_nil rfl)) fun _ => ?_
          refine uses_bind (uses_now (spares_of_nil rfl)) fun _ => ?_
          refine uses_bind (uses_bind (uses_stmt ?_) fun _ => ?_) fun _ => ?_
          · intro text htext
            obtain rfl := List.mem_singleton.mp htext
            exact hsafe
          · refine uses_bind (uses_query (spares_of_nil rfl)) fun row => ?_
            split
            · exact spares inferInstance rfl
            · exact uses_pure _
          · refine uses_bind (spares inferInstance rfl) fun c => ?_
            split
            · exact uses_pure _
            · exact uses_pure _

/-- The requests of the server insert nothing, the component call apart. -/
theorem spares_handler {call : Call} (h : call.isRepositoryWrite = false) :
    (handler env call).Uses Spares := by
  refine (handler_uses env call).of_within fun _ => spares_of_within ?_
  cases call with
  | addRedirectUri => cases h
  | _ => rfl

/-- What a program of the server inserts on the deployment. -/
theorem uses_spared {h : Handler α} (hh : h.Uses Spares) :
    (SiteHandler.server h).Uses InsertsSafe :=
  SiteHandler.uses_server hh fun _ hop => hop

theorem insertsSafe_of_nil {op : SiteOp} (h : inserts op = []) : InsertsSafe op := by
  intro uri huri
  rw [h] at huri
  cases huri

theorem uses_role {h : RoleHandler α} : (SiteHandler.role h).Uses InsertsSafe :=
  SiteHandler.uses_role fun _ => insertsSafe_of_nil rfl

theorem uses_persistClient (row : ClientRow) {uris : List RedirectUri}
    (h : ∀ r ∈ uris, SafeUri r.uri) : (Bootstrap.persistClient row uris).Uses InsertsSafe := by
  refine SiteHandler.uses_bind (SiteHandler.uses_sql ?_) fun _ => uses_spared (spares inferInstance rfl)
  intro uri huri
  obtain ⟨r, hr, rfl⟩ := List.mem_map.mp huri
  exact h r hr

theorem uses_ensureAdminUser : (Bootstrap.ensureAdminUser env).Uses InsertsSafe := by
  refine SiteHandler.uses_bind uses_role fun _ => ?_
  refine SiteHandler.uses_bind (uses_spared (spares inferInstance rfl)) fun user => ?_
  refine SiteHandler.uses_bind (uses_spared (uses_query (spares_of_nil rfl))) fun role => ?_
  split
  · exact SiteHandler.uses_throw _
  · refine SiteHandler.uses_bind (SiteHandler.uses_sql (insertsSafe_of_nil rfl)) fun assigned => ?_
    exact SiteHandler.uses_ite (uses_spared (uses_stmt (spares_of_nil rfl)))
      (SiteHandler.uses_pure _)

theorem safe_callback : SafeUri "http://localhost:3000/callback" :=
  ⟨"http", "localhost:3000/callback", by decide, by decide, by decide⟩

theorem uses_ensureWebApp : (Bootstrap.ensureWebApp env).Uses InsertsSafe := by
  refine SiteHandler.uses_bind (uses_spared (spares inferInstance rfl)) fun c => ?_
  split
  · exact SiteHandler.uses_pure _
  · refine SiteHandler.uses_bind (uses_spared (uses_now (spares_of_nil rfl))) fun _ => ?_
    refine SiteHandler.uses_bind (uses_spared (uses_newUuid (spares_of_nil rfl))) fun _ => ?_
    refine SiteHandler.uses_bind (uses_spared (uses_newUuid (spares_of_nil rfl))) fun _ => ?_
    refine uses_persistClient _ fun r hr => ?_
    obtain rfl := List.mem_singleton.mp hr
    exact safe_callback

theorem uses_ensureServiceClient : (Bootstrap.ensureServiceClient env).Uses InsertsSafe := by
  refine SiteHandler.uses_bind (uses_spared (spares inferInstance rfl)) fun c => ?_
  split
  · refine SiteHandler.uses_ite ?_ (SiteHandler.uses_pure _)
    refine SiteHandler.uses_bind (uses_spared (uses_perform (spares_of_nil rfl))) fun _ => ?_
    refine SiteHandler.uses_bind (SiteHandler.uses_sql (insertsSafe_of_nil rfl)) fun _ => ?_
    exact uses_spared (spares inferInstance rfl)
  · refine SiteHandler.uses_bind (uses_spared (uses_now (spares_of_nil rfl))) fun _ => ?_
    refine SiteHandler.uses_bind (uses_spared (uses_newUuid (spares_of_nil rfl))) fun _ => ?_
    refine SiteHandler.uses_bind (uses_spared (uses_perform (spares_of_nil rfl))) fun _ => ?_
    exact uses_persistClient _ fun _ hr => (by cases hr)

/-- The seeders insert one redirect URI, the one of `web-app`. -/
theorem uses_start : (Bootstrap.start env).Uses InsertsSafe := by
  refine SiteHandler.uses_bind uses_role fun _ => ?_
  refine SiteHandler.uses_bind (uses_ensureAdminUser env) fun _ => ?_
  refine SiteHandler.uses_bind uses_role fun _ => ?_
  exact SiteHandler.uses_bind (uses_ensureWebApp env) fun _ => uses_ensureServiceClient env

theorem uses_query_site (q : Query) : (SiteHandler.server (query q)).Uses InsertsSafe :=
  uses_spared (uses_query (spares_of_nil rfl))

theorem uses_namesOf (userId : Uuid) :
    (SiteHandler.server (RoleResource.namesOf userId)).Uses InsertsSafe :=
  uses_spared (uses_bind (uses_query (spares_of_nil rfl)) fun _ => uses_pure _)

theorem uses_tryRole {h : RoleHandler α} : (SiteHandler.tryRole h).Uses InsertsSafe :=
  SiteHandler.uses_tryRole fun _ => insertsSafe_of_nil rfl

theorem uses_assignRole (token : Option String) (path roleName : String) :
    (RoleResource.assignRole env token path roleName).Uses InsertsSafe := by
  refine SiteHandler.uses_bind (uses_spared (spares inferInstance rfl)) fun r => ?_
  split
  · exact SiteHandler.uses_pure _
  · split
    · exact SiteHandler.uses_pure _
    · refine SiteHandler.uses_bind (uses_query_site _) fun user => ?_
      refine SiteHandler.uses_bind (uses_query_site _) fun role => ?_
      split
      · refine SiteHandler.uses_bind (SiteHandler.uses_sql (insertsSafe_of_nil rfl)) fun _ => ?_
        refine SiteHandler.uses_ite ?_ ?_
        · refine SiteHandler.uses_bind ?_ fun _ => ?_
          · exact uses_spared (uses_ignore (uses_stmt (spares_of_nil rfl)))
          · exact SiteHandler.uses_bind (uses_namesOf _) fun _ => SiteHandler.uses_pure _
        · exact SiteHandler.uses_bind (uses_namesOf _) fun _ => SiteHandler.uses_pure _
      · exact SiteHandler.uses_pure _

theorem uses_revokeRole (token : Option String) (path roleName : String) :
    (RoleResource.revokeRole env token path roleName).Uses InsertsSafe := by
  refine SiteHandler.uses_bind (uses_spared (spares inferInstance rfl)) fun r => ?_
  split
  · exact SiteHandler.uses_pure _
  · split
    · exact SiteHandler.uses_pure _
    · refine SiteHandler.uses_bind (uses_query_site _) fun role => ?_
      split
      · exact SiteHandler.uses_pure _
      · refine SiteHandler.uses_bind (SiteHandler.uses_perform (insertsSafe_of_nil rfl))
          fun _ => ?_
        exact SiteHandler.uses_bind (uses_namesOf _) fun _ => SiteHandler.uses_pure _

theorem uses_setRoleParent (token : Option String) (child parent : String) :
    (RoleResource.setRoleParent env token child parent).Uses InsertsSafe := by
  refine SiteHandler.uses_bind (uses_spared (spares inferInstance rfl)) fun r => ?_
  split
  · exact SiteHandler.uses_pure _
  · refine SiteHandler.uses_bind (uses_query_site _) fun role => ?_
    refine SiteHandler.uses_bind (uses_query_site _) fun parent => ?_
    split
    · refine SiteHandler.uses_bind uses_tryRole fun y => ?_
      split
      · exact SiteHandler.uses_pure _
      · exact SiteHandler.uses_pure _
      · exact SiteHandler.uses_throw _
    · exact SiteHandler.uses_pure _

theorem uses_clearRoleParent (token : Option String) (child : String) :
    (RoleResource.clearRoleParent env token child).Uses InsertsSafe := by
  refine SiteHandler.uses_bind (uses_spared (spares inferInstance rfl)) fun r => ?_
  split
  · exact SiteHandler.uses_pure _
  · refine SiteHandler.uses_bind (uses_query_site _) fun role => ?_
    split
    · exact SiteHandler.uses_pure _
    · exact SiteHandler.uses_bind uses_tryRole fun _ => SiteHandler.uses_pure _

/-- No request from outside inserts an unsafe text. -/
theorem uses_endpoint {call : SiteCall} (h : endpoints.admits call) :
    (siteHandler env call).Uses InsertsSafe := by
  cases call with
  | request call => exact uses_spared (spares_handler env h)
  | createClient => exact uses_spared (spares (footprint_createClient env _ _) rfl)
  | deleteClient => exact uses_spared (spares (footprint_deleteClient env _ _) rfl)
  | addRedirectUri => exact uses_spared (spares_addRedirectUri env _ _ _)
  | removeRedirectUri => exact uses_spared (spares (footprint_removeRedirectUri env _ _) rfl)
  | assignRole => exact uses_assignRole env _ _ _
  | revokeRole => exact uses_revokeRole env _ _ _
  | setRoleParent => exact uses_setRoleParent env _ _ _
  | clearRoleParent => exact uses_clearRoleParent env _ _
  | start => exact uses_start env

end Programs

/-- Only safe schemes are ever registered. -/
structure OnlySafeSchemes (env : Env) : Prop where
  /-- From a database with safe rows, such as the empty one, no run of seeders and requests, in
  any interleaving and with any failures, registers an unsafe redirect URI. -/
  rows : ∀ s c, SafeRows s → Run (site env) endpoints (Config.start s) c → SafeRows c.moment.world
  /-- The test of `add_redirect_uri` accepts a text when its trimmed form is not empty and of the
  grammar, and it is this form that is registered. -/
  test : ∀ raw uri, AdminResource.checkRedirectUri raw = .ok uri ↔
    uri = Text.trim (raw.getD "") ∧ uri ≠ "" ∧ SafeUri uri

theorem only_safe_schemes (env : Env) : OnlySafeSchemes env where
  rows := by
    intro s c hs run
    refine run.keeps (J := fun m => SafeRows m.world) (fun call => uses_endpoint env) ?_ hs
    intro m tid op ch r s' hsafe hop _ hexec row hrow
    rcases mem_exec hexec hrow with hold | hnew
    · exact hsafe row hold
    · exact hop _ hnew
  test _ _ := checkRedirectUri_eq_ok

end SafeUris

end AuthServer
