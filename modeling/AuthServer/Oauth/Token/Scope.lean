import AuthServer.Oauth.Token.Exchange
import AuthServer.Scenario

/-!
# Scopes along a chain of refreshes

The scope of a grant is stored with the code or the device authorization, but not with
the refresh token: a refresh issues the scopes that are registered for the client at
that moment. A chain therefore stays inside the scope it started with exactly when
the client's registered scopes do, at each refresh.
-/

namespace AuthServer

open Concurrent Handler

/-- The scopes an access token carries. -/
def Jwt.scopes (token : Jwt) : List String :=
  match token.claims.get "scope" with
  | some (.str s) => Scopes.parse (some s)
  | _ => []

namespace ScopeChain

/-- The scope of a grant, when its code or device authorization is read. -/
def granted : Marking Res (Option String)
  | .redis (.authCode (.getdel _)), .ok (some code) => some code.scope
  | .redis (.device (.hgetall _)), .ok fields => some (Storage.Fields.get fields "scope")
  | _, _ => none

/-- The registered scopes of a client, when it is read from the cache or the table. -/
def registered : Marking Res (Option String)
  | .redis (.client (.get _)), .ok (some snap) => some snap.scopes
  | .sql (.query (.clientByClientId _)), .ok (some row) => some row.scopes
  | _, _ => none

/-- The grants that start a chain. -/
def initialGrants : List String :=
  ["authorization_code", "urn:ietf:params:oauth:grant-type:device_code"]

/-- A chain of successful answers, the last one first, that started with a scope, and the
registered scopes that its refreshes have read. -/
inductive Chain (c : State) (scope : Option String) : List TokenPayload → List (Option String) → Prop
  | grant {i req payload g} (ha : c.answered i (.token req) (.ok (.success payload)))
      (hg : req.grantType = some g) (hinit : g ∈ initialGrants)
      (hs : c.moment.Marked granted i scope) : Chain c scope [payload] []
  | refresh {i req payload payload' ps rs r} (chain : Chain c scope (payload :: ps) rs)
      (ha : c.answered i (.token req) (.ok (.success payload')))
      (hg : req.grantType = some "refresh_token")
      (htoken : req.refreshToken = payload.refreshToken)
      (hr : c.moment.Marked registered i r) : Chain c scope (payload' :: payload :: ps) (r :: rs)

/-- No access token of a chain goes beyond the scope the chain started with. -/
def NeverWidens (c : State) : Prop :=
  ∀ scope ps rs, Chain c scope ps rs →
    ∀ p ∈ ps, p.accessToken.scopes ⊆ Scopes.parse scope

section Proof

variable {env : Env} {es : Replies} {req : TokenRequest} {payload : TokenPayload}

theorem parse_getD (scope : Option String) :
    Scopes.parse (some (scope.getD "")) = Scopes.parse scope := by
  cases scope with
  | none => rfl
  | some s => rfl

variable {clientId : String} {e : Reply Res} {scope : Option String}

theorem scopes_of_binds {userId sessionId : Uuid} {scope nonce : Option String}
    (h : payload.Binds env userId sessionId clientId scope nonce) :
    payload.accessToken.scopes = Scopes.parse scope := by
  rw [Jwt.scopes, h.scopes, ← parse_getD scope]

/-- Issuing tokens reads neither grants nor clients. -/
theorem unmarked_of_issuing {op : Op} (r : Res op) (h : op.issuing = true) :
    granted op r = none ∧ registered op r = none := by
  constructor
  · unfold granted
    split
    · cases h
    · cases h
    · rfl
  · unfold registered
    split
    · cases h
    · cases h
    · rfl

theorem granted_of_clientFound {client : Client} (h : ClientFound env clientId es client)
    : ∀ e ∈ es, granted e.1 e.2 = none := by
  cases h with
  | cached snap => simp [granted]
  | stored => simp [granted]

theorem registered_of_clientFound {client : Client} (h : ClientFound env clientId es client)
    (he : e ∈ es) {r : Option String} (hr : registered e.1 e.2 = some r) : r = client.scopes := by
  cases h with
  | cached snap =>
    obtain rfl := List.mem_singleton.mp he
    exact (Option.some.inj hr).symm
  | stored miss row uris ttl filled hmiss =>
    simp only [List.mem_cons, List.not_mem_nil, or_false] at he
    rcases he with rfl | rfl | rfl | rfl | rfl
    · cases miss with
      | error text => cases hr
      | ok found =>
        cases found with
        | none => cases hr
        | some snap => exact absurd rfl (hmiss snap)
    · exact (Option.some.inj hr).symm
    · cases hr
    · cases hr
    · cases hr

/-- The access token of a code exchange has the scope of the code. -/
theorem scopes_of_codeGrant {g : CodeGrant} (hv : g.Valid env req payload)
    (he : e ∈ g.replies env req) (hs : granted e.1 e.2 = some scope) :
    payload.accessToken.scopes = Scopes.parse scope := by
  obtain ⟨hbinds, -, hissuing⟩ := returns_issue hv.issued
  have hscope : scope = g.authCode.scope := by
    simp only [CodeGrant.replies, List.mem_append, List.mem_cons, List.not_mem_nil, or_false] at he
    rcases he with ((he | he) | he) | he
    · rw [granted_of_clientFound hv.client.found e he] at hs
      cases hs
    · rcases he with rfl | rfl | rfl | rfl | rfl | rfl
      · exact (Option.some.inj hs).symm
      all_goals cases hs
    · rw [(unmarked_of_issuing e.2 (hissuing e he)).1] at hs
      cases hs
    · subst he
      cases hs
  rw [scopes_of_binds hbinds, hscope]

theorem scopes_of_deviceGrant {g : DeviceGrant} (hv : g.Valid env req payload)
    (he : e ∈ g.replies env req) (hs : granted e.1 e.2 = some scope) :
    payload.accessToken.scopes = Scopes.parse scope := by
  obtain ⟨hbinds, -, hissuing⟩ := returns_issue hv.issued
  have hscope : scope = g.auth.scope := by
    simp only [DeviceGrant.replies, List.mem_append, List.mem_cons, List.not_mem_nil, or_false] at he
    rcases he with ((((he | he) | he) | he) | he) | he
    · rw [granted_of_clientFound hv.client.found e he] at hs
      cases hs
    · rcases he with rfl | rfl | rfl | rfl
      · rw [← (DeviceAuthorizationRepository.readsAs_of_fromFields env hv.parsed).scope]
        exact (Option.some.inj hs).symm
      all_goals cases hs
    · unfold consumedReplies at he
      split at he
      · simp only [List.mem_cons, List.not_mem_nil, or_false] at he
        rcases he with rfl | rfl
        · cases hs
        · cases hs
      · obtain rfl := List.mem_singleton.mp he
        cases hs
    · subst he
      cases hs
    · rw [(unmarked_of_issuing e.2 (hissuing e he)).1] at hs
      cases hs
    · subst he
      cases hs
  rw [scopes_of_binds hbinds, hscope]

/-- The access token of a refresh has the registered scopes that the refresh has read. -/
theorem scopes_of_refreshGrant {g : RefreshGrant} (hv : g.Valid env req payload) {r : Option String}
    (he : e ∈ g.replies env req) (hr : registered e.1 e.2 = some r) :
    payload.accessToken.scopes = Scopes.parse r := by
  obtain ⟨hbinds, -, hissuing⟩ := returns_issue hv.issued
  have hscope : r = g.client.scopes := by
    simp only [RefreshGrant.replies, List.mem_append, List.mem_cons, List.not_mem_nil, or_false] at he
    rcases he with ((he | he) | he) | he
    · exact registered_of_clientFound hv.client.found he hr
    · rcases he with rfl | rfl | rfl | rfl | rfl | rfl
      all_goals cases hr
    · rw [(unmarked_of_issuing e.2 (hissuing e he)).2] at hr
      cases hr
    · subst he
      cases hr
  rw [scopes_of_binds hbinds, hscope]

/-- The first access token of a chain has the scope of the chain, and each later one the scopes
that its refresh has read. -/
theorem scopes_of_chain {c : State} (hc : c.Replayed (server env)) {ps : List TokenPayload}
    {rs : List (Option String)} (h : Chain c scope ps rs) :
    ps.map (fun p => p.accessToken.scopes) = (rs ++ [scope]).map Scopes.parse := by
  induction h with
  | @grant i req payload g ha hg hinit hs =>
    obtain ⟨e, he, hs⟩ := Moment.marked_iff_own.mp hs
    have hscopes : payload.accessToken.scopes = Scopes.parse scope := by
      cases returns_token (hc.returns ha) with
      | code g _ hes hv => exact scopes_of_codeGrant hv (hes ▸ he) hs
      | device g _ hes hv => exact scopes_of_deviceGrant hv (hes ▸ he) hs
      | refresh g hrefresh =>
        cases hrefresh.symm.trans hg
        simp [initialGrants] at hinit
      | credentials hcred =>
        cases hcred.symm.trans hg
        simp [initialGrants] at hinit
    simp [hscopes]
  | @refresh i req payload payload' ps rs r chain ha hg htoken hr ih =>
    obtain ⟨e, he, hr⟩ := Moment.marked_iff_own.mp hr
    have hscopes : payload'.accessToken.scopes = Scopes.parse r := by
      cases returns_token (hc.returns ha) with
      | refresh g _ hes hv => exact scopes_of_refreshGrant hv (hes ▸ he) hr
      | code g hother => exact absurd (hother.symm.trans hg) (by decide)
      | device g hother => exact absurd (hother.symm.trans hg) (by decide)
      | credentials hother => exact absurd (hother.symm.trans hg) (by decide)
    rw [List.map_cons, hscopes, ih]
    rfl

end Proof

section Counterexample

open Scenario

/-- A code for scope `openid` is exchanged, and the tokens are refreshed. -/
def exchangeAndRefresh : List (Label Call Choice) :=
  [.spawn (.authorize authorizeRequest)] ++ issueCode 0 "code-a" ++
    [.spawn (.token (codeRequest "code-a"))] ++ steps 1 7 ++ issueTokens 1 10 11 12 "refresh-a" ++
    [.spawn (.token (refreshRequest "refresh-a"))] ++ steps 2 7 ++ issueTokens 2 13 14 15 "refresh-b"

/-- The tokens of a grant have given scopes and a given refresh token. -/
def carries (raw : String) (scopes : List String) (x : TokenRequest × TokenPayload) : Bool :=
  x.2.accessToken.scopes == scopes && x.2.refreshToken == some raw

/-- The chain of the schedule: its scope is `openid`, its second access token has all the scopes
of the client. -/
theorem exchangeAndRefresh_chain : ∃ c : State,
    Run (server Scenario.env) {} (Config.start (world tables)) c ∧
      ∃ p p', p'.accessToken.scopes = ["openid", "profile", "email"] ∧
        Chain c (some "openid") [p', p] [some "openid profile email"] := by
  have hplay : (Config.start (world tables) : State).reaches (server Scenario.env) (fun _ => true)
      succeeds exchangeAndRefresh (fun c =>
        (issued? c 1).any (fun x => carries "refresh-a" ["openid"] x &&
          x.1.grantType == some "authorization_code") &&
        (issued? c 2).any (fun x => carries "refresh-b" ["openid", "profile", "email"] x &&
          (x.1.grantType == some "refresh_token" && x.1.refreshToken == some "refresh-a")) &&
        c.moment.marks granted 1 (some "openid") &&
        c.moment.marks registered 2 (some "openid profile email")) = true := by
    decide +kernel
  obtain ⟨c, run, hc⟩ := Config.run_of_reaches (R := {}) (fun _ _ => trivial)
    (fun _ _ _ _ _ => trivial) hplay
  simp only [Bool.and_eq_true, Option.any_eq_true, beq_iff_eq, carries] at hc
  obtain ⟨⟨⟨⟨⟨req, p⟩, hp, ⟨-, hraw⟩, hgrant⟩, ⟨req', p'⟩, hp', ⟨hscopes, -⟩, hgrant', htoken⟩,
    hscope⟩, hread⟩ := hc
  refine ⟨c, run, p, p', hscopes, .refresh ?_ (answered_of_issued? hp') hgrant'
    (htoken.trans hraw.symm) (Moment.marked_of_marks hread)⟩
  exact .grant (answered_of_issued? hp) hgrant (by simp [initialGrants])
    (Moment.marked_of_marks hscope)

/-- A refresh issues scopes that the user has never been asked about. -/
theorem not_never_widens : ¬ ∀ c : State,
    Run (server Scenario.env) {} (Config.start (world tables)) c → NeverWidens c := by
  intro h
  obtain ⟨c, run, p, p', hscopes, chain⟩ := exchangeAndRefresh_chain
  have hsub := h c run _ _ _ chain p' List.mem_cons_self
  rw [hscopes] at hsub
  exact absurd (hsub (show "email" ∈ _ by simp)) (by decide)

end Counterexample

/-- A chain stays inside its scope exactly when the registered scopes that its refreshes have read
do. -/
theorem never_widens_iff (env : Env) (w : World) (c : State)
    (run : Run (server env) {} (Config.start w) c) (scope : Option String)
    (ps : List TokenPayload) (rs : List (Option String)) (h : Chain c scope ps rs) :
    (∀ p ∈ ps, p.accessToken.scopes ⊆ Scopes.parse scope) ↔
      ∀ r ∈ rs, Scopes.parse r ⊆ Scopes.parse scope := by
  have hchain := scopes_of_chain (run.replayed (Config.start_replayed w)) h
  calc (∀ p ∈ ps, p.accessToken.scopes ⊆ Scopes.parse scope)
      ↔ ∀ s ∈ ps.map fun p => p.accessToken.scopes, s ⊆ Scopes.parse scope := by simp
    _ ↔ ∀ s ∈ (rs ++ [scope]).map Scopes.parse, s ⊆ Scopes.parse scope := by rw [hchain]
    _ ↔ ∀ r ∈ rs, Scopes.parse r ⊆ Scopes.parse scope := by
        simp only [List.forall_mem_map, List.forall_mem_append, List.forall_mem_singleton,
          List.Subset.refl, and_true]

/-- The chain of the schedule widens, because the registered scopes go beyond its scope. -/
theorem never_widens_iff_exchange : ∃ (c : State) (ps : List TokenPayload),
    Chain c (some "openid") ps [some "openid profile email"] ∧
      ¬ ∀ p ∈ ps, p.accessToken.scopes ⊆ Scopes.parse (some "openid") := by
  obtain ⟨c, run, p, p', -, chain⟩ := exchangeAndRefresh_chain
  refine ⟨c, [p', p], chain, fun h => ?_⟩
  have hread := (never_widens_iff Scenario.env _ c run _ _ _ chain).mp h
    (some "openid profile email") List.mem_cons_self
  exact absurd hread (by decide)

end ScopeChain

end AuthServer
