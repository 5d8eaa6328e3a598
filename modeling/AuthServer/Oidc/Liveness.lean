import AuthServer.Alone
import AuthServer.Client.Lookup
import AuthServer.Concurrent.Serial
import AuthServer.Oauth.Token.Scope

/-!
# Two answers to whether a token is alive

Introspection and the userinfo endpoint are asked about the same access token in the
same state. Both validate the token; the userinfo endpoint also looks up the user and
the session, introspection does not.
-/

namespace AuthServer

open Concurrent Handler Storage

namespace Liveness

/-- The signature, the issuer and the times of a token are good in a state. -/
def Valid (env : Env) (keys : String → Bool) (w : World) (token : Jwt) : Prop :=
  keys token.kid = true ∧
    (JwtValidator.validation env).accepts (numSeconds w.now) token.claims = true

/-- The user of a token is enabled and its session has a row. -/
def Backed (t : Tables) (userId sessionId : Uuid) : Prop :=
  (∃ u ∈ t.users, u.id = userId ∧ u.enabled = true) ∧ ∃ s ∈ t.sessions, s.id = sessionId

/-- In a reachable state, the client that a user's access token with scope `openid` was issued to
has been authenticated and told about the token, and the userinfo endpoint has answered. -/
structure Asked (env : Env) (c : State) (payload : TokenPayload) (userId sessionId : Uuid)
    (keys : String → Bool) (told : JsonMap) (answer : UserinfoResponse) : Prop where
  reachable : ∃ w, ClientsKeyed w ∧ Run (server env) {} (Config.start w) c
  issued : ∃ i req, c.answered i (.token req) (.ok (.success payload))
  openid : "openid" ∈ payload.accessToken.scopes
  introspected : ∃ (user : User) (client : Client) (session : UserSession)
    (scope nonce request : Option String) (es : Replies),
    user.id = userId ∧ session.id = sessionId ∧
      Returns (TokenIssuer.issue env user client session scope nonce request).run es (.ok payload) ∧
      ∃ tid secret m, Alone (server env) frozen tid (IntrospectFlow.introspect env keys
        (.signed payload.accessToken) client.clientId secret).run c.moment (.ok (.success told)) m
  userinfo : ∃ tid m, Alone (server env) frozen tid
    (OidcResource.userinfo env keys (.signed payload.accessToken)).run c.moment (.ok answer) m

/-- Introspection says that the token is active. -/
def Active (told : JsonMap) : Prop := told.get "active" = some (.bool true)

/-- The userinfo endpoint answers with 200. -/
def Answers (answer : UserinfoResponse) : Prop := ∃ info, answer = .ok info

/-- The two endpoints agree. -/
def Agree (env : Env) : Prop :=
  ∀ c payload userId sessionId keys told answer,
    Asked env c payload userId sessionId keys told answer → (Active told ↔ Answers answer)

section Proof

variable {env : Env} {keys : String → Bool} {token : Jwt} {tid : Nat} {m m' : Instant}

theorem alone_validate {y : Except Failure (Option JsonMap)}
    (ha : Alone (server env) frozen tid (JwtValidator.validate env keys token).run m y m') :
    m'.world.pg = m.world.pg ∧
      ((Valid env keys m.world token ∧ y = .ok (some token.claims)) ∨
        (¬ Valid env keys m.world token ∧ y = .ok none)) := by
  refine ⟨(alone_frozen ((JwtValidator.uses_validate env keys token).uses.of_within
    fun _ => reading_of_within) ha).1, ?_⟩
  unfold JwtValidator.validate at ha
  split at ha
  · next hkey =>
    obtain ⟨rfl, rfl⟩ := ha.ret
    exact .inr ⟨fun hv => by simp [hv.1] at hkey, rfl⟩
  next hkey =>
    rcases ha.bindE with ⟨e, rfl, hstop⟩ | ⟨at_, m₁, hnow, ha⟩
    · obtain ⟨_, _, _, -, -, hy, -⟩ := alone_perform.mp hstop
      cases hy
    obtain ⟨ch, r, w, ⟨helapse, -⟩, he, hy, rfl⟩ := alone_perform.mp hnow
    cases hy
    have hclock : at_ = m.world.now := by
      obtain ⟨hat, -⟩ := Prod.mk.inj (Option.some.inj he)
      rw [← hat, World.elapse, helapse]
      exact Int.add_zero _
    subst hclock
    split at ha
    · next haccepts =>
      obtain ⟨rfl, rfl⟩ := ha.ret
      exact .inl ⟨⟨by simpa using hkey, haccepts⟩, rfl⟩
    · next haccepts =>
      obtain ⟨rfl, rfl⟩ := ha.ret
      exact .inr ⟨fun hv => haccepts hv.2, rfl⟩

variable {userId sessionId : Uuid} {clientId : String}

variable {R : Rules}

theorem alone_sessionBound {claims : JsonMap} {bound : Bool}
    (hsid : claims.get "sid" = some (.str (env.showUuid sessionId)))
    (hlaw : env.parseUuid (env.showUuid sessionId) = some sessionId)
    (ha : Alone (server env) R tid (OidcResource.sessionBound env claims).run m (.ok bound) m') :
    bound = true ↔ ∃ s ∈ m.world.pg.tables.sessions, s.id = sessionId := by
  unfold OidcResource.sessionBound at ha
  rw [hsid] at ha
  simp only [Json.asStr, Option.bind_some, hlaw] at ha
  obtain ⟨found, m₁, hfind, hret⟩ := ha.seq
  obtain ⟨hbound, -⟩ := hret.ret
  obtain ⟨rfl, -, -⟩ := alone_query hfind
  rw [Except.ok.inj hbound]
  simp [Query.exec, Table.find?, Table.mem_rows]

/-- The endpoint answers for a token that is still backed. -/
theorem alone_answer {answer : UserinfoResponse}
    (htoken : token.ForUser env userId sessionId clientId) (hopenid : "openid" ∈ token.scopes)
    (hlaw : ∀ id, env.parseUuid (env.showUuid id) = some id)
    (ha : Alone (server env) R tid (OidcResource.answer env token.claims).run m (.ok answer) m') :
    Answers answer ↔ Backed m.world.pg.tables userId sessionId := by
  have hscope : (Scopes.parse (some (((token.claims.get "scope").bind Json.asStr).getD ""))).contains
      "openid" = true := by
    rw [List.contains_iff_mem]
    unfold Jwt.scopes at hopenid
    split at hopenid
    · next text htext => simpa [htext, Json.asStr] using hopenid
    · cases hopenid
  unfold OidcResource.answer at ha
  simp only [hscope, htoken.sub, Option.bind_some, Json.asStr, hlaw, Bool.not_true,
    Bool.false_eq_true, if_false] at ha
  obtain ⟨found, m₁, hfind, ha⟩ := ha.seq
  obtain ⟨hfound, hpg, -⟩ := alone_query hfind
  have huser : ∀ u, Option.filter User.enabled found = some u ↔
      u ∈ m.world.pg.tables.users ∧ u.id = userId ∧ u.enabled = true := by
    intro u
    have hkey : ∀ a b : User, (a.id == userId) = true → (b.id == userId) = true →
        Keyed.clash a b = true := by
      intro a b ha hb
      simp [Keyed.clash, beq_iff_eq.mp ha, beq_iff_eq.mp hb]
    have hfind : found = some u ↔ u ∈ m.world.pg.tables.users ∧ (u.id == userId) = true :=
      hfound ▸ Table.find?_eq_some hkey
    refine Option.filter_eq_some_iff.trans ((and_congr_left fun _ => hfind).trans ?_)
    rw [beq_iff_eq, and_assoc]
  split at ha
  · next hnone =>
    obtain ⟨hanswer, -⟩ := ha.ret
    cases hanswer
    refine ⟨fun ⟨_, hok⟩ => (by cases hok), fun ⟨⟨u, hmem, hid, henabled⟩, _⟩ => ?_⟩
    rw [(huser u).mpr ⟨hmem, hid, henabled⟩] at hnone
    cases hnone
  · next user hsome =>
    obtain ⟨bound, m₂, hbound, ha⟩ := ha.seq
    have hsession := alone_sessionBound htoken.sid (hlaw sessionId) hbound
    rw [hpg] at hsession
    split at ha
    · next hb =>
      obtain ⟨hanswer, -⟩ := ha.ret
      cases hanswer
      exact ⟨fun _ => ⟨⟨user, (huser user).mp hsome⟩, hsession.mp hb⟩, fun _ => ⟨_, rfl⟩⟩
    · next hb =>
      obtain ⟨hanswer, -⟩ := ha.ret
      cases hanswer
      exact ⟨fun ⟨_, hok⟩ => (by cases hok), fun hbacked => absurd (hsession.mpr hbacked.2) hb⟩

/-- The endpoint answers exactly for valid tokens that are still backed. -/
theorem alone_userinfo {answer : UserinfoResponse}
    (htoken : token.ForUser env userId sessionId clientId) (hopenid : "openid" ∈ token.scopes)
    (hlaw : ∀ id, env.parseUuid (env.showUuid id) = some id)
    (ha : Alone (server env) frozen tid (OidcResource.userinfo env keys (.signed token)).run m
      (.ok answer) m') :
    Answers answer ↔
      Valid env keys m.world token ∧ Backed m.world.pg.tables userId sessionId := by
  have htyp : JwtValidator.isAccessTokenType token = true := by
    rw [JwtValidator.isAccessTokenType, htoken.typ]
    decide
  unfold OidcResource.userinfo at ha
  simp only [htyp, Bool.not_true, Bool.false_eq_true, if_false] at ha
  obtain ⟨found, m₁, hvalidate, ha⟩ := ha.seq
  obtain ⟨hpg, ⟨hvalid, hfound⟩ | ⟨hinvalid, hfound⟩⟩ := alone_validate hvalidate
  · cases hfound
    have hanswer := alone_answer htoken hopenid hlaw ha
    rw [hpg] at hanswer
    exact hanswer.trans ⟨fun h => ⟨hvalid, h⟩, And.right⟩
  · cases hfound
    obtain ⟨hanswer, -⟩ := ha.ret
    cases hanswer
    exact ⟨by rintro ⟨_, ⟨⟩⟩, fun hboth => absurd hboth.1 hinvalid⟩

/-- A cached client is returned as it is cached. -/
theorem alone_readCache {clientId : String} {client : Client}
    (ha : Alone (server env) R tid (ClientRepository.readCache clientId).run m (.ok (some client)) m') :
    ∃ e, m.world.redis.clients.entry clientId = some e ∧ client = e.value.intoEntity := by
  unfold ClientRepository.readCache at ha
  obtain ⟨reply, m₁, hget, ha⟩ := ha.seq
  obtain ⟨ch, r, w, -, he, hr, rfl⟩ := alone_perform.mp hget
  cases hr
  split at ha
  · next snap =>
    obtain ⟨hclient, -⟩ := Alone.pure_iff.mp ha
    cases hclient
    obtain ⟨text, -, hx, -⟩ | ⟨-, hx, -⟩ := World.exec_redis he
    · cases hx
    · obtain ⟨e, hentry, -, rfl⟩ := Expiring.get_eq_some.mp (Except.ok.inj hx).symm
      exact ⟨e, hentry, rfl⟩
  · cases (Alone.pure_iff.mp ha).1
  · cases (Alone.pure_iff.mp ha).1

/-- A lookup finds the client it was asked for. -/
theorem clientId_of_alone {client : Client} (hkeyed : ClientsKeyed m.world)
    (ha : Alone (server env) R tid (ClientRepository.findByClientId env clientId).run m
      (.ok (some client)) m') : client.clientId = clientId := by
  unfold ClientRepository.findByClientId at ha
  split at ha
  · cases ha.ret.1
  obtain ⟨cached, m₁, hread, ha⟩ := ha.seq
  split at ha
  · obtain ⟨hclient, -⟩ := ha.ret
    cases hclient
    obtain ⟨e, hentry, rfl⟩ := alone_readCache hread
    exact hkeyed clientId e hentry
  obtain ⟨found, m₂, hquery, ha⟩ := ha.seq
  split at ha
  · cases ha.ret.1
  obtain ⟨uris, m₃, -, ha⟩ := ha.seq
  obtain ⟨_, m₄, -, ha⟩ := ha.seq
  obtain ⟨hclient, -⟩ := ha.ret
  cases hclient
  obtain ⟨hfound, -, -⟩ := alone_query hquery
  exact beq_iff_eq.mp (Table.mem_of_find? hfound.symm).2

theorem active_active (htoken : token.ForUser env userId sessionId clientId) :
    Active (IntrospectFlow.active token.claims) := by
  have hother : ∀ f ∈ token.claims, f.1 ≠ "active" := by
    rintro f hf heq
    have hname := htoken.named f hf
    rw [heq] at hname
    revert hname
    decide
  exact Fields.get_setAll_of_not_mem hother

/-- Introspection reports every valid token as active to the client it was issued to. -/
theorem alone_introspect {secret : Option String} {told : JsonMap} (hkeyed : ClientsKeyed m.world)
    (htoken : token.ForUser env userId sessionId clientId)
    (ha : Alone (server env) frozen tid (IntrospectFlow.introspect env keys (.signed token) clientId
      secret).run m (.ok (.success told)) m') :
    Active told ↔ Valid env keys m.world token := by
  have hinactive : ¬ Active IntrospectFlow.inactive := by
    intro h
    cases h
  unfold IntrospectFlow.introspect at ha
  dsimp only at ha
  split at ha
  · cases ha.ret.1
  obtain ⟨found, m₁, hfind, ha⟩ := ha.seq
  obtain ⟨-, hnow⟩ := alone_frozen ((ClientRepository.uses_findByClientId env clientId).uses.of_within
    fun _ => reading_of_within) hfind
  split at ha
  · cases ha.ret.1
  next client =>
  split at ha
  · cases ha.ret.1
  split at ha
  · cases ha.ret.1
  have hname := clientId_of_alone hkeyed hfind
  unfold IntrospectFlow.answer at ha
  obtain ⟨claims, m₂, hvalidate, ha⟩ := ha.seq
  have hclock : Valid env keys m₁.world token ↔ Valid env keys m.world token := by
    rw [Valid, Valid, hnow]
  obtain ⟨-, ⟨hvalid, hclaims⟩ | ⟨hinvalid, hclaims⟩⟩ := alone_validate hvalidate
  · cases hclaims
    simp only [htoken.aud, IntrospectFlow.audienceMatches, hname, beq_self_eq_true, Bool.not_true,
      Bool.false_eq_true, if_false] at ha
    obtain ⟨htold, -⟩ := ha.ret
    cases htold
    exact ⟨fun _ => hclock.mp hvalid, fun _ => active_active htoken⟩
  · cases hclaims
    obtain ⟨htold, -⟩ := ha.ret
    cases htold
    exact ⟨fun h => absurd h hinactive, fun h => absurd (hclock.mpr h) hinvalid⟩

end Proof

section Counterexample

open Scenario

/-- The sample client is told that the token is active. -/
def reportsActive : Except Failure IntrospectResult → Bool
  | .ok (.success told) =>
    match told.get "active" with
    | some (.bool b) => b
    | _ => false
  | _ => false

/-- Whether the userinfo endpoint answers about the user. -/
def responds (expected : Bool) : Except Failure UserinfoResponse → Bool
  | .ok (.ok _) => expected
  | .ok _ => !expected
  | .error _ => false

theorem active_of_reports {y : Except Failure IntrospectResult} (h : reportsActive y = true) :
    ∃ told, y = .ok (.success told) ∧ Active told := by
  rcases y with e | told | _
  · cases h
  · refine ⟨told, rfl, ?_⟩
    simp only [reportsActive] at h
    split at h
    · next hget => exact hget.trans (by rw [h])
    · cases h
  all_goals cases h

theorem answers_of_responds {expected : Bool} {z : Except Failure UserinfoResponse}
    (h : responds expected z = true) :
    ∃ answer, z = .ok answer ∧ (Answers answer ↔ expected = true) := by
  rcases z with e | answer
  · cases h
  · refine ⟨answer, rfl, ?_⟩
    cases answer <;> simp_all [responds, Answers]

/-- Execute a schedule in which a code is exchanged, then ask both endpoints about the token. -/
def asks (ls : List (Label Call Choice)) (expected : Bool) : Bool :=
  (Config.start (world tables) : State).reaches (server lawfulEnv) (fun _ => true) succeeds ls fun c =>
    (issued? c 1).any fun x => x.1.grantType == some "authorization_code" &&
      x.2.accessToken.scopes.contains "openid" && hasText (x.2.accessToken.claims.get "aud") "web-app" &&
      ((IntrospectFlow.introspect lawfulEnv (fun _ => true) (.signed x.2.accessToken) "web-app"
        none).run.playAlone (server lawfulEnv) 9 c.moment (List.replicate 2 {})).any
          (fun y => reportsActive y.1) &&
      ((OidcResource.userinfo lawfulEnv (fun _ => true) (.signed x.2.accessToken)).run.playAlone
        (server lawfulEnv) 9 c.moment (List.replicate 3 {})).any fun y => responds expected y.1

theorem asked_of_asks {ls : List (Label Call Choice)} {expected : Bool}
    (h : asks ls expected = true) :
    ∃ c payload userId sessionId told answer,
      Asked lawfulEnv c payload userId sessionId (fun _ => true) told answer ∧ Active told ∧
        (Answers answer ↔ expected = true) := by
  obtain ⟨c, run, hc⟩ := Config.run_of_reaches (R := {}) (fun _ _ => trivial)
    (fun _ _ _ _ _ => trivial) h
  obtain ⟨⟨req, payload⟩, hissued, hx⟩ := (Option.any_eq_true _ _).mp hc
  simp only [Bool.and_eq_true, beq_iff_eq, List.contains_iff_mem] at hx
  obtain ⟨⟨⟨⟨hgrant, hopenid⟩, haud⟩, hintrospect⟩, huserinfo⟩ := hx
  have ha := answered_of_issued? hissued
  obtain ⟨⟨y, m₁⟩, hplay₁, hactive⟩ := (Option.any_eq_true _ _).mp hintrospect
  obtain ⟨⟨z, m₂⟩, hplay₂, hresponds⟩ := (Option.any_eq_true _ _).mp huserinfo
  obtain ⟨told, rfl, htold⟩ := active_of_reports hactive
  obtain ⟨answer, rfl, hanswer⟩ := answers_of_responds hresponds
  cases returns_token ((run.replayed (Config.start_replayed _)).returns ha) with
  | code g _ _ hvalid =>
    have hname : "web-app" = g.client.clientId := by
      have htext := (eq_of_hasText haud).symm.trans (forUser_of_issue hvalid.issued).aud
      exact Json.str.inj (Option.some.inj htext)
    refine ⟨c, payload, g.user.id, g.session.id, told, answer, ⟨⟨_, ?_, run⟩, ⟨1, req, ha⟩, hopenid,
      ⟨g.user, g.client, g.session, _, _, _, g.issuing, rfl, rfl, hvalid.issued, 9, none, m₁, ?_⟩,
      9, m₂, .of_playAlone frozen_allows_default hplay₂⟩, htold, hanswer⟩
    · intro clientId e he
      cases he
    · rw [← hname]
      exact .of_playAlone frozen_allows_default hplay₁
  | refresh g hother => exact absurd (hother.symm.trans hgrant) (by decide)
  | device g hother => exact absurd (hother.symm.trans hgrant) (by decide)
  | credentials hother => exact absurd (hother.symm.trans hgrant) (by decide)

/-- A code is exchanged for tokens. -/
def exchange : List (Label Call Choice) :=
  [.spawn (.authorize authorizeRequest)] ++ issueCode 0 "code-a" ++
    [.spawn (.token (codeRequest "code-a"))] ++ steps 1 7 ++ issueTokens 1 10 11 12 "refresh-a"

/-- The session of the tokens is deleted. -/
def exchangeAndEnd : List (Label Call Choice) :=
  exchange ++ [.spawn (.deleteSession 2)] ++ steps 2 4

/-- After the end of its session a token is still reported as active. -/
theorem not_agree : ¬ Agree lawfulEnv := by
  intro h
  have hplay : asks exchangeAndEnd false = true := by decide +kernel
  obtain ⟨c, payload, userId, sessionId, told, answer, hasked, hactive, hanswer⟩ :=
    asked_of_asks hplay
  cases hanswer.mp ((h _ _ _ _ _ _ _ hasked).mp hactive)

end Counterexample

/-- The endpoints agree about a token exactly when it is not valid or still backed. -/
theorem agree_iff (env : Env) (hlaw : ∀ id, env.parseUuid (env.showUuid id) = some id) (c : State)
    (payload : TokenPayload) (userId sessionId : Uuid) (keys : String → Bool) (told : JsonMap)
    (answer : UserinfoResponse) (h : Asked env c payload userId sessionId keys told answer) :
    (Active told ↔ Answers answer) ↔
      (Valid env keys c.moment.world payload.accessToken →
        Backed c.moment.world.pg.tables userId sessionId) := by
  obtain ⟨⟨w, hw, run⟩, -, hopenid, ⟨user, client, session, scope, nonce, request, es, rfl, rfl,
    hissue, tid, secret, m, hintrospect⟩, tid', m', huserinfo⟩ := h
  have htoken := forUser_of_issue hissue
  rw [alone_introspect (clientsKeyed_of_run hw run) htoken hintrospect,
    alone_userinfo htoken hopenid hlaw huserinfo]
  exact ⟨fun hiff hvalid => (hiff.mp hvalid).2, fun hbacked =>
    ⟨fun hvalid => ⟨hvalid, hbacked hvalid⟩, And.left⟩⟩

/-- As long as the session is there, the endpoints agree about the token. -/
theorem agree_iff_exchange : ∃ (c : State) (payload : TokenPayload) (userId sessionId : Uuid),
    Valid Scenario.lawfulEnv (fun _ => true) c.moment.world payload.accessToken →
      Backed c.moment.world.pg.tables userId sessionId := by
  have hplay : asks exchange true = true := by decide +kernel
  obtain ⟨c, payload, userId, sessionId, told, answer, hasked, hactive, hanswer⟩ :=
    asked_of_asks hplay
  exact ⟨c, payload, userId, sessionId, (agree_iff Scenario.lawfulEnv Scenario.lawfulEnv_parseUuid _ _
    _ _ _ _ _ hasked).mp ⟨fun _ => hanswer.mpr rfl, fun _ => hactive⟩⟩

end Liveness

end AuthServer
