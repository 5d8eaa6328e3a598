import AuthServer.Logic
import AuthServer.Oauth.Token.Exchange
import AuthServer.Scenario

/-!
# Who the userinfo endpoint answers about

An access token of a user carries the user's id and the id of its session, and the
endpoint looks up both. A token that a client has got for itself carries the client's
name in the place of the user's id and no session id; if that name is the text of a
user's id, the endpoint answers about this user.
-/

namespace AuthServer

open Concurrent Handler Storage

namespace LiveSession

/-- Tokens that were issued for a user under a session. -/
def Minted (env : Env) (payload : TokenPayload) (userId sessionId : Uuid) : Prop :=
  ∃ (user : User) (client : Client) (session : UserSession)
    (scope nonce request : Option String) (es : Replies),
    user.id = userId ∧ session.id = sessionId ∧
      Returns (TokenIssuer.issue env user client session scope nonce request).run es (.ok payload)

/-- At some moment of a run at which a request was being served, the tables met a condition. -/
def Sees (env : Env) (w : World) (c : State) (tid : Nat) (P : Tables → Prop) : Prop :=
  ∃ c₁ : State, Run (server env) {} (Config.start w) c₁ ∧ Run (server env) {} c₁ c ∧
    (∃ t op k, c₁.threads[tid]? = some t ∧ t.prog = .call op k) ∧ P c₁.moment.world.pg.tables

/-- The tokens are those of a user and a session, and the request has seen the user enabled and the
session present. -/
def Live (env : Env) (w : World) (c : State) (tid : Nat) (payload : TokenPayload) (userId : Uuid) :
    Prop :=
  ∃ sessionId, Minted env payload userId sessionId ∧
    Sees env w c tid (fun t => ∃ u ∈ t.users, u.id = userId ∧ u.enabled = true) ∧
    Sees env w c tid fun t => ∃ s ∈ t.sessions, s.id = sessionId

/-- In every run that meets a condition, an answer about a user to an access token of this server
is for a live session. -/
def AnswersLive (env : Env) (cond : World → State → Prop) : Prop :=
  ∀ (w : World) (c : State) (i j : Nat) (req : TokenRequest) (payload : TokenPayload)
    (keys : String → Bool) (info : JsonMap) (userId : Uuid),
    Run (server env) {} (Config.start w) c → cond w c →
    c.answered i (.token req) (.ok (.success payload)) →
    c.answered j (.userinfo keys (.signed payload.accessToken)) (.ok (.ok info)) →
    info.get "sub" = some (.str (env.showUuid userId)) → Live env w c j payload userId

/-- No client that has got tokens for itself is named like a user that is enabled at some moment of
the run; the subject of such a token is the client's name. -/
def NamesApart (env : Env) (w : World) (c : State) : Prop :=
  ∀ (i : Nat) (req : TokenRequest) (payload : TokenPayload) (name : String) (c₁ : State),
    c.answered i (.token req) (.ok (.success payload)) →
    req.grantType = some "client_credentials" →
    payload.accessToken.claims.get "sub" = some (.str name) →
    Run (server env) {} (Config.start w) c₁ → Run (server env) {} c₁ c →
    ∀ u ∈ c₁.moment.world.pg.tables.users, env.parseUuid name = some u.id → u.enabled = false

section Proof

variable {env : Env} {es : Replies} {payload : TokenPayload}

theorem returns_validate {keys : String → Bool} {token : Jwt} {claims : JsonMap}
    (h : Returns (JwtValidator.validate env keys token).run es (.ok (some claims))) :
    claims = token.claims := by
  unfold JwtValidator.validate at h
  split at h
  · cases h.ret.2
  obtain ⟨es₁, es₂, at_, rfl, -, hret⟩ := h.seq
  split at hret
  · exact Option.some.inj hret.ret.2
  · cases hret.ret.2

/-- A session id in the claims is that of a session which has been found. -/
theorem returns_sessionBound {claims : JsonMap} {sid : Uuid}
    (hsid : claims.get "sid" = some (.str (env.showUuid sid)))
    (hlaw : env.parseUuid (env.showUuid sid) = some sid)
    (h : Returns (OidcResource.sessionBound env claims).run es (.ok true)) :
    ∃ session, selected (.sessionById sid) (some session) ∈ es := by
  unfold OidcResource.sessionBound at h
  rw [hsid] at h
  simp only [Json.asStr, Option.bind_some, hlaw] at h
  obtain ⟨es₁, es₂, found, rfl, hfind, hret⟩ := h.seq
  obtain ⟨-, hfound⟩ := hret.ret
  obtain ⟨session, rfl⟩ := Option.isSome_iff_exists.mp hfound.symm
  rw [returns_sql hfind]
  exact ⟨session, List.mem_append_left _ (List.mem_singleton_self _)⟩

/-- What an answer about a user is based on. -/
structure Based (env : Env) (claims : JsonMap) (info : JsonMap) (es : Replies) (user : User) :
    Prop where
  subject : ((claims.get "sub").bind Json.asStr).bind env.parseUuid = some user.id
  read : selected (.userById user.id) (some user) ∈ es
  enabled : user.enabled = true
  about : info.get "sub" = some (.str (env.showUuid user.id))
  session : ∀ sid, claims.get "sid" = some (.str (env.showUuid sid)) →
    env.parseUuid (env.showUuid sid) = some sid →
    ∃ session, selected (.sessionById sid) (some session) ∈ es

/-- What an answer consists of, for the subject of the token and the row that was read for it. -/
structure Answered (env : Env) (claims : JsonMap) (info : JsonMap) (es : Replies) (userId : Uuid)
    (user : User) : Prop where
  subject : ((claims.get "sub").bind Json.asStr).bind env.parseUuid = some userId
  read : selected (.userById userId) (some user) ∈ es
  enabled : user.enabled = true
  info_eq : info = OidcResource.userinfoClaims env user
    (Scopes.parse (some (((claims.get "scope").bind Json.asStr).getD "")))
    (OidcResource.requestedClaims claims)
  session : ∀ sid, claims.get "sid" = some (.str (env.showUuid sid)) →
    env.parseUuid (env.showUuid sid) = some sid →
    ∃ session, selected (.sessionById sid) (some session) ∈ es

theorem Answered.based {claims info : JsonMap} {userId : Uuid} {user : User}
    (h : Answered env claims info es userId user) (hid : user.id = userId) :
    Based env claims info es user := by
  subst hid
  refine ⟨h.subject, h.read, h.enabled, ?_, h.session⟩
  rw [h.info_eq]
  rfl

theorem returns_answer {claims info : JsonMap}
    (h : Returns (OidcResource.answer env claims).run es (.ok (.ok info))) :
    ∃ userId user, Answered env claims info es userId user := by
  unfold OidcResource.answer at h
  dsimp only at h
  split at h
  · cases h.ret.2
  split at h
  · cases h.ret.2
  next userId hsub =>
    obtain ⟨es₁, es₂, found, rfl, hfind, h₁⟩ := h.seq
    split at h₁
    · cases h₁.ret.2
    next user hfound =>
      obtain ⟨rfl, henabled⟩ := Option.filter_eq_some_iff.mp hfound
      rw [returns_sql hfind]
      obtain ⟨es₃, es₄, bound, rfl, hbound, h₂⟩ := h₁.seq
      split at h₂
      · next hb =>
        obtain ⟨-, hinfo⟩ := h₂.ret
        refine ⟨userId, user, hsub, List.mem_cons_self, henabled, UserinfoResponse.ok.inj hinfo,
          fun sid hsid hlaw => ?_⟩
        obtain ⟨session, hmem⟩ := returns_sessionBound hsid hlaw (hb ▸ hbound)
        exact ⟨session, List.mem_append_right _ (List.mem_append_left _ hmem)⟩
      · cases h₂.ret.2

theorem returns_userinfo {keys : String → Bool} {token : Jwt} {info : JsonMap}
    (h : Returns (OidcResource.userinfo env keys (.signed token)).run es (.ok (.ok info))) :
    ∃ userId user, Answered env token.claims info es userId user := by
  unfold OidcResource.userinfo at h
  dsimp only at h
  split at h
  · cases h.ret.2
  obtain ⟨es₁, es₂, found, rfl, hvalid, h₁⟩ := h.seq
  split at h₁
  · cases h₁.ret.2
  next claims =>
    obtain rfl := returns_validate hvalid
    obtain ⟨userId, user, hanswer⟩ := returns_answer h₁
    refine ⟨userId, user, hanswer.subject, List.mem_append_right _ hanswer.read, hanswer.enabled,
      hanswer.info_eq, fun sid hsid hlaw => ?_⟩
    obtain ⟨session, hmem⟩ := hanswer.session sid hsid hlaw
    exact ⟨session, List.mem_append_right _ hmem⟩

/-- The tokens of every grant but `client_credentials` are those of a user and a session. -/
theorem minted_or_client {req : TokenRequest} (h : Granted env req es payload) :
    (∃ userId sessionId, Minted env payload userId sessionId ∧
        payload.accessToken.claims.get "sub" = some (.str (env.showUuid userId)) ∧
        payload.accessToken.claims.get "sid" = some (.str (env.showUuid sessionId))) ∨
      (req.grantType = some "client_credentials" ∧
        ∃ name, payload.accessToken.claims.get "sub" = some (.str name)) := by
  have hminted : ∀ {user : User} {client : Client} {session : UserSession}
      {scope nonce request : Option String} {es : Replies},
      Returns (TokenIssuer.issue env user client session scope nonce request).run es (.ok payload) →
      ∃ userId sessionId, Minted env payload userId sessionId ∧
        payload.accessToken.claims.get "sub" = some (.str (env.showUuid userId)) ∧
        payload.accessToken.claims.get "sid" = some (.str (env.showUuid sessionId)) := by
    intro user client session scope nonce request es hissue
    obtain ⟨hbinds, -, -⟩ := returns_issue hissue
    exact ⟨user.id, session.id, ⟨user, client, session, scope, nonce, request, es, rfl, rfl, hissue⟩,
      hbinds.sub, hbinds.sid⟩
  cases h with
  | code g _ _ hvalid => exact .inl (hminted hvalid.issued)
  | refresh g _ _ hvalid => exact .inl (hminted hvalid.issued)
  | device g _ _ hvalid => exact .inl (hminted hvalid.issued)
  | credentials hgrant hret =>
    obtain ⟨client, _, _, -, hgranted⟩ := returns_fromClientCredentials hret
    obtain ⟨-, -, kid, t, jti, -, htoken⟩ := returns_issueForClient hgranted.issued
    refine .inr ⟨hgrant, client.clientId, ?_⟩
    rw [htoken]
    simp [Fields.setAll, JwtSigner.base]

variable {w : World} {c : State} {j : Nat}

/-- A `SELECT` has returned what was stored at some moment of the request. -/
theorem sees_of_selected (run : Run (server env) {} (Config.start w) c) {q : Query} {x : q.Res}
    (h : selected q x ∈ c.moment.own j) : Sees env w c j fun t => x = q.exec env t := by
  obtain ⟨c₁, t, k, ch, w', run₁, ht, hp, hallow, hexec, later⟩ := run.executed_own h
  refine ⟨c₁, run₁, (Run.step (.refl c₁) ht hp hallow hexec).trans later, ⟨t, _, k, ht, hp⟩, ?_⟩
  obtain ⟨-, -, ⟨e, he⟩ | hx⟩ := World.exec_query hexec
  · cases he
  · exact Except.ok.inj hx

theorem Sees.mono {P Q : Tables → Prop} (h : Sees env w c j P) (hpq : ∀ t, P t → Q t) :
    Sees env w c j Q := by
  obtain ⟨c₁, run₁, later, hunderway, hp⟩ := h
  exact ⟨c₁, run₁, later, hunderway, hpq _ hp⟩

theorem sees_user (run : Run (server env) {} (Config.start w) c) {id : Uuid} {user : User}
    (h : selected (.userById id) (some user) ∈ c.moment.own j) :
    Sees env w c j fun t => user ∈ t.users ∧ user.id = id := by
  refine (sees_of_selected run h).mono fun t ht => ?_
  obtain ⟨hmem, hid⟩ := Table.mem_of_find? ht.symm
  exact ⟨hmem, beq_iff_eq.mp hid⟩

theorem sees_session (run : Run (server env) {} (Config.start w) c) {id : Uuid}
    {session : UserSession} (h : selected (.sessionById id) (some session) ∈ c.moment.own j) :
    Sees env w c j fun t => ∃ s ∈ t.sessions, s.id = id := by
  refine (sees_of_selected run h).mono fun t ht => ?_
  obtain ⟨hmem, hid⟩ := Table.mem_of_find? ht.symm
  exact ⟨session, hmem, beq_iff_eq.mp hid⟩

end Proof

section Counterexample

open Scenario

/-- A confidential client whose name is the text of the user's id. -/
def namesake : ClientRow :=
  { Scenario.client with
    clientId := "00000000-0000-0000-0000-000000000001"
    clientType := some "confidential", clientSecret := some "secret" }

/-- A world in which the user has no session. -/
def namesakeWorld : World :=
  world { tables with sessions := .empty, clients := one namesake, consents := .empty }

/-- The client gets a token for itself. -/
def clientRequest : TokenRequest :=
  { grantType := some "client_credentials", clientId := some namesake.clientId
    clientSecret := some "secret", scope := some "openid email" }

def getToken : List (Label Call Choice) :=
  [.spawn (.token clientRequest)] ++ lookupClient 0 ++ steps 0 1 ++ [drawUuid 0 10] ++ steps 0 1

/-- An answer of the userinfo endpoint about a user. -/
def tellsAbout (text : String) : (call : Call) → Ret call → Bool
  | .userinfo _ _, .ok (.ok info) => hasText (info.get "sub") text
  | _, _ => false

/-- Execute a schedule that gets tokens, present the access token to the userinfo endpoint, and test
the outcome. -/
def presents (w : World) (ls : List (Label Call Choice)) (i j n : Nat) (text : String)
    (test : TokenPayload → Bool) (final : State → Bool) : Bool :=
  (Config.start w : State).reaches (server lawfulEnv) (fun _ => true) succeeds ls fun c₁ =>
    (issued? c₁ i).any fun x => test x.2 && c₁.threads.length == j &&
      (c₁.spawn (server lawfulEnv)
        (.userinfo (fun _ => true) (.signed x.2.accessToken))).reaches (server lawfulEnv)
        (fun _ => true) succeeds (steps j n) fun c₂ => c₂.replied j (tellsAbout text) && final c₂

theorem answered_of_presents {w : World} {ls : List (Label Call Choice)} {i j n : Nat}
    {text : String} {test : TokenPayload → Bool} {final : State → Bool}
    (h : presents w ls i j n text test final = true) :
    ∃ (c : State) (req : TokenRequest) (payload : TokenPayload) (info : JsonMap),
      Run (server lawfulEnv) {} (Config.start w) c ∧
      c.answered i (.token req) (.ok (.success payload)) ∧
      c.answered j (.userinfo (fun _ => true) (.signed payload.accessToken)) (.ok (.ok info)) ∧
      info.get "sub" = some (.str text) ∧ test payload = true ∧ final c = true := by
  have hrun : ∀ {c : State} {ls test}, c.reaches (server lawfulEnv) (fun _ => true) succeeds ls test =
      true → ∃ c', Run (server lawfulEnv) {} c c' ∧ test c' = true :=
    Config.run_of_reaches (fun _ _ => trivial) fun _ _ _ _ _ => trivial
  obtain ⟨c₁, run₁, h₁⟩ := hrun h
  obtain ⟨⟨req, payload⟩, hissued, hx⟩ := (Option.any_eq_true _ _).mp h₁
  simp only [Bool.and_eq_true, beq_iff_eq] at hx
  obtain ⟨⟨htest, hlength⟩, h₂⟩ := hx
  obtain ⟨c₂, run₂, hend⟩ := hrun h₂
  obtain ⟨hreplied, hfinal⟩ := (Bool.and_eq_true _ _).mp hend
  have later := (Run.spawn (.refl c₁) trivial).trans run₂
  obtain ⟨call, a, ha, htells⟩ := Config.answered_of_replied hreplied
  obtain rfl := (run₂.requested (hlength ▸ Config.requested_spawn)).answered ha
  cases a with
  | error e => cases htells
  | ok answer =>
    cases answer with
    | ok info =>
      exact ⟨c₂, req, payload, info, run₁.trans later,
        later.answered (answered_of_issued? hissued), ha, eq_of_hasText htells, htest, hfinal⟩
    | invalidToken | insufficientScope => cases htells

/-- The tokens of a user come with a refresh token. -/
theorem Minted.refreshes {env : Env} {payload : TokenPayload} {userId sessionId : Uuid}
    (h : Minted env payload userId sessionId) : payload.refreshToken ≠ none := by
  obtain ⟨_, _, _, _, _, _, _, -, -, hissue⟩ := h
  obtain ⟨-, ⟨raw, _, hraw, -⟩, -⟩ := returns_issue hissue
  rw [hraw]
  exact Option.some_ne_none raw

/-- A user without any session is told about to a client. -/
theorem not_answers_live : ¬ AnswersLive lawfulEnv fun _ _ => True := by
  intro h
  have hplay : presents namesakeWorld getToken 0 1 2 (lawfulEnv.showUuid 1)
      (fun payload => payload.refreshToken == none) (fun _ => true) = true := by
    decide +kernel
  obtain ⟨c, req, payload, info, run, htoken, hinfo, hsub, hrefresh, -⟩ := answered_of_presents hplay
  obtain ⟨sessionId, hminted, -⟩ :=
    h _ c 0 1 req payload _ info 1 run trivial htoken hinfo hsub
  exact hminted.refreshes (beq_iff_eq.mp hrefresh)

end Counterexample

/-- The endpoint answers for live sessions only, as long as clients are not named like users. -/
theorem answers_live (env : Env) (hlaw : ∀ id, env.parseUuid (env.showUuid id) = some id) :
    AnswersLive env (NamesApart env) := by
  intro w c i j req payload keys info userId run hapart htoken hinfo hsub
  have hreplayed := run.replayed (Config.start_replayed w)
  have hquery : ∀ id user, selected (.userById id) (some user) ∈ c.moment.own j → user.id = id := by
    intro id user hmem
    obtain ⟨_, -, -, -, -, hid⟩ := sees_user run hmem
    exact hid
  obtain ⟨subject, user, hanswer⟩ := returns_userinfo (hreplayed.returns hinfo)
  have hbased := hanswer.based (hquery subject user hanswer.read)
  have huser : user.id = userId := by
    have htext := hbased.about.symm.trans hsub
    have hshow : env.showUuid user.id = env.showUuid userId := Json.str.inj (Option.some.inj htext)
    have hparse := hlaw user.id
    rw [hshow, hlaw userId] at hparse
    exact (Option.some.inj hparse).symm
  have hseen := sees_user run hbased.read
  rcases minted_or_client (returns_token (hreplayed.returns htoken)) with
    ⟨mintedFor, sessionId, hminted, hsubject, hsid⟩ | ⟨hgrant, name, hname⟩
  · have hsame : mintedFor = userId := by
      have hparse := hbased.subject
      rw [hsubject] at hparse
      exact (Option.some.inj ((hlaw mintedFor).symm.trans hparse)).trans huser
    subst hsame
    obtain ⟨session, hmem⟩ := hbased.session sessionId hsid (hlaw sessionId)
    refine ⟨sessionId, hminted, hseen.mono fun t ht => ?_, sees_session run hmem⟩
    exact ⟨user, ht.1, huser, hbased.enabled⟩
  · -- the token of a client: its name is read as the id of the user
    obtain ⟨c₁, run₁, later, -, hmem, -⟩ := hseen
    have hparse : env.parseUuid name = some user.id := by
      have hsubject := hbased.subject
      rw [hname] at hsubject
      exact hsubject
    have hdisabled := hapart i req payload name c₁ htoken hgrant hname run₁ later user hmem hparse
    rw [hbased.enabled] at hdisabled
    cases hdisabled

section Witness

open Scenario

/-- A code is exchanged for tokens. -/
def exchange : List (Label Call Choice) :=
  [.spawn (.authorize authorizeRequest)] ++ issueCode 0 "code-a" ++
    [.spawn (.token (codeRequest "code-a"))] ++ steps 1 7 ++ issueTokens 1 10 11 12 "refresh-a"

/-- No client has asked for tokens for itself. -/
def noClientTokens (c : State) : Bool :=
  c.threads.all fun t =>
    match t.call with
    | .token req => req.grantType != some "client_credentials"
    | _ => true

theorem namesApart_of_noClientTokens {env : Env} {w : World} {c : State}
    (h : noClientTokens c = true) : NamesApart env w c := by
  intro i req payload name c₁ ⟨born, ht⟩ hgrant
  have hcall := List.all_eq_true.mp h _ (List.mem_of_getElem? ht)
  simp [hgrant] at hcall

/-- The user's token gets an answer about the user. -/
theorem answers_live_exchange : ∃ (c : State) (payload : TokenPayload),
    NamesApart lawfulEnv (world tables) c ∧ Live lawfulEnv (world tables) c 2 payload 1 := by
  have hplay : presents (world tables) exchange 1 2 3 (lawfulEnv.showUuid 1)
      (fun _ => true) noClientTokens = true := by
    decide +kernel
  obtain ⟨c, req, payload, info, run, htoken, hinfo, hsub, -, hnone⟩ := answered_of_presents hplay
  have hapart : NamesApart lawfulEnv (world tables) c := namesApart_of_noClientTokens hnone
  exact ⟨c, payload, hapart, answers_live lawfulEnv lawfulEnv_parseUuid _ c 1 2 req payload _ info 1 run
    hapart htoken hinfo hsub⟩

end Witness

end LiveSession

end AuthServer
