import AuthServer.Oauth.Token.Claims

/-!
# What a successful grant has read

A successful answer of the token endpoint determines the replies it was given, up to
values that do not matter: the client it has found, the code, device authorization or
refresh token it was asked for, the user and the session. The tokens in the answer are
bound to exactly these.
-/

namespace AuthServer

open Concurrent Handler Storage DeviceAuthorizationRepository TokenFlow

/-! ## Issued tokens -/

/-- The commands that issuing tokens consists of. -/
def Op.issuing : Op → Bool
  | .sql (.query (.rolesByUser _)) | .sql (.query .allRoles) => true
  | .sql (.tx (.insertRefreshToken _)) => true
  | .now | .newUuid | .urlSafe _ | .activeKid => true
  | _ => false

/-- Tokens are bound to a user, a session, a client and a scope; an id token also to a nonce. -/
structure TokenPayload.Binds (env : Env) (userId sessionId : Uuid) (clientId : String)
    (scope nonce : Option String) (payload : TokenPayload) : Prop where
  sub : payload.accessToken.claims.get "sub" = some (.str (env.showUuid userId))
  sid : payload.accessToken.claims.get "sid" = some (.str (env.showUuid sessionId))
  client_id : payload.accessToken.claims.get "client_id" = some (.str clientId)
  scopes : payload.accessToken.claims.get "scope" = some (.str (scope.getD ""))
  answered : payload.scope = scope.getD ""
  /-- An id token comes with scope `openid`. -/
  identified : payload.idToken.isSome = (Scopes.parse scope).contains "openid"
  identity : ∀ token, payload.idToken = some token →
    token.claims.get "sub" = some (.str (env.showUuid userId)) ∧
    token.claims.get "sid" = some (.str (env.showUuid sessionId)) ∧
    token.claims.get "aud" = some (.str clientId) ∧
    token.claims.get "nonce" = (nonce.filter fun n => n != "").map .str

section Issuing

variable {env : Env} {es : Replies}

variable {subject audience : String} {extra : JsonMap} {user : User}
variable {session : UserSession} {client : Client} {scope nonce request : Option String}

/-- Issued tokens are bound to the user, client, session and scope they are issued for. -/
theorem TokenPayload.Issued.binds {payload : TokenPayload}
    (h : payload.Issued env user client session scope nonce request es) :
    payload.Binds env user.id session.id client.clientId scope nonce := by
  obtain ⟨roles, kid, t, jti, -, haccess⟩ := h.access
  obtain ⟨tail, -, heq, htail⟩ := @accessTokenClaims_eq env user session client scope roles
    (ClaimsRequest.parse env request)
  have hget : ∀ {k : String} {v : Json}, (k, v) ∈ TokenIssuer.buildAccessTokenClaims env user
      client session roles scope (ClaimsRequest.parse env request) →
      payload.accessToken.claims.get k = some v := by
    intro k v hk
    rw [haccess]
    exact Fields.get_setAll_of_mem nodup_accessTokenClaims hk
  refine ⟨?_, hget ?_, hget ?_, hget ?_, h.answered, h.identified, fun token htoken => ?_⟩
  · rw [haccess, get_access (by decide)]
    rfl
  · simp [heq]
  · simp [heq]
  · simp [heq]
  · obtain ⟨kid, t, jti, -, rfl⟩ := h.identity token htoken
    refine ⟨?_, Fields.get_setAll_of_mem nodup_idTokenClaims ?_, ?_, ?_⟩
    · exact get_identity_base (by decide) (by decide) (by decide)
    · rw [idTokenClaims_eq]
      exact List.mem_cons_self
    · exact get_identity_base (by decide) (by decide) (by decide)
    · rw [get_identity (by decide), get_nonce]
      rfl

theorem uses_baseClaims_issuing {ttl : Nat} :
    (JwtSigner.baseClaims env subject audience ttl extra).Uses fun op => op.issuing = true := by
  unfold JwtSigner.baseClaims JwtSigner.nowSeconds
  refine uses_bind (uses_bind (uses_now rfl) fun _ => uses_pure _) fun _ => ?_
  exact uses_bind (uses_newUuid rfl) fun _ => uses_pure _

theorem uses_signedWithType_issuing {claims : JsonMap} {typ : Option String} :
    (JwtSigner.signedWithType claims typ).Uses fun op => op.issuing = true := by
  unfold JwtSigner.signedWithType
  exact uses_bind (uses_perform rfl) fun _ => uses_pure _

theorem uses_issue_issuing :
    (TokenIssuer.issue env user client session scope nonce request).Uses
      fun op => op.issuing = true := by
  unfold TokenIssuer.issue RoleRepository.findEffectiveNamesByUserId JwtSigner.signAccessToken
    JwtSigner.signIdToken
  refine uses_bind (uses_bind (uses_query rfl) fun _ => ?_) fun _ => ?_
  · exact uses_bind (uses_query rfl) fun _ => uses_pure _
  refine uses_bind (uses_bind uses_baseClaims_issuing fun _ => uses_signedWithType_issuing)
    fun _ => ?_
  refine uses_bind (uses_urlSafe rfl) fun _ => uses_bind (uses_now rfl) fun _ => ?_
  refine uses_bind (uses_newUuid rfl) fun _ => uses_bind (uses_tx rfl) fun _ => ?_
  refine uses_ite ?_ (uses_pure _)
  refine uses_bind (uses_bind uses_baseClaims_issuing fun _ => ?_) fun _ => uses_pure _
  exact uses_signedWithType_issuing

theorem returns_issue {payload : TokenPayload}
    (h : Returns (TokenIssuer.issue env user client session scope nonce request).run es
      (.ok payload)) :
    payload.Binds env user.id session.id client.clientId scope nonce ∧
      payload.Refreshes env (user.id, client.id, session.id) es ∧
      ∀ e ∈ es, e.1.issuing = true :=
  ⟨(issued_of_returns h).1.binds, (issued_of_returns h).2,
    (Leads.uses uses_issue_issuing.run h).1⟩

/-- The access token of a user, as its readers see it. -/
structure Jwt.ForUser (env : Env) (userId sessionId : Uuid) (clientId : String) (token : Jwt) :
    Prop where
  typ : token.typ = "at+jwt"
  sub : token.claims.get "sub" = some (.str (env.showUuid userId))
  sid : token.claims.get "sid" = some (.str (env.showUuid sessionId))
  aud : token.claims.get "aud" = some (.str clientId)
  named : ∀ f ∈ token.claims, f.1 ∈ ["iss", "aud", "sub", "jti", "exp", "client_id", "email",
    "username", "sid", "roles", "scope", "claims_userinfo"]

theorem forUser_of_issue {payload : TokenPayload}
    (h : Returns (TokenIssuer.issue env user client session scope nonce request).run es
      (.ok payload)) :
    payload.accessToken.ForUser env user.id session.id client.clientId := by
  have hissued := (issued_of_returns h).1
  have hbinds := hissued.binds
  obtain ⟨roles, kid, t, jti, -, haccess⟩ := hissued.access
  refine ⟨by rw [haccess], hbinds.sub, hbinds.sid, ?_, fun f hf => ?_⟩
  · rw [haccess, get_access (by decide)]
    rfl
  rw [haccess] at hf
  rcases Fields.mem_setAll hf with hbase | hextra
  · simp only [JwtSigner.base, List.mem_cons, List.not_mem_nil, or_false] at hbase
    rcases hbase with rfl | rfl | rfl | rfl | rfl
    all_goals simp
  · exact List.mem_append_right ["iss", "aud", "sub", "jti", "exp"] (mem_accessTokenClaims hextra)

end Issuing

/-! ## Grants -/

section Grants

variable {env : Env} {es : Replies} {req : TokenRequest} {payload : TokenPayload}

/-- The reply to a `SELECT` that has found a row. -/
def selected (q : Query) (x : q.Res) : Reply Res := ⟨.sql (.query q), (.ok x : Except DbError q.Res)⟩

/-- The client of a grant is enabled and has authenticated. -/
structure ClientAuthenticated (env : Env) (req : TokenRequest) (es : Replies) (client : Client) :
    Prop where
  found : ClientFound env (req.clientId.getD "") es client
  enabled : client.enabled = true
  authenticated : authenticateClient env client req.clientSecret = true

variable {client : Client}

theorem returns_requireClient
    (h : Returns (requireClient env (req.clientId.getD "") req.clientSecret).run es
      (.ok (.ok client))) : ClientAuthenticated env req es client := by
  unfold requireClient at h
  obtain ⟨es₁, es₂, found, rfl, hfound, h₁⟩ := h.seq
  rcases found with _ | client'
  · cases h₁.ret.2
  obtain ⟨henabled, h₂⟩ := h₁.guard nofun
  obtain ⟨hauth, h₃⟩ := h₂.guard nofun
  obtain ⟨rfl, hc⟩ := h₃.ret
  cases hc
  rw [List.append_nil]
  exact ⟨returns_findByClientId hfound, by simpa using henabled, by simpa using hauth⟩

theorem requireClient_ne_success {a : TokenResult}
    (h : Returns (requireClient env (req.clientId.getD "") req.clientSecret).run es
      (.ok (.error a))) (payload : TokenPayload) : a ≠ .success payload := by
  rintro rfl
  unfold requireClient at h
  obtain ⟨es₁, es₂, found, -, -, h₁⟩ := h.seq
  rcases found with _ | client'
  · cases h₁.ret.2
  obtain ⟨-, h₂⟩ := h₁.guard nofun
  obtain ⟨-, h₃⟩ := h₂.guard nofun
  cases h₃.ret.2

theorem returns_consume {code : String} {authCode : AuthorizationCode}
    (h : Returns (AuthCodeStore.consume env code).run es (.ok (some authCode))) :
    ∃ at_ : NaiveDateTime, es = [⟨.redis (.authCode (.getdel (env.sha256 code))),
        (.ok (some authCode) : Except String (Option AuthorizationCode))⟩, ⟨.now, at_⟩] ∧
      at_ ≤ authCode.expiresAt := by
  unfold AuthCodeStore.consume at h
  obtain ⟨-, h₁⟩ := h.guard nofun
  obtain ⟨es₁, es₂, found, rfl, hget, h₂⟩ := h₁.seq
  rw [returns_redis hget]
  rcases found with _ | stored
  · cases h₂.ret.2
  obtain ⟨es₃, es₄, at_, rfl, hnow, h₃⟩ := h₂.seq
  rw [returns_perform.mp hnow]
  obtain ⟨hlive, h₄⟩ := h₃.guard nofun
  obtain ⟨rfl, hs⟩ := h₄.ret
  cases hs
  exact ⟨at_, rfl, not_lt.mp hlive⟩

/-- What a successful code exchange has read. -/
structure CodeGrant where
  client : Client
  authCode : AuthorizationCode
  takenAt : NaiveDateTime
  checkedAt : NaiveDateTime
  user : User
  session : UserSession
  lookup : Replies
  issuing : Replies

namespace CodeGrant

/-- The replies in order. -/
def replies (g : CodeGrant) (env : Env) (req : TokenRequest) : Replies :=
  g.lookup ++
    [⟨.redis (.authCode (.getdel (env.sha256 (req.code.getD "")))),
        (.ok (some g.authCode) : Except String (Option AuthorizationCode))⟩,
      ⟨.now, g.takenAt⟩, ⟨.now, g.checkedAt⟩,
      selected (.userById g.authCode.userId) (some g.user),
      selected (.sessionById g.authCode.sessionId) (some g.session), beginReply] ++
    g.issuing ++ [commitReply]

/-- The checks of the exchange. -/
structure Valid (g : CodeGrant) (env : Env) (req : TokenRequest) (payload : TokenPayload) : Prop where
  client : ClientAuthenticated env req g.lookup g.client
  live : g.takenAt ≤ g.authCode.expiresAt ∧ g.checkedAt ≤ g.authCode.expiresAt
  clientId : g.authCode.clientId = req.clientId.getD ""
  redirectUri : g.authCode.redirectUri = req.redirectUri.getD ""
  pkce : TokenFlow.pkceStep env g.client g.authCode req.codeVerifier = none
  issued : Returns (TokenIssuer.issue env g.user g.client g.session g.authCode.scope
    g.authCode.nonce g.authCode.claimsRequested).run g.issuing (.ok payload)

end CodeGrant

/-- A transaction that only issues tokens. -/
theorem returns_grant {user : User} {session : UserSession}
    {scope nonce request : Option String}
    (h : Returns (transaction do
      let payload ← TokenIssuer.issue env user client session scope nonce request
      return .commit (TokenResult.success payload)).run es (.ok (.success payload))) :
    ∃ es', es = beginReply :: es' ++ [commitReply] ∧
      Returns (TokenIssuer.issue env user client session scope nonce request).run es'
        (.ok payload) := by
  obtain ⟨es', ⟨rfl, hbody⟩ | ⟨r, -, hbody⟩⟩ := returns_transaction h
  · obtain ⟨es₁, es₂, payload', rfl, hissue, hret⟩ := hbody.seq
    obtain ⟨rfl, hp⟩ := hret.ret
    cases hp
    exact ⟨es₁, by rw [List.append_nil], hissue⟩
  · obtain ⟨es₁, es₂, payload', rfl, -, hret⟩ := hbody.seq
    cases hret.ret.2

theorem returns_fromAuthorizationCode
    (h : Returns (fromAuthorizationCode env req).run es (.ok (.success payload))) :
    ∃ g : CodeGrant, es = g.replies env req ∧ g.Valid env req payload := by
  unfold fromAuthorizationCode at h
  obtain ⟨-, h₁⟩ := h.guard nofun
  obtain ⟨lookup, es₂, found, rfl, hfound, h₂⟩ := h₁.seq
  rcases found with a | client
  · obtain ⟨-, rfl⟩ := h₂.ret
    exact absurd rfl (requireClient_ne_success hfound payload)
  obtain ⟨es₃, es₄, code, rfl, hcode, h₃⟩ := h₂.seq
  rcases code with _ | authCode
  · cases h₃.ret.2
  obtain ⟨takenAt, rfl, htaken⟩ := returns_consume hcode
  obtain ⟨es₅, es₆, checkedAt, rfl, hnow, h₄⟩ := h₃.seq
  rw [returns_perform.mp hnow]
  obtain ⟨hlive, h₅⟩ := h₄.guard nofun
  obtain ⟨hbound, h₆⟩ := h₅.guard nofun
  split at h₆
  · next e hpkce =>
    obtain ⟨-, rfl⟩ := h₆.ret
    exact absurd rfl (pkceStep_ne_success env hpkce payload)
  next hpkce =>
    obtain ⟨es₇, es₈, user, rfl, huser, h₇⟩ := h₆.seq
    obtain ⟨es₉, es₁₀, session, rfl, hsession, h₈⟩ := h₇.seq
    rw [returns_sql huser, returns_sql hsession]
    split at h₈
    · next user session =>
      obtain ⟨issuing, rfl, hissue⟩ := returns_grant h₈
      rw [Bool.or_eq_true, decide_eq_true_eq, decide_eq_true_eq, not_or, not_not,
        not_not] at hbound
      refine ⟨⟨client, authCode, takenAt, checkedAt, user, session, lookup, issuing⟩, ?_,
        ⟨returns_requireClient hfound, ⟨htaken, not_lt.mp hlive⟩, hbound.1, hbound.2, hpkce,
          hissue⟩⟩
      simp only [CodeGrant.replies, List.append_assoc, List.cons_append, List.nil_append]
      rfl
    · cases h₈.ret.2

/-- The replies to the two commands that write a device authorization back. -/
def consumedReplies (env : Env) (auth : DeviceAuthorization) : Bool → Replies
  | true =>
    [⟨.redis (.device (.exists auth.deviceCode)), (.ok true : Except String Bool)⟩,
      ⟨.redis (.device (.hset auth.deviceCode (DeviceAuthorizationRepository.toFields env auth))),
        (.ok () : Except String Unit)⟩]
  | false => [⟨.redis (.device (.exists auth.deviceCode)), (.ok false : Except String Bool)⟩]

theorem returns_update {auth : DeviceAuthorization} {x : Unit}
    (h : Returns (update env auth).run es (.ok x)) :
    ∃ present, es = consumedReplies env auth present := by
  unfold update at h
  obtain ⟨es₁, es₂, present, rfl, hexists, hrest⟩ := h.seq
  rw [returns_redis hexists]
  refine ⟨present, ?_⟩
  cases present with
  | false => rw [hrest.ret.1]; rfl
  | true => rw [returns_redis hrest]; rfl

/-- What a successful poll has read. -/
structure DeviceGrant where
  client : Client
  fields : Fields String String
  auth : DeviceAuthorization
  checkedAt : NaiveDateTime
  userId : Uuid
  sessionId : Uuid
  user : User
  session : UserSession
  present : Bool
  lookup : Replies
  issuing : Replies

namespace DeviceGrant

def replies (g : DeviceGrant) (env : Env) (req : TokenRequest) : Replies :=
  g.lookup ++
    [⟨.redis (.device (.hgetall (req.deviceCode.getD ""))),
        (.ok g.fields : Except String (Fields String String))⟩,
      ⟨.now, g.checkedAt⟩, selected (.userById g.userId) (some g.user),
      selected (.sessionById g.sessionId) (some g.session)] ++
    consumedReplies env { g.auth with status := DeviceAuthorization.statusConsumed } g.present ++
    [beginReply] ++ g.issuing ++ [commitReply]

/-- The checks of a poll. -/
structure Valid (g : DeviceGrant) (env : Env) (req : TokenRequest) (payload : TokenPayload) :
    Prop where
  client : ClientAuthenticated env req g.lookup g.client
  parsed : DeviceAuthorizationRepository.fromFields env g.fields = .ok g.auth
  live : g.checkedAt ≤ g.auth.expiresAt
  clientId : g.auth.clientId = req.clientId.getD ""
  approved : g.auth.status = DeviceAuthorization.statusApproved
  bound : g.auth.userId = some g.userId ∧ g.auth.sessionId = some g.sessionId
  issued : Returns (TokenIssuer.issue env g.user g.client g.session g.auth.scope none none).run
    g.issuing (.ok payload)

end DeviceGrant

theorem returns_findByDeviceCode {deviceCode : String} {auth : DeviceAuthorization}
    (h : Returns (findByDeviceCode env deviceCode).run es
      (.ok (some auth))) :
    ∃ fields : Fields String String,
      es = [⟨.redis (.device (.hgetall deviceCode)),
        (.ok fields : Except String (Fields String String))⟩] ∧
      fromFields env fields = .ok auth := by
  unfold findByDeviceCode loadHash at h
  obtain ⟨-, h₁⟩ := h.guard nofun
  obtain ⟨es₁, es₂, fields, rfl, hget, h₂⟩ := h₁.seq
  rw [returns_redis hget]
  obtain ⟨-, h₃⟩ := h₂.guard nofun
  obtain ⟨es₃, es₄, parsed, rfl, hparse, hret⟩ := h₃.seq
  obtain ⟨rfl, hp⟩ := hret.ret
  cases hp
  obtain ⟨rfl, hok⟩ := Returns.pure_iff.mp hparse
  exact ⟨fields, rfl, hok.symm⟩

omit env in
theorem approved_of_deviceStatusError {status : String}
    (h : deviceStatusError status = none) :
    status = DeviceAuthorization.statusApproved := by
  unfold deviceStatusError at h
  split_ifs at h with h₁ h₂ h₃ h₄
  exact h₄

theorem returns_fromDeviceCode
    (h : Returns (fromDeviceCode env req).run es (.ok (.success payload))) :
    ∃ g : DeviceGrant, es = g.replies env req ∧ g.Valid env req payload := by
  unfold fromDeviceCode at h
  obtain ⟨-, h₁⟩ := h.guard nofun
  obtain ⟨lookup, es₂, found, rfl, hfound, h₂⟩ := h₁.seq
  rcases found with a | client
  · obtain ⟨-, rfl⟩ := h₂.ret
    exact absurd rfl (requireClient_ne_success hfound payload)
  obtain ⟨es₃, es₄, found, rfl, hauth, h₃⟩ := h₂.seq
  rcases found with _ | auth
  · cases h₃.ret.2
  obtain ⟨fields, rfl, hparsed⟩ := returns_findByDeviceCode hauth
  obtain ⟨hclient, h₄⟩ := h₃.guard nofun
  obtain ⟨es₅, es₆, checkedAt, rfl, hnow, h₅⟩ := h₄.seq
  rw [returns_perform.mp hnow]
  obtain ⟨hlive, h₆⟩ := h₅.guard nofun
  split at h₆
  · next e hstatus =>
    obtain ⟨-, rfl⟩ := h₆.ret
    exact absurd rfl (deviceStatusError_ne_success hstatus payload)
  next hstatus =>
    split at h₆
    · next userId sessionId huserId hsessionId =>
      obtain ⟨es₇, es₈, user, rfl, huser, h₇⟩ := h₆.seq
      obtain ⟨es₉, es₁₀, session, rfl, hsession, h₈⟩ := h₇.seq
      rw [returns_sql huser, returns_sql hsession]
      split at h₈
      · next user session =>
        obtain ⟨es₁₁, es₁₂, _, rfl, hupdate, h₉⟩ := h₈.seq
        obtain ⟨present, rfl⟩ := returns_update hupdate
        obtain ⟨issuing, rfl, hissue⟩ := returns_grant h₉
        refine ⟨⟨client, fields, auth, checkedAt, userId, sessionId, user, session, present,
          lookup, issuing⟩, ?_, ⟨returns_requireClient hfound, hparsed, not_lt.mp hlive,
            not_not.mp hclient, approved_of_deviceStatusError hstatus, ⟨huserId, hsessionId⟩,
            hissue⟩⟩
        simp only [DeviceGrant.replies, List.append_assoc, List.cons_append, List.nil_append]
        rfl
      · cases h₈.ret.2
    · cases h₆.ret.2

/-- What a successful refresh has read. -/
structure RefreshGrant where
  client : Client
  stored : RefreshToken
  checkedAt : NaiveDateTime
  user : User
  session : UserSession
  lookup : Replies
  issuing : Replies

namespace RefreshGrant

def replies (g : RefreshGrant) (env : Env) (req : TokenRequest) : Replies :=
  g.lookup ++
    [beginReply, ⟨.sql (.tx (.findForUpdate (env.hmac (req.refreshToken.getD "")))),
        (.ok (some g.stored) : Except DbError (Option RefreshToken))⟩,
      ⟨.now, g.checkedAt⟩, selected (.userById g.stored.userId) (some g.user),
      selected (.sessionById g.stored.sessionId) (some g.session),
      ⟨.sql (.tx (.updateRevoked g.stored.id true)), (.ok () : Except DbError Unit)⟩] ++
    g.issuing ++ [commitReply]

/-- The checks of a refresh. -/
structure Valid (g : RefreshGrant) (env : Env) (req : TokenRequest) (payload : TokenPayload) :
    Prop where
  client : ClientAuthenticated env req g.lookup g.client
  unrevoked : g.stored.revoked = false
  live : ∀ e, g.stored.expiresAt = some e → g.checkedAt ≤ e
  clientId : g.stored.clientId = g.client.id
  enabled : g.user.enabled = true
  issued : Returns (TokenIssuer.issue env g.user g.client g.session g.client.scopes none none).run
    g.issuing (.ok payload)

end RefreshGrant

/-- A rotation never leaves its transaction open with a success. -/
theorem rotate_drop {stored : RefreshToken} {a : TokenResult}
    (h : Returns (rotate env client stored).run es (.ok (.drop a))) :
    a ≠ .success payload := by
  rintro rfl
  unfold rotate at h
  obtain ⟨es₁, es₂, checkedAt, -, -, h₁⟩ := h.seq
  obtain ⟨-, h₂⟩ := h₁.guard (by rintro ⟨⟩)
  obtain ⟨-, h₃⟩ := h₂.guard (by rintro ⟨⟩)
  obtain ⟨es₃, es₄, user, -, -, h₄⟩ := h₃.seq
  obtain ⟨es₅, es₆, session, -, -, h₅⟩ := h₄.seq
  split at h₅
  · obtain ⟨-, h₆⟩ := h₅.guard (by rintro ⟨⟩)
    obtain ⟨es₇, es₈, _, -, -, h₇⟩ := h₆.seq
    obtain ⟨es₉, es₁₀, payload', -, -, h₈⟩ := h₇.seq
    cases h₈.ret.2
  · cases h₅.ret.2

/-- The replies of a rotation that commits. -/
theorem rotate_commit {stored : RefreshToken} {lookup : Replies}
    (hclient : ClientAuthenticated env req lookup client) (hr : stored.revoked = false)
    (h : Returns (rotate env client stored).run es (.ok (.commit (.success payload)))) :
    ∃ g : RefreshGrant, g.lookup = lookup ∧ g.stored = stored ∧ g.Valid env req payload ∧
      es = [⟨.now, g.checkedAt⟩, selected (.userById g.stored.userId) (some g.user),
        selected (.sessionById g.stored.sessionId) (some g.session),
        ⟨.sql (.tx (.updateRevoked g.stored.id true)), (.ok () : Except DbError Unit)⟩] ++
        g.issuing := by
  unfold rotate at h
  obtain ⟨es₁, es₂, checkedAt, rfl, hnow, h₁⟩ := h.seq
  rw [returns_perform.mp hnow]
  obtain ⟨hlive, h₂⟩ := h₁.guard (by rintro ⟨⟩)
  obtain ⟨hown, h₃⟩ := h₂.guard (by rintro ⟨⟩)
  obtain ⟨es₃, es₄, user, rfl, huser, h₄⟩ := h₃.seq
  obtain ⟨es₅, es₆, session, rfl, hsession, h₅⟩ := h₄.seq
  rw [returns_sql huser, returns_sql hsession]
  split at h₅
  · next user session =>
    obtain ⟨henabled, h₆⟩ := h₅.guard (by rintro ⟨⟩)
    obtain ⟨es₇, es₈, _, rfl, hrevoke, h₇⟩ := h₆.seq
    obtain ⟨issuing, es₁₀, payload', rfl, hissue, h₈⟩ := h₇.seq
    rw [returns_sql hrevoke]
    obtain ⟨rfl, hp⟩ := h₈.ret
    cases hp
    refine ⟨⟨client, stored, checkedAt, user, session, lookup, issuing⟩, rfl, rfl,
      ⟨hclient, hr, fun e he => ?_, not_not.mp hown, by simpa using henabled, hissue⟩, ?_⟩
    · simp only at he
      rw [he] at hlive
      simpa using hlive
    · rw [List.append_nil]
      rfl
  · cases h₅.ret.2

theorem returns_fromRefreshToken
    (h : Returns (fromRefreshToken env req).run es (.ok (.success payload))) :
    ∃ g : RefreshGrant, es = g.replies env req ∧ g.Valid env req payload := by
  unfold fromRefreshToken at h
  dsimp only at h
  split at h
  · cases h.ret.2
  obtain ⟨lookup, es₂, found, rfl, hfound, h₁⟩ := h.seq
  split at h₁
  · obtain ⟨-, rfl⟩ := h₁.ret
    exact absurd rfl (requireClient_ne_success hfound payload)
  next client =>
    obtain ⟨es₃, ⟨rfl, hbody⟩ | ⟨r, rfl, hbody⟩⟩ := returns_transaction h₁
    all_goals
      obtain ⟨es₄, es₅, row, rfl, hfind, h₂⟩ := hbody.seq
      split at h₂
    · cases h₂.ret.2
    · next stored =>
      split at h₂
      · obtain ⟨es₆, es₇, _, -, -, h₃⟩ := h₂.seq
        cases h₃.ret.2
      next hr =>
        obtain ⟨g, rfl, rfl, hvalid, rfl⟩ := rotate_commit (returns_requireClient hfound)
          (Bool.eq_false_iff.mpr hr) h₂
        refine ⟨g, ?_, hvalid⟩
        rw [returns_sql hfind]
        simp only [RefreshGrant.replies, List.append_assoc, List.cons_append, List.nil_append]
        rfl
    · cases h₂.ret.2
    · next stored =>
      split at h₂
      · obtain ⟨es₆, es₇, _, -, -, h₃⟩ := h₂.seq
        cases h₃.ret.2
      · exact absurd rfl (rotate_drop h₂)

/-- What a successful `client_credentials` grant has read and checked. -/
structure CredentialsGranted (env : Env) (req : TokenRequest) (payload : TokenPayload)
    (client : Client) (lookup issuing : Replies) : Prop where
  authenticated : ClientAuthenticated env req lookup client
  confidential : Text.toAsciiLowercase (client.clientType.getD "") = "confidential"
  scope : Scopes.isSubsetOf req.scope client.scopes = true
  issued : Returns (TokenIssuer.issueForClient env client req.scope).run issuing (.ok payload)

theorem returns_fromClientCredentials
    (h : Returns (fromClientCredentials env req).run es (.ok (.success payload))) :
    ∃ client lookup issuing, es = lookup ++ issuing ∧
      CredentialsGranted env req payload client lookup issuing := by
  unfold fromClientCredentials at h
  obtain ⟨-, h₁⟩ := h.guard nofun
  obtain ⟨lookup, rest, found, rfl, hfound, h₂⟩ := h₁.seq
  rcases found with _ | client
  · cases h₂.ret.2
  obtain ⟨henabled, h₃⟩ := h₂.guard nofun
  obtain ⟨htype, h₄⟩ := h₃.guard nofun
  obtain ⟨hauth, h₅⟩ := h₄.guard nofun
  obtain ⟨hscope, h₆⟩ := h₅.guard nofun
  obtain ⟨issuing, es₂, payload', rfl, hissue, hret⟩ := h₆.seq
  obtain ⟨rfl, hp⟩ := hret.ret
  cases hp
  rw [List.append_nil]
  exact ⟨client, lookup, issuing, rfl, ⟨returns_findByClientId hfound, by simpa using henabled,
    by simpa using hauth⟩, not_not.mp htype, by simpa using hscope, hissue⟩

/-- Tokens for a client: an access token whose subject is the client. -/
theorem returns_issueForClient {scope : Option String}
    (h : Returns (TokenIssuer.issueForClient env client scope).run es (.ok payload)) :
    payload.refreshToken = none ∧ payload.idToken = none ∧ ∃ kid t jti,
      (⟨.now, t⟩ : Reply Res) ∈ es ∧ payload.accessToken = ⟨"at+jwt", kid,
        Fields.setAll (JwtSigner.base env client.clientId client.clientId jti
          (JwtSigner.stamp t + env.accessTtlSeconds))
          [("scope", .str (scope.getD "")), ("client_id", .str client.clientId)]⟩ := by
  unfold TokenIssuer.issueForClient at h
  obtain ⟨es₁, es₂, accessToken, rfl, hsign, hret⟩ := h.seq
  obtain ⟨-, rfl⟩ := hret.ret
  obtain ⟨kid, t, jti, hclock, rfl⟩ := returns_signAccessToken hsign
  exact ⟨rfl, rfl, kid, t, jti, List.mem_append_left _ hclock, rfl⟩

/-- The grant behind a successful answer of the token endpoint. -/
inductive Granted (env : Env) (req : TokenRequest) (es : Replies) (payload : TokenPayload) : Prop
  | code (g : CodeGrant) (hgrant : req.grantType = some "authorization_code")
      (hes : es = g.replies env req) (hvalid : g.Valid env req payload)
  | refresh (g : RefreshGrant) (hgrant : req.grantType = some "refresh_token")
      (hes : es = g.replies env req) (hvalid : g.Valid env req payload)
  | device (g : DeviceGrant)
      (hgrant : req.grantType = some "urn:ietf:params:oauth:grant-type:device_code")
      (hes : es = g.replies env req) (hvalid : g.Valid env req payload)
  | credentials (hgrant : req.grantType = some "client_credentials")
      (hret : Returns (TokenFlow.fromClientCredentials env req).run es (.ok (.success payload)))

theorem returns_token (h : Returns (token env req).run es (.ok (.success payload))) :
    Granted env req es payload := by
  have hgrant : ∀ {g : String}, req.grantType.getD "" = g → g ≠ "" → req.grantType = some g := by
    intro g hg hne
    cases hreq : req.grantType with
    | none =>
      rw [hreq] at hg
      exact absurd hg.symm hne
    | some g' =>
      rw [hreq] at hg
      exact congrArg some hg
  unfold token at h
  split at h
  · next hg =>
    obtain ⟨g, hes, hvalid⟩ := returns_fromAuthorizationCode h
    exact .code g (hgrant hg (by decide)) hes hvalid
  · next hg =>
    obtain ⟨g, hes, hvalid⟩ := returns_fromRefreshToken h
    exact .refresh g (hgrant hg (by decide)) hes hvalid
  · next hg => exact .credentials (hgrant hg (by decide)) h
  · next hg =>
    obtain ⟨g, hes, hvalid⟩ := returns_fromDeviceCode h
    exact .device g (hgrant hg (by decide)) hes hvalid
  · cases h.ret.2

end Grants

end AuthServer
