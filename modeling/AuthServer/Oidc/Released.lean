import AuthServer.Oauth.Token.Scope
import AuthServer.Oidc.LiveSession

/-!
# Claims about a person, in the id token and at the userinfo endpoint

The rule for the release of claims about a person is written twice: over sets when tokens are
issued, and over the scope text and the list of names that the access token carries. Both release
the same claims when the same names were requested for both.
-/

namespace AuthServer

open Concurrent Handler Storage PersonClaim

namespace Released

section Proof

variable {env : Env} {user : User} {client : Client} {session : UserSession}
variable {scope nonce request : Option String} {es es' : Replies} {payload : TokenPayload}

theorem userinfoClaims_eq (scopes names : List String) :
    OidcResource.userinfoClaims env user scopes names =
      ("sub", .str (env.showUuid user.id)) :: claims user scopes names := by
  simp [OidcResource.userinfoClaims, claims, all, asked,
    key, scope, value]

/-- The names that the access token carries are the ones that were requested. -/
theorem mem_requestedClaims {roles : List String} {asked : ClaimsRequest} {m : JsonMap}
    (hm : m.get "claims_userinfo" = none) {name : String} :
    name ∈ OidcResource.requestedClaims (m.setAll
      (TokenIssuer.buildAccessTokenClaims env user client session roles scope asked)) ↔
      name ∈ asked.userinfoClaims := by
  obtain ⟨tail, -, heq, htail⟩ := @accessTokenClaims_eq env user session client scope roles asked
  have hget : (TokenIssuer.buildAccessTokenClaims env user client session roles scope asked).get
      "claims_userinfo" = tail.get "claims_userinfo" := by
    rw [heq, Fields.get_append]
    rfl
  rw [OidcResource.requestedClaims, Fields.get_setAll nodup_accessTokenClaims, hget, hm, htail]
  cases hnames : asked.userinfoClaims with
  | nil => simp [Fields.get]
  | cons n names =>
    simp [Fields.get, List.filterMap_map, Function.comp_def, Json.asStr, TokenIssuer.sortedNames]

theorem asked_congr {names names' : List String} (h : ∀ n, n ∈ names ↔ n ∈ names')
    (scopes : List String) (c : PersonClaim) : c.asked scopes names = c.asked scopes names' := by
  have hkey : names.contains c.key = names'.contains c.key := by
    rw [Bool.eq_iff_iff, List.contains_iff_mem, List.contains_iff_mem]
    exact h c.key
  rw [asked, asked, hkey]

/-- A claim of another name in front makes no difference. -/
theorem get_cons_claims {k : String} {v : Json} {names scopes : List String} (c : PersonClaim)
    (hk : k ≠ c.key) : Fields.get ((k, v) :: claims user scopes names) c.key =
      if c.asked scopes names then c.value user else none := by
  rw [← List.singleton_append, Fields.get_append, get_claims]
  simp [Fields.get, hk]

theorem get_idToken {token : Jwt} (c : PersonClaim)
    (h : payload.Issued env user client session scope nonce request es)
    (htoken : payload.idToken = some token) : token.claims.get c.key =
      if c.asked (Scopes.parse scope) (ClaimsRequest.parse env request).idTokenClaims then
        c.value user else none := by
  obtain ⟨kid, t, jti, -, rfl⟩ := h.identity token htoken
  have hbase : (JwtSigner.identity (JwtSigner.base env (env.showUuid user.id) client.clientId jti
      (JwtSigner.stamp t + env.idTtlSeconds)) nonce (session.createdAt.fdiv 1000000)).get c.key =
        none := by
    unfold JwtSigner.identity
    rcases nonce with _ | n
    · cases c <;> rfl
    · by_cases hn : n = "" <;> cases c <;> simp [hn, JwtSigner.base, key]
  rw [Fields.get_setAll nodup_idTokenClaims, hbase, Option.or_none, idTokenClaims_eq]
  exact get_cons_claims c (by cases c <;> decide)

/-- The id token and the userinfo endpoint release the same claims about the person, namely those
that are asked for by scope or by name and that the record has. -/
theorem released_alike (keys : String → Bool) {info : JsonMap}
    (hsame : ∀ n, n ∈ (ClaimsRequest.parse env request).idTokenClaims ↔
      n ∈ (ClaimsRequest.parse env request).userinfoClaims)
    (hopenid : "openid" ∈ Scopes.parse scope)
    (hissue : Returns (TokenIssuer.issue env user client session scope nonce request).run es
      (.ok payload))
    (hinfo : Returns (OidcResource.userinfo env keys (.signed payload.accessToken)).run es'
      (.ok (.ok info)))
    (hrow : ∀ id found, selected (.userById id) (some found) ∈ es' → found = user) :
    ∃ token, payload.idToken = some token ∧ ∀ c : PersonClaim,
      token.claims.get c.key = info.get c.key ∧
      info.get c.key =
        if c.asked (Scopes.parse scope) (ClaimsRequest.parse env request).userinfoClaims then
          c.value user else none := by
  have hissued := (issued_of_returns hissue).1
  obtain ⟨token, htoken⟩ := Option.isSome_iff_exists.mp
    (hissued.identified.trans (List.contains_iff_mem.mpr hopenid))
  obtain ⟨userId, found, hanswer⟩ := LiveSession.returns_userinfo hinfo
  obtain rfl := hrow userId found hanswer.read
  have hscope := hissued.binds.scopes
  obtain ⟨roles, kid, t, jti, -, haccess⟩ := hissued.access
  have hnames : ∀ n, n ∈ OidcResource.requestedClaims payload.accessToken.claims ↔
      n ∈ (ClaimsRequest.parse env request).userinfoClaims := by
    intro n
    rw [haccess]
    exact mem_requestedClaims rfl
  refine ⟨token, htoken, fun c => ?_⟩
  have hreleased : info.get c.key = if c.asked (Scopes.parse scope)
      (ClaimsRequest.parse env request).userinfoClaims then c.value found else none := by
    rw [hanswer.info_eq, userinfoClaims_eq, get_cons_claims c (by cases c <;> decide), hscope,
      asked_congr hnames]
    change (if c.asked (Scopes.parse (some (scope.getD ""))) _ then _ else _) = _
    rw [ScopeChain.parse_getD]
  refine ⟨?_, hreleased⟩
  rw [get_idToken c hissued htoken, hreleased, asked_congr hsame]

end Proof

section Samples

open Scenario

/-- The row of the refresh token in the sample answer. -/
def row : RefreshToken :=
  { id := 11, userId := alice.id, clientId := client.id, sessionId := session.id
    tokenHash := Scenario.env.hmac "refresh-a", expiresAt := some (seconds (30 * 86400))
    revoked := false, createdAt := 0 }

/-- The replies to the commands of the issuer, for scope `openid`. -/
def issueReplies : Replies :=
  [⟨.sql (.query (.rolesByUser alice.id)), (.ok [] : Except DbError (List Role))⟩,
    ⟨.sql (.query .allRoles), (.ok [] : Except DbError (List Role))⟩,
    ⟨.now, (0 : Int)⟩, ⟨.newUuid, (10 : Uuid)⟩, ⟨.activeKid, ("key-1" : String)⟩,
    ⟨.urlSafe 48, ("refresh-a" : String)⟩, ⟨.now, (0 : Int)⟩, ⟨.newUuid, (11 : Uuid)⟩,
    ⟨.sql (.tx (.insertRefreshToken row)), (.ok () : Except DbError Unit)⟩,
    ⟨.now, (0 : Int)⟩, ⟨.newUuid, (12 : Uuid)⟩, ⟨.activeKid, ("key-1" : String)⟩]

/-- The replies to the commands of the userinfo endpoint. -/
def infoReplies : Replies :=
  [⟨.now, (0 : Int)⟩, selected (.userById alice.id) (some alice),
    selected (.sessionById session.id) (some session)]

theorem released_alike_alice : ∃ payload info token,
    Returns (TokenIssuer.issue Scenario.env alice ⟨client, []⟩ session (some "openid email") none
      none).run issueReplies (.ok payload) ∧
    Returns (OidcResource.userinfo Scenario.env (fun _ => true) (.signed payload.accessToken)).run
      infoReplies (.ok (.ok info)) ∧
    payload.idToken = some token ∧ token.claims.get "email" = info.get "email" := by
  have hissue : Returns (TokenIssuer.issue Scenario.env alice ⟨client, []⟩ session
      (some "openid email") none none).run issueReplies (.ok _) :=
    .call (.call (.call (.call (.call (.call (.call (.call (.call (.call (.call (.call (.refl _))))))))))))
  have hrow : ∀ id found, selected (.userById id) (some found) ∈ infoReplies → found = alice := by
    intro id found h
    simp only [infoReplies, selected, List.mem_cons, List.not_mem_nil, or_false] at h
    rcases h with h | h | h
    · cases h
    · cases h
      rfl
    · cases h
  obtain ⟨token, htoken, hclaims⟩ := released_alike (fun _ => true) (fun _ => Iff.rfl)
    (by decide +kernel) hissue (by exact .call (.call (.call (.refl _)))) hrow
  exact ⟨_, _, token, hissue, .call (.call (.call (.refl _))), htoken, (hclaims .email).1⟩

end Samples

end Released

end AuthServer
