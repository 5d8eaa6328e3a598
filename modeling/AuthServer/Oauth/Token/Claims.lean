import AuthServer.Replies

/-!
# The claims of issued tokens

The exact claims of the tokens that the issuer returns: the base claims of the signer, with the
clock and the id they were made from, overlaid by the claims the issuer adds. Claims about a person
are released by one rule, at the userinfo endpoint as well.
-/

namespace AuthServer

open Concurrent Handler Storage TokenIssuer

/-! ## Claims about a person -/

/-- The claims about a person. -/
inductive PersonClaim where
  | email
  | emailVerified
  | preferredUsername
  | givenName
  | familyName
  | name
  deriving DecidableEq

namespace PersonClaim

/-- The name of the claim in a token. -/
def key : PersonClaim → String
  | email => "email"
  | emailVerified => "email_verified"
  | preferredUsername => "preferred_username"
  | givenName => "given_name"
  | familyName => "family_name"
  | name => "name"

/-- The scope that stands for the claim. -/
def scope : PersonClaim → String
  | email | emailVerified => "email"
  | _ => "profile"

/-- What the user's record has for the claim. -/
def value (user : User) : PersonClaim → Option Json
  | email => some (.str user.email)
  | emailVerified => some (.bool user.emailVerified)
  | preferredUsername => some (.str user.username)
  | givenName => user.firstName.map .str
  | familyName => user.lastName.map .str
  | name => user.firstName.bind fun f => user.lastName.map fun l => .str (f ++ " " ++ l)

def all : List PersonClaim :=
  [email, emailVerified, preferredUsername, givenName, familyName, name]

/-- The claim is asked for by its scope or by its name. -/
def asked (scopes names : List String) (c : PersonClaim) : Bool :=
  scopes.contains c.scope || names.contains c.key

/-- The claims that are released to the scopes and the requested names. -/
def claims (user : User) (scopes names : List String) : JsonMap :=
  all.flatMap fun c =>
    if c.asked scopes names then ((c.value user).map fun v => (c.key, v)).toList else []

variable {user : User} {scopes names : List String}

theorem mem_claims {f : String × Json} (h : f ∈ claims user scopes names) : ∃ c, f.1 = key c := by
  obtain ⟨c, -, h⟩ := List.mem_flatMap.mp h
  split at h
  · obtain ⟨v, -, rfl⟩ := Option.map_eq_some_iff.mp (Option.mem_toList.mp h)
    exact ⟨c, rfl⟩
  · cases h

theorem names_sublist (l : List PersonClaim) :
    List.Sublist ((l.flatMap fun c => if c.asked scopes names then
      ((c.value user).map fun v => (c.key, v)).toList else []).map Prod.fst) (l.map key) := by
  induction l with
  | nil => exact .slnil
  | cons c l ih =>
    rw [List.flatMap_cons, List.map_append, List.map_cons, ← List.singleton_append]
    refine List.Sublist.append ?_ ih
    split
    · cases c.value user with
      | none => exact List.nil_sublist _
      | some v => exact List.Sublist.refl _
    · exact List.nil_sublist _

theorem nodup_claims : ((claims user scopes names).map Prod.fst).Nodup :=
  List.Nodup.sublist (names_sublist all) (by decide)

theorem key_inj : ∀ {c d : PersonClaim}, c.key = d.key → c = d := by
  intro c d
  cases c <;> cases d <;> decide

/-- A claim is released exactly when it is asked for and the record has it. -/
theorem get_claims (c : PersonClaim) : Fields.get (claims user scopes names) c.key =
    if c.asked scopes names then c.value user else none := by
  have hget : ∀ l : List PersonClaim, Fields.get (l.flatMap fun d => if d.asked scopes names then
      ((d.value user).map fun v => (d.key, v)).toList else []) c.key =
        if c ∈ l then (if c.asked scopes names then c.value user else none) else none := by
    intro l
    induction l with
    | nil => rfl
    | cons d l ih =>
      rw [List.flatMap_cons, Fields.get_append, ih]
      by_cases hd : d = c
      · subst hd
        cases d.asked scopes names <;> cases d.value user <;> simp [Fields.get]
      · have hkey : d.key ≠ c.key := fun h => hd (key_inj h)
        cases d.asked scopes names <;> cases d.value user <;> simp [Fields.get, hkey, Ne.symm hd]
  have hmem : c ∈ all := by cases c <;> decide
  rw [claims, hget, if_pos hmem]

end PersonClaim

/-! ## Base claims and what the issuer adds -/

namespace JwtSigner

/-- The claims that every token begins with. -/
def base (env : Env) (subject audience : String) (jti : Uuid) (exp : Int) : JsonMap :=
  [("iss", .str env.issuerUrl), ("aud", .str audience), ("sub", .str subject),
    ("jti", .str (env.showUuid jti)), ("exp", .num exp)]

/-- A reading of the clock as it stands in claims. -/
def stamp (t : NaiveDateTime) : Int := max 0 (numSeconds t)

/-- The base of an id token with the login time and the nonce. -/
def identity (claims : JsonMap) (nonce : Option String) (authTime : Int) : JsonMap :=
  let claims := claims.set "auth_time" (.num authTime)
  match nonce with
  | some n => if n = "" then claims else claims.set "nonce" (.str n)
  | none => claims

end JwtSigner

open JwtSigner (base stamp identity)

section Issuing

variable {env : Env} {es : Replies} {subject audience : String} {jwt : Jwt} {extra : JsonMap}
variable {user : User} {session : UserSession} {client : Client}
variable {scope nonce request : Option String} {roles : List String} {asked : ClaimsRequest}

/-- The names of the claims that the issuer adds to an access token. -/
def accessNames : List String :=
  ["client_id", "email", "username", "sid", "roles", "scope", "claims_userinfo"]

/-- The claims that are always in a user's access token, and at most the names for the userinfo
endpoint. -/
theorem accessTokenClaims_eq :
    ∃ tail : JsonMap, (∀ f ∈ tail, f.1 = "claims_userinfo") ∧
      buildAccessTokenClaims env user client session roles scope asked =
        [("client_id", .str client.clientId), ("email", .str user.email),
          ("username", .str user.username), ("sid", .str (env.showUuid session.id)),
          ("roles", .arr (roles.map .str)), ("scope", .str (scope.getD ""))] ++ tail ∧
      tail = if asked.userinfoClaims.isEmpty then [] else [("claims_userinfo",
        .arr ((sortedNames asked.userinfoClaims).map .str))] := by
  unfold buildAccessTokenClaims
  dsimp only
  split
  · exact ⟨[], fun _ h => (by cases h), (List.append_nil _).symm, rfl⟩
  · rw [Fields.set_of_not_mem (by simp)]
    exact ⟨_, by simp, rfl, rfl⟩

theorem mem_accessTokenClaims {f : String × Json}
    (h : f ∈ buildAccessTokenClaims env user client session roles scope asked) :
    f.1 ∈ accessNames := by
  obtain ⟨tail, htail, heq, -⟩ :=
    @accessTokenClaims_eq env user session client scope roles asked
  rw [heq] at h
  rcases List.mem_append.mp h with hfixed | hnames
  · simp only [List.mem_cons, List.not_mem_nil, or_false] at hfixed
    rcases hfixed with rfl | rfl | rfl | rfl | rfl | rfl
    all_goals simp [accessNames]
  · rw [htail f hnames]
    decide

/-- Besides the session, an id token has claims about the person only. -/
theorem idTokenClaims_eq (scopes : List String) :
    buildIdTokenClaims env user session scopes asked =
      ("sid", .str (env.showUuid session.id)) ::
        PersonClaim.claims user scopes asked.idTokenClaims := by
  simp [buildIdTokenClaims, PersonClaim.claims, PersonClaim.all, PersonClaim.asked,
    PersonClaim.key, PersonClaim.scope, PersonClaim.value]

/-- The names of the claims that the issuer adds to an id token. -/
theorem mem_idTokenClaims {scopes : List String} {f : String × Json}
    (h : f ∈ buildIdTokenClaims env user session scopes asked) :
    f.1 ∈ "sid" :: PersonClaim.all.map PersonClaim.key := by
  rw [idTokenClaims_eq] at h
  rcases List.mem_cons.mp h with rfl | h
  · exact List.mem_cons_self
  · obtain ⟨c, hc⟩ := PersonClaim.mem_claims h
    rw [hc]
    cases c <;> decide

/-! ## Signed tokens -/

theorem returns_baseClaims {ttl : Nat} {claims : JsonMap}
    (h : Returns (JwtSigner.baseClaims env subject audience ttl extra).run es (.ok claims)) :
    ∃ (t : NaiveDateTime) (jti : Uuid), (⟨.now, t⟩ : Reply Res) ∈ es ∧
      claims = (base env subject audience jti (stamp t + ttl)).setAll extra := by
  unfold JwtSigner.baseClaims JwtSigner.nowSeconds at h
  obtain ⟨es₁, es₂, at_, rfl, hnow, hrest⟩ := h.seq
  obtain ⟨es₃, es₄, t, rfl, hclock, hat⟩ := hnow.seq
  obtain ⟨-, rfl⟩ := hat.ret
  obtain ⟨es₅, es₆, jti, rfl, -, hret⟩ := hrest.seq
  refine ⟨t, jti, ?_, hret.ret.2⟩
  rw [returns_perform.mp hclock]
  exact List.mem_append_left _ (List.mem_append_left _ List.mem_cons_self)

theorem returns_signedWithType {claims : JsonMap} {typ : Option String}
    (h : Returns (JwtSigner.signedWithType claims typ).run es (.ok jwt)) :
    ∃ kid, jwt = ⟨typ.getD "JWT", kid, claims⟩ := by
  unfold JwtSigner.signedWithType at h
  obtain ⟨es₁, es₂, kid, rfl, -, hret⟩ := h.seq
  exact ⟨kid, hret.ret.2⟩

theorem returns_signAccessToken
    (h : Returns (JwtSigner.signAccessToken env subject audience extra).run es (.ok jwt)) :
    ∃ kid t jti, (⟨.now, t⟩ : Reply Res) ∈ es ∧ jwt = ⟨"at+jwt", kid,
      (base env subject audience jti (stamp t + env.accessTtlSeconds)).setAll extra⟩ := by
  unfold JwtSigner.signAccessToken at h
  obtain ⟨es₁, es₂, claims, rfl, hbase, hsign⟩ := h.seq
  obtain ⟨kid, rfl⟩ := returns_signedWithType hsign
  obtain ⟨t, jti, hclock, rfl⟩ := returns_baseClaims hbase
  exact ⟨kid, t, jti, List.mem_append_left _ hclock, rfl⟩

theorem returns_signIdToken {authTime : Int}
    (h : Returns (JwtSigner.signIdToken env subject audience nonce authTime extra).run es
      (.ok jwt)) :
    ∃ kid t jti, (⟨.now, t⟩ : Reply Res) ∈ es ∧ jwt = ⟨"JWT", kid,
      (identity (base env subject audience jti (stamp t + env.idTtlSeconds)) nonce
        authTime).setAll extra⟩ := by
  unfold JwtSigner.signIdToken at h
  obtain ⟨es₁, es₂, claims, rfl, hbase, hsign⟩ := h.seq
  obtain ⟨t, jti, hclock, rfl⟩ := returns_baseClaims hbase
  obtain ⟨kid, rfl⟩ := returns_signedWithType hsign
  exact ⟨kid, t, jti, List.mem_append_left _ hclock, rfl⟩

/-- The tokens in an answer, up to the key that signed them. -/
structure TokenPayload.Issued (env : Env) (user : User) (client : Client) (session : UserSession)
    (scope nonce request : Option String) (es : Replies) (payload : TokenPayload) : Prop where
  access : ∃ roles kid t jti, (⟨.now, t⟩ : Reply Res) ∈ es ∧ payload.accessToken = ⟨"at+jwt", kid,
    (base env (env.showUuid user.id) client.clientId jti (stamp t + env.accessTtlSeconds)).setAll
      (TokenIssuer.buildAccessTokenClaims env user client session roles scope
        (ClaimsRequest.parse env request))⟩
  /-- An id token comes with scope `openid`. -/
  identified : payload.idToken.isSome = (Scopes.parse scope).contains "openid"
  identity : ∀ token, payload.idToken = some token → ∃ kid t jti, (⟨.now, t⟩ : Reply Res) ∈ es ∧
    token = ⟨"JWT", kid, (identity (base env (env.showUuid user.id) client.clientId jti
      (stamp t + env.idTtlSeconds)) nonce (session.createdAt.fdiv 1000000)).setAll
        (TokenIssuer.buildIdTokenClaims env user session (Scopes.parse scope)
          (ClaimsRequest.parse env request))⟩
  answered : payload.scope = scope.getD ""

/-- The refresh token in an answer, and the row that was inserted for it. -/
def TokenPayload.Refreshes (env : Env) (owner : Uuid × Uuid × Uuid) (es : Replies)
    (payload : TokenPayload) : Prop :=
  ∃ raw row, payload.refreshToken = some raw ∧ row.tokenHash = env.hmac raw ∧ row.owner = owner ∧
    row.revoked = false ∧ (⟨.urlSafe 48, raw⟩ : Reply Res) ∈ es ∧
    (⟨.sql (.tx (.insertRefreshToken row)), (.ok () : Except DbError Unit)⟩ : Reply Res) ∈ es

theorem issued_of_returns {payload : TokenPayload}
    (h : Returns (issue env user client session scope nonce request).run es
      (.ok payload)) :
    payload.Issued env user client session scope nonce request es ∧
      payload.Refreshes env (user.id, client.id, session.id) es := by
  unfold issue at h
  obtain ⟨es₁, es₂, roles, rfl, -, h₁⟩ := h.seq
  obtain ⟨es₃, es₄, accessToken, rfl, haccess, h₂⟩ := h₁.seq
  obtain ⟨es₅, es₆, raw, rfl, hraw, h₃⟩ := h₂.seq
  obtain ⟨es₇, es₈, at_, rfl, -, h₄⟩ := h₃.seq
  obtain ⟨es₉, es₁₀, id, rfl, -, h₅⟩ := h₄.seq
  obtain ⟨es₁₁, es₁₂, ⟨⟩, rfl, hinsert, h₆⟩ := h₅.seq
  obtain ⟨kid, t, jti, hclock, rfl⟩ := returns_signAccessToken haccess
  let row : RefreshToken :=
    { id, userId := user.id, clientId := client.id, sessionId := session.id
      tokenHash := env.hmac raw
      expiresAt := some (at_ + seconds (refreshTokenTtlDays * 86400))
      revoked := false, createdAt := at_ }
  have hdrawn : (⟨.urlSafe 48, raw⟩ : Reply Res) ∈ es₅ := by
    rw [returns_perform.mp hraw]
    exact List.mem_singleton_self _
  have hrow : (⟨.sql (.tx (.insertRefreshToken row)), (.ok () : Except DbError Unit)⟩ : Reply Res) ∈
      es₁₁ := by
    rw [returns_sql hinsert]
    exact List.mem_singleton_self _
  -- the answer: only the id token depends on the scope
  split at h₆
  · next hopenid =>
    obtain ⟨es₁₃, es₁₄, token, rfl, hsign, hret⟩ := h₆.seq
    obtain ⟨-, rfl⟩ := hret.ret
    refine ⟨⟨⟨roles, kid, t, jti, by simp [hclock], rfl⟩, by rw [hopenid]; rfl, ?_, rfl⟩,
      raw, row, rfl, rfl, rfl, rfl, by simp [hdrawn], by simp [hrow]⟩
    rintro _ ⟨⟩
    obtain ⟨kid', t', jti', hclock', rfl⟩ := returns_signIdToken hsign
    exact ⟨kid', t', jti', by simp [hclock'], rfl⟩
  · next hopenid =>
    obtain ⟨-, rfl⟩ := h₆.ret
    refine ⟨⟨⟨roles, kid, t, jti, by simp [hclock], rfl⟩, ?_, fun _ h => (by cases h), rfl⟩,
      raw, row, rfl, rfl, rfl, rfl, by simp [hdrawn], by simp [hrow]⟩
    rw [Bool.eq_false_iff.mpr hopenid]
    rfl

/-- The names that the issuer does not add keep the values of the signer. -/
theorem get_access {m : JsonMap} {k : String} (hk : k ∉ accessNames) :
    (m.setAll (buildAccessTokenClaims env user client session roles scope
      asked)).get k = m.get k :=
  Fields.get_setAll_of_not_mem fun _ hf he => hk (he ▸ mem_accessTokenClaims hf)

theorem get_identity {m : JsonMap} {scopes : List String} {k : String}
    (hk : k ∉ "sid" :: PersonClaim.all.map PersonClaim.key) :
    (m.setAll (buildIdTokenClaims env user session scopes asked)).get k = m.get k :=
  Fields.get_setAll_of_not_mem fun _ hf he => hk (he ▸ mem_idTokenClaims hf)

theorem nodup_accessTokenClaims :
    ((buildAccessTokenClaims env user client session roles scope asked).map
      Prod.fst).Nodup := by
  obtain ⟨tail, -, heq, htail⟩ := @accessTokenClaims_eq env user session client scope roles asked
  rw [heq, htail]
  split <;> simp

theorem nodup_idTokenClaims {scopes : List String} :
    ((buildIdTokenClaims env user session scopes asked).map Prod.fst).Nodup := by
  rw [idTokenClaims_eq, List.map_cons, List.nodup_cons]
  refine ⟨fun h => ?_, PersonClaim.nodup_claims⟩
  obtain ⟨f, hf, hsid⟩ := List.mem_map.mp h
  obtain ⟨c, hc⟩ := PersonClaim.mem_claims hf
  have hkey : c.key ≠ "sid" := by cases c <;> decide
  exact hkey (hc.symm.trans hsid)

theorem get_nonce (m : JsonMap) (hm : m.get "nonce" = none) (authTime : Int) :
    (identity m nonce authTime).get "nonce" = (nonce.filter fun n => n != "").map .str := by
  unfold identity
  cases nonce with
  | none => simp [hm]
  | some n => by_cases hn : n = "" <;> simp [hn, hm, Option.filter]

theorem get_authTime (m : JsonMap) (authTime : Int) :
    (identity m nonce authTime).get "auth_time" = some (.num authTime) := by
  unfold identity
  cases nonce with
  | none => simp
  | some n => by_cases hn : n = "" <;> simp [hn]

/-- The base claims of an id token are those of the signer. -/
theorem get_identity_base {m : JsonMap} {authTime : Int} {scopes : List String} {k : String}
    (hk : k ∉ "sid" :: PersonClaim.all.map PersonClaim.key) (hauth : k ≠ "auth_time")
    (hnonce : k ≠ "nonce") :
    ((identity m nonce authTime).setAll
      (buildIdTokenClaims env user session scopes asked)).get k = m.get k := by
  rw [get_identity hk]
  unfold identity
  cases nonce with
  | none => simp [hauth]
  | some n => by_cases hn : n = "" <;> simp [hn, hauth, hnonce]

end Issuing

end AuthServer
