import AuthServer.Crypto.KeyStore
import AuthServer.Oauth.Token.Claims

/-!
# What signing and validating read

The claims of a signed token as the validator reads them, and what the signing, validating and
publishing calls have been told when they return.
-/

namespace AuthServer

open Storage Concurrent RsaKeyProvider KeyHandler SignedJwt

variable {L : RsaLib} {env : Env}

/-! ## Claims -/

/-- Extra claims that leave what the validator reads to the signer. -/
def PlainExtra (extra : JsonMap) : Prop := ∀ f ∈ extra, f.1 ≠ "iss" ∧ f.1 ≠ "exp" ∧ f.1 ≠ "nbf"

/-- Claims with the issuer, an expiry and no start of validity. -/
structure Readable (env : Env) (claims : JsonMap) (expiry : Int) : Prop where
  iss : claims.get "iss" = some (.str env.issuerUrl)
  exp : claims.get "exp" = some (.num expiry)
  nonneg : 0 ≤ expiry
  nbf : claims.get "nbf" = none

section Claims

variable {claims extra : JsonMap} {exp : Int}

theorem Readable.setAll (h : Readable env claims exp) (hx : PlainExtra extra) :
    Readable env (claims.setAll extra) exp := by
  refine ⟨?_, ?_, h.nonneg, ?_⟩
  · rw [Fields.get_setAll_of_not_mem fun f hf => (hx f hf).1]
    exact h.iss
  · rw [Fields.get_setAll_of_not_mem fun f hf => (hx f hf).2.1]
    exact h.exp
  · rw [Fields.get_setAll_of_not_mem fun f hf => (hx f hf).2.2]
    exact h.nbf

theorem Readable.set (h : Readable env claims exp) {name : String} {value : Json}
    (hiss : "iss" ≠ name) (hexp : "exp" ≠ name) (hnbf : "nbf" ≠ name) :
    Readable env (claims.set name value) exp := by
  refine ⟨?_, ?_, h.nonneg, ?_⟩
  · rw [Fields.get_set, if_neg hiss]
    exact h.iss
  · rw [Fields.get_set, if_neg hexp]
    exact h.exp
  · rw [Fields.get_set, if_neg hnbf]
    exact h.nbf

theorem Readable.idClaims (h : Readable env claims exp) (hx : PlainExtra extra)
    (nonce : Option String) (authTime : Int) :
    Readable env (SignedJwt.JwtSigner.idClaims claims nonce authTime extra) exp := by
  have hauth : Readable env (claims.set "auth_time" (.num authTime)) exp :=
    h.set (by decide) (by decide) (by decide)
  unfold SignedJwt.JwtSigner.idClaims
  refine Readable.setAll ?_ hx
  split
  · split
    · exact hauth
    · exact hauth.set (by decide) (by decide) (by decide)
  · exact hauth

/-- The validator accepts claims that have not expired. -/
theorem Readable.accepts (h : Readable env claims exp) {v : Validation} {now : Int}
    (hv : v.issuer = env.issuerUrl) (haud : v.audience = none) (hleeway : 0 ≤ v.leeway)
    (hnow : now < exp) : v.accepts now claims = true := by
  have hexpired : ¬ exp < now - v.leeway := by omega
  unfold Validation.accepts
  rw [h.exp, h.iss, h.nbf]
  simp [Validation.time, Validation.texts, h.nonneg, hexpired, hv, haud]

end Claims

/-- The claims the issuer adds to its tokens are plain. -/
theorem plainExtra_access (user : User) (client : Client) (session : UserSession)
    (roles : List String) (scope : Option String) (request : ClaimsRequest) :
    PlainExtra (TokenIssuer.buildAccessTokenClaims env user client session roles scope request) := by
  have hnames : ∀ k ∈ accessNames, k ≠ "iss" ∧ k ≠ "exp" ∧ k ≠ "nbf" := by decide
  exact fun f hf => hnames f.1 (mem_accessTokenClaims hf)

theorem plainExtra_id (user : User) (session : UserSession) (scopes : List String)
    (request : ClaimsRequest) :
    PlainExtra (TokenIssuer.buildIdTokenClaims env user session scopes request) := by
  have hnames : ∀ k ∈ "sid" :: PersonClaim.all.map PersonClaim.key,
      k ≠ "iss" ∧ k ≠ "exp" ∧ k ≠ "nbf" := by decide
  exact fun f hf => hnames f.1 (mem_idTokenClaims hf)

theorem plainExtra_client (client : Client) (scope : Option String) :
    PlainExtra [("scope", .str (scope.getD "")), ("client_id", .str client.clientId)] := by
  simp [PlainExtra]

/-! ## What the calls have been told -/

section Replies

variable {α : Type} {es : List (Reply (KeyRes L))}

theorem returns_keyPerform {op : KeyOp L} {x : Except String (KeyRes L op)}
    (h : Returns (perform op).run es x) : ∃ r, x = .ok r ∧ es = [⟨op, r⟩] := by
  cases h with
  | call tail =>
    cases tail
    exact ⟨_, rfl, rfl⟩

theorem returns_unwrap {step : KeyHandler L (Except String α)} {x : Except String α}
    (h : Returns (unwrap step).run es x) :
    (∃ e, x = .error e ∧ Returns step.run es (.error e)) ∨ Returns step.run es (.ok x) := by
  rcases Returns.bindE h with hstop | ⟨es₁, es₂, r, rfl, hstep, hret⟩
  · exact .inl hstop
  · right
    cases r with
    | ok a =>
      obtain ⟨rfl, rfl⟩ := Returns.pure_iff.mp hret
      rwa [List.append_nil]
    | error e =>
      obtain ⟨rfl, rfl⟩ := Returns.pure_iff.mp hret
      rwa [List.append_nil]

theorem returns_activeEncodingKey {x : Except String (String × L.Private)}
    (h : Returns (RsaKeyProvider.activeEncodingKey (L := L)).run es x) :
    es = [⟨.activeEncodingKey, x⟩] := by
  rcases returns_unwrap h with ⟨e, -, hstep⟩ | hstep
  · obtain ⟨r, hr, -⟩ := returns_keyPerform hstep
    cases hr
  · obtain ⟨r, hr, rfl⟩ := returns_keyPerform hstep
    rw [Except.ok.inj hr]

theorem returns_decodingKeyByKid {kid : Option String} {x : Except String (Option L.Public)}
    (h : Returns (RsaKeyProvider.decodingKeyByKid (L := L) kid).run es x) :
    es = [⟨.decodingKeyByKid kid, x⟩] := by
  rcases returns_unwrap h with ⟨e, -, hstep⟩ | hstep
  · obtain ⟨r, hr, -⟩ := returns_keyPerform hstep
    cases hr
  · obtain ⟨r, hr, rfl⟩ := returns_keyPerform hstep
    rw [Except.ok.inj hr]

theorem readable_of_baseClaims {subject audience : String} {ttl : Nat} {extra claims : JsonMap}
    (h : Returns (SignedJwt.JwtSigner.baseClaims (L := L) env subject audience ttl extra).run es (.ok claims))
    (hx : PlainExtra extra) : ∃ exp, Readable env claims exp := by
  obtain ⟨es₁, es₂, at_, rfl, hnow, hrest⟩ := h.seq
  obtain ⟨es₃, es₄, t, rfl, -, hat⟩ := hnow.seq
  obtain ⟨-, rfl⟩ := hat.ret
  obtain ⟨es₅, es₆, jti, rfl, -, hret⟩ := hrest.seq
  obtain ⟨-, rfl⟩ := hret.ret
  have hnonneg : (0 : Int) ≤ max 0 (numSeconds t) + ttl := by omega
  refine ⟨_, Readable.setAll ⟨?_, ?_, hnonneg, ?_⟩ hx⟩
  · simp
  · simp
  · simp

/-- A token is signed with the key that the provider has given out as the active one. -/
structure SignedWith (env : Env) (token : SignedJwt L) (kid : String) (key : L.Private) (exp : Int) :
    Prop where
  alg : token.alg = .rs256
  kid : token.kid = some kid
  signature : token.signature = some key
  claims : Readable env token.claims exp

variable {token : SignedJwt L}

theorem signedWith_of_returns {claims : JsonMap} {typ : Option String} {exp : Int}
    (h : Returns (SignedJwt.JwtSigner.signedWithType (L := L) claims typ).run es (.ok token))
    (hc : Readable env claims exp) :
    ∃ kid key, SignedWith env token kid key exp ∧
      (⟨.activeEncodingKey, (.ok (kid, key) : Except String (String × L.Private))⟩ :
        Reply (KeyRes L)) ∈ es := by
  obtain ⟨es₁, es₂, ⟨kid, key⟩, rfl, hkey, hret⟩ := h.seq
  obtain ⟨-, rfl⟩ := hret.ret
  refine ⟨kid, key, ⟨rfl, rfl, rfl, hc⟩, List.mem_append_left _ ?_⟩
  rw [returns_activeEncodingKey hkey]
  exact List.mem_singleton_self _

/-- The token a signing call has returned. -/
def KeyCall.minted : (call : KeyCall L) → call.Answer → Option (SignedJwt L)
  | .signAccessToken _ _ _, token => some token
  | .signIdToken _ _ _ _ _, token => some token
  | _, _ => none

/-- The extra claims of a signing call are plain. -/
def KeyCall.PlainExtras : KeyCall L → Prop
  | .signAccessToken _ _ extra => PlainExtra extra
  | .signIdToken _ _ _ _ extra => PlainExtra extra
  | _ => True

theorem signedWith_of_minted {call : KeyCall L} {a : call.Answer}
    (h : Returns ((keyServer L env).program call) es (.ok a)) (hm : call.minted a = some token)
    (hx : call.PlainExtras) :
    ∃ kid key exp, SignedWith env token kid key exp ∧
      (⟨.activeEncodingKey, (.ok (kid, key) : Except String (String × L.Private))⟩ :
        Reply (KeyRes L)) ∈ es := by
  cases call with
  | signAccessToken subject audience extra =>
    cases hm
    obtain ⟨_, es₁, rfl, hbody⟩ := returns_keyStep h
    obtain ⟨es₂, es₃, claims, rfl, hclaims, hsign⟩ := hbody.seq
    obtain ⟨exp, hexp⟩ := readable_of_baseClaims hclaims hx
    obtain ⟨kid, key, hwith, hmem⟩ := signedWith_of_returns hsign hexp
    exact ⟨kid, key, exp, hwith, List.mem_cons_of_mem _ (List.mem_append_right _ hmem)⟩
  | signIdToken subject audience nonce authTime extra =>
    cases hm
    obtain ⟨_, es₁, rfl, hbody⟩ := returns_keyStep h
    obtain ⟨es₂, es₃, claims, rfl, hclaims, hsign⟩ := hbody.seq
    obtain ⟨exp, hexp⟩ := readable_of_baseClaims hclaims (fun _ hf => nomatch hf)
    obtain ⟨kid, key, hwith, hmem⟩ :=
      signedWith_of_returns hsign (hexp.idClaims hx nonce authTime)
    exact ⟨kid, key, exp, hwith, List.mem_cons_of_mem _ (List.mem_append_right _ hmem)⟩
  | _ => cases hm

/-- The options of a validation without an expected audience. -/
def validationOf (env : Env) (allowExpired : Bool) : Validation :=
  { issuer := env.issuerUrl, audience := none
    validateExp := !allowExpired, leeway := if allowExpired then 0 else 60 }

/-- A validation asks for the key of the kid, and answers with what the key and the clock say. -/
theorem returns_validateInternal {allowExpired : Bool} {y : Except String (Option JsonMap)}
    (h : Returns (SignedJwt.JwtValidator.validateInternal env token none allowExpired).run es y) :
    (token.alg ≠ .rs256 ∧ y = .ok none) ∨
      ∃ r : Except String (Option L.Public), (⟨.decodingKeyByKid token.kid, r⟩ : Reply (KeyRes L)) ∈ es ∧
        ((∃ e, r = .error e) ∨ (r = .ok none ∧ y = .ok none) ∨
          ∃ key, ∃ t : NaiveDateTime, r = .ok (some key) ∧ (⟨.now, t⟩ : Reply (KeyRes L)) ∈ es ∧
            y = .ok (token.decode key (validationOf env allowExpired) (numSeconds t))) := by
  unfold SignedJwt.JwtValidator.validateInternal at h
  split at h
  · next halg =>
    obtain ⟨-, rfl⟩ := Returns.pure_iff.mp h
    exact .inl ⟨halg, rfl⟩
  · right
    rcases Returns.bindE h with ⟨e, rfl, hkey⟩ | ⟨es₁, es₂, found, rfl, hkey, hrest⟩
    · rw [returns_decodingKeyByKid hkey]
      exact ⟨_, List.mem_singleton_self _, .inl ⟨e, rfl⟩⟩
    · rw [returns_decodingKeyByKid hkey]
      refine ⟨_, List.mem_append_left _ (List.mem_singleton_self _), .inr ?_⟩
      cases found with
      | none =>
        obtain ⟨-, rfl⟩ := Returns.pure_iff.mp hrest
        exact .inl ⟨rfl, rfl⟩
      | some key =>
        obtain ⟨t, es₃, rfl, hret⟩ := returns_keyStep hrest
        obtain ⟨-, rfl⟩ := Returns.pure_iff.mp hret
        exact .inr ⟨key, t, rfl, List.mem_append_right _ List.mem_cons_self, rfl⟩

theorem returns_jwksEntries {entries : List (String × L.Public)}
    {y : Except String (List (String × L.Public))} (h : Returns (jwksEntries entries).run es y) :
    ∃ published, y = .ok published ∧ ∀ entry ∈ entries, ∃ found : Option L.Public,
      (⟨.publicKey entry.1, found⟩ : Reply (KeyRes L)) ∈ es ∧
        ∀ key, found = some key → (entry.1, key) ∈ published := by
  induction entries generalizing es y with
  | nil =>
    obtain ⟨-, rfl⟩ := Returns.pure_iff.mp h
    exact ⟨[], rfl, nofun⟩
  | cons entry rest ih =>
    obtain ⟨found, es₁, rfl, hrest⟩ := returns_keyStep h
    rcases Returns.bindE hrest with ⟨e, rfl, hstop⟩ | ⟨es₂, es₃, published, rfl, hloop, hret⟩
    · obtain ⟨_, hy, -⟩ := ih hstop
      cases hy
    · obtain ⟨-, rfl⟩ := Returns.pure_iff.mp hret
      obtain ⟨_, hy, hall⟩ := ih hloop
      cases hy
      refine ⟨_, rfl, fun entry' hentry => ?_⟩
      rcases List.mem_cons.mp hentry with rfl | hentry
      · refine ⟨found, List.mem_cons_self, fun key hkey => List.mem_append_left _ ?_⟩
        rw [hkey]
        exact List.mem_singleton_self _
      · obtain ⟨found', hmem, hkeys⟩ := hall entry' hentry
        exact ⟨found', List.mem_cons_of_mem _ (List.mem_append_left _ hmem),
          fun key hkey => List.mem_append_right _ (hkeys key hkey)⟩

end Replies

end AuthServer
