import AuthServer.Oauth.Token.Exchange
import AuthServer.Scenario

/-!
# What every token is promised to say

The discovery document and the introduction promise relying parties a set of claims in every token.
The issuer overlays the signer's claims with its own, and none of its own names is one of these
except the session id, so that no input changes them. One of them is missing: the signer writes
`iat` into logout tokens only.
-/

namespace AuthServer

open Concurrent Handler Storage

namespace TokenPromise

/-- The promised claims. -/
inductive Claim where
  | iss
  | sub
  | aud
  | jti
  | iat
  | exp
  | sid
  | authTime
  | nonce
  deriving DecidableEq

/-- What a token is minted for. The session, the login time and the requested nonce are there for
the tokens that have to name them. -/
structure Purpose where
  subject : String
  audience : String
  lifetime : Nat
  session : Option String
  login : Option Int
  requested : Option (Option String)

/-- The claim has the value that the purpose and the time of minting determine. -/
def Kept (env : Env) (purpose : Purpose) (mintedAt : Int) (claims : JsonMap) : Claim → Prop
  | .iss => claims.get "iss" = some (.str env.issuerUrl)
  | .sub => claims.get "sub" = some (.str purpose.subject)
  | .aud => claims.get "aud" = some (.str purpose.audience)
  | .jti => ∃ drawn, claims.get "jti" = some (.str (env.showUuid drawn))
  | .iat => claims.get "iat" = some (.num mintedAt)
  | .exp => claims.get "exp" = some (.num (mintedAt + purpose.lifetime))
  | .sid => ∀ s, purpose.session = some s → claims.get "sid" = some (.str s)
  | .authTime => ∀ t, purpose.login = some t → claims.get "auth_time" = some (.num t)
  | .nonce => ∀ n, purpose.requested = some n →
    claims.get "nonce" = (n.filter fun s => s != "").map .str

/-- The token keeps the promises, for one reading of the clock by the call that minted it. -/
def Keeps (env : Env) (promised : List Claim) (purpose : Purpose) (es : Replies) (token : Jwt) :
    Prop :=
  ∃ t, (⟨.now, t⟩ : Reply Res) ∈ es ∧
    ∀ c ∈ promised, Kept env purpose (JwtSigner.stamp t) token.claims c

def accessPurpose (env : Env) (user : User) (client : Client) (session : UserSession) : Purpose :=
  ⟨env.showUuid user.id, client.clientId, env.accessTtlSeconds, some (env.showUuid session.id), none,
    none⟩

def idPurpose (env : Env) (user : User) (client : Client) (session : UserSession)
    (nonce : Option String) : Purpose :=
  ⟨env.showUuid user.id, client.clientId, env.idTtlSeconds, some (env.showUuid session.id),
    some (session.createdAt.fdiv 1000000), some nonce⟩

def clientPurpose (env : Env) (client : Client) : Purpose :=
  ⟨client.clientId, client.clientId, env.accessTtlSeconds, none, none, none⟩

/-- Every token of `issue` and of `issue_for_client` keeps the promises, whatever it is issued for
and whatever the stores answer. -/
structure Complete (env : Env) (promised : List Claim) : Prop where
  user : ∀ user client session scope nonce request es payload,
    Returns (TokenIssuer.issue env user client session scope nonce request).run es (.ok payload) →
      Keeps env promised (accessPurpose env user client session) es payload.accessToken ∧
      ∀ token, payload.idToken = some token →
        Keeps env promised (idPurpose env user client session nonce) es token
  client : ∀ client scope es payload,
    Returns (TokenIssuer.issueForClient env client scope).run es (.ok payload) →
      Keeps env promised (clientPurpose env client) es payload.accessToken

variable {env : Env} {es : Replies} {payload : TokenPayload} {user : User} {client : Client}
variable {session : UserSession} {scope nonce request : Option String} {promised : List Claim}

theorem keeps_access (hp : .iat ∉ promised)
    (h : payload.Issued env user client session scope nonce request es) :
    Keeps env promised (accessPurpose env user client session) es payload.accessToken := by
  obtain ⟨roles, kid, t, jti, hclock, haccess⟩ := h.access
  have hsid := h.binds.sid
  rw [haccess] at hsid ⊢
  refine ⟨t, hclock, fun c hc => ?_⟩
  cases c with
  | iat => exact absurd hc hp
  | jti => exact ⟨jti, (get_access (by decide)).trans rfl⟩
  | sid =>
    rintro _ ⟨⟩
    exact hsid
  | authTime | nonce => exact fun _ h => (by cases h)
  | iss | sub | aud | exp => exact (get_access (by decide)).trans rfl

theorem keeps_id {token : Jwt} (hp : .iat ∉ promised)
    (h : payload.Issued env user client session scope nonce request es)
    (htoken : payload.idToken = some token) :
    Keeps env promised (idPurpose env user client session nonce) es token := by
  obtain ⟨-, hsid, -, hnonce⟩ := h.binds.identity token htoken
  obtain ⟨kid, t, jti, hclock, rfl⟩ := h.identity token htoken
  refine ⟨t, hclock, fun c hc => ?_⟩
  cases c with
  | iat => exact absurd hc hp
  | jti => exact ⟨jti, get_identity_base (by decide) (by decide) (by decide)⟩
  | sid =>
    rintro _ ⟨⟩
    exact hsid
  | authTime =>
    rintro _ ⟨⟩
    exact (get_identity (by decide)).trans (get_authTime _ _)
  | nonce =>
    rintro _ ⟨⟩
    exact hnonce
  | iss | sub | aud | exp => exact get_identity_base (by decide) (by decide) (by decide)

theorem keeps_client (hp : .iat ∉ promised)
    (h : Returns (TokenIssuer.issueForClient env client scope).run es (.ok payload)) :
    Keeps env promised (clientPurpose env client) es payload.accessToken := by
  obtain ⟨-, -, kid, t, jti, hclock, htoken⟩ := returns_issueForClient h
  rw [htoken]
  have hget {m : JsonMap} {k : String} (hscope : "scope" ≠ k) (hclient : "client_id" ≠ k) :
      (m.setAll [("scope", .str (scope.getD "")), ("client_id", .str client.clientId)]).get k =
        m.get k :=
    Fields.get_setAll_of_not_mem (by simp [hscope, hclient])
  refine ⟨t, hclock, fun c hc => ?_⟩
  cases c with
  | iat => exact absurd hc hp
  | jti => exact ⟨jti, hget (by decide) (by decide)⟩
  | sid | authTime | nonce => exact fun _ h => (by cases h)
  | iss | sub | aud | exp => exact hget (by decide) (by decide)

/-- The replies to the commands of a grant to a client. -/
def clientReplies : Replies :=
  [⟨.now, (0 : Int)⟩, ⟨.newUuid, (1 : Uuid)⟩, ⟨.activeKid, ("key-1" : String)⟩]

/-- The access token of a client without any inputs. -/
theorem returns_clientReplies (env : Env) (client : Client) : ∃ payload,
    Returns (TokenIssuer.issueForClient env client none).run clientReplies (.ok payload) ∧
      payload.accessToken.claims.get "iat" = none :=
  ⟨_, .call (.call (.call (.refl _))), rfl⟩

/-- A list of promises with `iat` is not kept. -/
theorem not_complete_of_mem (env : Env) (hiat : .iat ∈ promised) : ¬ Complete env promised := by
  intro h
  obtain ⟨payload, hreturns, hnone⟩ := returns_clientReplies env ⟨Scenario.client, []⟩
  obtain ⟨t, -, hkept⟩ := h.client _ _ _ _ hreturns
  cases hnone.symm.trans (hkept .iat hiat)

/-- The promises are kept exactly when `iat` is not among them. -/
theorem complete_iff (env : Env) (promised : List Claim) :
    Complete env promised ↔ .iat ∉ promised := by
  constructor
  · exact fun h hiat => not_complete_of_mem env hiat h
  · intro hp
    refine ⟨?_, fun client scope es payload h => keeps_client hp h⟩
    intro user client session scope nonce request es payload h
    have hissued := (issued_of_returns h).1
    exact ⟨keeps_access hp hissued, fun token => keeps_id hp hissued⟩

/-- The whole list of the introduction. -/
theorem not_complete :
    ¬ Complete Scenario.env [.iss, .sub, .aud, .exp, .iat, .jti, .sid, .authTime, .nonce] :=
  not_complete_of_mem _ (by decide)

end TokenPromise

end AuthServer
