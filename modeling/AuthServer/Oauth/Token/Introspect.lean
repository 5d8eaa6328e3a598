import AuthServer.Client.Repository
import AuthServer.Oidc.Resource

/-!
# Token introspection

A client asks about a token; the answer says whether the token is active and, for a
token of this client, repeats its claims.
-/

namespace AuthServer

open Handler

/-- The answer of the introspection endpoint. -/
inductive IntrospectResult where
  | success (payload : JsonMap)
  | error (error description : String)

namespace IntrospectFlow

variable (env : Env)

/-- `aud` is one text or several. -/
def audienceMatches (aud : Option Json) (expected : String) : Bool :=
  match aud with
  | some (.str s) => s == expected
  | some (.arr items) => items.any fun v => v.asStr == some expected
  | _ => false

/-- The answer about a token that is not active, or not this client's. -/
def inactive : JsonMap := [("active", .bool false)]

/-- The claims of the token follow the mark and would replace it. -/
def active (claims : JsonMap) : JsonMap :=
  Storage.Fields.setAll [("active", .bool true)] claims

/-- The answer to an authenticated client. -/
def answer (keys : String → Bool) (token : BearerToken) (client : Client) :
    Handler IntrospectResult := do
  match token with
  | .absent | .unverified => return .success inactive
  | .signed jwt =>
    match ← JwtValidator.validate env keys jwt with
    | none => return .success inactive
    | some claims =>
      if !audienceMatches (claims.get "aud") client.clientId then return .success inactive
      return .success (active claims)

def introspect (keys : String → Bool) (token : BearerToken) (clientId : String)
    (clientSecret : Option String) : Handler IntrospectResult := do
  match token with
  | .absent => return .error "invalid_request" "token and client_id are required"
  | token =>
    if clientId = "" then
      return .error "invalid_request" "token and client_id are required"
    match ← ClientRepository.findByClientId env clientId with
    | none => return .error "invalid_client" "Unknown or disabled client"
    | some client =>
      if !client.enabled then return .error "invalid_client" "Unknown or disabled client"
      if !authenticateClient env client clientSecret then
        return .error "invalid_client" "Invalid client credentials"
      answer env keys token client

end IntrospectFlow

end AuthServer
