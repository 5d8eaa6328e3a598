import AuthServer.Oauth.Token.Flow

/-!
# OIDC logout

The session is named by an `id_token_hint` or by a session token. Clients are notified over
the back channel by detached tasks, whose outcome nobody waits for.
-/

namespace AuthServer

open Handler

/-- The answer of a logout. -/
structure LogoutResult where
  terminated : Bool
  frontchannelLogoutUris : List String
  validatedPostLogoutRedirectUri : Option String
  deriving DecidableEq

namespace LogoutFlow

variable (env : Env)

/-- The claims of a hint; an expired hint still counts. -/
def hintClaims (idTokenHint : Option String) : Option JwtClaims :=
  (idTokenHint.filter fun s => s != "").bind env.validateAllowExpired

def resolveClientFromIdTokenHint (idTokenHint : Option String) : Handler (Option Client) := do
  match ((hintClaims env idTokenHint).bind JwtClaims.aud).filter fun s => s != "" with
  | none => return none
  | some cid => ClientRepository.findByClientId env cid

def resolveSessionId (idTokenHint sessionToken : Option String) : Handler (Option Uuid) := do
  match ((hintClaims env idTokenHint).bind JwtClaims.sid).bind env.parseUuid with
  | some sid => return some sid
  | none =>
    match sessionToken.filter fun s => s != "" with
    | none => return none
    | some t =>
      let found ← SessionService.findActiveSession env t
      return found.map fun s => s.session.id

def buildFrontchannelUrl (uri : String) (sessionId : Uuid) : String :=
  uri ++ (if Text.containsChar uri '?' then "&" else "?") ++
    "iss=" ++ Text.urlEncode env.issuerUrl ++ "&sid=" ++ Text.urlEncode (env.showUuid sessionId)

/-- The clients that hold refresh tokens of the session. -/
def involvedClients : List Uuid → Handler (List Client)
  | [] => return []
  | cid :: cids => do
    let client ← ClientRepository.findById cid
    let rest ← involvedClients cids
    return client.toList ++ rest

def validatePostLogout (idTokenHint postLogoutRedirectUri : Option String) :
    Handler (Option String) := do
  match postLogoutRedirectUri.filter fun s => s != "" with
  | none => return none
  | some uri =>
    match ← resolveClientFromIdTokenHint env idTokenHint with
    | none => return none
    | some client =>
      if ← ClientRepository.isRedirectUriAllowed client.id uri then return some uri
      return none

/-- Revoke the refresh tokens in a transaction of their own, then delete the session; the
outcome of the deletion is dropped. -/
def terminate (sessionId : Uuid) : Handler Unit := do
  transaction do
    let _ ← RefreshTokenRepository.revokeBySessionIdInTx sessionId
    return .commit ()
  ignore (SessionRepository.delete env sessionId)

def logout (idTokenHint sessionToken postLogoutRedirectUri : Option String) :
    Handler LogoutResult := do
  let validated ← validatePostLogout env idTokenHint postLogoutRedirectUri
  match ← resolveSessionId env idTokenHint sessionToken with
  | none => return ⟨false, [], validated⟩
  | some sessionId =>
    let _ ← SessionRepository.findById sessionId
    let clientIds ← query (.clientIdsBySession sessionId)
    let involved ← involvedClients clientIds
    terminate env sessionId
    let frontchannel := involved.filterMap fun c =>
      (c.frontchannelLogoutUri.filter fun s => s != "").map fun uri =>
        buildFrontchannelUrl env uri sessionId
    return ⟨true, frontchannel, validated⟩

end LogoutFlow

end AuthServer
