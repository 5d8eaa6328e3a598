import AuthServer.Client.Repository
import AuthServer.Oauth.CodeStore
import AuthServer.Oauth.Protocol
import AuthServer.Session.Service

/-!
# The authorization endpoint and the consent screen
-/

namespace AuthServer

open Handler

namespace ConsentService

/-- Scopes joined the way consents are stored: sorted, separated by single blanks. -/
def joinScopes (scopes : List String) : String :=
  String.intercalate " " (scopes.insertionSort fun a b => a ≤ b)

def hasConsent (userId clientId : Uuid) (requestedScopeRaw : Option String) : Handler Bool := do
  let requested := Scopes.parse requestedScopeRaw
  if requested.isEmpty then return true
  match ← query (.consent userId clientId) with
  | none => return false
  | some existing =>
    let granted := Scopes.parse (some existing.scopes)
    return requested.all fun s => granted.contains s

/-- A first grant inserts a row, a later one adds its scopes to the row. -/
def grant (userId clientId : Uuid) (requestedScopeRaw : Option String) : Handler Unit := do
  let requested := Scopes.parse requestedScopeRaw
  let at_ ← now
  match ← query (.consent userId clientId) with
  | none =>
    let id ← newUuid
    stmt (.insertConsent
      { id, userId, clientId, scopes := joinScopes requested, grantedAt := at_, updatedAt := at_ })
  | some existing =>
    let merged := (Scopes.parse (some existing.scopes) ++ requested).dedup
    stmt (.updateConsent { existing with scopes := joinScopes merged, updatedAt := at_ })

end ConsentService

/-- The parameters of an authorization request. -/
structure AuthorizeRequest where
  sessionToken : Option String := none
  clientId : Option String := none
  redirectUri : Option String := none
  responseType : Option String := none
  scope : Option String := none
  state : Option String := none
  nonce : Option String := none
  prompt : Option String := none
  maxAge : Option Int := none
  codeChallenge : Option String := none
  codeChallengeMethod : Option String := none
  claimsJson : Option String := none

/-- The answer of the authorization endpoint. -/
inductive AuthorizeResult where
  | success (redirect : String)
  | error (error description : String)
  | errorRedirect (redirect error description : String)
  | consentRequired (requestId : String)
  deriving DecidableEq

namespace AuthorizeFlow

variable (env : Env)

def authCodeTtlMinutes : Int := 3

def authCodeBytes : Nat := 48

def consentRequestTtlMinutes : Int := 10

/-- After a fresh login, `prompt=login` counts as satisfied for this long. -/
def reauthGraceSeconds : Int := 10

def parsePrompt (raw : Option String) : List String :=
  match raw with
  | none => []
  | some s => (Text.pieces Text.isWhitespace s).dedup

def buildRedirect (baseUri : String) (params : List (String × String)) : String :=
  baseUri ++ (if Text.containsChar baseUri '?' then "&" else "?") ++
    String.intercalate "&" (params.map fun p => Text.urlEncode p.1 ++ "=" ++ Text.urlEncode p.2)

def errorRedirect (redirectUri : String) (state : Option String) (error desc : String) :
    AuthorizeResult :=
  let params := [("error", error)] ++ (if desc = "" then [] else [("error_description", desc)]) ++
    (state.filter fun s => s != "").toList.map fun s => ("state", s)
  .errorRedirect (buildRedirect redirectUri params) error desc

/-- What an authorization code is bound to. -/
structure Grant where
  sessionId : Uuid
  userId : Uuid
  clientId : String
  redirectUri : String
  scope : Option String
  state : Option String
  nonce : Option String
  codeChallenge : Option String
  codeChallengeMethod : Option String
  claimsRequested : Option String

/-- The code stored for a grant. -/
def Grant.code (g : Grant) (code : String) (expiresAt : NaiveDateTime) : AuthorizationCode where
  code := code
  clientId := g.clientId
  userId := g.userId
  sessionId := g.sessionId
  redirectUri := g.redirectUri
  scope := g.scope
  state := g.state
  nonce := g.nonce
  codeChallenge := g.codeChallenge
  codeChallengeMethod := g.codeChallengeMethod
  claimsRequested := g.claimsRequested
  expiresAt := expiresAt
  createdAt := none

def issueCode (g : Grant) : Handler AuthorizeResult := do
  let code ← urlSafe authCodeBytes
  let at_ ← now
  AuthCodeStore.put env (g.code code (at_ + seconds (authCodeTtlMinutes * 60)))
  return .success (buildRedirect g.redirectUri [("code", code), ("state", g.state.getD "")])

/-- The PKCE check of an authorization request: the method to store, or the error and its
description. -/
def resolveMethod (client : Client) (codeChallenge codeChallengeMethod : Option String) :
    Except (String × String) (Option String) :=
  if codeChallenge.any fun c => c != "" then
    match codeChallengeMethod.filter fun m => m != "" with
    | none =>
      .error ("invalid_request", "code_challenge_method is required (only S256 supported)")
    | some method =>
      if !Pkce.isMethodSupported (some method) then
        .error ("invalid_request", "Unsupported code_challenge_method")
      else .ok (some method)
  else if client.pkceRequired then .error ("invalid_request", "code_challenge is required")
  else .ok none

/-- The end of an authorization request that has passed every check. -/
def finish (req : AuthorizeRequest) (session : SessionWithUser) (client : Client)
    (redirectUri : String) (resolvedMethod : Option String) : Handler AuthorizeResult := do
  let prompts := parsePrompt req.prompt
  let hasConsent ←
    if prompts.contains "consent" then pure false
    else ConsentService.hasConsent session.session.userId client.id req.scope
  if !hasConsent then
    if prompts.contains "none" then
      return errorRedirect redirectUri req.state "consent_required"
        "Consent is required but prompt=none was specified"
    let requestId ← urlSafe 24
    let at_ ← now
    PendingAuthorizationStore.put env
      { requestId, sessionId := session.session.id, userId := session.session.userId
        clientId := client.clientId, redirectUri, responseType := "code"
        scope := req.scope, state := req.state, nonce := req.nonce, prompt := req.prompt
        maxAge := req.maxAge, codeChallenge := req.codeChallenge
        codeChallengeMethod := resolvedMethod, claimsRequested := req.claimsJson
        expiresAt := at_ + seconds (consentRequestTtlMinutes * 60) }
    return .consentRequired requestId
  issueCode env
    { sessionId := session.session.id, userId := session.session.userId
      clientId := client.clientId, redirectUri, scope := req.scope, state := req.state
      nonce := req.nonce, codeChallenge := req.codeChallenge
      codeChallengeMethod := resolvedMethod, claimsRequested := req.claimsJson }

/-- The answer to a request without a usable session. -/
def loginError (prompts : List String) (description : String) : AuthorizeResult :=
  .error (if prompts.contains "none" then "login_required" else "invalid_session") description

def authorize (req : AuthorizeRequest) : Handler AuthorizeResult := do
  if req.responseType ≠ some "code" then
    return .error "unsupported_response_type" "Only response_type=code is supported"
  let clientId := Text.trim (req.clientId.getD "")
  let redirectUri := req.redirectUri.getD ""
  if clientId = "" || redirectUri = "" then
    return .error "invalid_request" "client_id and redirect_uri are required"
  let prompts := parsePrompt req.prompt
  let promptLogin := prompts.contains "login"
  let found ← match req.sessionToken with
    | some t => SessionService.findActiveSession env t
    | none => pure none
  let at_ ← now
  let loginDescription :=
    if promptLogin then "prompt=login requires re-authentication" else "Login required"
  match found with
  | none => return loginError prompts loginDescription
  | some session =>
    let age := numSeconds (at_ - session.session.createdAt)
    if promptLogin && !decide (age < reauthGraceSeconds) then
      return loginError prompts loginDescription
    let maxAge := req.maxAge.getD age
    if maxAge < age then
      return loginError prompts s!"Session age {age}s exceeds max_age {maxAge}s"
    let client ← ClientRepository.findByClientId env clientId
    match client.filter fun c => c.enabled with
    | none => return .error "unauthorized_client" "Unknown or disabled client"
    | some client =>
      if !(← ClientRepository.isRedirectUriAllowed client.id redirectUri) then
        return .error "invalid_request" "redirect_uri is not registered"
      if !Scopes.isSubsetOf req.scope client.scopes then
        return errorRedirect redirectUri req.state "invalid_scope"
          "Requested scope is not allowed for this client"
      match resolveMethod client req.codeChallenge req.codeChallengeMethod with
      | .error (e, desc) => return errorRedirect redirectUri req.state e desc
      | .ok resolvedMethod => finish env req session client redirectUri resolvedMethod

/-- The client and the redirect URI are checked again, PKCE is not. -/
def completeAfterConsent (pending : PendingAuthorization) : Handler AuthorizeResult := do
  match ← ClientRepository.findByClientId env pending.clientId with
  | none => return .error "unauthorized_client" "Unknown or disabled client"
  | some client =>
    if !client.enabled then
      return .error "unauthorized_client" "Unknown or disabled client"
    if !(← ClientRepository.isRedirectUriAllowed client.id pending.redirectUri) then
      return .error "invalid_request" "redirect_uri is not registered"
    ConsentService.grant pending.userId client.id pending.scope
    issueCode env
      { sessionId := pending.sessionId, userId := pending.userId
        clientId := client.clientId, redirectUri := pending.redirectUri
        scope := pending.scope, state := pending.state, nonce := pending.nonce
        codeChallenge := pending.codeChallenge
        codeChallengeMethod := pending.codeChallengeMethod
        claimsRequested := pending.claimsRequested }

end AuthorizeFlow

/-- The answers of `POST /consent`. -/
inductive ConsentResult where
  | redirect (location : String)
  | notFound (message : String)
  | forbidden (message : String)
  | badRequest (message : String)
  deriving DecidableEq

namespace ConsentResource

variable (env : Env)

/-- Where the user is sent who denies. -/
def deniedLocation (pending : PendingAuthorization) : String :=
  pending.redirectUri ++ (if Text.containsChar pending.redirectUri '?' then "&" else "?") ++
    "error=access_denied&error_description=" ++ Text.urlEncode "user denied consent" ++
    match pending.state.filter fun s => s != "" with
    | some s => "&state=" ++ Text.urlEncode s
    | none => ""

/-- The pending request is taken before the session is compared with it. -/
def submit (sessionToken requestId action : Option String) : Handler ConsentResult := do
  let found ← match sessionToken with
    | some t => SessionService.findActiveSession env t
    | none => pure none
  match found with
  | none => return .redirect "/login"
  | some session =>
    match ← PendingAuthorizationStore.take (requestId.getD "") with
    | none => return .notFound "Consent request not found or expired."
    | some pending =>
      if session.session.id ≠ pending.sessionId then return .forbidden "session mismatch"
      if !(action.any fun a => Text.eqIgnoreAsciiCase a "allow") then
        return .redirect (deniedLocation pending)
      match ← AuthorizeFlow.completeAfterConsent env pending with
      | .success redirect => return .redirect redirect
      | .error e desc | .errorRedirect _ e desc => return .badRequest (e ++ ": " ++ desc)
      | .consentRequired _ =>
        return .badRequest "consent_required: User consent is required"

end ConsentResource

end AuthServer
