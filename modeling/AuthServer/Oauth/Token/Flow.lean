import AuthServer.Oauth.CodeStore
import AuthServer.Oauth.Device
import AuthServer.Oauth.Token.Issuer

/-!
# The token endpoint

The four grants, revocation and the sweep of expired refresh tokens.
-/

namespace AuthServer

open Handler

namespace RefreshTokenRepository

/-- Visit the rows that a family revocation has fixed, one after the other. -/
def visitFamily (sessionId : Uuid) : List Uuid → Handler Nat
  | [] => return 0
  | id :: ids => do
    let changed : Bool ← tx (.familyRow sessionId id)
    let rest ← visitFamily sessionId ids
    return rest + changed.toNat

/-- `UPDATE … SET revoked = TRUE WHERE session_id = … AND revoked = FALSE` in a transaction. -/
def revokeBySessionIdInTx (sessionId : Uuid) : Handler Nat := do
  let ids : List Uuid ← tx (.familyScan sessionId)
  visitFamily sessionId ids

end RefreshTokenRepository

/-- The parameters of a token request. -/
structure TokenRequest where
  grantType : Option String := none
  code : Option String := none
  redirectUri : Option String := none
  clientId : Option String := none
  clientSecret : Option String := none
  codeVerifier : Option String := none
  refreshToken : Option String := none
  scope : Option String := none
  deviceCode : Option String := none

/-- The answer of the token endpoint. -/
inductive TokenResult where
  | success (payload : TokenPayload)
  | error (error description : String)

/-- The answer of the revocation endpoint. -/
inductive RevokeResult where
  | success
  | error (error description : String)
  deriving DecidableEq

namespace TokenFlow

open DeviceAuthorization

variable (env : Env)

/-- The client of a request, if it is known, enabled and authenticated. -/
def requireClient (clientId : String) (secret : Option String) :
    Handler (Except TokenResult Client) := do
  match ← ClientRepository.findByClientId env clientId with
  | none => return .error (.error "unauthorized_client" "Unknown or disabled client")
  | some client =>
    if !client.enabled then
      return .error (.error "unauthorized_client" "Unknown or disabled client")
    if !authenticateClient env client secret then
      return .error (.error "invalid_client" "Invalid client credentials")
    return .ok client

/-- The answer to a poll whose device code is not approved. -/
def deviceStatusError (status : String) : Option TokenResult :=
  if status = statusPending then
    some (.error "authorization_pending" "User has not yet approved")
  else if status = statusDenied then
    some (.error "access_denied" "User denied the authorization request")
  else if status = statusConsumed then
    some (.error "invalid_grant" "device_code already used")
  else if status = statusApproved then none
  else some (.error "invalid_grant" "Unknown device_code state")

omit env in
theorem deviceStatusError_ne_success {status : String} {a : TokenResult}
    (h : deviceStatusError status = some a) (payload : TokenPayload) : a ≠ .success payload := by
  rintro rfl
  unfold deviceStatusError at h
  split_ifs at h
  all_goals cases h

def fromDeviceCode (req : TokenRequest) : Handler TokenResult := do
  let deviceCode := req.deviceCode.getD ""
  let clientId := req.clientId.getD ""
  if deviceCode = "" || clientId = "" then
    return .error "invalid_request" "device_code and client_id are required"
  match ← requireClient env clientId req.clientSecret with
  | .error e => return e
  | .ok client =>
    match ← DeviceAuthorizationRepository.findByDeviceCode env deviceCode with
    | none => return .error "invalid_grant" "Unknown device_code"
    | some auth =>
      if auth.clientId ≠ clientId then
        return .error "invalid_grant" "device_code does not belong to this client"
      let at_ ← now
      if auth.expiresAt < at_ then return .error "expired_token" "device_code expired"
      match deviceStatusError auth.status with
      | some e => return e
      | none =>
        match auth.userId, auth.sessionId with
        | some userId, some sessionId =>
          let user ← query (.userById userId)
          let session ← query (.sessionById sessionId)
          match user, session with
          | some user, some session =>
            DeviceAuthorizationRepository.update env
              { auth with status := statusConsumed }
            transaction do
              let payload ← TokenIssuer.issue env user client session auth.scope none none
              return .commit (.success payload)
          | _, _ => return .error "invalid_grant" "User/session not found"
        | _, _ => return .error "invalid_grant" "Approved device_code missing user binding"

def fromClientCredentials (req : TokenRequest) : Handler TokenResult := do
  let clientId := req.clientId.getD ""
  if clientId = "" then return .error "invalid_request" "client_id is required"
  match ← ClientRepository.findByClientId env clientId with
  | none => return .error "unauthorized_client" "Unknown or disabled client"
  | some client =>
    if !client.enabled then
      return .error "unauthorized_client" "Unknown or disabled client"
    if Text.toAsciiLowercase (client.clientType.getD "") ≠ "confidential" then
      return .error "unauthorized_client"
        "client_credentials grant requires a confidential client"
    if !authenticateClient env client req.clientSecret then
      return .error "invalid_client" "Invalid client credentials"
    if !Scopes.isSubsetOf req.scope client.scopes then
      return .error "invalid_scope" "Requested scope is not allowed for this client"
    let payload ← TokenIssuer.issueForClient env client req.scope
    return .success payload

/-- The PKCE check of a code exchange: the error it answers with, if it does not pass. -/
def pkceStep (client : Client) (authCode : AuthorizationCode) (codeVerifier : Option String) :
    Option TokenResult :=
  let codeHasChallenge := authCode.codeChallenge.any fun c => c != ""
  if client.pkceRequired || codeHasChallenge then
    let verifier := codeVerifier.getD ""
    if verifier = "" then some (.error "invalid_request" "code_verifier is required")
    else if !Pkce.verify env verifier (authCode.codeChallenge.getD "")
        (authCode.codeChallengeMethod.getD "") then
      some (.error "invalid_grant" "PKCE verification failed")
    else none
  else none

theorem pkceStep_ne_success {client : Client} {authCode : AuthorizationCode}
    {codeVerifier : Option String} {a : TokenResult}
    (h : pkceStep env client authCode codeVerifier = some a) (payload : TokenPayload) :
    a ≠ .success payload := by
  rintro rfl
  unfold pkceStep at h
  dsimp only at h
  split_ifs at h
  all_goals cases h

def fromAuthorizationCode (req : TokenRequest) : Handler TokenResult := do
  let code := req.code.getD ""
  let redirectUri := req.redirectUri.getD ""
  let clientId := req.clientId.getD ""
  if code = "" || redirectUri = "" || clientId = "" then
    return .error "invalid_request" "code, redirect_uri, client_id are required"
  match ← requireClient env clientId req.clientSecret with
  | .error e => return e
  | .ok client =>
    match ← AuthCodeStore.consume env code with
    | none => return .error "invalid_grant" "Invalid authorization code"
    | some authCode =>
      let at_ ← now
      if authCode.expiresAt < at_ then
        return .error "invalid_grant" "Authorization code expired"
      if authCode.clientId ≠ clientId || authCode.redirectUri ≠ redirectUri then
        return .error "invalid_grant" "Code binding mismatch"
      match pkceStep env client authCode req.codeVerifier with
      | some e => return e
      | none =>
        let user ← query (.userById authCode.userId)
        let session ← query (.sessionById authCode.sessionId)
        match user, session with
        | some user, some session =>
          transaction do
            let payload ← TokenIssuer.issue env user client session authCode.scope
              authCode.nonce authCode.claimsRequested
            return .commit (.success payload)
        | _, _ => return .error "invalid_grant" "User/session not found"

/-- Rotation of a refresh token that is neither unknown nor revoked. -/
def rotate (client : Client) (stored : RefreshToken) : Handler (TxEnd TokenResult) := do
  let at_ ← now
  if stored.expiresAt.any fun e => decide (e < at_) then
    return .drop (.error "invalid_grant" "Refresh token expired")
  if stored.clientId ≠ client.id then
    return .drop (.error "invalid_grant" "Refresh token client mismatch")
  let user ← query (.userById stored.userId)
  let session ← query (.sessionById stored.sessionId)
  match user, session with
  | some user, some session =>
    if !user.enabled then return .drop (.error "invalid_grant" "User/session not valid")
    tx (.updateRevoked stored.id true)
    let payload ← TokenIssuer.issue env user client session client.scopes none none
    return .commit (.success payload)
  | _, _ => return .drop (.error "invalid_grant" "User/session not valid")

/-- The outcome of the family revocation is dropped before the commit. -/
def fromRefreshToken (req : TokenRequest) : Handler TokenResult := do
  let raw := req.refreshToken.getD ""
  let clientId := req.clientId.getD ""
  if raw = "" || clientId = "" then
    return .error "invalid_request" "refresh_token and client_id are required"
  match ← requireClient env clientId req.clientSecret with
  | .error e => return e
  | .ok client =>
    transaction do
      match ← tx (.findForUpdate (env.hmac raw)) with
      | none => return .drop (.error "invalid_grant" "Invalid refresh token")
      | some stored =>
        if stored.revoked then
          ignore (RefreshTokenRepository.revokeBySessionIdInTx stored.sessionId)
          return .commit
            (.error "invalid_grant" "Refresh token revoked — session terminated")
        rotate env client stored

def token (req : TokenRequest) : Handler TokenResult :=
  match req.grantType.getD "" with
  | "authorization_code" => fromAuthorizationCode env req
  | "refresh_token" => fromRefreshToken env req
  | "client_credentials" => fromClientCredentials env req
  | "urn:ietf:params:oauth:grant-type:device_code" => fromDeviceCode env req
  | _ =>
    return (.error "unsupported_grant_type"
      "Supported: authorization_code, refresh_token, client_credentials, device_code")

end TokenFlow

namespace RevokeFlow

variable (env : Env)

/-- Unknown and foreign tokens are answered like revoked ones. -/
def revoke (token : String) (clientId : String) (clientSecret : Option String) :
    Handler RevokeResult := do
  if token = "" || clientId = "" then
    return .error "invalid_request" "token and client_id are required"
  match ← ClientRepository.findByClientId env clientId with
  | none => return .error "invalid_client" "Unknown or disabled client"
  | some client =>
    if !client.enabled then return .error "invalid_client" "Unknown or disabled client"
    if !authenticateClient env client clientSecret then
      return .error "invalid_client" "Invalid client credentials"
    match ← query (.refreshTokenByHash (env.hmac token)) with
    | none => return .success
    | some stored =>
      if stored.clientId ≠ client.id then return .success
      if !stored.revoked then stmt (.updateRevoked stored.id true)
      return .success

end RevokeFlow

/-- One round of the cleanup job. -/
def sweepOnce : Handler Nat := do
  let cutoff ← now
  stmt (.sweepRefreshTokens cutoff)

end AuthServer
