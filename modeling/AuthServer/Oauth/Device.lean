import AuthServer.Client.Repository
import AuthServer.Oauth.Protocol
import AuthServer.Session.Service

/-!
# Device authorization

A device authorization is a Redis hash under its device code, with a pointer from
the normalized user code. Reading the hash, testing whether it still exists and
writing its fields are separate commands.
-/

namespace AuthServer

open Handler Storage

/-- The `status` of a device authorization is a plain string. -/
structure DeviceAuthorization where
  id : Uuid
  deviceCode : String
  userCode : String
  clientId : String
  scope : Option String
  status : String
  userId : Option Uuid
  sessionId : Option Uuid
  expiresAt : NaiveDateTime
  createdAt : Option NaiveDateTime
  deriving DecidableEq

namespace DeviceAuthorization

def statusPending : String := "pending"

def statusApproved : String := "approved"

def statusDenied : String := "denied"

def statusConsumed : String := "consumed"

end DeviceAuthorization

namespace DeviceAuthorizationRepository

variable (env : Env)

def normalizeUserCode (userCode : String) : String :=
  env.toUppercase (String.ofList (userCode.toList.filter fun c =>
    !Text.isWhitespace c && c != '-'))

/-- The fields of the hash; absent values have no field. -/
def toFields (a : DeviceAuthorization) : Fields String String :=
  [("id", env.showUuid a.id), ("deviceCode", a.deviceCode), ("userCode", a.userCode),
    ("clientId", a.clientId)] ++
  (a.scope.map fun s => ("scope", s)).toList ++
  [("status", a.status)] ++
  (a.userId.map fun u => ("userId", env.showUuid u)).toList ++
  (a.sessionId.map fun s => ("sessionId", env.showUuid s)).toList ++
  [("expiresAt", env.showDateTime a.expiresAt)] ++
  (a.createdAt.map fun c => ("createdAt", env.showDateTime c)).toList

theorem nodup_toFields (a : DeviceAuthorization) : ((toFields env a).map Prod.fst).Nodup := by
  obtain ⟨_, _, _, _, scope, _, userId, sessionId, _, createdAt⟩ := a
  cases scope <;> cases userId <;> cases sessionId <;> cases createdAt <;>
    simp [toFields]

/-- The code and the status of an authorization that has been written can be read back. -/
theorem get_setAll_toFields (m : Fields String String) (a : DeviceAuthorization) :
    (m.setAll (toFields env a)).get "deviceCode" = some a.deviceCode ∧
      (m.setAll (toFields env a)).get "status" = some a.status := by
  constructor
  · exact Fields.get_setAll_of_mem (nodup_toFields env a) (by simp [toFields])
  · exact Fields.get_setAll_of_mem (nodup_toFields env a) (by simp [toFields])

theorem get_setAll_toFields_required (m : Fields String String) (a : DeviceAuthorization) :
    (m.setAll (toFields env a)).get "clientId" = some a.clientId ∧
      (m.setAll (toFields env a)).get "expiresAt" = some (env.showDateTime a.expiresAt) := by
  constructor
  · exact Fields.get_setAll_of_mem (nodup_toFields env a) (by simp [toFields])
  · exact Fields.get_setAll_of_mem (nodup_toFields env a) (by simp [toFields])

/-- Absent values of an authorization that has been written leave the old fields alone. -/
theorem get_setAll_toFields_optional (m : Fields String String) (a : DeviceAuthorization) :
    (m.setAll (toFields env a)).get "scope" = a.scope.or (m.get "scope") ∧
      (m.setAll (toFields env a)).get "userId" =
        (a.userId.map env.showUuid).or (m.get "userId") ∧
      (m.setAll (toFields env a)).get "sessionId" =
        (a.sessionId.map env.showUuid).or (m.get "sessionId") := by
  obtain ⟨id, deviceCode, userCode, clientId, scope, status, userId, sessionId, expiresAt,
    createdAt⟩ := a
  refine ⟨?_, ?_, ?_⟩
  · cases scope with
    | some s => exact Fields.get_setAll_of_mem (nodup_toFields env _) (by simp [toFields])
    | none =>
      refine Fields.get_setAll_of_not_mem ?_
      cases userId <;> cases sessionId <;> cases createdAt <;> simp [toFields]
  · cases userId with
    | some u => exact Fields.get_setAll_of_mem (nodup_toFields env _) (by simp [toFields])
    | none =>
      refine Fields.get_setAll_of_not_mem ?_
      cases scope <;> cases sessionId <;> cases createdAt <;> simp [toFields]
  · cases sessionId with
    | some u => exact Fields.get_setAll_of_mem (nodup_toFields env _) (by simp [toFields])
    | none =>
      refine Fields.get_setAll_of_not_mem ?_
      cases scope <;> cases userId <;> cases createdAt <;> simp [toFields]

/-- A required field. -/
def required {α : Type} (value : Option α) (message : String) : Except Failure α :=
  match value with
  | some v => .ok v
  | none => .error (.other message)

def fromFields (m : Fields String String) : Except Failure DeviceAuthorization := do
  let id ← required (m.get "id") "missing id"
  let id ← required (env.parseUuid id) "invalid id"
  let deviceCode ← required (m.get "deviceCode") "missing deviceCode"
  let userCode ← required (m.get "userCode") "missing userCode"
  let clientId ← required (m.get "clientId") "missing clientId"
  let status ← required (m.get "status") "missing status"
  let expiresAt ← required ((m.get "expiresAt").bind env.parseDateTime)
    "missing/invalid expiresAt"
  return { id, deviceCode, userCode, clientId, status, expiresAt
           scope := m.get "scope"
           userId := (m.get "userId").bind env.parseUuid
           sessionId := (m.get "sessionId").bind env.parseUuid
           createdAt := (m.get "createdAt").bind env.parseDateTime }

omit env in
theorem required_bind_ok {α β : Type} {value : Option α} {message : String}
    {f : α → Except Failure β} {b : β} (h : (required value message >>= f) = .ok b) :
    ∃ v, value = some v ∧ f v = .ok b := by
  cases value with
  | none => cases h
  | some v => exact ⟨v, rfl, h⟩

/-- What is read back is what the fields say. -/
structure ReadsAs (m : Fields String String) (a : DeviceAuthorization) : Prop where
  deviceCode : m.get "deviceCode" = some a.deviceCode
  userCode : m.get "userCode" = some a.userCode
  clientId : m.get "clientId" = some a.clientId
  status : m.get "status" = some a.status
  scope : m.get "scope" = a.scope
  userId : (m.get "userId").bind env.parseUuid = a.userId
  sessionId : (m.get "sessionId").bind env.parseUuid = a.sessionId
  expiresAt : (m.get "expiresAt").bind env.parseDateTime = some a.expiresAt

theorem readsAs_of_fromFields {m : Fields String String} {a : DeviceAuthorization}
    (h : fromFields env m = .ok a) : ReadsAs env m a := by
  unfold fromFields at h
  obtain ⟨idText, -, h⟩ := required_bind_ok h
  obtain ⟨id, -, h⟩ := required_bind_ok h
  obtain ⟨deviceCode, hdevice, h⟩ := required_bind_ok h
  obtain ⟨userCode, huser, h⟩ := required_bind_ok h
  obtain ⟨clientId, hclient, h⟩ := required_bind_ok h
  obtain ⟨status, hstatus, h⟩ := required_bind_ok h
  obtain ⟨expiresAt, hexpires, h⟩ := required_bind_ok h
  cases h
  exact ⟨hdevice, huser, hclient, hstatus, rfl, rfl, rfl, hexpires⟩

def loadHash (deviceCode : String) : Handler (Option DeviceAuthorization) := do
  let map : Fields String String ← redis (.device (.hgetall deviceCode))
  if map.isEmpty then return none
  let auth ← ExceptT.mk (pure (fromFields env map))
  return some auth

def findByDeviceCode (deviceCode : String) : Handler (Option DeviceAuthorization) := do
  if deviceCode = "" then return none
  loadHash env deviceCode

def findByUserCode (userCode : String) : Handler (Option DeviceAuthorization) := do
  if userCode = "" then return none
  let ptr : Option String ← redis (.userCode (.get (normalizeUserCode env userCode)))
  match ptr.filter fun s => s != "" with
  | none => return none
  | some dc => findByDeviceCode env dc

/-- The pointer is claimed first; a collision is reported as `false`. -/
def persist (auth : DeviceAuthorization) : Handler Bool := do
  let at_ ← now
  let ttl := numSeconds (auth.expiresAt - at_)
  if ttl ≤ 0 then return false
  let claimed : Bool ← redis (.userCode (.setnx (normalizeUserCode env auth.userCode)
    auth.deviceCode (seconds ttl)))
  if !claimed then return false
  redis (.device (.hset auth.deviceCode (toFields env auth)))
  redis (.device (.expire auth.deviceCode (seconds ttl)))
  return true

/-- Writes all fields if the hash still exists, and reports success either way. -/
def update (auth : DeviceAuthorization) : Handler Unit := do
  let present : Bool ← redis (.device (.exists auth.deviceCode))
  if !present then return ()
  redis (.device (.hset auth.deviceCode (toFields env auth)))

end DeviceAuthorizationRepository

/-- The answer to a device authorization request. -/
inductive DeviceAuthorizationResult where
  | success (deviceCode userCode verificationUri verificationUriComplete : String)
      (expiresIn interval : Int)
  | error (error description : String)
  deriving DecidableEq

/-- The answer to a submitted user code. -/
inductive DeviceVerifyResult where
  | success
  | error (error description : String)
  deriving DecidableEq

namespace DeviceFlow

open DeviceAuthorization

variable (env : Env)

def deviceCodeTtlSeconds : Int := 300

def pollIntervalSeconds : Int := 5

def persistRetries : Nat := 5

/-- Draw user codes until one is free. -/
def allocate (auth : DeviceAuthorization) : Nat → Handler (Option DeviceAuthorization)
  | 0 => return none
  | retries + 1 => do
    let userCode ← perform .userCode
    let auth := { auth with userCode }
    if ← DeviceAuthorizationRepository.persist env auth then return some auth
    allocate auth retries

def requestDeviceAuthorization (clientId : String) (scope : Option String) :
    Handler DeviceAuthorizationResult := do
  if Text.trim clientId = "" then
    return .error "invalid_request" "client_id is required"
  let client ← ClientRepository.findByClientId env clientId
  match client.filter fun c => c.enabled with
  | none => return .error "unauthorized_client" "Unknown or disabled client"
  | some client =>
    if !Scopes.isSubsetOf scope client.scopes then
      return .error "invalid_scope" "Requested scope is not allowed for this client"
    let at_ ← now
    let id ← newUuid
    let deviceCode ← urlSafe 32
    let auth : DeviceAuthorization :=
      { id, deviceCode, userCode := "", clientId := client.clientId, scope
        status := statusPending, userId := none, sessionId := none
        expiresAt := at_ + seconds deviceCodeTtlSeconds, createdAt := some at_ }
    match ← allocate env auth persistRetries with
    | none => return .error "server_error" "Could not allocate a unique user_code after retries"
    | some auth =>
      return .success auth.deviceCode auth.userCode (env.issuerUrl ++ "/oauth/device")
        (env.issuerUrl ++ "/oauth/device?user_code=" ++ auth.userCode)
        deviceCodeTtlSeconds pollIntervalSeconds

/-- The decision of the user: approval binds the authorization to the user's session. -/
def resolve (auth : DeviceAuthorization) (session : SessionWithUser) (approve : Bool) :
    DeviceAuthorization :=
  if approve then
    { auth with
      status := statusApproved
      userId := some session.session.userId
      sessionId := some session.session.id }
  else { auth with status := statusDenied }

def verifyUserCode (userCode : String) (sessionToken : Option String) (approve : Bool) :
    Handler DeviceVerifyResult := do
  if Text.trim userCode = "" then
    return .error "invalid_request" "user_code is required"
  let session ← match sessionToken with
    | some t => SessionService.findActiveSession env t
    | none => pure none
  match session with
  | none => return .error "invalid_session" "Login required"
  | some session =>
    match ← DeviceAuthorizationRepository.findByUserCode env (Text.trim userCode) with
    | none => return .error "invalid_user_code" "Unknown user_code"
    | some auth =>
      let at_ ← now
      if auth.expiresAt < at_ then
        return .error "expired_token" "user_code expired"
      if auth.status ≠ statusPending then
        return .error "invalid_user_code" "Already resolved"
      DeviceAuthorizationRepository.update env (resolve auth session approve)
      return .success

end DeviceFlow

end AuthServer
