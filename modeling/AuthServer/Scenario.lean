import AuthServer.Server

/-!
# Concrete runs

Statements about all runs are refuted, and hypotheses shown to be satisfiable, by
schedules that are executed in the model. This module has the means to do so: the
choices a schedule consists of, a sample environment, and worlds with given rows.

## Implementation notes

The sample environment agrees with the real functions on the inputs of the
schedules: its hashes of the sample tokens are their SHA-256 and, for the key
`test-key`, their HMAC-SHA-256 values. Off these inputs it is injective.
-/

namespace AuthServer

open Concurrent Storage

namespace Scenario

/-- The text of a UUID: lower-case hexadecimal digits in five groups. -/
def showUuid (u : Uuid) : String :=
  let digit := fun i => (Text.hexDigit ((u.toNat / 16 ^ i) % 16)).toLower
  let group := fun i n => (List.range n).map fun k => digit (i - k)
  String.ofList (group 31 8 ++ ['-'] ++ group 23 4 ++ ['-'] ++ group 19 4 ++ ['-'] ++
    group 15 4 ++ ['-'] ++ group 11 12)

/-- Digests of the sample tokens; other texts are kept apart by a mark. -/
def digest (known : List (String × String)) (s : String) : String :=
  match known.find? fun p => p.1 == s with
  | some p => p.2
  | none => "#" ++ s

def sha256 : String → String := digest
  [("session-a", "-lelLb8IGQIYUpcwo-mdtpRsbCkiD7bgVR4hWYsLBds"),
    ("session-b", "6N4Bb71wGC9tIyXoHfglUPP0aq7Y54RTMTFIkUTUhW0"),
    ("code-a", "iixdMRTireFhKVs5bi8MyuUw1XfEvt4SkEu6X4s4XUo")]

def hmac : String → String := digest
  [("refresh-a", "G3-YGfFfsSBuDhdeEHtYBD6if53SVdhmlTl-JXSM94I"),
    ("refresh-b", "QLMzSDD25g626wvNGhsTUlOWK48ytf_dJ5I4j_jjhlo"),
    ("refresh-c", "YoWQ5zKCgDw9fE1oJJw8ocwtPInVNTn_ig9z3egU8hA")]

/-- The sample environment. A stored password is its text and salt. -/
def env : Env where
  sha256 := sha256
  hmac := hmac
  argon2Hash password salt := ⟨password, salt⟩
  argon2Verify password secretData _ := password == secretData
  dummyHash := ⟨"dummy-not-a-real-password-timing-equalizer", ""⟩
  parseJson _ := none
  showUuid := showUuid
  parseUuid s := ((List.range 32).find? fun n => showUuid (BitVec.ofNat 128 n) == s).map
    (BitVec.ofNat 128)
  showDateTime t := toString t
  parseDateTime s := s.toInt?
  toLowercase := Text.toAsciiLowercase
  toUppercase s := String.ofList (s.toList.map Char.toUpper)
  sqlLower := Text.toAsciiLowercase
  validateAllowExpired _ := none
  issuerUrl := "https://auth.example"
  accessTtlSeconds := 900
  idTtlSeconds := 900
  clientCacheTtlSeconds := 300
  pendingTtlSeconds := 600

/-- A user. -/
def alice : User :=
  { id := 1, email := "alice@example.com", emailVerified := true, username := "alice"
    firstName := none, lastName := none, enabled := true, createdAt := 0, updatedAt := 0 }

/-- A session of the user that is valid for eight hours from the start. -/
def session : UserSession :=
  { id := 2, userId := 1, sessionToken := "session-a", ipAddress := none, userAgent := none
    expiresAt := some (seconds 28800), lastAccessedAt := none, createdAt := 0 }

/-- A public client. -/
def client : ClientRow :=
  { id := 3, clientId := "web-app", clientSecret := none, name := none
    clientType := some "public", grantTypes := none, responseTypes := none
    scopes := some "openid profile email", pkceRequired := false, enabled := true
    baseUrl := none, description := none, accessTokenTtl := none, refreshTokenTtl := none
    frontchannelLogoutUri := none, backchannelLogoutUri := none, createdAt := 0, updatedAt := 0 }

/-- A redirect URI of the client. -/
def redirectUri : RedirectUri := { id := 5, clientId := 3, uri := "https://app.example/cb", createdAt := 0 }

/-- The user has consented to the client's use of `openid`. -/
def consent : UserConsent :=
  { id := 6, userId := 1, clientId := 3, scopes := "openid", grantedAt := 0, updatedAt := 0 }

/-- The table with one row. -/
def one {ρ : Type} [Keyed ρ] (row : ρ) : Table ρ := ⟨[row], List.pairwise_singleton _ _⟩

/-- The user, their session and the client. -/
def tables : Tables :=
  ⟨one alice, .empty, one session, one client, one redirectUri, .empty, one consent, .empty, .empty,
    .empty, .empty⟩

/-- A refresh token of the session. -/
def refreshToken : RefreshToken :=
  { id := 4, userId := 1, clientId := 3, sessionId := 2, tokenHash := hmac "refresh-a"
    expiresAt := some (seconds 2592000), revoked := false, createdAt := 0 }

/-- A world with given rows and empty caches. -/
def world (t : Tables) : World :=
  ⟨0, ⟨t, .empty⟩, .empty, "kid-1", [], []⟩

/-- A number of steps of one thread without failures. -/
def steps (tid n : Nat) : List (Label Call Choice) := List.replicate n (.step tid {})

/-- A step of a thread that draws a UUID. -/
def drawUuid (tid : Nat) (uuid : Uuid) : Label Call Choice := .step tid { uuid }

/-- A step of a thread that draws a text. -/
def drawText (tid : Nat) (text : String) : Label Call Choice := .step tid { text }

/-- A world in which the session has a refresh token. -/
def refreshWorld : World :=
  { world { tables with refreshTokens := one refreshToken } with uuids := [4] }

/-- A request to refresh. -/
def refreshRequest (raw : String) : TokenRequest :=
  { grantType := some "refresh_token", refreshToken := some raw, clientId := some "web-app" }

/-- The steps that look up a client which is not in the cache. -/
def lookupClient (tid : Nat) : List (Label Call Choice) :=
  steps tid 3 ++ [.step tid { number := 300 }] ++ steps tid 1

/-- A request for a code with scope `openid`. -/
def authorizeRequest : AuthorizeRequest :=
  { sessionToken := some "session-a", clientId := some "web-app"
    redirectUri := some "https://app.example/cb", responseType := some "code"
    scope := some "openid" }

/-- The steps of that request while neither the session nor the client is in the cache. -/
def issueCode (tid : Nat) (code : String) : List (Label Call Choice) :=
  steps tid 8 ++ lookupClient tid ++ steps tid 2 ++ [drawText tid code] ++ steps tid 3

/-- A request to exchange the code. -/
def codeRequest (code : String) : TokenRequest :=
  { grantType := some "authorization_code", code := some code
    redirectUri := some "https://app.example/cb", clientId := some "web-app" }

/-- The steps that issue tokens for scope `openid` and commit. -/
def issueTokens (tid : Nat) (jti id idJti : Uuid) (raw : String) : List (Label Call Choice) :=
  steps tid 3 ++ [drawUuid tid jti] ++ steps tid 1 ++ [drawText tid raw] ++ steps tid 1 ++
    [drawUuid tid id] ++ steps tid 2 ++ [drawUuid tid idJti] ++ steps tid 2

/-- The instants of the device schedules in the format of the device store. -/
def instants : List (NaiveDateTime × String) :=
  [(0, "1970-01-01T00:00:00"), (seconds 300, "1970-01-01T00:05:00")]

/-- The sample environment with the texts of these instants. -/
def deviceEnv : Env :=
  { env with
    showDateTime := fun t =>
      match instants.find? fun p => p.1 == t with
      | some p => p.2
      | none => "#" ++ toString t
    parseDateTime := fun s => (instants.find? fun p => p.2 == s).map Prod.fst }

/-- A device authorization that waits for a decision. -/
def deviceAuth : DeviceAuthorization :=
  { id := 7, deviceCode := "device-a", userCode := "BCDF-GHJK", clientId := "web-app"
    scope := some "openid", status := DeviceAuthorization.statusPending, userId := none
    sessionId := none, expiresAt := seconds 300, createdAt := some 0 }

/-- A world in which the device authorization is stored. -/
def deviceWorld : World :=
  { world tables with
    redis := { Redis.empty with
      userCodes := Expiring.empty.set "BCDFGHJK" "device-a" (some (seconds 300))
      devices := Expiring.empty.set "device-a"
        (DeviceAuthorizationRepository.toFields deviceEnv deviceAuth) (some (seconds 300)) } }

/-- The user's decision on the device authorization. -/
def decision (approve : Bool) : Call := .verifyUserCode "BCDF-GHJK" (some "session-a") approve

/-- A poll for the device code. -/
def pollRequest : TokenRequest :=
  { grantType := some "urn:ietf:params:oauth:grant-type:device_code"
    deviceCode := some "device-a", clientId := some "web-app" }

section Codec

variable {α : Type} [DecidableEq α] {known : List (α × String)}

/-- The text of a value: the given one, or a marked numeral. -/
def encode (known : List (α × String)) (numeral : α → List Char) (a : α) : String :=
  match known.find? fun p => p.1 == a with
  | some p => p.2
  | none => String.ofList ('#' :: numeral a)

/-- The value of a text. -/
def decode (known : List (α × String)) (value : List Char → α) (s : String) : Option α :=
  match known.find? fun p => p.2 == s with
  | some p => some p.1
  | none =>
    match s.toList with
    | '#' :: cs => some (value cs)
    | _ => none

/-- Texts that are distinct and not marked can be read back. -/
theorem decode_encode {numeral : α → List Char} {value : List Char → α}
    (hknown : ∀ p ∈ known, (known.find? fun q => q.2 == p.2) = some p)
    (hmark : ∀ p ∈ known, p.2.toList.head? ≠ some '#') (hvalue : ∀ a, value (numeral a) = a)
    (a : α) : decode known value (encode known numeral a) = some a := by
  unfold encode
  split
  · next p hp =>
    have hfst : (p.1 == a) = true := by simpa using List.find?_some hp
    rw [decode, hknown p (List.mem_of_find?_eq_some hp)]
    exact congrArg some (beq_iff_eq.mp hfst)
  · have hnone : (known.find? fun p => p.2 == String.ofList ('#' :: numeral a)) = none := by
      rw [List.find?_eq_none]
      intro p hp heq
      apply hmark p hp
      rw [beq_iff_eq.mp heq, String.toList_ofList, List.head?_cons]
    rw [decode, hnone]
    simp only [String.toList_ofList]
    rw [hvalue]

end Codec

/-- The ids of the schedules with their texts. -/
def uuids : List (Uuid × String) :=
  "0123456789abcdef".toList.mapIdx fun n digit =>
    (BitVec.ofNat 128 n, "00000000-0000-0000-0000-00000000000" ++ String.singleton digit)

/-- Strokes for a number, after its sign. -/
def strokes (t : Int) : List Char := (if t < 0 then '-' else '+') :: List.replicate t.natAbs '1'

def ofStrokes : List Char → Int
  | '-' :: cs => -cs.length
  | _ :: cs => cs.length
  | [] => 0

theorem ofStrokes_strokes (t : Int) : ofStrokes (strokes t) = t := by
  unfold strokes
  split
  · change -((List.replicate t.natAbs '1').length : Int) = t
    rw [List.length_replicate]
    omega
  · change ((List.replicate t.natAbs '1').length : Int) = t
    rw [List.length_replicate]
    omega

/-- The environment of the device schedules, with texts from which every id and every instant can be
read back. -/
def lawfulEnv : Env :=
  { deviceEnv with
    showUuid := encode uuids fun u => strokes u.toNat
    parseUuid := decode uuids fun cs => BitVec.ofInt 128 (ofStrokes cs)
    showDateTime := encode instants strokes
    parseDateTime := decode instants ofStrokes }

theorem lawfulEnv_parseUuid (u : Uuid) : lawfulEnv.parseUuid (lawfulEnv.showUuid u) = some u := by
  have hknown : ∀ p ∈ uuids, (uuids.find? fun q => q.2 == p.2) = some p := by decide +kernel
  have hmark : ∀ p ∈ uuids, p.2.toList.head? ≠ some '#' := by decide +kernel
  have hvalue : ∀ u : Uuid, BitVec.ofInt 128 (ofStrokes (strokes u.toNat)) = u := by
    intro u
    rw [ofStrokes_strokes, BitVec.ofInt_natCast, BitVec.ofNat_toNat, BitVec.setWidth_eq]
  exact @decode_encode _ _ _ _ (fun cs => BitVec.ofInt 128 (ofStrokes cs)) hknown hmark hvalue u

theorem lawfulEnv_parseDateTime (t : NaiveDateTime) :
    lawfulEnv.parseDateTime (lawfulEnv.showDateTime t) = some t := by
  have hknown : ∀ p ∈ instants, (instants.find? fun q => q.2 == p.2) = some p := by decide +kernel
  have hmark : ∀ p ∈ instants, p.2.toList.head? ≠ some '#' := by decide +kernel
  exact decode_encode hknown hmark ofStrokes_strokes t

/-- The sample environment with the hash of a reset token. -/
def resetEnv : Env :=
  { env with hmac := digest [("reset-a", "nbvgYRX1yk9VI6jcrqxYHEeJ1dbqsFMOVTRqLB1VGkI")] }

/-- A reset token of the user. -/
def passwordReset : PasswordReset :=
  { id := 8, userId := 1, tokenHash := resetEnv.hmac "reset-a", expiresAt := seconds 1800
    consumedAt := none, createdAt := 0 }

/-- A world in which the user has asked for a reset. -/
def resetWorld : World := world { tables with passwordResets := one passwordReset }

/-- The request and the tokens of a grant that has succeeded. -/
def issued? (c : State) (tid : Nat) : Option (TokenRequest × TokenPayload) :=
  c.threads[tid]?.bind fun
    | ⟨.token req, _, .pure (.ok (.success payload))⟩ => some (req, payload)
    | _ => none

theorem answered_of_issued? {c : State} {tid : Nat} {req : TokenRequest} {payload : TokenPayload}
    (h : issued? c tid = some (req, payload)) :
    c.answered tid (.token req) (.ok (.success payload)) := by
  obtain ⟨t, ht, hx⟩ := Option.bind_eq_some_iff.mp h
  split at hx
  · next born _ =>
    cases hx
    exact ⟨born, ht⟩
  · cases hx

/-- A claim has a text as its value. -/
def hasText (claim : Option Json) (text : String) : Bool :=
  match claim with
  | some (.str s) => s == text
  | _ => false

theorem eq_of_hasText {claim : Option Json} {text : String} (h : hasText claim text = true) :
    claim = some (.str text) := by
  unfold hasText at h
  split at h
  · rw [beq_iff_eq.mp h]
  · cases h

/-- A choice that lets the store succeed. -/
def succeeds (ch : Choice) : Bool := ch.fail.isNone

end Scenario

end AuthServer
