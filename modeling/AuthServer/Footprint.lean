import AuthServer.Server

/-!
# Footprints

Which kinds of commands each handler can issue. A statement about whole runs looks
at a few kinds of commands; the footprints say which handlers have to be looked at
and which cannot matter.
-/

namespace AuthServer

open Concurrent DeviceAuthorizationRepository AdminResource TokenFlow PendingAuthorizationStore RefreshTokenRepository

/-- The kinds of commands. -/
inductive Kind where
  /-- Queries, draws, the clock, and the client cache. -/
  | read
  /-- Writing and removing cached sessions. -/
  | fill
  | purge
  /-- Storing and consuming authorization codes and pending authorizations. -/
  | storeCode
  | takeCode
  | storePending
  | takePending
  /-- Writing device authorizations and their user codes. -/
  | device
  /-- `last_accessed_at`. -/
  | touch
  /-- Revoking refresh tokens on the pool. -/
  | revoke
  /-- Deleting sessions, and creating them. -/
  | endSessions
  | openSession
  /-- New users and their roles. -/
  | enrol
  /-- Changing users, and verifying their emails. -/
  | profile
  | confirm
  /-- Credentials. -/
  | credential
  /-- Issuing and consuming password resets. -/
  | newReset
  | useReset
  /-- Giving and withdrawing consents. -/
  | consent
  | withdraw
  /-- Deleting users and clients. -/
  | drop
  /-- Changing clients, and adding redirect URIs. -/
  | client
  | uri
  | sweep
  /-- Counting requests. -/
  | count
  /-- Statements of transactions. -/
  | tx
  /-- Commands no handler issues. -/
  | unused
  deriving DecidableEq

/-- The kind of a statement on the pool. -/
def Stmt.kind : Stmt → Kind
  | .insertSession _ => .openSession
  | .updateLastAccessed _ _ => .touch
  | .revokeBySession _ | .revokeByUser _ | .revokeByUserExcept _ _
  | .updateRevoked _ true => .revoke
  | .updateRevoked _ false => .unused
  | .deleteSession _ | .deleteSessionsByUser _ | .deleteSessionsByUserExcept _ _ => .endSessions
  | .sweepRefreshTokens _ => .sweep
  | .insertUser _ | .signup _ _ _ _ | .insertUserRole _ => .enrol
  | .updateUser _ => .profile
  | .verifyEmail _ _ => .confirm
  | .insertCredential _ | .updateCredential _ => .credential
  | .insertPasswordReset _ => .newReset
  | .markConsumed _ | .consumeSiblingTokens _ _ => .useReset
  | .insertConsent _ | .updateConsent _ => .consent
  | .deleteConsent _ => .withdraw
  | .deleteUser _ | .deleteClient _ => .drop
  | .insertClient _ | .updateClient _ | .deleteRedirectUri _ => .client
  | .insertRedirectUri _ => .uri

/-- The kind of a Redis command. Clients are cached under their own id only. -/
def RedisCmd.kind : RedisCmd → Kind
  | .client (.setex key snap _) => if snap.clientId = key then .read else .unused
  | .client (.setnx _ _ _) => .unused
  | .client _ | .session (.get _) | .authCode (.get _) | .pending (.get _) | .userCode (.get _)
  | .device (.hgetall _) | .device (.exists _) => .read
  | .session (.setex _ _ _) => .fill
  | .session (.del _) => .purge
  | .authCode (.setnx _ _ _) => .storeCode
  | .authCode (.getdel _) => .takeCode
  | .pending (.setex _ _ _) => .storePending
  | .pending (.getdel _) => .takePending
  | .userCode (.setnx _ _ _) | .device (.hset _ _) | .device (.expire _ _) => .device
  | .counter _ => .count
  | _ => .unused

/-- The kind of a command. -/
def Op.kind : Op → Kind
  | .sql (.query _) => .read
  | .sql (.stmt s) => s.kind
  | .sql (.tx _) => .tx
  | .redis c => c.kind
  | .now | .newUuid | .urlSafe _ | .userCode | .salt | .jitteredTtl _ | .activeKid => .read

/-- The command is of one of the given kinds. -/
def Within (ks : List Kind) (op : Op) : Prop := ks.contains op.kind = true

theorem Within.mono {ks ks' : List Kind} (hs : ks.all ks'.contains = true) {op : Op}
    (h : Within ks op) : Within ks' op :=
  List.all_eq_true.mp hs op.kind (List.contains_iff_mem.mp h)

/-- The command is one of some statements on the pool. -/
def Op.isStmt (p : Stmt → Bool) : Op → Bool
  | .sql (.stmt st) => p st
  | _ => false

namespace Handler

variable {α β : Type} {ok : Op → Prop}

/-- Every command the handler can issue satisfies a predicate. -/
def Uses (h : Handler α) (ok : Op → Prop) : Prop := h.run.Uses ok

variable {h : Handler α}

/-- A handler inside a footprint is inside every larger one. -/
theorem Uses.sub {ks ks' : List Kind} (hu : h.Uses (Within ks)) (hs : ks.all ks'.contains = true)
    : h.Uses (Within ks') :=
  Prog.Uses.mono hu fun _ => Within.mono hs

/-- What holds for the commands of a footprint holds for those of a handler inside it. -/
theorem Uses.of_within {ks : List Kind} (hu : h.Uses (Within ks)) (hok : ∀ op, Within ks op → ok op)
    : h.Uses ok :=
  Prog.Uses.mono hu hok

theorem Uses.run (hu : h.Uses ok) : h.run.Uses ok := hu

/-- Handlers whose footprint excludes the kinds of some statements do not issue them. -/
theorem Uses.not_isStmt {ks ps : List Kind} {p : Stmt → Bool} (hu : h.Uses (Within ks))
    (hp : ∀ st, p st = true → ps.contains st.kind = true) (hks : ps.any ks.contains = false) :
    h.Uses fun op => op.isStmt p = false := by
  refine hu.of_within fun op hop => ?_
  cases hst : op.isStmt p with
  | false => rfl
  | true =>
    unfold Op.isStmt at hst
    split at hst
    · next st =>
      have hmem := List.contains_iff_mem.mp (hp st hst)
      exact absurd hop (List.any_eq_false.mp hks st.kind hmem)
    · cases hst

theorem uses_pure (x : α) : (pure x : Handler α).Uses ok := trivial

theorem uses_throw (e : Failure) : (throw e : Handler α).Uses ok := trivial

theorem uses_bind {f : α → Handler β} (hh : h.Uses ok) (hf : ∀ x, (f x).Uses ok)
    : (h >>= f).Uses ok := Prog.Uses.bindE hh hf

theorem uses_ite {c : Prop} [Decidable c] {h h' : Handler α} (h₁ : h.Uses ok)
    (h₂ : h'.Uses ok) : (if c then h else h').Uses ok := by
  split
  · exact h₁
  · exact h₂

theorem uses_perform {op : Op} (h : ok op) : (perform op).Uses ok := ⟨h, fun _ => trivial⟩

theorem uses_sql {s : Sql} (h : ok (.sql s)) : (sql s).Uses ok := by
  refine uses_bind (uses_perform h) fun r => ?_
  cases r <;> trivial

theorem uses_redis {c : RedisCmd} (h : ok (.redis c)) : (redis c).Uses ok := by
  refine uses_bind (uses_perform h) fun r => ?_
  cases r <;> trivial

theorem uses_query {q : Query} (h : ok (.sql (.query q))) : (query q).Uses ok := uses_sql h

theorem uses_stmt {s : Stmt} (h : ok (.sql (.stmt s))) : (stmt s).Uses ok := uses_sql h

theorem uses_tx {s : TxStmt} (h : ok (.sql (.tx s))) : (tx s).Uses ok := uses_sql h

theorem uses_trySql {s : Sql} (h : ok (.sql s)) : (trySql s).Uses ok := uses_perform h

theorem uses_tryRedis {c : RedisCmd} (h : ok (.redis c)) : (tryRedis c).Uses ok := uses_perform h

theorem uses_now (h : ok .now) : now.Uses ok := uses_perform h

theorem uses_newUuid (h : ok .newUuid) : newUuid.Uses ok := uses_perform h

theorem uses_urlSafe {n : Nat} (h : ok (.urlSafe n)) : (urlSafe n).Uses ok := uses_perform h

theorem uses_ignore (hh : h.Uses ok) : (ignore h).Uses ok :=
  Prog.Uses.bind hh fun _ => trivial

theorem uses_attempt (hh : h.Uses ok) : (attempt h).Uses ok :=
  Prog.Uses.bind hh fun _ => trivial

theorem uses_except (x : Except Failure α) : Uses (ExceptT.mk (pure x)) ok := trivial

/-- A transaction adds its own statements to those of its body. -/
theorem uses_transaction {body : Handler (TxEnd α)} (htx : ∀ s, ok (.sql (.tx s)))
    (hb : body.Uses ok) : (transaction body).Uses ok := by
  refine uses_bind (uses_sql (htx _)) fun _ => uses_bind (uses_attempt hb) fun r => ?_
  split
  · exact uses_bind (uses_sql (htx _)) fun _ => uses_pure _
  · exact uses_bind (uses_perform (htx _)) fun _ => uses_pure _
  · exact uses_bind (uses_perform (htx _)) fun _ => uses_throw _

-- only through the lemmas above; unfolding it would unfold whole handlers
attribute [irreducible] Uses

/-- A handler stays inside a footprint. -/
class Footprint {α : Type} (h : Handler α) (ks : outParam (List Kind)) : Prop where
  uses : h.Uses (Within ks)

/-- Handlers that are put together from commands inside a footprint and from handlers that stay
inside it. -/
inductive Built (ks : List Kind) : {α : Type} → Handler α → Prop
  | pure {α : Type} (x : α) : Built ks (pure x)
  | throw {α : Type} (e : Failure) : Built ks (throw e : Handler α)
  | except {α : Type} (x : Except Failure α) : Built ks (ExceptT.mk (Pure.pure x))
  | bind {α β : Type} {h : Handler α} {f : α → Handler β} :
    Built ks h → (∀ x, Built ks (f x)) → Built ks (h >>= f)
  | ite {α : Type} {c : Prop} [Decidable c] {h h' : Handler α} :
    Built ks h → Built ks h' → Built ks (if c then h else h')
  | perform {op : Op} : Within ks op → Built ks (perform op)
  | query {q : Query} : Within ks (.sql (.query q)) → Built ks (query q)
  | stmt {s : Stmt} : Within ks (.sql (.stmt s)) → Built ks (stmt s)
  | tx {s : TxStmt} : Within ks (.sql (.tx s)) → Built ks (tx s)
  | trySql {s : Sql} : Within ks (.sql s) → Built ks (trySql s)
  | redis {c : RedisCmd} : Within ks (.redis c) → Built ks (redis c)
  | tryRedis {c : RedisCmd} : Within ks (.redis c) → Built ks (tryRedis c)
  | now : Within ks .now → Built ks now
  | newUuid : Within ks .newUuid → Built ks newUuid
  | urlSafe {n : Nat} : Within ks (.urlSafe n) → Built ks (urlSafe n)
  | ignore {α : Type} {h : Handler α} : Built ks h → Built ks (ignore h)
  | attempt {α : Type} {h : Handler α} : Built ks h → Built ks (attempt h)
  | transaction {α : Type} {body : Handler (TxEnd α)} :
    (∀ s, Within ks (.sql (.tx s))) → Built ks body → Built ks (transaction body)
  | part {α : Type} {h : Handler α} {ks' : List Kind} [Footprint h ks'] :
    ks'.all ks.contains = true → Built ks h

theorem Footprint.sub {ks ks' : List Kind} (hf : Footprint h ks) (hs : ks.all ks'.contains = true) :
    h.Uses (Within ks') := hf.uses.sub hs

theorem Built.of {ks ks' : List Kind} (hf : Footprint h ks) (hs : ks.all ks'.contains = true) :
    Built ks' h := .part hs

theorem Built.footprint {ks : List Kind} (hb : Built ks h) : Footprint h ks := by
  refine ⟨?_⟩
  induction hb with
  | pure x => exact uses_pure x
  | throw e => exact uses_throw e
  | except x => exact uses_except x
  | bind _ _ ih ih' => exact uses_bind ih ih'
  | ite _ _ ih ih' => exact uses_ite ih ih'
  | perform hop => exact uses_perform hop
  | query hop => exact uses_query hop
  | stmt hop => exact uses_stmt hop
  | tx hop => exact uses_tx hop
  | trySql hop => exact uses_trySql hop
  | redis hop => exact uses_redis hop
  | tryRedis hop => exact uses_tryRedis hop
  | now hop => exact uses_now hop
  | newUuid hop => exact uses_newUuid hop
  | urlSafe hop => exact uses_urlSafe hop
  | ignore _ ih => exact uses_ignore ih
  | attempt _ ih => exact uses_attempt ih
  | transaction htx _ ih => exact uses_transaction htx ih
  | part hs => exact Footprint.sub ‹_› hs

/-- The construction of a handler is read off its unfolded text. -/
theorem Footprint.built {ks : List Kind} (hb : Built ks h := by
    repeat' first
      | with_reducible constructor | intro _ | exact rfl | split | dsimp only | apply Built.bind
      | constructor) :
    Footprint h ks := hb.footprint

instance (q : Query) : Footprint (query q) [.read] := ⟨uses_query rfl⟩

instance : Footprint now [.read] := ⟨uses_now rfl⟩

instance : Footprint newUuid [.read] := ⟨uses_newUuid rfl⟩

instance (n : Nat) : Footprint (urlSafe n) [.read] := ⟨uses_urlSafe rfl⟩

end Handler

open Handler

section Footprints

-- commands are matched by name, never by what they unfold to
attribute [local irreducible] perform sql query stmt tx trySql redis tryRedis now newUuid urlSafe
  ignore attempt transaction SessionService.findActiveSession TokenFlow.requireClient
  DeviceAuthorizationRepository.findByUserCode DeviceAuthorizationRepository.findByDeviceCode
  DeviceAuthorizationRepository.update TokenIssuer.issue

variable (env : Env)

/-! ## Sessions -/

instance (token : String) : Footprint (SessionRepository.findByToken env token) [.read, .fill] := by
  unfold SessionRepository.findByToken SessionRepository.readCache SessionRepository.populateCache
    SessionRepository.populateCacheWithTtl SessionRepository.ttlSeconds
  exact .built

instance (s : UserSession) (e u : String) (v b : Bool) :
    Footprint (SessionRepository.persist env s e u v b) [.read, .fill, .openSession] := by
  unfold SessionRepository.persist SessionRepository.populateCacheWithTtl
    SessionRepository.ttlSeconds
  exact .built

instance SessionRepository.uses_delete (id : Uuid) :
    Footprint (SessionRepository.delete env id) [.read, .purge, .revoke, .endSessions] := by
  unfold SessionRepository.delete SessionRepository.invalidateNowOrAbort
  exact .built

instance SessionRepository.uses_invalidateAll (tokens : List String) :
    Footprint (SessionRepository.invalidateAll env tokens) [.purge] := by
  refine ⟨?_⟩
  induction tokens with
  | nil =>
    unfold SessionRepository.invalidateAll
    exact uses_pure _
  | cons token tokens ih =>
    unfold SessionRepository.invalidateAll
    refine uses_bind (uses_tryRedis rfl) fun r => ?_
    split
    · exact ih
    · exact uses_bind ih fun _ => uses_pure _

instance SessionRepository.uses_invalidateCacheByUserId (userId : Uuid) :
    Footprint (SessionRepository.invalidateCacheByUserId env userId) [.read, .purge] := by
  unfold SessionRepository.invalidateCacheByUserId
  apply Built.footprint
  repeat' first
    | with_reducible constructor | intro _ | exact rfl | split
    | exact .of (SessionRepository.uses_invalidateAll env _) rfl

instance SessionRepository.uses_deleteAllByUserId (userId : Uuid) :
    Footprint (SessionRepository.deleteAllByUserId env userId)
      [.read, .purge, .revoke, .endSessions] := by
  unfold SessionRepository.deleteAllByUserId
  apply Built.footprint
  repeat' first
    | with_reducible constructor | intro _ | exact rfl | split
    | exact .of (SessionRepository.uses_invalidateAll env _) rfl | apply Built.bind | constructor

instance SessionRepository.uses_deleteAllByUserIdExcept (userId keep : Uuid) :
    Footprint (SessionRepository.deleteAllByUserIdExcept env userId keep)
      [.read, .purge, .revoke, .endSessions] := by
  unfold SessionRepository.deleteAllByUserIdExcept
  apply Built.footprint
  repeat' first
    | with_reducible constructor | intro _ | exact rfl | split
    | exact .of (SessionRepository.uses_invalidateAll env _) rfl | apply Built.bind | constructor

instance (u : Uuid) (e n : String) (v b : Bool) (ip ua : Option String) :
    Footprint (SessionService.createSession env u e n v b ip ua) [.read, .fill, .openSession] := by
  unfold SessionService.createSession
  exact .built

instance SessionService.uses_findActiveSession (token : String) :
    Footprint (SessionService.findActiveSession env token) [.read, .fill, .touch] := by
  unfold SessionService.findActiveSession SessionRepository.updateLastAccessed
  exact .built

instance (token : String) :
    Footprint (SessionService.logout env token)
      [.read, .fill, .touch, .purge, .revoke, .endSessions] := by
  unfold SessionService.logout
  exact .built

/-! ## Clients, roles and tokens -/

instance (client : Client) :
    Footprint (ClientRepository.populateCache env client) [.read] := by
  refine ⟨?_⟩
  unfold ClientRepository.populateCache
  refine uses_bind (uses_perform rfl) fun ttl => uses_bind (uses_tryRedis ?_) fun _ => uses_pure _
  have hkey : (ClientSnapshot.fromEntity client).clientId = client.clientId := rfl
  simp [Within, Op.kind, RedisCmd.kind, hkey]

instance ClientRepository.uses_findByClientId (clientId : String) :
    Footprint (ClientRepository.findByClientId env clientId) [.read] := by
  unfold ClientRepository.findByClientId ClientRepository.readCache
    ClientRepository.fetchRedirectUris
  exact .built

instance ClientRepository.uses_findById (id : Uuid) :
    Footprint (ClientRepository.findById id) [.read] := by
  unfold ClientRepository.findById ClientRepository.fetchRedirectUris
  exact .built

instance ClientRepository.uses_isRedirectUriAllowed (id : Uuid) (uri : String) :
    Footprint (ClientRepository.isRedirectUriAllowed id uri) [.read] := by
  unfold ClientRepository.isRedirectUriAllowed
  exact .built

instance ClientRepository.uses_invalidate (clientId : String) :
    Footprint (ClientRepository.invalidate clientId) [.read] := by
  unfold ClientRepository.invalidate
  exact .built

instance (client : ClientRow) : Footprint (ClientRepository.persist client) [.read, .client] := by
  unfold ClientRepository.persist
  exact .built

instance (client : ClientRow) : Footprint (ClientRepository.update client) [.read, .client] := by
  unfold ClientRepository.update
  exact .built

instance ClientRepository.uses_delete (id : Uuid) :
    Footprint (ClientRepository.delete id) [.read, .drop] := by
  unfold ClientRepository.delete
  exact .built

instance (uri : RedirectUri) :
    Footprint (ClientRepository.addRedirectUri uri) [.read, .uri] := by
  unfold ClientRepository.addRedirectUri
  exact .built

instance (id : Uuid) : Footprint (ClientRepository.removeRedirectUri id) [.read, .client] := by
  unfold ClientRepository.removeRedirectUri
  exact .built

instance RoleRepository.uses_findEffectiveNamesByUserId (userId : Uuid) :
    Footprint (RoleRepository.findEffectiveNamesByUserId userId) [.read] := by
  unfold RoleRepository.findEffectiveNamesByUserId
  exact .built

instance JwtSigner.uses_signAccessToken (sub aud : String) (extra : JsonMap) :
    Footprint (JwtSigner.signAccessToken env sub aud extra) [.read] := by
  unfold JwtSigner.signAccessToken JwtSigner.baseClaims JwtSigner.nowSeconds
    JwtSigner.signedWithType
  exact .built

instance JwtSigner.uses_signIdToken (sub aud : String) (nonce : Option String) (at_ : Int)
    (extra : JsonMap) :
    Footprint (JwtSigner.signIdToken env sub aud nonce at_ extra) [.read] := by
  unfold JwtSigner.signIdToken JwtSigner.baseClaims JwtSigner.nowSeconds JwtSigner.signedWithType
  exact .built

instance (client : Client) (scope : Option String) :
    Footprint (TokenIssuer.issueForClient env client scope) [.read] := by
  unfold TokenIssuer.issueForClient
  exact .built

instance TokenIssuer.uses_issue (user : User) (client : Client) (session : UserSession)
    (scope nonce request : Option String) :
    Footprint (TokenIssuer.issue env user client session scope nonce request) [.read, .tx] := by
  unfold TokenIssuer.issue
  exact .built

/-! ## Codes and devices -/

instance DeviceAuthorizationRepository.uses_findByDeviceCode (code : String) :
    Footprint (findByDeviceCode env code) [.read] := by
  unfold findByDeviceCode loadHash
  exact .built

instance DeviceAuthorizationRepository.uses_findByUserCode (code : String) :
    Footprint (findByUserCode env code) [.read] := by
  unfold findByUserCode
  exact .built

instance (auth : DeviceAuthorization) :
    Footprint (persist env auth) [.read, .device] := by
  unfold persist
  exact .built

instance DeviceAuthorizationRepository.uses_update (auth : DeviceAuthorization) :
    Footprint (update env auth) [.read, .device] := by
  unfold update
  exact .built

instance (auth : DeviceAuthorization) (retries : Nat) :
    Footprint (DeviceFlow.allocate env auth retries) [.read, .device] := by
  refine ⟨?_⟩
  induction retries generalizing auth with
  | zero =>
    unfold DeviceFlow.allocate
    exact uses_pure _
  | succ n ih =>
    unfold DeviceFlow.allocate
    refine uses_bind (uses_perform rfl) fun _ => uses_bind Footprint.uses fun _ => ?_
    split
    · exact uses_pure _
    · exact ih _

instance (clientId : String) (scope : Option String) :
    Footprint (DeviceFlow.requestDeviceAuthorization env clientId scope) [.read, .device] := by
  unfold DeviceFlow.requestDeviceAuthorization
  exact .built

variable {ok : Op → Prop}

/-- Apart from its reads, a decision is one update. -/
theorem DeviceFlow.uses_verification (hread : ∀ op, Within [.read, .fill, .touch] op → ok op)
    (hupdate : ∀ auth, (update env auth).Uses ok) (code : String)
    (token : Option String) (b : Bool) :
    (DeviceFlow.verifyUserCode env code token b).Uses ok := by
  unfold DeviceFlow.verifyUserCode
  repeat' first
    | with_reducible exact uses_pure _ | with_reducible refine uses_bind ?_ fun _ => ?_
    | dsimp only | split | exact uses_now (hread _ rfl)
    | exact ((SessionService.uses_findActiveSession env _).sub rfl).of_within hread
    | exact ((uses_findByUserCode env _).sub rfl).of_within hread
    | exact hupdate _

instance (code : String) (token : Option String) (b : Bool) :
    Footprint (DeviceFlow.verifyUserCode env code token b) [.read, .fill, .touch, .device] :=
  ⟨DeviceFlow.uses_verification env (fun _ => Within.mono rfl)
    (fun _ => (uses_update env _).sub rfl) code token b⟩

instance (code : AuthorizationCode) :
    Footprint (AuthCodeStore.put env code) [.read, .storeCode] := by
  unfold AuthCodeStore.put
  exact .built

instance AuthCodeStore.uses_consume (code : String) :
    Footprint (AuthCodeStore.consume env code) [.read, .takeCode] := by
  unfold AuthCodeStore.consume
  exact .built

instance PendingAuthorizationStore.uses_put (p : PendingAuthorization) :
    Footprint (put env p) [.read, .storePending] := by
  unfold put
  exact .built

instance PendingAuthorizationStore.uses_take (requestId : String) :
    Footprint (take requestId) [.read, .takePending] := by
  unfold take decode
  exact .built

/-! ## The token endpoint -/

instance TokenFlow.uses_requireClient (clientId : String) (secret : Option String) :
    Footprint (requireClient env clientId secret) [.read] := by
  unfold requireClient
  exact .built

/-- Apart from its reads and its transaction, a poll is one update. -/
theorem TokenFlow.uses_poll (hread : ∀ op, Within [.read, .tx] op → ok op)
    (hupdate : ∀ auth, (update env auth).Uses ok) (req : TokenRequest)
    : (fromDeviceCode env req).Uses ok := by
  unfold fromDeviceCode
  repeat' first
    | with_reducible exact uses_pure _ | with_reducible refine uses_bind ?_ fun _ => ?_ | split
    | refine uses_ite ?_ ?_ | exact uses_query (hread _ rfl) | exact uses_now (hread _ rfl)
    | exact ((uses_requireClient env _ _).sub rfl).of_within hread
    | exact ((uses_findByDeviceCode env _).sub rfl).of_within hread
    | exact hupdate _
    | refine uses_transaction (fun _ => hread _ rfl) (uses_bind ?_ fun _ => uses_pure _)
    | exact ((TokenIssuer.uses_issue env _ _ _ _ _ _).sub rfl).of_within hread

instance (req : TokenRequest) :
    Footprint (fromDeviceCode env req) [.read, .device, .tx] :=
  ⟨uses_poll env (fun _ => Within.mono rfl)
    (fun _ => (uses_update env _).sub rfl) req⟩

instance TokenFlow.uses_fromClientCredentials (req : TokenRequest) :
    Footprint (fromClientCredentials env req) [.read] := by
  unfold fromClientCredentials
  exact .built

instance (req : TokenRequest) :
    Footprint (fromAuthorizationCode env req) [.read, .takeCode, .tx] := by
  unfold fromAuthorizationCode
  exact .built

omit env in
theorem RefreshTokenRepository.uses_visitFamily {sessionId : Uuid}
    (hrow : ∀ id, ok (.sql (.tx (.familyRow sessionId id)))) (ids : List Uuid) :
    (visitFamily sessionId ids).Uses ok := by
  induction ids with
  | nil =>
    unfold visitFamily
    exact uses_pure _
  | cons id ids ih =>
    unfold visitFamily
    exact uses_bind (uses_tx (hrow id)) fun _ => uses_bind ih fun _ => uses_pure _

omit env in
/-- The family revocation consists of its scan and its visits. -/
theorem RefreshTokenRepository.uses_family {sessionId : Uuid}
    (hscan : ok (.sql (.tx (.familyScan sessionId))))
    (hrow : ∀ id, ok (.sql (.tx (.familyRow sessionId id)))) :
    (revokeBySessionIdInTx sessionId).Uses ok := by
  unfold revokeBySessionIdInTx
  exact uses_bind (uses_tx hscan) fun _ => uses_visitFamily hrow _

instance (sessionId : Uuid) :
    Footprint (revokeBySessionIdInTx sessionId) [.tx] :=
  ⟨uses_family rfl fun _ => rfl⟩

instance (client : Client) (stored : RefreshToken) :
    Footprint (rotate env client stored) [.read, .tx] := by
  unfold rotate
  exact .built

instance (req : TokenRequest) : Footprint (fromRefreshToken env req) [.read, .tx] := by
  unfold fromRefreshToken
  exact .built

instance (req : TokenRequest) :
    Footprint (token env req) [.read, .takeCode, .device, .tx] := by
  unfold token
  exact .built

instance (token clientId : String) (secret : Option String) :
    Footprint (RevokeFlow.revoke env token clientId secret) [.read, .revoke] := by
  unfold RevokeFlow.revoke
  exact .built

/-! ## Presented tokens -/

instance JwtValidator.uses_validate (keys : String → Bool) (token : Jwt) :
    Footprint (JwtValidator.validate env keys token) [.read] := by
  unfold JwtValidator.validate
  exact .built

instance (claims : JsonMap) : Footprint (OidcResource.sessionBound env claims) [.read] := by
  unfold OidcResource.sessionBound
  exact .built

instance (claims : JsonMap) : Footprint (OidcResource.answer env claims) [.read] := by
  unfold OidcResource.answer
  exact .built

instance (keys : String → Bool) (token : BearerToken) :
    Footprint (OidcResource.userinfo env keys token) [.read] := by
  refine ⟨?_⟩
  cases token with
  | absent | unverified => exact uses_pure _
  | signed jwt =>
    refine uses_ite (uses_pure _) (uses_bind Footprint.uses fun found => ?_)
    cases found with
    | none => exact uses_pure _
    | some claims => exact Footprint.uses

instance (keys : String → Bool) (token : BearerToken) (client : Client) :
    Footprint (IntrospectFlow.answer env keys token client) [.read] := by
  unfold IntrospectFlow.answer
  exact .built

instance (keys : String → Bool) (token : BearerToken) (clientId : String) (secret : Option String) :
    Footprint (IntrospectFlow.introspect env keys token clientId secret) [.read] := by
  unfold IntrospectFlow.introspect
  exact .built

/-! ## Authorization -/

instance ConsentService.uses_hasConsent (u c : Uuid) (scope : Option String) :
    Footprint (ConsentService.hasConsent u c scope) [.read] := by
  unfold ConsentService.hasConsent
  exact .built

instance ConsentService.uses_grant (u c : Uuid) (scope : Option String) :
    Footprint (ConsentService.grant u c scope) [.read, .consent] := by
  unfold ConsentService.grant
  exact .built

instance AuthorizeFlow.uses_issueCode (g : AuthorizeFlow.Grant) :
    Footprint (AuthorizeFlow.issueCode env g) [.read, .storeCode] := by
  unfold AuthorizeFlow.issueCode
  exact .built

instance (req : AuthorizeRequest) (s : SessionWithUser) (c : Client) (uri : String)
    (method : Option String) :
    Footprint (AuthorizeFlow.finish env req s c uri method) [.read, .storePending, .storeCode] := by
  unfold AuthorizeFlow.finish
  exact .built

instance (req : AuthorizeRequest) :
    Footprint (AuthorizeFlow.authorize env req)
      [.read, .fill, .touch, .storePending, .storeCode] := by
  unfold AuthorizeFlow.authorize
  exact .built

instance (p : PendingAuthorization) :
    Footprint (AuthorizeFlow.completeAfterConsent env p) [.read, .consent, .storeCode] := by
  unfold AuthorizeFlow.completeAfterConsent
  exact .built

instance (token requestId action : Option String) :
    Footprint (ConsentResource.submit env token requestId action)
      [.read, .fill, .touch, .takePending, .consent, .storeCode] := by
  unfold ConsentResource.submit
  exact .built

/-! ## Logout, accounts and administration -/

instance LogoutFlow.uses_involvedClients (ids : List Uuid) :
    Footprint (LogoutFlow.involvedClients ids) [.read] := by
  refine ⟨?_⟩
  induction ids with
  | nil =>
    unfold LogoutFlow.involvedClients
    exact uses_pure _
  | cons id ids ih =>
    unfold LogoutFlow.involvedClients
    exact uses_bind Footprint.uses fun _ => uses_bind ih fun _ => uses_pure _

instance LogoutFlow.uses_validatePostLogout (hint uri : Option String) :
    Footprint (LogoutFlow.validatePostLogout env hint uri) [.read] := by
  unfold LogoutFlow.validatePostLogout LogoutFlow.resolveClientFromIdTokenHint
  exact .built

instance LogoutFlow.uses_resolveSessionId (hint token : Option String) :
    Footprint (LogoutFlow.resolveSessionId env hint token) [.read, .fill, .touch] := by
  unfold LogoutFlow.resolveSessionId
  exact .built

instance (sessionId : Uuid) :
    Footprint (LogoutFlow.terminate env sessionId) [.read, .tx, .purge, .revoke, .endSessions] := by
  unfold LogoutFlow.terminate
  exact .built

instance (hint token uri : Option String) :
    Footprint (LogoutFlow.logout env hint token uri)
      [.read, .fill, .touch, .tx, .purge, .revoke, .endSessions] := by
  unfold LogoutFlow.logout SessionRepository.findById
  apply Built.footprint
  repeat' first
    | with_reducible constructor | intro _ | exact rfl | split
    | exact .of (LogoutFlow.uses_involvedClients _) rfl | apply Built.bind | constructor

instance UserRepository.uses_findByEmail (email : String) :
    Footprint (UserRepository.findByEmail env email) [.read] := by
  unfold UserRepository.findByEmail
  exact .built

instance UserRepository.uses_findByIdentifier (identifier : String) :
    Footprint (UserRepository.findByIdentifier env identifier) [.read] := by
  unfold UserRepository.findByIdentifier
  exact .built

instance (identifier password : Option String) :
    Footprint (LoginService.authenticate env identifier password) [.read] := by
  unfold LoginService.authenticate
  exact .built

instance uses_login (identifier password ip agent : Option String) :
    Footprint (login env identifier password ip agent) [.read, .fill, .openSession] := by
  unfold login
  exact .built

/-! ## Limited endpoints -/

instance (key : String) (limit window : Nat) :
    Footprint (RateLimiter.check key limit window) [.count] := by
  unfold RateLimiter.check RateLimiter.readTtlOrDefault
  exact .built

instance (key : String) (limit window : Nat) :
    Footprint (applyLimit key limit window) [.count] := by
  unfold applyLimit
  exact .built

instance uses_applyIpLimit (req : HttpRequest) (key : String → String) (limit window : Nat) :
    Footprint (applyIpLimit req key limit window) [.count] := by
  unfold applyIpLimit
  exact .built

instance (identifier : Option String) :
    Footprint (LoginResource.applyEmailLimit env identifier) [.count] := by
  unfold LoginResource.applyEmailLimit
  exact .built

instance (req : HttpRequest) (body : LoginRequest) :
    Footprint (LoginResource.login env req body) [.count, .read, .fill, .openSession] := by
  unfold LoginResource.login
  exact .built

instance (req : HttpRequest) (form : LoginForm) :
    Footprint (LoginPage.submitLogin env req form) [.read, .fill, .openSession] := by
  unfold LoginPage.submitLogin
  exact .built

instance (req : SignupRequest) (email username : String) (at_ : NaiveDateTime) (hashed : Hashed) :
    Footprint (SignupFlow.register env req email username at_ hashed) [.read, .enrol] := by
  unfold SignupFlow.register
  exact .built

instance SignupFlow.uses_signup (req : SignupRequest) :
    Footprint (SignupFlow.signup env req) [.read, .enrol] := by
  unfold SignupFlow.signup
  exact .built

instance SignupFlow.uses_verifyEmail (token : String) :
    Footprint (SignupFlow.verifyEmail env token) [.read, .confirm] := by
  unfold SignupFlow.verifyEmail
  exact .built

instance (req : HttpRequest) (body : SignupRequest) :
    Footprint (SignupResource.signup env req body) [.count, .read, .enrol] := by
  unfold SignupResource.signup
  exact .built

instance (req : HttpRequest) (token : Option String) :
    Footprint (SignupResource.verifyEmail env req token) [.count, .read, .confirm] := by
  unfold SignupResource.verifyEmail
  exact .built

/-! ## Accounts -/

instance (identifier : String) :
    Footprint (PasswordFlow.requestReset env identifier) [.read, .newReset] := by
  unfold PasswordFlow.requestReset
  exact .built

instance (userId : Uuid) (password : String) :
    Footprint (PasswordFlow.rotatePassword env userId password) [.read, .credential] := by
  unfold PasswordFlow.rotatePassword
  exact .built

instance (token password : String) :
    Footprint (PasswordFlow.consumeReset env token password)
      [.read, .credential, .useReset, .purge, .revoke, .endSessions] := by
  unfold PasswordFlow.consumeReset
  exact .built

instance (u : Uuid) (sid : Option Uuid) (old new : String) :
    Footprint (PasswordFlow.changePassword env u sid old new)
      [.read, .credential, .purge, .revoke, .endSessions] := by
  unfold PasswordFlow.changePassword
  exact .built

instance AdminResource.uses_requireAdmin (token : Option String) :
    Footprint (requireAdmin env token) [.read, .fill, .touch] := by
  unfold requireAdmin
  exact .built

instance (user : User) (body : UserUpdateRequest) :
    Footprint (updateUserRow env user body)
      [.read, .profile, .purge, .revoke, .endSessions] := by
  unfold updateUserRow
  exact .built

instance (token : Option String) (path : String) (body : UserUpdateRequest) :
    Footprint (updateUser env token path body)
      [.read, .fill, .touch, .profile, .credential, .purge, .revoke, .endSessions] := by
  unfold updateUser
  exact .built

instance (token : Option String) (path : String) :
    Footprint (deleteUser env token path)
      [.read, .fill, .touch, .purge, .revoke, .endSessions, .drop] := by
  unfold deleteUser
  exact .built

instance (token : Option String) (path : String) :
    Footprint (revokeSession env token path)
      [.read, .fill, .touch, .tx, .purge, .revoke, .endSessions] := by
  unfold revokeSession
  exact .built

instance AdminResource.uses_newSecret (body : ClientRequest) :
    Footprint (newSecret env body) [.read] := by
  unfold newSecret
  exact .built

instance (token : Option String) (path : String) (body : ClientRequest) :
    Footprint (updateClient env token path body) [.read, .fill, .touch, .client] := by
  unfold updateClient
  exact .built

instance (token : Option String) (path : String) :
    Footprint (revokeConsent env token path) [.read, .fill, .touch, .withdraw] := by
  unfold revokeConsent
  exact .built

instance (body : UserCreateRequest) (email username password : String) :
    Footprint (insertAccount env body email username password)
      [.read, .enrol, .credential] := by
  unfold insertAccount
  exact .built

instance (token : Option String) (body : UserCreateRequest) :
    Footprint (createUser env token body)
      [.read, .fill, .touch, .enrol, .credential] := by
  unfold createUser
  exact .built

end Footprints

/-- The kinds of commands a request can issue. -/
def Call.footprint : Call → List Kind
  | .findByToken _ => [.read, .fill]
  | .findActiveSession _ => [.read, .fill, .touch]
  | .deleteSession _ | .deleteAllByUserId _ | .deleteAllByUserIdExcept _ _ =>
    [.read, .purge, .revoke, .endSessions]
  | .logoutSession _ => [.read, .fill, .touch, .purge, .revoke, .endSessions]
  | .token _ => [.read, .takeCode, .device, .tx]
  | .revoke _ _ _ => [.read, .revoke]
  | .sweep => [.read, .sweep]
  | .requestDeviceAuthorization _ _ => [.read, .device]
  | .verifyUserCode _ _ _ => [.read, .fill, .touch, .device]
  | .authorize _ => [.read, .fill, .touch, .storePending, .storeCode]
  | .submitConsent _ _ _ => [.read, .fill, .touch, .takePending, .consent, .storeCode]
  | .logout _ _ _ | .revokeSession _ _ =>
    [.read, .fill, .touch, .tx, .purge, .revoke, .endSessions]
  | .login _ _ _ _ => [.read, .fill, .openSession]
  | .requestReset _ => [.read, .newReset]
  | .consumeReset _ _ => [.read, .credential, .useReset, .purge, .revoke, .endSessions]
  | .changePassword _ _ _ _ => [.read, .credential, .purge, .revoke, .endSessions]
  | .updateUser _ _ _ => [.read, .fill, .touch, .profile, .credential, .purge, .revoke, .endSessions]
  | .deleteUser _ _ => [.read, .fill, .touch, .purge, .revoke, .endSessions, .drop]
  | .createClient _ | .updateClient _ | .removeRedirectUri _ => [.read, .client]
  | .addRedirectUri _ => [.read, .uri]
  | .deleteClient _ => [.read, .drop]
  | .adminUpdateClient _ _ _ => [.read, .fill, .touch, .client]
  | .revokeConsent _ _ => [.read, .fill, .touch, .withdraw]
  | .findByClientId _ | .userinfo _ _ | .introspect _ _ _ _ => [.read]
  | .checkRate _ _ _ => [.count]
  | .loginJson _ _ => [.count, .read, .fill, .openSession]
  | .submitLogin _ _ => [.read, .fill, .openSession]
  | .signup _ _ => [.count, .read, .enrol]
  | .verifyEmail _ _ => [.count, .read, .confirm]
  | .createUser _ _ => [.read, .fill, .touch, .enrol, .credential]
  | .grantConsent _ _ _ => [.read, .consent]

theorem uses_program {env : Env} {call : Call} {ok : Op → Prop}
    (h : (handler env call).Uses ok) : ((server env).program call).Uses ok := h.run

/-- Every request stays inside its footprint. -/
theorem handler_uses (env : Env) (call : Call) :
    (handler env call).Uses (Within call.footprint) := by
  cases call with
  | sweep => exact uses_bind (uses_now rfl) fun _ => uses_stmt rfl
  | _ =>
    dsimp only [handler, Call.Answer]
    refine Uses.sub Footprint.uses ?_
    rfl

end AuthServer
