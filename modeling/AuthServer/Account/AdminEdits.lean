import AuthServer.Failures
import AuthServer.Scenario

/-!
# Edits of users that are refused

An administrator creates or edits a user, and the answer is anything but a success. Looking up the
administrator's session notes the access in its row and may cache it. Beyond that nothing has
changed, provided no statement fails once the request has written something, and the new password
of an edit is not too short: its length is looked at after the row has been written.
-/

namespace AuthServer

open Concurrent Handler Storage AdminResource SessionRepository

namespace AdminEdits

/-- The answer is not one of the 2xx statuses; a propagated error is answered with 500. -/
def refused : Except Failure AdminResponse → Bool
  | .ok (.ok _) | .ok (.created _) | .ok .noContent => false
  | _ => true

/-- The tables of accounts and sessions, and the session cache, are exactly as before. -/
structure Same (w w' : World) : Prop where
  users : w'.pg.tables.users = w.pg.tables.users
  credentials : w'.pg.tables.credentials = w.pg.tables.credentials
  userRoles : w'.pg.tables.userRoles = w.pg.tables.userRoles
  refreshTokens : w'.pg.tables.refreshTokens = w.pg.tables.refreshTokens
  sessions : w'.pg.tables.sessions = w.pg.tables.sessions
  cache : w'.redis.sessions = w.redis.sessions

/-- Refused requests leave no trace. -/
structure LeaveNoTrace (env : Env) (R : Rules) : Prop where
  create : ∀ tid m token body y m', Alone (server env) R tid
    (AdminResource.createUser env token body).run m y m' → refused y = true → Same m.world m'.world
  update : ∀ tid m token path body y m', Alone (server env) R tid
    (AdminResource.updateUser env token path body).run m y m' → refused y = true →
    Same m.world m'.world

/-- The session that a token names, in the cache or in its row. -/
def Names (env : Env) (w : World) (token : String) (sessionId : Uuid) : Prop :=
  (∃ e, w.redis.sessions.entry (env.sha256 token) = some e ∧ e.value.id = sessionId) ∨
    ∃ s ∈ w.pg.tables.sessions, s.sessionToken = token ∧ s.id = sessionId

/-- As before but for what the lookup of the caller's session leaves: its `last_accessed_at`, and
its cache entry. -/
structure Kept (env : Env) (token : Option String) (w w' : World) : Prop where
  users : w'.pg.tables.users = w.pg.tables.users
  credentials : w'.pg.tables.credentials = w.pg.tables.credentials
  userRoles : w'.pg.tables.userRoles = w.pg.tables.userRoles
  refreshTokens : w'.pg.tables.refreshTokens = w.pg.tables.refreshTokens
  sessions : w'.pg.tables.sessions = w.pg.tables.sessions ∨
    ∃ raw sessionId at_, token = some raw ∧ Names env w raw sessionId ∧
      w'.pg.tables.sessions =
        w.pg.tables.sessions.update (fun s => s.id == sessionId) (UserSession.setLastAccessed at_)
  cache : ∀ k, w'.redis.sessions.entry k = w.redis.sessions.entry k ∨
    ∃ raw hydrated, token = some raw ∧ k = env.sha256 raw ∧
      w.pg.tables.sessionWithUser raw = some hydrated ∧
      (w'.redis.sessions.entry k).map Entry.value = some (.fromSessionWithUser hydrated)

/-- The commands that change an account, or end sessions. -/
def changes : Op → Bool
  | .sql (.stmt (.updateLastAccessed _ _)) => false
  | .sql (.stmt _) | .redis (.session (.del _)) => true
  | _ => false

/-- The request has changed something. -/
def Wrote (tid : Nat) (m : Instant) : Prop :=
  ∃ e ∈ m.trace, e.tid = tid ∧ changes e.op = true ∧ e.op.failed e.res = false

/-- Statements fail only before the request has changed something. -/
def failingEarly (env : Env) : Rules :=
  failingOnly env fun tid m op => Wrote tid m → ∃ c, op = .redis c

/-- The new password of an edit is absent, empty, or not too short. -/
def LongEnough (body : UserUpdateRequest) : Prop :=
  ∀ np, AdminResource.newPassword body = some np → 8 ≤ np.utf8ByteSize

/-- Refused requests leave what the lookup of the caller leaves. -/
structure LeaveLookup (env : Env) : Prop where
  create : ∀ tid m token body y m', Alone (server env) (failingEarly env) tid
      (AdminResource.createUser env token body).run m y m' →
    refused y = true → Kept env token m.world m'.world
  update : ∀ tid m token path body y m', LongEnough body →
    Alone (server env) (failingEarly env) tid
      (AdminResource.updateUser env token path body).run m y m' →
    refused y = true → Kept env token m.world m'.world

section Proof

variable {α : Type} {env : Env} {R : Rules} {tid : Nat} {token : Option String} {raw : String}
variable {m m' : Instant} {w w₁ w₂ : World}

/-! ## The lookup of the caller -/

theorem Kept.refl : Kept env token w w :=
  ⟨rfl, rfl, rfl, rfl, .inl rfl, fun _ => .inl rfl⟩

/-- Nothing else has changed in the meantime. -/
theorem Kept.same (h : Kept env token w w₁) (hpg : w₂.pg.tables = w₁.pg.tables)
    (hcache : w₂.redis.sessions = w₁.redis.sessions) : Kept env token w w₂ := by
  obtain ⟨h₁, h₂, h₃, h₄, h₅, h₆⟩ := h
  constructor
  · rw [hpg, h₁]
  · rw [hpg, h₂]
  · rw [hpg, h₃]
  · rw [hpg, h₄]
  · rwa [hpg]
  · rwa [hcache]

variable {h : Handler α} {op : Op} {y : Except Failure User} {body : UserUpdateRequest}

/-- Queries, draws and the clock change nothing. -/
theorem Kept.reading {y : Except Failure α} (hm : Kept env token w m.world)
    (hu : h.Uses fun op => op.reading = true) (ha : Alone (server env) R tid h.run m y m') :
    Kept env token w m'.world := by
  obtain ⟨hpg, hcache⟩ := alone_reading hu ha
  exact hm.same (congrArg _ hpg) hcache

/-- What a lookup by token has cached. -/
structure Cached (env : Env) (raw : String) (w w' : World) : Prop where
  pg : w'.pg = w.pg
  cache : ∀ k, w'.redis.sessions.entry k = w.redis.sessions.entry k ∨
    (k = env.sha256 raw ∧ ∃ hydrated, w.pg.tables.sessionWithUser raw = some hydrated ∧
      (w'.redis.sessions.entry k).map Entry.value = some (.fromSessionWithUser hydrated))

theorem Cached.refl : Cached env raw w w := ⟨rfl, fun _ => .inl rfl⟩

theorem Cached.same (h : Cached env raw w w₁) (hpg : w₂.pg = w₁.pg)
    (hcache : w₂.redis.sessions = w₁.redis.sessions) : Cached env raw w w₂ :=
  ⟨hpg.trans h.pg, by rw [hcache]; exact h.cache⟩

theorem Cached.reading {y : Except Failure α} (hm : Cached env raw w m.world)
    (hu : h.Uses fun op => op.reading = true) (ha : Alone (server env) R tid h.run m y m') :
    Cached env raw w m'.world := by
  obtain ⟨hpg, hcache⟩ := alone_reading hu ha
  exact hm.same hpg hcache

/-- The cache is filled with the row that the token names. -/
theorem cached_of_populateCache {hydrated : SessionWithUser} {y : Except Failure Unit}
    (hfound : m.world.pg.tables.sessionWithUser raw = some hydrated)
    (ha : Alone (server env) R tid (populateCache (env.sha256 raw) hydrated).run m
      y m') : Cached env raw m.world m'.world := by
  unfold populateCache at ha
  split at ha
  · obtain ⟨-, rfl⟩ := ha.ret
    exact .refl
  rcases ha.bindE with ⟨e, -, hstop⟩ | ⟨ttl, m₁, httl, ha⟩
  · exact Cached.refl.reading (uses_bind (uses_now rfl) fun _ => uses_pure _) hstop
  have h₁ : Cached env raw m.world m₁.world :=
    Cached.refl.reading (uses_bind (uses_now rfl) fun _ => uses_pure _) httl
  split at ha
  · obtain ⟨-, rfl⟩ := ha.ret
    exact h₁
  obtain ⟨reply, m₂, hset, ha⟩ | ⟨e, -, hstop⟩ := (ha.bindE).symm
  · obtain ⟨-, rfl⟩ := ha.ret
    obtain ⟨ch, r, w, -, he, -, rfl⟩ := alone_perform.mp hset
    obtain ⟨text, -, -, rfl⟩ | ⟨-, -, rfl⟩ := World.exec_redis he
    · exact h₁.same rfl rfl
    · refine ⟨h₁.pg, fun k => ?_⟩
      have hentry : ∀ d, ((m₁.world.redis.sessions.set (env.sha256 raw)
          (.fromSessionWithUser hydrated) d).entry k) =
          if k = env.sha256 raw then some ⟨.fromSessionWithUser hydrated, d⟩
          else m₁.world.redis.sessions.entry k := fun d => Expiring.entry_set
      by_cases hk : k = env.sha256 raw
      · refine .inr ⟨hk, hydrated, hfound, ?_⟩
        exact congrArg (Option.map Entry.value) ((hentry _).trans (if_pos hk))
      · obtain hsame | ⟨hk', -⟩ := h₁.cache k
        · exact .inl (((hentry _).trans (if_neg hk)).trans hsame)
        · exact absurd hk' hk
  · obtain ⟨_, _, _, -, -, hy, -⟩ := alone_perform.mp hstop
    cases hy

/-- A cached session is one the token names. -/
theorem names_of_readCache {hit : SessionWithUser}
    (ha : Alone (server env) R tid (readCache (env.sha256 raw)).run m
      (.ok (some hit)) m') : Names env m.world raw hit.session.id := by
  unfold readCache at ha
  obtain ⟨reply, m₁, hget, ha⟩ := ha.seq
  obtain ⟨ch, r, w, -, he, hr, rfl⟩ := alone_perform.mp hget
  cases hr
  split at ha
  · next snap =>
    obtain ⟨hhit, rfl⟩ := ha.ret
    cases Except.ok.inj hhit
    obtain ⟨text, -, hx, -⟩ | ⟨-, hx, -⟩ := World.exec_redis he
    · cases hx
    · obtain ⟨e, hentry, -, hvalue⟩ := Expiring.get_eq_some.mp (Except.ok.inj hx).symm
      exact .inl ⟨e, hentry, congrArg SessionSnapshot.id hvalue⟩
  · cases ha.ret.1
  · cases ha.ret.1

theorem uses_readCache (hash : String) :
    (readCache hash).Uses fun op => op.reading = true := by
  unfold readCache
  refine uses_bind (uses_tryRedis rfl) fun _ => ?_
  split
  · exact uses_pure _
  · exact uses_pure _
  · exact uses_pure _

theorem names_of_sessionWithUser {hydrated : SessionWithUser}
    (h : w.pg.tables.sessionWithUser raw = some hydrated) : Names env w raw hydrated.session.id := by
  unfold Tables.sessionWithUser at h
  obtain ⟨s, hs, hjoin⟩ := Option.bind_eq_some_iff.mp h
  obtain ⟨u, -, rfl⟩ := Option.map_eq_some_iff.mp hjoin
  obtain ⟨hmem, hkey⟩ := Table.mem_of_find? hs
  exact .inr ⟨s, hmem, beq_iff_eq.mp hkey, rfl⟩

/-- A lookup by token fills the cache at most, and finds a session the token names. -/
theorem cached_of_findByToken {y : Except Failure (Option SessionWithUser)}
    (ha : Alone (server env) R tid (findByToken env raw).run m y m') :
    Cached env raw m.world m'.world ∧
      ∀ hit, y = .ok (some hit) → Names env m.world raw hit.session.id := by
  unfold findByToken at ha
  split at ha
  · obtain ⟨rfl, rfl⟩ := ha.ret
    exact ⟨.refl, nofun⟩
  rcases ha.bindE with ⟨e, rfl, hstop⟩ | ⟨cached, m₁, hread, ha⟩
  · exact ⟨Cached.refl.reading (uses_readCache _) hstop, nofun⟩
  have h₁ : Cached env raw m.world m₁.world := Cached.refl.reading (uses_readCache _) hread
  cases cached with
  | some hit =>
    obtain ⟨rfl, rfl⟩ := ha.ret
    refine ⟨h₁, fun hit' hhit => ?_⟩
    cases Except.ok.inj hhit
    exact names_of_readCache hread
  | none =>
    obtain ⟨hpg₁, hcache₁⟩ := alone_reading (uses_readCache _) hread
    rcases ha.bindE with ⟨e, rfl, hstop⟩ | ⟨found, m₂, hquery, ha⟩
    · exact ⟨h₁.reading (uses_query rfl) hstop, nofun⟩
    obtain ⟨hfound, hpg₂, hredis₂⟩ := alone_query hquery
    have hpg : m₂.world.pg = m.world.pg := hpg₂.trans hpg₁
    have hcache : m₂.world.redis.sessions = m.world.redis.sessions := by rw [hredis₂, hcache₁]
    cases found with
    | none =>
      obtain ⟨rfl, rfl⟩ := ha.ret
      exact ⟨Cached.refl.same hpg hcache, nofun⟩
    | some hydrated =>
      have hjoin : m.world.pg.tables.sessionWithUser raw = some hydrated := by
        rw [← hpg₁]
        exact hfound.symm
      have hfill : ∀ m₃ y', Alone (server env) R tid
          (populateCache (env.sha256 raw) hydrated).run m₂ y' m₃ →
          Cached env raw m.world m₃.world := by
        intro m₃ y' hfill
        obtain ⟨hpg₃, hcache₃⟩ := cached_of_populateCache (by rwa [hpg]) hfill
        refine ⟨hpg₃.trans hpg, fun k => ?_⟩
        rw [← hcache, ← hpg]
        exact hcache₃ k
      rcases ha.bindE with ⟨e, rfl, hstop⟩ | ⟨_, m₃, hpopulate, ha⟩
      · exact ⟨hfill _ _ hstop, nofun⟩
      · obtain ⟨rfl, rfl⟩ := ha.ret
        refine ⟨hfill _ _ hpopulate, fun hit hhit => ?_⟩
        cases Except.ok.inj hhit
        exact names_of_sessionWithUser hjoin

theorem Cached.kept (h : Cached env raw w w₁) : Kept env (some raw) w w₁ := by
  have hpg : w₁.pg.tables = w.pg.tables := congrArg _ h.pg
  refine ⟨congrArg _ hpg, congrArg _ hpg, congrArg _ hpg, congrArg _ hpg, .inl (congrArg _ hpg),
    fun k => (h.cache k).imp_right ?_⟩
  rintro ⟨hk, hydrated, hfound, hentry⟩
  exact ⟨raw, hydrated, rfl, hk, hfound, hentry⟩

/-- Noting the access changes `last_accessed_at` of the session. -/
theorem Cached.touched {id : Uuid} {at_ : NaiveDateTime} {y : Except Failure Unit}
    (h : Cached env raw w m.world) (hnames : Names env w raw id)
    (ha : Alone (server env) R tid (ignore (updateLastAccessed id at_)).run m y m') :
    Kept env (some raw) w m'.world := by
  obtain ⟨x, m₁, hstmt, hrest⟩ := Alone.bind_iff.mp ha
  obtain ⟨-, rfl⟩ := Alone.pure_iff.mp hrest
  obtain ⟨hredis, ⟨-, hpg⟩ | ⟨_, now, -, hpg⟩⟩ := alone_stmt_cases hstmt
  · exact h.kept.same hpg (congrArg _ hredis)
  · obtain ⟨h₁, h₂, h₃, h₄, -, h₆⟩ := h.kept
    refine ⟨?_, ?_, ?_, ?_, .inr ⟨raw, id, at_, rfl, hnames, ?_⟩, ?_⟩
    · rw [hpg, ← h₁]
      rfl
    · rw [hpg, ← h₂]
      rfl
    · rw [hpg, ← h₃]
      rfl
    · rw [hpg, ← h₄]
      rfl
    · rw [hpg, ← h.pg]
      rfl
    · rw [hredis]
      exact h₆

theorem kept_of_findActiveSession {y : Except Failure (Option SessionWithUser)}
    (ha : Alone (server env) R tid (SessionService.findActiveSession env raw).run m y m') :
    Kept env (some raw) m.world m'.world := by
  unfold SessionService.findActiveSession at ha
  split at ha
  · obtain ⟨-, rfl⟩ := ha.ret
    exact .refl
  rcases ha.bindE with ⟨e, rfl, hstop⟩ | ⟨found, m₁, hfind, ha⟩
  · exact (cached_of_findByToken hstop).1.kept
  obtain ⟨h₁, hnames⟩ := cached_of_findByToken hfind
  cases found with
  | none =>
    obtain ⟨-, rfl⟩ := ha.ret
    exact h₁.kept
  | some hydrated =>
    rcases ha.bindE with ⟨e, rfl, hstop⟩ | ⟨at_, m₂, hnow, ha⟩
    · exact (h₁.reading (uses_now rfl) hstop).kept
    have h₂ := h₁.reading (uses_now rfl) hnow
    split at ha
    · obtain ⟨-, rfl⟩ := ha.ret
      exact h₂.kept
    split at ha
    · obtain ⟨-, rfl⟩ := ha.ret
      exact h₂.kept
    rcases ha.bindE with ⟨e, rfl, hstop⟩ | ⟨bump, m₃, hnow', ha⟩
    · exact (h₂.reading (uses_now rfl) hstop).kept
    have h₃ := h₂.reading (uses_now rfl) hnow'
    rcases ha.bindE with ⟨e, rfl, hstop⟩ | ⟨_, m₄, htouch, ha⟩
    · exact h₃.touched (hnames hydrated rfl) hstop
    · obtain ⟨-, rfl⟩ := ha.ret
      exact h₃.touched (hnames hydrated rfl) htouch

theorem kept_of_requireAdmin {y : Except Failure (Except AdminResponse SessionWithUser)}
    (ha : Alone (server env) R tid (requireAdmin env token).run m y m') :
    Kept env token m.world m'.world := by
  unfold requireAdmin at ha
  cases token with
  | none =>
    obtain ⟨-, rfl⟩ := ha.ret
    exact .refl
  | some raw =>
    have hroles : ∀ userId, (attempt (RoleRepository.findEffectiveNamesByUserId userId)).Uses
        fun op => op.reading = true := fun userId =>
      uses_attempt ((RoleRepository.uses_findEffectiveNamesByUserId userId).uses.of_within
        fun _ => reading_of_within)
    have hfind : ∀ m₁ y, Alone (server env) R tid
        (attempt (SessionService.findActiveSession env raw)).run m y m₁ →
        Kept env (some raw) m.world m₁.world := by
      intro m₁ y hattempt
      obtain ⟨x, m₂, hfind, hrest⟩ := Alone.bind_iff.mp hattempt
      obtain ⟨-, rfl⟩ := Alone.pure_iff.mp hrest
      exact kept_of_findActiveSession hfind
    rcases ha.bindE with ⟨e, rfl, hstop⟩ | ⟨found, m₁, hattempt, ha⟩
    · exact hfind _ _ hstop
    have h₁ := hfind _ _ hattempt
    split at ha
    · rcases ha.bindE with ⟨e, rfl, hstop⟩ | ⟨roles, m₂, hattempt', ha⟩
      · exact h₁.reading (hroles _) hstop
      have h₂ := h₁.reading (hroles _) hattempt'
      split at ha
      · obtain ⟨-, rfl⟩ := ha.ret
        exact h₂
      · split at ha
        · obtain ⟨-, rfl⟩ := ha.ret
          exact h₂
        · obtain ⟨-, rfl⟩ := ha.ret
          exact h₂
    · obtain ⟨-, rfl⟩ := ha.ret
      exact h₁

/-! ## Once something is written -/

theorem Wrote.after {r : Res op} (h : Wrote tid m) : Wrote tid (m.after tid op r w) := by
  obtain ⟨e, he, hrest⟩ := h
  exact ⟨e, List.mem_cons_of_mem _ he, hrest⟩

theorem wrote_of_op {r : Res op} (hop : changes op = true) (hr : op.failed r = false) :
    Wrote tid (m.after tid op r w) :=
  ⟨_, List.mem_cons_self, rfl, hop, hr⟩

/-- The handler completes once the request has changed something. -/
abbrev Ends (env : Env) (h : Handler α) (P : α → Prop) : Prop :=
  Completes env (fun tid m op => Wrote tid m → ∃ c, op = .redis c) Wrote h P

theorem ends_sql {s : Sql} : Ends env (sql s) fun _ => True :=
  completes_sql fun tid m hm hF => by
    obtain ⟨c, hc⟩ := hF hm
    cases hc

theorem ends_bind {β : Type} {P : α → Prop} {Q : β → Prop} {f : α → Handler β} (hh : Ends env h P)
    (hf : ∀ x, P x → Ends env (f x) Q) : Ends env (h >>= f) Q :=
  completes_bind (fun _ _ _ _ _ hm => hm.after) hh hf

theorem ends_rotatePassword (userId : Uuid) (password : String) :
    Ends env (PasswordFlow.rotatePassword env userId password) fun _ => True := by
  unfold PasswordFlow.rotatePassword
  refine ends_bind (completes_perform _) fun salt _ => ?_
  refine ends_bind (completes_perform _) fun at_ _ => ?_
  refine ends_bind ends_sql fun found _ => ?_
  cases found with
  | some c => exact ends_bind ends_sql fun _ _ => completes_pure trivial
  | none => exact ends_bind (completes_perform _) fun _ _ => ends_sql

/-! ## Creating a user -/

/-- The rows behind that of the user. -/
theorem ends_insertAccount {body : UserCreateRequest} {email username password : String}
    (hm : Kept env token w m.world)
    (ha : Alone (server env) (failingEarly env) tid
      (insertAccount env body email username password).run m y m') :
    (Wrote tid m' ∧ ∃ u, y = .ok u) ∨ ∃ e, y = .error e ∧ Kept env token w m'.world := by
  unfold insertAccount at ha
  rcases ha.bindE with ⟨e, rfl, hstop⟩ | ⟨at_, m₁, hnow, ha⟩
  · exact .inr ⟨e, rfl, hm.reading (uses_now rfl) hstop⟩
  have h₁ := hm.reading (uses_now rfl) hnow
  rcases ha.bindE with ⟨e, rfl, hstop⟩ | ⟨id', m₂, hid, ha⟩
  · exact .inr ⟨e, rfl, h₁.reading (uses_newUuid rfl) hstop⟩
  have h₂ := h₁.reading (uses_newUuid rfl) hid
  rcases ha.bindE with ⟨e, rfl, hstop⟩ | ⟨_, m₃, hinsert, ha⟩
  · obtain ⟨hredis, ⟨-, hpg⟩ | ⟨x, _, hx, -⟩⟩ := alone_stmt_cases hstop
    · exact .inr ⟨e, rfl, h₂.same hpg (congrArg _ hredis)⟩
    · cases hx
  -- the user is stored
  have hwrote : Wrote tid m₃ := by
    obtain ⟨ch, w', -, -, rfl⟩ := alone_sql hinsert
    exact wrote_of_op rfl rfl
  refine .inl ⟨later_of_alone (fun _ _ _ _ _ h => h.after) hwrote ha, ?_⟩
  have hends : ∀ {p : Handler User}, Ends env p (fun _ => True) →
      Alone (server env) (failingEarly env) tid p.run m₃ y m' → ∃ u, y = .ok u :=
    fun hp ha => (hp tid m₃ y m' hwrote ha).imp fun _ h => h.1
  refine hends ?_ ha
  refine ends_bind (completes_perform _) fun salt _ => ?_
  refine ends_bind (completes_perform _) fun credentialId _ => ?_
  refine ends_bind ends_sql fun _ _ => ?_
  refine ends_bind ends_sql fun role _ => ?_
  cases role with
  | none => exact completes_pure trivial
  | some role => exact ends_bind (completes_ignore _) fun _ _ => completes_pure trivial

theorem kept_of_createUser {body : UserCreateRequest} {y : Except Failure AdminResponse}
    (ha : Alone (server env) (failingEarly env) tid (createUser env token body).run m
      y m') (hy : refused y = true) : Kept env token m.world m'.world := by
  unfold createUser at ha
  rcases ha.bindE with ⟨e, rfl, hstop⟩ | ⟨admin, m₁, hadmin, ha⟩
  · exact kept_of_requireAdmin hstop
  have h₁ := kept_of_requireAdmin hadmin
  cases admin with
  | error r =>
    obtain ⟨-, rfl⟩ := ha.ret
    exact h₁
  | ok calling =>
    change Alone _ _ _ (ExceptT.run (ite _ _ _)) _ _ _ at ha
    split at ha
    · obtain ⟨-, rfl⟩ := ha.ret
      exact h₁
    have hemail : ∀ email, (UserRepository.findByEmail env email).Uses
        fun op => op.reading = true := fun email =>
      (UserRepository.uses_findByEmail env email).uses.of_within fun _ => reading_of_within
    rcases ha.bindE with ⟨e, rfl, hstop⟩ | ⟨byEmail, m₂, hquery, ha⟩
    · exact h₁.reading (hemail _) hstop
    have h₂ := h₁.reading (hemail _) hquery
    cases byEmail with
    | some u =>
      obtain ⟨-, rfl⟩ := ha.ret
      exact h₂
    | none =>
      rcases ha.bindE with ⟨e, rfl, hstop⟩ | ⟨byName, m₃, hquery', ha⟩
      · exact h₂.reading (uses_query rfl) hstop
      have h₃ := h₂.reading (uses_query rfl) hquery'
      cases byName with
      | some u =>
        obtain ⟨-, rfl⟩ := ha.ret
        exact h₃
      | none =>
        rcases ha.bindE with ⟨e, rfl, hstop⟩ | ⟨user, m₄, hinsert, ha⟩
        · obtain ⟨-, u, hu⟩ | ⟨e', -, hkept⟩ := ends_insertAccount h₃ hstop
          · cases hu
          · exact hkept
        obtain ⟨hwrote, -⟩ | ⟨e', he', -⟩ := ends_insertAccount h₃ hinsert
        · have hends : Ends env (do
              let roles : List Role ← query (.rolesByUser user.id)
              return AdminResponse.created ⟨env.showUuid user.id, user.email, user.username,
                user.enabled, user.emailVerified, roles.map Role.name⟩)
              fun x => refused (.ok x) = false :=
            ends_bind ends_sql fun _ _ => completes_pure rfl
          obtain ⟨x, rfl, hx⟩ := hends tid m₄ y m' hwrote ha
          rw [hx] at hy
          cases hy
        · cases he'

/-! ## Editing a user -/

/-- The commands that are behind the lookup of the caller. -/
def edits (op : Op) : Bool := op.reading || changes op

/-- Each of these commands changes something, or leaves all as it is. -/
theorem wrote_or_kept {y : Except Failure α} (hm : Kept env token w m.world)
    (hu : h.Uses fun op => edits op = true) (ha : Alone (server env) R tid h.run m y m') :
    Wrote tid m' ∨ Kept env token w m'.world := by
  refine alone_keeps (J := fun m => Wrote tid m ∨ Kept env token w m.world) hu ha ?_ (.inr hm)
  rintro m₁ op ch r w₂ (hwrote | hkept) hop - he
  · exact .inl hwrote.after
  cases hread : op.reading with
  | true =>
    obtain ⟨hpg, hredis⟩ := World.exec_reading hread he
    refine .inr (hkept.same (congrArg _ hpg) ?_)
    change w₂.redis.sessions = m₁.world.redis.sessions
    rw [hredis]
  | false =>
    have hchanges : changes op = true := by rwa [edits, hread, Bool.false_or] at hop
    cases hfailed : op.failed r with
    | false => exact .inl (wrote_of_op hchanges hfailed)
    | true =>
      refine .inr ?_
      unfold changes at hchanges
      split at hchanges
      · cases hchanges
      · obtain ⟨hredis, ⟨-, hpg⟩ | hst⟩ := World.exec_stmt he
        · exact hkept.same (congrArg _ hpg) (congrArg _ hredis)
        · obtain ⟨-, hpg⟩ | ⟨⟨x, rfl⟩, -⟩ := Stmt.exec_effect hst
          · exact hkept.same (congrArg _ hpg) (congrArg _ hredis)
          · cases hfailed
      · obtain ⟨_, -, -, rfl⟩ | ⟨-, rfl, -⟩ := World.exec_redis he
        · exact hkept.same rfl rfl
        · cases hfailed
      · cases hchanges

/-- The commands that end sessions are among them. -/
theorem edits_of_within (h : Within [.read, .purge, .revoke, .endSessions] op) :
    edits op = true := by
  cases op with
  | sql s =>
    cases s with
    | query q => rfl
    | stmt st =>
      cases st with
      | updateLastAccessed => cases h
      | _ => rfl
    | tx s => cases h
  | redis c =>
    change List.contains _ c.kind = true at h
    unfold RedisCmd.kind at h
    split at h
    all_goals first | rfl | cases h
  | _ => rfl

theorem uses_deleteAllByUserId_edits (userId : Uuid) :
    (ignore (deleteAllByUserId env userId)).Uses fun op => edits op = true :=
  uses_ignore ((uses_deleteAllByUserId env userId).uses.of_within
    fun _ => edits_of_within)

/-- What an edit does from the row of the user on. -/
theorem writeRow_cases {edited : User} {f : User → Handler User}
    (hf : ∀ u, Ends env (f u) fun _ => True) (hm : Wrote tid m ∨ Kept env token w m.world)
    (ha : Alone (server env) (failingEarly env) tid (do
      let at_ ← now
      let edited := { edited with updatedAt := at_ }
      let _ ← stmt (.updateUser edited)
      f edited).run m y m') :
    (Wrote tid m' ∧ ∃ u, y = .ok u) ∨ ∃ e, y = .error e ∧ Kept env token w m'.world := by
  obtain ⟨at_, m₁, hnow, ha⟩ | ⟨e, -, hstop⟩ := (ha.bindE).symm
  · have h₁ : Wrote tid m₁ ∨ Kept env token w m₁.world :=
      hm.imp (fun h => later_of_alone (fun _ _ _ _ _ h => h.after) h hnow)
        fun h => h.reading (uses_now rfl) hnow
    rcases ha.bindE with ⟨e, rfl, hstop⟩ | ⟨_, m₂, hupdate, ha⟩
    · -- the statement fails, so nothing has been written before
      obtain ⟨ch, r, w', hallow, he, -, ⟨e', rfl, -⟩ | ⟨x, -, hx⟩⟩ := alone_sql_cases hstop
      · obtain hwrote | hkept := h₁
        · obtain ⟨c, hc⟩ := hallow _ _ he rfl hwrote
          cases hc
        · obtain ⟨hredis, ⟨-, hpg⟩ | ⟨x, _, hx, -⟩⟩ := alone_stmt_cases hstop
          · exact .inr ⟨e, rfl, hkept.same hpg (congrArg _ hredis)⟩
          · cases hx
      · cases hx
    · have hwrote : Wrote tid m₂ := by
        obtain ⟨ch, w', -, -, rfl⟩ := alone_sql hupdate
        exact wrote_of_op rfl rfl
      obtain ⟨u, hu, -⟩ := hf _ tid m₂ y m' hwrote ha
      exact .inl ⟨later_of_alone (fun _ _ _ _ _ h => h.after) hwrote ha, u, hu⟩
  · obtain ⟨_, _, _, -, -, hy, -⟩ := alone_perform.mp hstop
    cases hy

theorem updateUserRow_cases {user : User}
    (hm : Kept env token w m.world)
    (ha : Alone (server env) (failingEarly env) tid
      (updateUserRow env user body).run m y m') :
    (Wrote tid m' ∧ ∃ u, y = .ok u) ∨ ∃ e, y = .error e ∧ Kept env token w m'.world := by
  unfold updateUserRow at ha
  have hf : ∀ u : User, Ends env (do
      if !kicksSessions user body && refreshesCache user body then
        ignore (invalidateCacheByUserId env user.id)
      return u) fun _ => True := by
    intro u
    split
    · exact ends_bind (completes_ignore _) fun _ _ => completes_pure trivial
    · exact completes_pure trivial
  by_cases hkicks : kicksSessions user body = true
  · rw [if_pos hkicks] at ha
    rcases ha.bindE with ⟨e, rfl, hstop⟩ | ⟨_, m₁, hkick, ha⟩
    · obtain ⟨x, m₁, -, hrest⟩ := Alone.bind_iff.mp hstop
      cases (Alone.pure_iff.mp hrest).1
    · exact writeRow_cases hf (wrote_or_kept hm (uses_deleteAllByUserId_edits _) hkick) ha
  · rw [if_neg hkicks] at ha
    exact writeRow_cases hf (.inr hm) ha

/-- A new password that is long enough is stored, and the answer is a success. -/
theorem ends_newPassword {userId : Uuid} (hlong : LongEnough body)
    {answer : List Role → AdminResponse} (hanswer : ∀ roles, refused (.ok (answer roles)) = false) :
    Ends env (do
      match newPassword body with
      | none => pure ()
      | some np =>
        if np.utf8ByteSize < 8 then
          return AdminResponse.badRequest "password must be at least 8 characters"
        PasswordFlow.rotatePassword env userId np
        ignore (deleteAllByUserId env userId)
      let roles : List Role ← query (.rolesByUser userId)
      return answer roles) fun x => refused (.ok x) = false := by
  have hroles : Ends env (do
      let roles : List Role ← query (.rolesByUser userId)
      return answer roles) fun x => refused (.ok x) = false :=
    ends_bind ends_sql fun roles _ => completes_pure (hanswer roles)
  cases hnp : newPassword body with
  | none => exact hroles
  | some np =>
    have hlt : ¬ np.utf8ByteSize < 8 := Nat.not_lt.mpr (hlong np hnp)
    change Ends env (ite _ _ _) _
    rw [if_neg hlt]
    exact ends_bind (ends_rotatePassword _ _) fun _ _ =>
      ends_bind (completes_ignore _) fun _ _ => hroles

theorem kept_of_updateUser {path : String}
    {y : Except Failure AdminResponse} (hlong : LongEnough body)
    (ha : Alone (server env) (failingEarly env) tid
      (updateUser env token path body).run m y m') (hy : refused y = true) :
    Kept env token m.world m'.world := by
  unfold updateUser at ha
  rcases ha.bindE with ⟨e, rfl, hstop⟩ | ⟨admin, m₁, hadmin, ha⟩
  · exact kept_of_requireAdmin hstop
  have h₁ := kept_of_requireAdmin hadmin
  cases admin with
  | error r =>
    obtain ⟨-, rfl⟩ := ha.ret
    exact h₁
  | ok calling =>
    cases hparse : env.parseUuid path with
    | none =>
      simp only [hparse] at ha
      obtain ⟨-, rfl⟩ := ha.ret
      exact h₁
    | some userId =>
      simp only [hparse] at ha
      rcases ha.bindE with ⟨e, rfl, hstop⟩ | ⟨found, m₂, hquery, ha⟩
      · exact h₁.reading (uses_query rfl) hstop
      have h₂ := h₁.reading (uses_query rfl) hquery
      cases found with
      | none =>
        obtain ⟨-, rfl⟩ := ha.ret
        exact h₂
      | some user =>
        rcases ha.bindE with ⟨e, rfl, hstop⟩ | ⟨edited, m₃, hrow, ha⟩
        · obtain ⟨-, u, hu⟩ | ⟨e', -, hkept⟩ := updateUserRow_cases h₂ hstop
          · cases hu
          · exact hkept
        obtain ⟨hwrote, -⟩ | ⟨e', he', -⟩ := updateUserRow_cases h₂ hrow
        · obtain ⟨x, rfl, hx⟩ := ends_newPassword hlong (fun _ => rfl) tid m₃ y m' hwrote ha
          rw [hx] at hy
          cases hy
        · cases he'

end Proof

/-! ## The lookup leaves its trace -/

/-- The user of the sample session is an administrator. -/
def adminWorld : World :=
  Scenario.world { Scenario.tables with
    roles := Scenario.one
      { id := 9, name := "admin", description := none, parentId := none, createdAt := 0 }
    userRoles := Scenario.one ⟨1, 9⟩ }

/-- An edit of a user under a path that is not an id. -/
def invalidEdit : Option (Except Failure AdminResponse × Instant) :=
  (AdminResource.updateUser Scenario.env (some "session-a") "nobody" {}).run.playAlone
    (server Scenario.env) 0 ⟨adminWorld, []⟩ (List.replicate 9 {})

/-- It is answered with 400, and `last_accessed_at` of the session is set. -/
theorem invalidEdit_accessed : invalidEdit.any (fun y => refused y.1 &&
    y.2.world.pg.tables.sessions.rows.all fun s => s.lastAccessedAt.isSome) = true := by
  decide +kernel

/-- Even when nothing fails, a refused edit notes the access of the administrator. -/
theorem not_leaveNoTrace : ¬ LeaveNoTrace Scenario.env frozen := by
  intro h
  obtain ⟨⟨y, m'⟩, hplay, hy⟩ := (Option.any_eq_true _ _).mp invalidEdit_accessed
  obtain ⟨hrefused, haccessed⟩ := Bool.and_eq_true_iff.mp hy
  have ha : Alone (server Scenario.env) frozen 0
      (updateUser Scenario.env (some "session-a") "nobody" {}).run ⟨adminWorld, []⟩ y
      m' := .of_playAlone frozen_allows_default hplay
  have hsame := (h.update _ _ _ _ _ _ _ ha hrefused).sessions
  dsimp only at haccessed
  rw [hsame] at haccessed
  revert haccessed
  decide +kernel

/-- A refused request leaves accounts and sessions as they were, but for what the lookup of the
caller's session notes. -/
theorem refused_leaves_lookup (env : Env) : LeaveLookup env where
  create _ _ _ _ _ _ ha hy := kept_of_createUser ha hy
  update _ _ _ _ _ _ _ hlong ha hy := kept_of_updateUser hlong ha hy

end AdminEdits

end AuthServer
