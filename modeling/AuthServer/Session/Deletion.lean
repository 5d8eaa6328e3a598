import AuthServer.Alone
import AuthServer.Scenario

/-!
# What a deletion of sessions changes

The three deletions of the session repository, executed alone. Each removes cache
entries first; a failure of Redis ends it before Postgres is touched. If it gets
past that, exactly the targeted sessions disappear with their cache entries and
refresh tokens.

## Implementation notes

The bulk deletions revoke the refresh tokens of the user, which the schema does not
tie to the user of the session: a refresh token of the user that is bound to a
session of somebody else stays in the table and is revoked.
-/

namespace AuthServer

open Concurrent Handler Storage SessionRepository

namespace SessionDeletion

/-- The deletions of the repository. -/
inductive Deletion where
  | delete (id : Uuid)
  | deleteAllByUserId (userId : Uuid)
  | deleteAllByUserIdExcept (userId keepSessionId : Uuid)

namespace Deletion

def handler (env : Env) : Deletion → Handler Nat
  | .delete id => SessionRepository.delete env id
  | .deleteAllByUserId userId => SessionRepository.deleteAllByUserId env userId
  | .deleteAllByUserIdExcept userId keep => SessionRepository.deleteAllByUserIdExcept env userId keep

/-- The sessions a deletion is for. -/
def targets : Deletion → UserSession → Bool
  | .delete id, s => s.id == id
  | .deleteAllByUserId userId, s => s.userId == userId
  | .deleteAllByUserIdExcept userId keep, s => s.userId == userId && s.id != keep

/-- The refresh tokens a deletion revokes by their user. -/
def sweeps : Deletion → RefreshToken → Bool
  | .delete _, _ => false
  | .deleteAllByUserId userId, r => r.userId == userId
  | .deleteAllByUserIdExcept userId keep, r => r.userId == userId && r.sessionId != keep

/-- What becomes of a refresh token of a session that is not targeted. -/
def fate (D : Deletion) (r : RefreshToken) : RefreshToken :=
  if D.sweeps r then { r with revoked := true } else r

end Deletion

/-- A refresh token of a session that a deletion is for. -/
def Doomed (D : Deletion) (w : World) (r : RefreshToken) : Prop :=
  ∃ s ∈ w.pg.tables.sessions, D.targets s = true ∧ s.id = r.sessionId

/-- Postgres is as before and the cache has at most lost entries. -/
structure Aborted (w w' : World) : Prop where
  tables : w'.pg.tables = w.pg.tables
  cache : ∀ k, w'.redis.sessions.entry k = w.redis.sessions.entry k ∨
    w'.redis.sessions.entry k = none

/-- The targeted sessions are gone from Postgres and from the cache; every other session and cache
entry is as before, and the refresh tokens of other sessions meet the given fate. -/
structure Deleted (env : Env) (D : Deletion) (fate : RefreshToken → RefreshToken) (w w' : World)
    (n : Nat) : Prop where
  count : n = w.pg.tables.sessions.count D.targets
  sessions : ∀ s, s ∈ w'.pg.tables.sessions ↔ s ∈ w.pg.tables.sessions ∧ D.targets s = false
  uncached : ∀ s ∈ w.pg.tables.sessions, D.targets s = true →
    w'.redis.sessions.entry (env.sha256 s.sessionToken) = none
  cached : ∀ s ∈ w.pg.tables.sessions, D.targets s = false →
    w'.redis.sessions.entry (env.sha256 s.sessionToken) =
      w.redis.sessions.entry (env.sha256 s.sessionToken)
  strangers : ∀ k, (∀ s ∈ w.pg.tables.sessions, env.sha256 s.sessionToken ≠ k) →
    w'.redis.sessions.entry k = w.redis.sessions.entry k
  refreshTokens : ∀ r', r' ∈ w'.pg.tables.refreshTokens ↔
    ∃ r ∈ w.pg.tables.refreshTokens, ¬ Doomed D w r ∧ fate r = r'

/-- The foreign keys hold and the hash tells the tokens of the sessions apart. -/
structure Sane (env : Env) (t : Tables) : Prop where
  parents : ∀ r ∈ t.refreshTokens, ∃ s ∈ t.sessions, s.id = r.sessionId
  hash : ∀ s ∈ t.sessions, ∀ s' ∈ t.sessions,
    env.sha256 s.sessionToken = env.sha256 s'.sessionToken → s.sessionToken = s'.sessionToken

/-- All or nothing, and exact in scope. -/
def Exact (env : Env) (fate : Deletion → RefreshToken → RefreshToken) : Prop :=
  ∀ (R : Rules) (tid : Nat) (D : Deletion) (m m' : Instant) (y : Except Failure Nat),
    Sane env m.world.pg.tables → Alone (server env) R tid (D.handler env).run m y m' →
      (∀ text, y = .error (.redisUnavailable text) → Aborted m.world m'.world) ∧
      ∀ n, y = .ok n → Deleted env D (fate D) m.world m'.world n

variable {env : Env} {R : Rules} {tid : Nat} {m m' : Instant}

/-! ## The cache -/

/-- The entries of some tokens may be gone, everything else is as before. -/
structure Purged (env : Env) (tokens : List String) (w w' : World) : Prop where
  pg : w'.pg = w.pg
  entry : ∀ k, w'.redis.sessions.entry k = w.redis.sessions.entry k ∨
    (w'.redis.sessions.entry k = none ∧ ∃ token ∈ tokens, env.sha256 token = k)

theorem Purged.refl (tokens : List String) (w : World) : Purged env tokens w w :=
  ⟨rfl, fun _ => .inl rfl⟩

variable {tokens : List String} {w w' : World} {y : Except Failure Nat} {D : Deletion}

theorem Purged.trans {w w₁ w₂ : World} (h₁ : Purged env tokens w w₁) (h₂ : Purged env tokens w₁ w₂)
    : Purged env tokens w w₂ := by
  refine ⟨h₂.pg.trans h₁.pg, fun k => ?_⟩
  obtain hsame | hgone := h₂.entry k
  · rw [hsame]
    exact h₁.entry k
  · exact .inr hgone

theorem Purged.mono {tokens tokens' : List String} (h : Purged env tokens w w')
    (hsub : tokens ⊆ tokens') : Purged env tokens' w w' :=
  ⟨h.pg, fun k => (h.entry k).imp_right fun ⟨hgone, token, hmem, hk⟩ =>
    ⟨hgone, token, hsub hmem, hk⟩⟩

theorem Purged.none (h : Purged env tokens w w') {k : String} (hk : w.redis.sessions.entry k = none)
    : w'.redis.sessions.entry k = none := by
  obtain hsame | ⟨hgone, -⟩ := h.entry k
  · rw [hsame, hk]
  · exact hgone

theorem Purged.aborted (h : Purged env tokens w w') :
    Aborted w w' :=
  ⟨congrArg Postgres.tables h.pg, fun k => (h.entry k).imp_right And.left⟩

/-- `DEL` of one cache entry. -/
theorem alone_del {token : String}
    {y : Except Failure (Except String (Kv.del (env.sha256 token) : Kv String SessionSnapshot).Res)}
    (ha : Alone (server env) R tid (tryRedis (.session (.del (env.sha256 token)))).run m y m') :
    ∃ reply, y = .ok reply ∧ Purged env [token] m.world m'.world ∧
      ((∃ x, reply = .ok x) → m'.world.redis.sessions.entry (env.sha256 token) = none) := by
  obtain ⟨ch, r, w, -, he, rfl, rfl⟩ := alone_perform.mp ha
  refine ⟨r, rfl, ?_⟩
  obtain ⟨text, -, hr, rfl⟩ | ⟨-, -, rfl⟩ := World.exec_redis he
  · refine ⟨⟨rfl, fun _ => .inl rfl⟩, fun ⟨x, hx⟩ => ?_⟩
    rw [hr] at hx
    cases hx
  · have herased (k : String) : (m.world.redis.sessions.erase (env.sha256 token)).entry k =
        if k = env.sha256 token then none else m.world.redis.sessions.entry k := Expiring.entry_erase
    refine ⟨⟨rfl, fun k => ?_⟩, fun _ => (herased _).trans (if_pos rfl)⟩
    by_cases hk : k = env.sha256 token
    · exact .inr ⟨(herased k).trans (if_pos hk), token, List.mem_singleton_self _, hk.symm⟩
    · exact .inl ((herased k).trans (if_neg hk))

theorem alone_invalidateNowOrAbort {token : String} {y : Except Failure Unit}
    (ha : Alone (server env) R tid (invalidateNowOrAbort env token).run m y m') :
    Purged env [token] m.world m'.world ∧
      (y = .ok () → m'.world.redis.sessions.entry (env.sha256 token) = none) := by
  unfold invalidateNowOrAbort at ha
  rcases ha.bindE with ⟨e, rfl, hstop⟩ | ⟨reply, m₁, hdel, ha⟩
  · obtain ⟨_, hreply, -⟩ := alone_del hstop
    cases hreply
  obtain ⟨_, hreply, hpurged, hgone⟩ := alone_del hdel
  cases hreply
  cases reply with
  | ok x =>
    obtain ⟨rfl, rfl⟩ := ha.ret
    exact ⟨hpurged, fun _ => hgone ⟨x, rfl⟩⟩
  | error e =>
    obtain ⟨rfl, rfl⟩ := Alone.pure_iff.mp ha
    exact ⟨hpurged, nofun⟩

/-- If no `DEL` has failed, the entries of all tokens are gone. -/
theorem alone_invalidateAll
    (ha : Alone (server env) R tid (invalidateAll env tokens).run m y m') :
    ∃ failed, y = .ok failed ∧ Purged env tokens m.world m'.world ∧
      (failed = 0 → ∀ token ∈ tokens,
        m'.world.redis.sessions.entry (env.sha256 token) = none) := by
  induction tokens generalizing m y with
  | nil =>
    obtain ⟨rfl, rfl⟩ := ha.ret
    exact ⟨0, rfl, .refl _ _, fun _ _ hmem => absurd hmem List.not_mem_nil⟩
  | cons token tokens ih =>
    unfold invalidateAll at ha
    rcases ha.bindE with ⟨e, rfl, hstop⟩ | ⟨reply, m₁, hdel, ha⟩
    · obtain ⟨_, hreply, -⟩ := alone_del hstop
      cases hreply
    obtain ⟨_, hreply, hfirst, hgone⟩ := alone_del hdel
    cases hreply
    have hfirst := hfirst.mono (List.cons_subset_cons token (List.nil_subset tokens))
    cases reply with
    | ok x =>
      obtain ⟨failed, rfl, hrest, hall⟩ := ih ha
      have hrest := hrest.mono (List.subset_cons_self token tokens)
      refine ⟨failed, rfl, hfirst.trans hrest, fun hzero token' hmem => ?_⟩
      rcases List.mem_cons.mp hmem with rfl | hmem
      · exact hrest.none (hgone ⟨x, rfl⟩)
      · exact hall hzero token' hmem
    | error e =>
      -- a failed `DEL` counts, whatever the rest does
      rcases ha.bindE with ⟨e, rfl, hstop⟩ | ⟨failed, m₂, hcall, ha⟩
      · obtain ⟨_, hreply, -⟩ := ih hstop
        cases hreply
      obtain ⟨rfl, rfl⟩ := ha.ret
      obtain ⟨_, -, hrest, -⟩ := ih hcall
      have hrest := hrest.mono (List.subset_cons_self token tokens)
      exact ⟨failed + 1, rfl, hfirst.trans hrest, fun hzero => absurd hzero (Nat.succ_ne_zero _)⟩

/-! ## The rows -/

/-- Revocation and deletion on the pool leave Redis alone and fail with an error of the database or
not at all. -/
theorem alone_revokeAndDelete {st st' : Stmt} {p : RefreshToken → Bool}
    (hst : st.revocation? = some p) {y : Except Failure st'.Res}
    (ha : Alone (server env) R tid (stmt st >>= fun _ => stmt st').run m y m') :
    m'.world.redis = m.world.redis ∧
      ((∃ e, y = .error (.db e)) ∨ ∃ x pg at_, y = .ok x ∧
        pg.tables = { m.world.pg.tables with
          refreshTokens := m.world.pg.tables.refreshTokens.update (fun r => p r && !r.revoked)
            (RefreshToken.setRevoked true) } ∧
        st'.exec at_ pg = some (.ok x, m'.world.pg)) := by
  rcases ha.bindE with ⟨e, rfl, hstop⟩ | ⟨x, m₁, hrevoke, hdelete⟩
  · obtain ⟨hredis, -⟩ := alone_stmt_cases hstop
    obtain ⟨_, _, _, -, -, -, ⟨e', -, hy⟩ | ⟨x, -, hy⟩⟩ := alone_sql_cases hstop
    · exact ⟨hredis, .inl ⟨e', congrArg Except.error (Except.error.inj hy)⟩⟩
    · cases hy
  obtain ⟨⟨_, hexec⟩, hredis⟩ := alone_stmt_exec hrevoke
  obtain ⟨-, -, hpg⟩ := Stmt.exec_revocation hst hexec
  have hredis' := (alone_stmt_cases hdelete).1
  obtain ⟨_, _, _, -, -, -, ⟨e, -, rfl⟩ | ⟨x, -, rfl⟩⟩ := alone_sql_cases hdelete
  · exact ⟨hredis'.trans hredis, .inl ⟨e, rfl⟩⟩
  · obtain ⟨⟨at_, hexec'⟩, -⟩ := alone_stmt_exec hdelete
    exact ⟨hredis'.trans hredis, .inr ⟨x, m₁.world.pg, at_, rfl, by rw [hpg], hexec'⟩⟩

/-- A revoked row that was revoked already is as before. -/
theorem setRevoked_of {p : Bool} (r : RefreshToken) :
    (if p && !r.revoked then (RefreshToken.setRevoked true).apply r else r) =
      if p then { r with revoked := true } else r := by
  obtain ⟨_, _, _, _, _, _, revoked, _⟩ := r
  cases p <;> cases revoked <;> rfl

/-- The refresh tokens after revocation and deletion. -/
theorem mem_refreshTokens {t : Table RefreshToken} {p q : RefreshToken → Bool}
    (hq : ∀ r, q { r with revoked := true } = q r) {r' : RefreshToken} :
    r' ∈ (t.update (fun r => p r && !r.revoked) (RefreshToken.setRevoked true)).delete q ↔
      ∃ r ∈ t, q r = false ∧ (if p r then { r with revoked := true } else r) = r' := by
  simp only [Table.mem_delete, Table.mem_update, setRevoked_of]
  constructor
  · rintro ⟨⟨r, hr, rfl⟩, hfalse⟩
    refine ⟨r, hr, ?_, rfl⟩
    split at hfalse
    · rwa [hq] at hfalse
    · exact hfalse
  · rintro ⟨r, hr, hfalse, rfl⟩
    refine ⟨⟨r, hr, rfl⟩, ?_⟩
    split
    · rwa [hq]
    · exact hfalse

theorem contains_targets {w : World} {r : RefreshToken} :
    ((w.pg.tables.sessions.select D.targets).map UserSession.id).contains r.sessionId = true ↔
      Doomed D w r := by
  simp only [List.contains_iff_mem, List.mem_map, Table.mem_select, Doomed, and_assoc]

/-- The cache entries of the targets are gone and their rows have been deleted. -/
theorem deleted_of_exec {w w₁ w' : World} {pg : Postgres}
    {p : RefreshToken → Bool} {n : Nat} (hsane : Sane env w.pg.tables)
    (htokens : ∀ token, token ∈ tokens ↔
      ∃ s ∈ w.pg.tables.sessions, D.targets s = true ∧ s.sessionToken = token)
    (hpurged : Purged env tokens w w₁)
    (hgone : ∀ token ∈ tokens, w₁.redis.sessions.entry (env.sha256 token) = none)
    (hp : ∀ r ∈ w.pg.tables.refreshTokens, ¬ Doomed D w r → p r = D.sweeps r)
    (hredis : w'.redis = w₁.redis)
    (hpg : pg.tables = { w.pg.tables with
      refreshTokens := w.pg.tables.refreshTokens.update (fun r => p r && !r.revoked)
        (RefreshToken.setRevoked true) })
    (hexec : pg.deleteSessions D.targets = some (.ok n, w'.pg)) :
    Deleted env D D.fate w w' n := by
  obtain ⟨hn, -, hpg'⟩ := Postgres.deleteSessions_cases hexec
  have hkept : ∀ k, (∀ s ∈ w.pg.tables.sessions, D.targets s = true →
      env.sha256 s.sessionToken ≠ k) →
      w'.redis.sessions.entry k = w.redis.sessions.entry k := by
    intro k hk
    rw [hredis]
    obtain hsame | ⟨-, token, hmem, hhash⟩ := hpurged.entry k
    · exact hsame
    · obtain ⟨s, hs, htarget, rfl⟩ := (htokens token).mp hmem
      exact absurd hhash (hk s hs htarget)
  refine
    { count := ?_, sessions := fun s => ?_, uncached := fun s hs htarget => ?_
      cached := fun s hs hother => hkept _ fun s' hs' htarget hhash => ?_
      strangers := fun k hk => hkept k fun s hs _ => hk s hs
      refreshTokens := fun r' => ?_ }
  · rw [Except.ok.inj hn, List.length_map, hpg]
    rfl
  · rw [hpg', hpg]
    exact Table.mem_delete
  · rw [hredis]
    exact hgone _ ((htokens _).mpr ⟨s, hs, htarget, rfl⟩)
  · -- the tokens of sessions are unique, so another session has another cache entry
    have htoken := hsane.hash s' hs' s hs hhash
    obtain rfl := Table.eq_of_clash hs' hs (by simp [Keyed.clash, htoken])
    rw [htarget] at hother
    cases hother
  · have hfate : ∀ r ∈ w.pg.tables.refreshTokens, ¬ Doomed D w r →
        (if p r then { r with revoked := true } else r) = D.fate r := by
      intro r hr hdoomed
      rw [hp r hr hdoomed, Deletion.fate]
    rw [hpg', hpg]
    refine (mem_refreshTokens fun _ => rfl).trans ?_
    simp only [← Bool.not_eq_true, contains_targets]
    constructor
    · rintro ⟨r, hr, hdoomed, heq⟩
      exact ⟨r, hr, hdoomed, (hfate r hr hdoomed).symm.trans heq⟩
    · rintro ⟨r, hr, hdoomed, heq⟩
      exact ⟨r, hr, hdoomed, (hfate r hr hdoomed).trans heq⟩

/-! ## The deletions -/

/-- The refresh tokens that a deletion revokes before it deletes. -/
def Deletion.revokes : Deletion → RefreshToken → Bool
  | .delete id, r => r.sessionId == id
  | .deleteAllByUserId userId, r => r.userId == userId
  | .deleteAllByUserIdExcept userId keep, r => r.userId == userId && r.sessionId != keep

/-- The statements of a deletion, once the cache is invalidated. -/
def Deletion.statements : Deletion → Handler Nat
  | .delete id => stmt (.revokeBySession id) >>= fun _ => stmt (.deleteSession id)
  | .deleteAllByUserId userId =>
    stmt (.revokeByUser userId) >>= fun _ => stmt (.deleteSessionsByUser userId)
  | .deleteAllByUserIdExcept userId keep =>
    stmt (.revokeByUserExcept userId keep) >>= fun _ => stmt (.deleteSessionsByUserExcept userId keep)

/-- Of the tokens that stay, a deletion revokes those it revokes by their user: a token with the id
of a single deleted session does not stay. -/
theorem revokes_eq_sweeps {w : World} (hsane : Sane env w.pg.tables) {r : RefreshToken}
    (hr : r ∈ w.pg.tables.refreshTokens) (hdoomed : ¬ Doomed D w r) :
    D.revokes r = D.sweeps r := by
  cases D with
  | deleteAllByUserId | deleteAllByUserIdExcept => rfl
  | delete id =>
    obtain ⟨s, hs, hid⟩ := hsane.parents r hr
    refine beq_eq_false_iff_ne.mpr fun heq => hdoomed ⟨s, hs, ?_, hid⟩
    exact beq_iff_eq.mpr (hid.trans heq)

/-- What the outcome of a deletion says about the stores. -/
def Reported (env : Env) (D : Deletion) (w w' : World) (y : Except Failure Nat) : Prop :=
  (∀ text, y = .error (.redisUnavailable text) → Aborted w w') ∧
    ∀ n, y = .ok n → Deleted env D D.fate w w' n

theorem Reported.of_db {e : DbError} (h : y = .error (.db e)) : Reported env D w w' y := by
  subst h
  exact ⟨fun _ heq => (by cases heq), fun _ heq => by cases heq⟩

theorem Reported.of_aborted {e : Failure} (h : y = .error e) (haborted : Aborted w w')
    : Reported env D w w' y := by
  subst h
  exact ⟨fun _ _ => haborted, fun _ heq => by cases heq⟩

theorem reported_of_statements {m₁ : Instant} (hsane : Sane env m.world.pg.tables)
    (htokens : ∀ token, token ∈ tokens ↔
      ∃ s ∈ m.world.pg.tables.sessions, D.targets s = true ∧ s.sessionToken = token)
    (hpurged : Purged env tokens m.world m₁.world)
    (hgone : ∀ token ∈ tokens, m₁.world.redis.sessions.entry (env.sha256 token) = none)
    (ha : Alone (server env) R tid D.statements.run m₁ y m') :
    Reported env D m.world m'.world y := by
  have hends : m'.world.redis = m₁.world.redis ∧
      ((∃ e, y = .error (.db e)) ∨ ∃ (n : Nat) (pg : Postgres), y = .ok n ∧
        pg.tables = { m₁.world.pg.tables with
          refreshTokens := m₁.world.pg.tables.refreshTokens.update
            (fun r => D.revokes r && !r.revoked) (RefreshToken.setRevoked true) } ∧
        pg.deleteSessions D.targets = some (.ok n, m'.world.pg)) := by
    cases D with
    | delete | deleteAllByUserId | deleteAllByUserIdExcept =>
      obtain ⟨hredis, herror | ⟨n, pg, at_, hy, hpg, hexec⟩⟩ := alone_revokeAndDelete rfl ha
      · exact ⟨hredis, .inl herror⟩
      · exact ⟨hredis, .inr ⟨n, pg, hy, hpg, hexec⟩⟩
  obtain ⟨hredis, ⟨e, hy⟩ | ⟨n, pg, rfl, hpg, hexec⟩⟩ := hends
  · exact .of_db hy
  · rw [hpurged.pg] at hpg
    refine ⟨fun _ heq => (by cases heq), fun _ heq => ?_⟩
    cases heq
    exact deleted_of_exec hsane htokens hpurged hgone (fun r hr => revokes_eq_sweeps hsane hr) hredis
      hpg hexec

theorem reported_invalidated {text : Nat → String} {m₁ : Instant} (hsane : Sane env m.world.pg.tables)
    (htokens : ∀ token, token ∈ tokens ↔
      ∃ s ∈ m.world.pg.tables.sessions, D.targets s = true ∧ s.sessionToken = token)
    (hpg : m₁.world.pg = m.world.pg) (hredis : m₁.world.redis = m.world.redis)
    (ha : Alone (server env) R tid (invalidateAll env tokens >>= fun failed =>
      if 0 < failed then throw (.redisUnavailable (text failed)) else D.statements).run m₁ y m') :
    Reported env D m.world m'.world y := by
  rcases ha.bindE with ⟨e, rfl, hstop⟩ | ⟨failed, m₂, hinvalidate, ha⟩
  · obtain ⟨_, hy, -⟩ := alone_invalidateAll hstop
    cases hy
  obtain ⟨_, hy, hpurged, hgone⟩ := alone_invalidateAll hinvalidate
  cases hy
  have hpurged : Purged env tokens m.world m₂.world := ⟨hpurged.pg.trans hpg, hredis ▸ hpurged.entry⟩
  split at ha
  · obtain ⟨rfl, rfl⟩ := Alone.pure_iff.mp ha
    exact .of_aborted rfl hpurged.aborted
  · next hfailed =>
    exact reported_of_statements hsane htokens hpurged (hgone (Nat.eq_zero_of_not_pos hfailed)) ha

theorem reported_delete {id : Uuid} (hsane : Sane env m.world.pg.tables)
    (ha : Alone (server env) R tid (delete env id).run m y m') :
    Reported env (.delete id) m.world m'.world y := by
  unfold delete at ha
  rcases ha.bindE with ⟨e, rfl, hstop⟩ | ⟨found, m₁, hfind, ha⟩
  · obtain ⟨-, -, ⟨_, hy⟩ | hy⟩ := alone_query_cases hstop
    · exact .of_db (congrArg Except.error (Except.error.inj hy))
    · cases hy
  obtain ⟨hfound, hpg, hredis⟩ := alone_query hfind
  have hsession : ∀ s, (s ∈ m.world.pg.tables.sessions ∧ (s.id == id) = true) ↔
      (m.world.pg.tables.sessions.find? fun s => s.id == id) = some s := by
    intro s
    refine (Table.find?_eq_some (p := fun s : UserSession => s.id == id) fun a b ha hb => ?_).symm
    simp [Keyed.clash, beq_iff_eq.mp ha, beq_iff_eq.mp hb]
  have htokens : ∀ token, token ∈ found.toList ↔
      ∃ s ∈ m.world.pg.tables.sessions, (s.id == id) = true ∧ s.sessionToken = token := by
    intro token
    simp only [hfound, Query.exec, Option.mem_toList, Option.map_eq_some_iff, ← hsession, and_assoc]
  cases found with
  | none =>
    refine reported_of_statements hsane htokens ?_ ?_ ha
    · exact ⟨hpg, fun _ => .inl (by rw [hredis])⟩
    · intro _ hmem
      cases hmem
  | some token =>
    rcases ha.bindE with ⟨e, rfl, hstop⟩ | ⟨_, m₂, hinvalidate, ha⟩
    · obtain ⟨hpurged, -⟩ := alone_invalidateNowOrAbort hstop
      exact .of_aborted rfl ⟨by rw [hpurged.pg, hpg], hredis ▸ hpurged.aborted.cache⟩
    · obtain ⟨hpurged, hgone⟩ := alone_invalidateNowOrAbort hinvalidate
      refine reported_of_statements hsane htokens
        ⟨hpurged.pg.trans hpg, hredis ▸ hpurged.entry⟩ ?_ ha
      intro token' hmem
      obtain rfl := List.mem_singleton.mp hmem
      exact hgone rfl

/-- The bulk deletions read the tokens of their targets first. -/
theorem reported_bulk {q : Query} {tokens : q.Res → List String}
    {text : Nat → String} (hsane : Sane env m.world.pg.tables)
    (htokens : ∀ token, token ∈ tokens (q.exec env m.world.pg.tables) ↔
      ∃ s ∈ m.world.pg.tables.sessions, D.targets s = true ∧ s.sessionToken = token)
    (ha : Alone (server env) R tid (query q >>= fun rows =>
      invalidateAll env (tokens rows) >>= fun failed =>
        if 0 < failed then throw (.redisUnavailable (text failed)) else D.statements).run m y m') :
    Reported env D m.world m'.world y := by
  rcases ha.bindE with ⟨e, rfl, hstop⟩ | ⟨rows, m₁, hread, ha⟩
  · obtain ⟨-, -, ⟨_, hy⟩ | hy⟩ := alone_query_cases hstop
    · exact .of_db (congrArg Except.error (Except.error.inj hy))
    · cases hy
  obtain ⟨rfl, hpg, hredis⟩ := alone_query hread
  exact reported_invalidated hsane htokens hpg hredis ha

theorem reported (hsane : Sane env m.world.pg.tables)
    (ha : Alone (server env) R tid (D.handler env).run m y m') :
    Reported env D m.world m'.world y := by
  cases D with
  | delete id => exact reported_delete hsane ha
  | deleteAllByUserId userId =>
    refine reported_bulk hsane (fun token => ?_) ha
    simp [Query.exec, Deletion.targets, and_assoc]
  | deleteAllByUserIdExcept userId keep =>
    refine reported_bulk hsane (fun token => ?_) ha
    simp [Query.exec, Deletion.targets, and_assoc]

/-- Deletions of sessions are all or nothing; past the cache they remove exactly their targets, and
revoke what is left of the user's refresh tokens. -/
theorem deletion_exact (env : Env) : Exact env Deletion.fate :=
  fun _ _ _ _ _ _ hsane ha => reported hsane ha

/-- A session of another user. -/
def otherSession : UserSession :=
  { Scenario.session with id := 9, userId := 10, sessionToken := "session-b" }

/-- The refresh token of the user that is bound to the other session. -/
def strayToken : RefreshToken := { Scenario.refreshToken with sessionId := 9 }

/-- A world in which the session of another user has a refresh token of the user. -/
def strayWorld : World :=
  Scenario.world { Scenario.tables with
    users := ⟨[Scenario.alice, { Scenario.alice with id := 10, email := "bob@example.com", username := "bob" }],
      by decide⟩
    sessions := ⟨[Scenario.session, otherSession], by decide⟩
    refreshTokens := Scenario.one strayToken }

theorem sane_strayWorld : Sane Scenario.env strayWorld.pg.tables := by
  constructor
  · exact (by decide : ∀ r ∈ strayWorld.pg.tables.refreshTokens.rows,
      ∃ s ∈ strayWorld.pg.tables.sessions.rows, s.id = r.sessionId)
  · exact (by decide : ∀ s ∈ strayWorld.pg.tables.sessions.rows,
      ∀ s' ∈ strayWorld.pg.tables.sessions.rows,
        Scenario.env.sha256 s.sessionToken = Scenario.env.sha256 s'.sessionToken →
          s.sessionToken = s'.sessionToken)

/-- The deletion of the user's sessions without failures: one session is deleted, and the refresh
token that stays is revoked. -/
theorem played_stray : ∃ m', Alone (server Scenario.env) {} 0
    ((Deletion.deleteAllByUserId 1).handler Scenario.env).run ⟨strayWorld, []⟩ (.ok 1) m' ∧
      m'.world.pg.tables.refreshTokens.rows = [{ strayToken with revoked := true }] :=
  ⟨_, .of_playAlone (fun _ _ _ _ => trivial)
    (show Prog.playAlone _ _ _ _ (List.replicate 4 {}) = _ from rfl), rfl⟩

theorem not_exact_id : ¬ Exact Scenario.env fun _ r => r := by
  intro hexact
  obtain ⟨m', ha, hrows⟩ := played_stray
  have hdeleted := (hexact _ _ _ _ _ _ sane_strayWorld ha).2 1 rfl
  have hkept : strayToken ∈ m'.world.pg.tables.refreshTokens := by
    refine (hdeleted.refreshTokens strayToken).mpr ⟨strayToken, List.mem_singleton_self _, ?_, rfl⟩
    exact (by decide : ¬ ∃ s ∈ strayWorld.pg.tables.sessions.rows,
      (Deletion.deleteAllByUserId 1).targets s = true ∧ s.id = strayToken.sessionId)
  rw [Table.mem_rows, hrows] at hkept
  revert hkept
  decide

/-- In that world the user's session is deleted and the other user's stays. -/
theorem deletion_exact_stray : ∃ m', Alone (server Scenario.env) {} 0
    ((Deletion.deleteAllByUserId 1).handler Scenario.env).run ⟨strayWorld, []⟩ (.ok 1) m' ∧
      Deleted Scenario.env (.deleteAllByUserId 1) (Deletion.deleteAllByUserId 1).fate strayWorld
        m'.world 1 := by
  obtain ⟨m', ha, -⟩ := played_stray
  exact ⟨m', ha, (deletion_exact Scenario.env _ _ _ _ _ _ sane_strayWorld ha).2 1 rfl⟩

end SessionDeletion

end AuthServer
