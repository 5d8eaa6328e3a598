import AuthServer.Concurrent.Sequential
import AuthServer.Store.Frames

/-!
# Handlers executed alone

What the combinators that handlers are written with do when no other request interferes.
-/

namespace AuthServer

open Concurrent Handler

variable {α : Type} {env : Env} {R : Rules} {tid : Nat} {m m' : Instant}

variable {y : Except Failure α} {h : Handler α} {st : Stmt}

theorem alone_pure {x : α} :
    Alone (server env) R tid (pure x : Handler α).run m y m' ↔ y = .ok x ∧ m' = m :=
  Alone.pure_iff

theorem alone_perform {op : Op} {y : Except Failure (Res op)} :
    Alone (server env) R tid (perform op).run m y m' ↔
      ∃ ch r w, R.allows m tid op ch ∧ World.exec env tid op ch m.world = some (r, w) ∧
        y = .ok r ∧ m' = m.after tid op r w := by
  constructor
  · intro h
    obtain ⟨ch, r, w, ha, he, tail⟩ := Alone.call_iff.mp h
    obtain ⟨rfl, rfl⟩ := Alone.pure_iff.mp tail
    exact ⟨ch, r, w, ha, he, rfl, rfl⟩
  · rintro ⟨ch, r, w, ha, he, rfl, rfl⟩
    exact Alone.call_iff.mpr ⟨ch, r, w, ha, he, .pure _ _⟩

/-- What each command of a handler keeps, the handler keeps. -/
theorem alone_keeps {J : Instant → Prop} {ok : Op → Prop}
    (hu : h.Uses ok) (ha : Alone (server env) R tid h.run m y m')
    (hstep : ∀ m op ch r w, J m → ok op → R.allows m tid op ch →
      World.exec env tid op ch m.world = some (r, w) → J (m.after tid op r w)) (hm : J m) : J m' :=
  ha.keeps hu.run hstep hm

/-- A statement fails, and its failure is propagated, or it succeeds. -/
theorem alone_sql_cases {s : Sql} {y : Except Failure s.Res}
    (h : Alone (server env) R tid (sql s).run m y m') :
    ∃ ch r w, R.allows m tid (.sql s) ch ∧
      World.exec env tid (.sql s) ch m.world = some (r, w) ∧ m' = m.after tid (.sql s) r w ∧
      ((∃ e, r = .error e ∧ y = .error (.db e)) ∨ ∃ x, r = .ok x ∧ y = .ok x) := by
  unfold sql at h
  rcases h.bindE with ⟨e, rfl, hstop⟩ | ⟨r, m₁, hperform, hret⟩
  · obtain ⟨_, _, _, -, -, hy, -⟩ := alone_perform.mp hstop
    cases hy
  obtain ⟨ch, r, w, ha, he, hy, rfl⟩ := alone_perform.mp hperform
  cases hy
  split at hret
  · obtain ⟨rfl, rfl⟩ := hret.ret
    exact ⟨ch, _, w, ha, he, rfl, .inr ⟨_, rfl, rfl⟩⟩
  · obtain ⟨rfl, rfl⟩ := Alone.pure_iff.mp hret
    exact ⟨ch, _, w, ha, he, rfl, .inl ⟨_, rfl, rfl⟩⟩

theorem alone_sql {s : Sql} {x : s.Res} (h : Alone (server env) R tid (sql s).run m (.ok x) m') :
    ∃ ch w, R.allows m tid (.sql s) ch ∧
      World.exec env tid (.sql s) ch m.world = some ((.ok x : Except DbError s.Res), w) ∧
      m' = m.after tid (.sql s) (.ok x : Except DbError s.Res) w := by
  obtain ⟨ch, r, w, ha, he, hm, ⟨e, -, hy⟩ | ⟨x', rfl, hy⟩⟩ := alone_sql_cases h
  · cases hy
  · cases hy
    exact ⟨ch, w, ha, he, hm⟩

/-- A Redis command fails, and its failure is propagated, or it is executed. -/
theorem alone_redis {c : RedisCmd} {y : Except Failure c.Res}
    (h : Alone (server env) R tid (redis c).run m y m') : m.world.now ≤ m'.world.now ∧
      ((∃ e, y = .error (.redis e)) ∧ m'.world.redis = m.world.redis ∨
        y = .ok (c.exec m'.world.now m.world.redis).1 ∧
          m'.world.redis = (c.exec m'.world.now m.world.redis).2) := by
  unfold redis at h
  rcases h.bindE with ⟨e, rfl, hstop⟩ | ⟨r, m₁, hperform, hret⟩
  · obtain ⟨_, _, _, -, -, hy, -⟩ := alone_perform.mp hstop
    cases hy
  obtain ⟨ch, r, w, -, he, hy, rfl⟩ := alone_perform.mp hperform
  cases hy
  have hle : m.world.now ≤ (m.world.elapse ch.elapse).now :=
    Int.le_add_of_nonneg_right (Int.natCast_nonneg _)
  rcases World.exec_redis he with ⟨text, -, rfl, rfl⟩ | ⟨-, rfl, rfl⟩
  · obtain ⟨rfl, rfl⟩ := Alone.pure_iff.mp hret
    exact ⟨hle, .inl ⟨⟨text, rfl⟩, rfl⟩⟩
  · obtain ⟨rfl, rfl⟩ := hret.ret
    exact ⟨hle, .inr ⟨rfl, rfl⟩⟩

/-- A `SELECT` leaves the stores alone, and fails or returns what is stored. -/
theorem alone_query_cases {q : Query} {y : Except Failure q.Res}
    (h : Alone (server env) R tid (query q).run m y m') :
    m'.world.pg = m.world.pg ∧ m'.world.redis = m.world.redis ∧
      ((∃ e, y = .error (.db e)) ∨ y = .ok (q.exec env m.world.pg.tables)) := by
  obtain ⟨ch, r, w, -, he, rfl, ⟨e, rfl, rfl⟩ | ⟨x, rfl, rfl⟩⟩ := alone_sql_cases h
  · obtain ⟨hpg, hredis, -⟩ := World.exec_query he
    exact ⟨hpg, hredis, .inl ⟨e, rfl⟩⟩
  · obtain ⟨hpg, hredis, ⟨e, hx⟩ | hx⟩ := World.exec_query he
    · cases hx
    · exact ⟨hpg, hredis, .inr (congrArg _ (Except.ok.inj hx))⟩

/-- A `SELECT` returns what is stored and leaves the tables alone. -/
theorem alone_query {q : Query} {x : q.Res}
    (h : Alone (server env) R tid (query q).run m (.ok x) m') :
    x = q.exec env m.world.pg.tables ∧ m'.world.pg = m.world.pg ∧ m'.world.redis = m.world.redis := by
  obtain ⟨hpg, hredis, ⟨e, hx⟩ | hx⟩ := alone_query_cases h
  · cases hx
  · exact ⟨Except.ok.inj hx, hpg, hredis⟩

/-- A statement on the pool has its effect. -/
theorem alone_stmt {x : st.Res} (h : Alone (server env) R tid (stmt st).run m (.ok x) m') :
    ∃ at_, m'.world.pg.tables = st.effect at_ m.world.pg.tables := by
  obtain ⟨ch, w, -, he, rfl⟩ := alone_sql h
  exact ⟨_, World.exec_stmt_ok he⟩

/-- A statement on the pool keeps Redis, and fails without effect or has its effect. -/
theorem alone_stmt_cases {y : Except Failure st.Res}
    (ha : Alone (server env) R tid (stmt st).run m y m') :
    m'.world.redis = m.world.redis ∧
      ((∃ e, y = .error e) ∧ m'.world.pg.tables = m.world.pg.tables ∨
        ∃ x at_, y = .ok x ∧ m'.world.pg.tables = st.effect at_ m.world.pg.tables) := by
  obtain ⟨ch, r, w, -, he, rfl, ⟨e, rfl, rfl⟩ | ⟨x, rfl, rfl⟩⟩ := alone_sql_cases ha
  · obtain ⟨hredis, ⟨-, hpg⟩ | hst⟩ := World.exec_stmt he
    · exact ⟨hredis, .inl ⟨⟨_, rfl⟩, congrArg Postgres.tables hpg⟩⟩
    · obtain ⟨-, hpg⟩ | ⟨⟨x, hx⟩, -⟩ := Stmt.exec_effect hst
      · exact ⟨hredis, .inl ⟨⟨_, rfl⟩, congrArg Postgres.tables hpg⟩⟩
      · cases hx
  · exact ⟨(World.exec_stmt he).1, .inr ⟨x, _, rfl, World.exec_stmt_ok he⟩⟩

/-- A statement on the pool that succeeds is executed. -/
theorem alone_stmt_exec {x : st.Res} (h : Alone (server env) R tid (stmt st).run m (.ok x) m') :
    (∃ at_, st.exec at_ m.world.pg = some (.ok x, m'.world.pg)) ∧
      m'.world.redis = m.world.redis := by
  obtain ⟨ch, w, -, he, rfl⟩ := alone_sql h
  obtain ⟨hredis, ⟨⟨e, hx⟩, -⟩ | hst⟩ := World.exec_stmt he
  · cases hx
  · exact ⟨⟨_, hst⟩, hredis⟩

/-- Handlers that only read leave Postgres and the cached sessions alone. -/
theorem alone_reading (hu : h.Uses fun op => op.reading = true)
    (ha : Alone (server env) R tid h.run m y m') :
    m'.world.pg = m.world.pg ∧ m'.world.redis.sessions = m.world.redis.sessions := by
  refine alone_keeps (J := fun m₁ => m₁.world.pg = m.world.pg ∧
    m₁.world.redis.sessions = m.world.redis.sessions) hu ha ?_ ⟨rfl, rfl⟩
  rintro m₁ op ch r w ⟨hpg, hcache⟩ hop _ he
  obtain ⟨hpg', hredis⟩ := World.exec_reading hop he
  refine ⟨hpg'.trans hpg, ?_⟩
  change w.redis.sessions = m.world.redis.sessions
  rw [hredis, ← hcache]

/-- No time passes and nothing fails. -/
def frozen : Rules where
  allows _ _ _ ch := ch.elapse = 0 ∧ ch.fail = none

theorem frozen_allows_default {n : Nat} :
    ∀ ch ∈ List.replicate n ({} : Choice), ∀ m op, frozen.allows m tid op ch := by
  intro ch hch m op
  rw [List.eq_of_mem_replicate hch]
  exact ⟨rfl, rfl⟩

/-- A `SELECT` is never blocked. -/
theorem exists_query (env : Env) (tid : Nat) (m : Instant) (q : Query) :
    ∃ m', Alone (server env) frozen tid (query q).run m (.ok (q.exec env m.world.pg.tables)) m' :=
  ⟨_, .of_playAlone (frozen_allows_default (n := 1)) rfl⟩

/-- The clock of a handler that only reads stands still, and so do the tables. -/
theorem alone_frozen (hu : h.Uses fun op => op.reading = true)
    (ha : Alone (server env) frozen tid h.run m y m') :
    m'.world.pg = m.world.pg ∧ m'.world.now = m.world.now := by
  refine alone_keeps (J := fun m₁ => m₁.world.pg = m.world.pg ∧ m₁.world.now = m.world.now) hu ha ?_
    ⟨rfl, rfl⟩
  rintro m₁ op ch r w ⟨hpg, hnow⟩ hop ⟨helapse, -⟩ he
  refine ⟨(World.exec_reading hop he).1.trans hpg, ?_⟩
  change w.now = m.world.now
  rw [World.now_exec he, helapse, hnow]
  exact Int.add_zero _

/-- A handler that issues none of the statements that change a part of the tables keeps it. -/
theorem alone_frame {X : Type} (part : Tables → X) {p : Stmt → Bool}
    (hpart : ∀ t tokens, part { t with refreshTokens := tokens } = part t)
    (hp : ∀ st now t, p st = false → part (st.effect now t) = part t)
    (hu : h.Uses fun op => op.isStmt p = false) (ha : Alone (server env) R tid h.run m y m') :
    part m'.world.pg.tables = part m.world.pg.tables := by
  refine alone_keeps (J := fun m₁ => part m₁.world.pg.tables = part m.world.pg.tables) hu ha ?_ rfl
  intro m₁ op ch r w heq hop _ he
  refine Eq.trans (World.exec_frame part hpart he fun st hst => ?_) heq
  subst hst
  exact hp st _ _ hop

end AuthServer
