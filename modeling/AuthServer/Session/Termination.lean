import AuthServer.Logic
import AuthServer.Scenario

/-!
# Termination of sessions under concurrent lookups

A deletion first removes the cache entry of a session and then its row. A lookup
that has read the row before the deletion may write the cache entry back after the
deletion has removed it, and every later lookup is then answered from the cache.
The deletion is final in every run in which no cache entry of the session is
written after its row is gone or between the two removals of a deletion.
-/

namespace AuthServer

open Concurrent Discipline Handler Storage SessionRepository

namespace Termination

/-- The last event of a deletion: its `DELETE`, or the failed revocation that stops it. -/
def endsDeletion : Event Res → Bool
  | ⟨_, .sql (.stmt st), r⟩ =>
    st.deletion?.isSome ||
      (st.revocation?.isSome && !Except.isOk (r : Except DbError st.Res))
  | _ => false

/-- The thread has removed the cache entry of the key. -/
def Removed (key : String) (m : Instant) (tid : Nat) : Prop :=
  ∃ e ∈ m.trace, e.tid = tid ∧ e.op = .redis (.session (.del key))

/-- The deletion of the thread is over. -/
def Ended (m : Instant) (tid : Nat) : Prop :=
  ∃ e ∈ m.trace, e.tid = tid ∧ endsDeletion e = true

/-- The row of the session exists. -/
def Present (s : UserSession) (w : World) : Prop :=
  ∃ x ∈ w.pg.tables.sessions, x.id = s.id

/-- The lookups and deletions that are interleaved. -/
def family : Call → Bool
  | .findByToken _ | .findActiveSession _ | .deleteSession _ | .deleteAllByUserId _
  | .deleteAllByUserIdExcept _ _ => true
  | _ => false

/-- No Redis command fails. -/
def redisUp : Op → Choice → Prop
  | .redis _, ch => ch.fail = none
  | _, _ => True

theorem redisUp_of_succeeds {op : Op} {ch : Choice} (h : Scenario.succeeds ch = true) :
    redisUp op ch := by
  cases op with
  | redis c => exact Option.isNone_iff_eq_none.mp h
  | _ => trivial

/-- All interleavings of lookups and deletions while Redis is available. -/
def available : Rules where
  admits call := family call = true
  allows _ _ op ch := redisUp op ch

/-- The interleavings in which a cache entry of the session is only written while its row exists
and no deletion has removed the entry and is still at work. -/
def ordered (env : Env) (s : UserSession) : Rules where
  admits call := family call = true
  allows m _ op ch := redisUp op ch ∧
    ∀ snap ttl, op = .redis (.session (.setex (env.sha256 s.sessionToken) snap ttl)) →
      Present s m.world ∧ ∀ j, Removed (env.sha256 s.sessionToken) m j → Ended m j

/-- The deletions that are meant to end the session. -/
def targets (s : UserSession) : Call → Bool
  | .deleteSession id => id == s.id
  | .deleteAllByUserId uid => uid == s.userId
  | .deleteAllByUserIdExcept uid keep => uid == s.userId && keep != s.id
  | _ => false

/-- The request is a lookup by the token, and it is answered with a session. -/
def accepts (token : String) : (call : Call) → Ret call → Bool
  | .findActiveSession t, .ok (some _) => t == token
  | _, _ => false

/-- Once a deletion of the session has returned `Ok` and all requests received by then have been
answered, no later lookup accepts the session. -/
def Final (env : Env) (s : UserSession) (R : Rules) : Prop :=
  ∀ w : World, s ∈ w.pg.tables.sessions →
  ∀ c₁ c₂ c₃ : State, Run (server env) R (Config.start w) c₁ →
  ∀ killer call n, targets s call = true → c₁.answered killer call (.ok n) →
  Run (server env) R c₁ c₂ → c₂.settled = true → Run (server env) R c₂ c₃ →
  ∀ reader call a, c₂.threads.length ≤ reader → c₃.answered reader call a →
  accepts s.sessionToken call a = false

/-! ## The abstraction -/

section Proof

variable (env : Env) (s : UserSession)

/-- What the argument needs to know about a moment. -/
structure View where
  present : Prop
  keyed : Prop
  cached : Prop
  removed : Nat → Prop
  ended : Nat → Prop

/-- Rows that share a key with the session are the session. -/
def Keys (t : Table UserSession) : Prop :=
  ∀ x ∈ t, x.id = s.id ∨ x.sessionToken = s.sessionToken →
    x.id = s.id ∧ x.sessionToken = s.sessionToken ∧ x.userId = s.userId

def view (m : Instant) : View where
  present := Present s m.world
  keyed := Keys s m.world.pg.tables.sessions
  cached := ∃ e, m.world.redis.sessions.entry (env.sha256 s.sessionToken) = some e
  removed := Removed (env.sha256 s.sessionToken) m
  ended := Ended m

/-- A cached session has a row, and its entry stays removed while a deletion is at work. Rows are
never added, and a thread only writes its own history. -/
def discipline : Discipline Res World View where
  view := view env s
  inv a := a.keyed ∧ (a.cached → a.present) ∧ ∀ j, a.removed j → a.cached → a.ended j
  guar j a b := (b.present → a.present) ∧
    ∀ i ≠ j, (b.removed i ↔ a.removed i) ∧ (b.ended i ↔ a.ended i)
  guar_refl _ _ _ := ⟨id, fun _ _ => ⟨Iff.rfl, Iff.rfl⟩⟩

variable {env s} {m : Instant} {tid : Nat} {op : Op} {r : Res op} {w : World} {key : String}

variable {j : Nat} {token : String} {p : UserSession → Bool}

theorem removed_after_of_ne (h : j ≠ tid) :
    Removed key (m.after tid op r w) j ↔ Removed key m j := by
  simp [Removed, Moment.after, Ne.symm h]

theorem ended_after_of_ne (h : j ≠ tid) :
    Ended (m.after tid op r w) j ↔ Ended m j := by
  simp [Ended, Moment.after, Ne.symm h]

theorem removed_after_self :
    Removed key (m.after tid op r w) tid ↔
      op = .redis (.session (.del key)) ∨ Removed key m tid := by
  simp [Removed, Moment.after]

theorem ended_after_self :
    Ended (m.after tid op r w) tid ↔ endsDeletion ⟨tid, op, r⟩ = true ∨ Ended m tid := by
  simp [Ended, Moment.after]

theorem ended_after (h : Ended m j) : Ended (m.after tid op r w) j := by
  obtain ⟨e, he, hj⟩ := h
  exact ⟨e, List.mem_cons_of_mem _ he, hj⟩

theorem removed_of_after (hd : op ≠ .redis (.session (.del key)))
    (h : Removed key (m.after tid op r w) j) : Removed key m j := by
  by_cases hj : j = tid
  · subst hj
    exact (removed_after_self.mp h).resolve_left hd
  · exact (removed_after_of_ne hj).mp h

/-- The part of the guarantee about histories holds for every step. -/
theorem history_guar (i : Nat) (h : i ≠ tid) :
    (Removed key (m.after tid op r w) i ↔ Removed key m i) ∧
      (Ended (m.after tid op r w) i ↔ Ended m i) :=
  ⟨removed_after_of_ne h, ended_after_of_ne h⟩

theorem endsDeletion_of_reading (h : op.reading = true) : endsDeletion ⟨tid, op, r⟩ = false := by
  cases op with
  | sql q =>
    cases q with
    | query q => rfl
    | stmt q => cases h
    | tx q => cases h
  | _ => rfl

/-- A command that neither removes the entry nor ends a deletion, and that leaves the rows'
keys and the entry alone, is not visible in the abstraction. -/
theorem view_after (hd : op ≠ .redis (.session (.del (env.sha256 s.sessionToken))))
    (he : endsDeletion ⟨tid, op, r⟩ = false) (hp : Present s w ↔ Present s m.world)
    (hk : Keys s w.pg.tables.sessions ↔ Keys s m.world.pg.tables.sessions)
    (hc : w.redis.sessions = m.world.redis.sessions) :
    view env s (m.after tid op r w) = view env s m := by
  have hremoved : Removed (env.sha256 s.sessionToken) (m.after tid op r w) =
      Removed (env.sha256 s.sessionToken) m := by
    funext j
    by_cases hj : j = tid
    · subst hj
      simp [removed_after_self, hd]
    · exact propext (removed_after_of_ne hj)
  have hended : Ended (m.after tid op r w) = Ended m := by
    funext j
    by_cases hj : j = tid
    · subst hj
      simp [ended_after_self, he]
    · exact propext (ended_after_of_ne hj)
  unfold view
  rw [hremoved, hended]
  simp only [Moment.after, propext hp, propext hk, hc]

theorem silent_of_reading {R : Rules} (h : op.reading = true) :
    (discipline env s).Silent (server env) R tid op := by
  intro m ch r w _ _ he
  obtain ⟨hpg, hr⟩ := World.exec_reading h he
  have hd : op ≠ .redis (.session (.del (env.sha256 s.sessionToken))) := by
    rintro rfl
    cases h
  refine view_after hd (endsDeletion_of_reading h) ?_ ?_ ?_
  · rw [Present, hpg, Present]
  · rw [hpg]
  · rw [hr]

theorem silent_updateLastAccessed {R : Rules} {id : Uuid} {at_ : NaiveDateTime} :
    (discipline env s).Silent (server env) R tid (.sql (.stmt (.updateLastAccessed id at_))) := by
  intro m ch r w _ _ he
  obtain ⟨hr, ⟨-, hpg⟩ | hex⟩ := World.exec_stmt he
  · refine view_after (by rintro ⟨⟩) rfl ?_ ?_ (by rw [hr])
    · rw [Present, hpg, Present]
    · rw [hpg]
  · obtain ⟨rfl, hpg⟩ := Prod.mk.inj (Option.some.inj hex)
    -- the setter keeps the keys of every row
    have hmem : ∀ y ∈ w.pg.tables.sessions, ∃ x ∈ m.world.pg.tables.sessions,
        y.id = x.id ∧ y.sessionToken = x.sessionToken ∧ y.userId = x.userId := by
      intro y hy
      rw [← hpg] at hy
      obtain ⟨x, hx, rfl⟩ := Table.mem_update.mp hy
      refine ⟨x, hx, ?_⟩
      split <;> exact ⟨rfl, rfl, rfl⟩
    have hmem' : ∀ x ∈ m.world.pg.tables.sessions, ∃ y ∈ w.pg.tables.sessions,
        y.id = x.id ∧ y.sessionToken = x.sessionToken ∧ y.userId = x.userId := by
      intro x hx
      rw [← hpg]
      refine ⟨_, Table.mem_update.mpr ⟨x, hx, rfl⟩, ?_⟩
      split <;> exact ⟨rfl, rfl, rfl⟩
    refine view_after (by rintro ⟨⟩) rfl ⟨?_, ?_⟩ ⟨?_, ?_⟩ (by rw [hr])
    · rintro ⟨y, hy, hid⟩
      obtain ⟨x, hx, h₁, -⟩ := hmem y hy
      exact ⟨x, hx, h₁ ▸ hid⟩
    · rintro ⟨x, hx, hid⟩
      obtain ⟨y, hy, h₁, -⟩ := hmem' x hx
      exact ⟨y, hy, h₁ ▸ hid⟩
    · intro hk x hx hor
      obtain ⟨y, hy, h₁, h₂, h₃⟩ := hmem' x hx
      simp only [← h₁, ← h₂, ← h₃] at hor ⊢
      exact hk y hy hor
    · intro hk y hy hor
      obtain ⟨x, hx, h₁, h₂, h₃⟩ := hmem y hy
      simp only [h₁, h₂, h₃] at hor ⊢
      exact hk x hx hor

/-! ## Lookups -/

/-- If the session was gone at some earlier moment, as `q` says, it still is. -/
def Gone (q : Prop) (a : View) : Prop := q → ¬ a.present

theorem stable_gone {q : Prop} : (discipline env s).Stable tid (Gone q) :=
  fun _ _ _ _ _ _ hg hp hq hb => hp hq (hg.1 hb)

variable {R : Rules} {q : Prop}

/-- Writing a cache entry is allowed in a run that keeps to the order. -/
theorem sat_setex {k : String} {snap : SessionSnapshot} {ttl : Int} :
    (discipline env s).Sat (server env) (ordered env s) tid
      (tryRedis (.session (.setex k snap ttl))).run (Gone q)
      (post (fun _ => Gone q) fun _ => Gone q) := by
  refine Sat.perform stable_gone (fun _ => stable_gone) fun m ch r w hi hp ha he => ?_
  obtain ⟨hkeyed, hcached, hremoved⟩ := hi
  rcases World.exec_redis he with ⟨text, hf, -, -⟩ | ⟨-, rfl, rfl⟩
  · rw [show ch.fail = none from ha.1] at hf
    cases hf
  · have hentry : ∀ e, (m.world.redis.sessions.set k snap
          (some (m.world.now + ch.elapse + ttl))).entry (env.sha256 s.sessionToken) = some e →
        env.sha256 s.sessionToken = k ∨
          m.world.redis.sessions.entry (env.sha256 s.sessionToken) = some e := by
      intro e hent
      rw [Expiring.entry_set] at hent
      split at hent
      · next hk => exact .inl hk
      · exact .inr hent
    refine ⟨⟨hkeyed, ?_, ?_⟩, ⟨id, history_guar⟩, hp⟩
    · rintro ⟨e, hent⟩
      rcases hentry e hent with hk | hold
      · exact (ha.2 snap ttl (by rw [hk])).1
      · exact hcached ⟨e, hold⟩
    · rintro j hrem ⟨e, hent⟩
      have hrem' := removed_of_after (by rintro ⟨⟩) hrem
      rcases hentry e hent with hk | hold
      · exact ended_after ((ha.2 snap ttl (by rw [hk])).2 j hrem')
      · exact ended_after (hremoved j hrem' ⟨e, hold⟩)

theorem stable_fact {fact : Prop} :
    (discipline env s).Stable tid fun a => Gone q a ∧ fact :=
  stable_gone.and (.const fact)

/-- A cached session has a row, so a hit rules out that the session is gone. -/
theorem sat_readCache :
    (discipline env s).Sat (server env) R tid
      (readCache (env.sha256 token)).run (Gone q)
      (post (fun found a => Gone q a ∧ (token = s.sessionToken → found.isSome → ¬ q))
        fun _ => Gone q) := by
  unfold readCache
  refine Sat.seqE (M := fun r a => Gone q a ∧
    (token = s.sessionToken → ∀ snap, r = .ok (some snap) → ¬ q)) ?_ fun r => ?_
  · refine Sat.read (silent_of_reading rfl) stable_gone (fun _ => stable_fact)
      fun m ch r w hi hp _ he => ⟨hp, ?_⟩
    rintro rfl snap rfl hq
    rcases World.exec_redis he with ⟨text, -, hr, -⟩ | ⟨-, hr, -⟩
    · cases hr
    · obtain ⟨e, hent, -⟩ := Expiring.get_eq_some.mp (Except.ok.inj hr).symm
      exact hp hq (hi.2.1 ⟨e, hent⟩)
  · match r with
    | .ok (some snap) =>
      exact Sat.ret stable_fact fun a _ hp => ⟨hp.1, fun ht _ => hp.2 ht snap rfl⟩
    | .ok none => exact Sat.ret stable_fact fun a _ hp => ⟨hp.1, fun _ h => by cases h⟩
    | .error e => exact Sat.ret stable_fact fun a _ hp => ⟨hp.1, fun _ h => by cases h⟩

theorem sat_populateCache {k : String} {hydrated : SessionWithUser} :
    (discipline env s).Sat (server env) (ordered env s) tid
      (populateCache k hydrated).run (Gone q)
      (post (fun _ => Gone q) fun _ => Gone q) := by
  unfold populateCache
  split
  · exact Sat.ret stable_gone fun _ _ hp => hp
  · refine Sat.seqE (M := fun _ => Gone q) ?_ fun ttl => ?_
    · exact Sat.quiet ⟨silent_of_reading rfl, fun _ => trivial⟩ stable_gone fun _ _ _ hp => hp
    · split
      · exact Sat.ret stable_gone fun _ _ hp => hp
      · exact Sat.seqE sat_setex fun _ => Sat.ret stable_gone fun _ _ hp => hp

/-- Every lookup keeps to the discipline, and one that is made after the session is gone finds
nothing. -/
theorem sat_findByToken :
    (discipline env s).Sat (server env) (ordered env s) tid
      (findByToken env token).run (Gone q)
      (post (fun found a => Gone q a ∧ (token = s.sessionToken → found.isSome → ¬ q))
        fun _ => Gone q) := by
  unfold findByToken
  split
  · exact Sat.ret stable_gone fun _ _ hp => ⟨hp, fun _ h => by cases h⟩
  refine Sat.seqE sat_readCache fun found => ?_
  cases found with
  | some hit => exact Sat.ret stable_fact fun _ _ hp => hp
  | none =>
    refine Sat.seqE (M := fun row a => Gone q a ∧
      (token = s.sessionToken → row.isSome → ¬ q)) ?_ fun row => ?_
    · refine Sat.query (silent_of_reading rfl) stable_fact (fun _ => stable_fact)
        (fun _ => stable_gone) (fun m hi hp => ⟨hp.1, ?_⟩) fun _ _ _ hp => hp.1
      rintro rfl hsome hq
      obtain ⟨row, hrow⟩ := Option.isSome_iff_exists.mp hsome
      obtain ⟨x, hx, -⟩ := Option.bind_eq_some_iff.mp hrow
      obtain ⟨hmem, htok⟩ := Table.mem_of_find? hx
      exact hp.1 hq ⟨x, hmem, (hi.1 x hmem (.inr (beq_iff_eq.mp htok))).1⟩
    · cases row with
      | none => exact Sat.ret stable_fact fun _ _ hp => ⟨hp.1, fun _ h => by cases h⟩
      | some hydrated =>
        refine Sat.assume stable_gone fun hfact => ?_
        refine Sat.seqE sat_populateCache fun _ => ?_
        exact Sat.ret stable_gone fun _ _ hp => ⟨hp, fun ht _ => hfact ht rfl⟩

theorem sat_now :
    (discipline env s).Sat (server env) R tid now.run (Gone q)
      (post (fun _ => Gone q) fun _ => Gone q) :=
  Sat.quiet ⟨silent_of_reading rfl, fun _ => trivial⟩ stable_gone fun _ _ _ hp => hp

theorem sat_findActiveSession :
    (discipline env s).Sat (server env) (ordered env s) tid
      (SessionService.findActiveSession env token).run (Gone q)
      (post (fun found a => Gone q a ∧ (token = s.sessionToken → found.isSome → ¬ q))
        fun _ => Gone q) := by
  unfold SessionService.findActiveSession
  split
  · exact Sat.ret stable_gone fun _ _ hp => ⟨hp, fun _ h => by cases h⟩
  refine Sat.seqE sat_findByToken fun found => ?_
  cases found with
  | none => exact Sat.ret stable_fact fun _ _ hp => hp
  | some hydrated =>
    refine Sat.assume stable_gone fun hfact => ?_
    refine Sat.seqE sat_now fun at_ => ?_
    split
    · exact Sat.ret stable_gone fun _ _ hp => ⟨hp, fun _ h => by cases h⟩
    split
    · exact Sat.ret stable_gone fun _ _ hp => ⟨hp, fun _ h => by cases h⟩
    refine Sat.seqE sat_now fun bump => ?_
    refine Sat.seqE (M := fun _ => Gone q) (Sat.ignore ?_) fun _ => ?_
    · refine Sat.of_silent ⟨silent_updateLastAccessed, fun r => ?_⟩ stable_gone
      cases r <;> trivial
    · exact Sat.ret stable_gone fun _ _ hp => ⟨hp, fun ht _ => hfact ht rfl⟩

/-! ## Deletions -/

/-- A deletion that still has to remove the entries of some tokens: if it is meant for the
session, the session's token is one of them, or its entry has been removed, or its row is gone. -/
def Aimed (s : UserSession) (tid : Nat) (target : Prop) (tokens : List String) (a : View) : Prop :=
  ¬ a.ended tid ∧ (target → s.sessionToken ∈ tokens ∨ a.removed tid ∨ ¬ a.present)

variable {target : Prop} {tokens : List String}

theorem stable_aimed : (discipline env s).Stable tid (Aimed s tid target tokens) := by
  intro i hi a b _ _ hg hp
  obtain ⟨hr, he⟩ := hg.2 tid hi.symm
  refine ⟨fun h => hp.1 (he.mp h), fun ht => ?_⟩
  rcases hp.2 ht with h | h | h
  · exact .inl h
  · exact .inr (.inl (hr.mpr h))
  · exact .inr (.inr fun hb => h (hg.1 hb))

theorem stable_absent : (discipline env s).Stable tid fun a => target → ¬ a.present :=
  fun _ _ _ _ _ _ hg hp ht hb => hp ht (hg.1 hb)

/-- A `DEL` takes its token off the list. -/
theorem sat_del :
    (discipline env s).Sat (server env) (ordered env s) tid
      (tryRedis (.session (.del (env.sha256 token)))).run (Aimed s tid target (token :: tokens))
      (post (fun r a => Aimed s tid target tokens a ∧ ∃ x, r = .ok x) fun _ _ => True) := by
  refine Sat.perform stable_aimed (fun _ => stable_aimed.and (.const _))
    fun m ch r w hi hp ha he => ?_
  obtain ⟨hkeyed, hcached, hremoved⟩ := hi
  rcases World.exec_redis he with ⟨text, hf, -, -⟩ | ⟨-, rfl, rfl⟩
  · rw [show ch.fail = none from ha.1] at hf
    cases hf
  have hentry : ∀ e, (m.world.redis.sessions.erase (env.sha256 token)).entry
        (env.sha256 s.sessionToken) = some e →
      env.sha256 s.sessionToken ≠ env.sha256 token ∧
        m.world.redis.sessions.entry (env.sha256 s.sessionToken) = some e := by
    intro e hent
    rw [Expiring.entry_erase] at hent
    split at hent
    · cases hent
    · next hk => exact ⟨hk, hent⟩
  refine ⟨⟨hkeyed, ?_, ?_⟩, ⟨id, history_guar⟩, ⟨?_, ?_⟩, _, rfl⟩
  · rintro ⟨e, hent⟩
    exact hcached ⟨e, (hentry e hent).2⟩
  · rintro j hrem ⟨e, hent⟩
    obtain ⟨hk, hold⟩ := hentry e hent
    refine ended_after (hremoved j (removed_of_after ?_ hrem) ⟨e, hold⟩)
    simpa only [ne_eq, Op.redis.injEq, RedisCmd.session.injEq, Kv.del.injEq, eq_comm] using hk
  · exact fun h => hp.1 ((ended_after_self.mp h).resolve_left (by rintro ⟨⟩))
  · intro ht
    rcases hp.2 ht with hmem | hrem | habs
    · rcases List.mem_cons.mp hmem with rfl | hmem
      · exact .inr (.inl (removed_after_self.mpr (.inl rfl)))
      · exact .inl hmem
    · exact .inr (.inl (removed_after_self.mpr (.inr hrem)))
    · exact .inr (.inr habs)

theorem sat_invalidateAll :
    (discipline env s).Sat (server env) (ordered env s) tid
      (invalidateAll env tokens).run (Aimed s tid target tokens)
      (post (fun _ => Aimed s tid target []) fun _ _ => True) := by
  induction tokens with
  | nil => exact Sat.ret stable_aimed fun _ _ hp => hp
  | cons token tokens ih =>
    refine Sat.seqE sat_del fun r => ?_
    refine Sat.assume stable_aimed fun hr => ?_
    obtain ⟨x, rfl⟩ := hr
    exact ih

/-- The revocation between the two removals changes nothing the argument looks at, unless it
fails and stops the deletion. -/
theorem sat_revocation {st : Stmt} {p : RefreshToken → Bool} (hst : st.revocation? = some p) :
    (discipline env s).Sat (server env) (ordered env s) tid (stmt st).run
      (Aimed s tid target []) (post (fun _ => Aimed s tid target []) fun _ _ => True) := by
  refine Sat.sql stable_aimed (fun _ => stable_aimed) (fun _ => .const True)
    fun m ch r w hi hp _ he => ?_
  obtain ⟨hkeyed, hcached, hremoved⟩ := hi
  obtain ⟨hr, hcases⟩ := World.exec_stmt he
  have hsessions : w.pg.tables.sessions = m.world.pg.tables.sessions := by
    rcases hcases with ⟨-, hpg⟩ | hex
    · rw [hpg]
    · rw [(Stmt.exec_revocation hst hex).2.2]
  have hpresent : Present s w ↔ Present s m.world := by rw [Present, hsessions, Present]
  have hcache : (view env s (m.after tid (.sql (.stmt st)) r w)).cached ↔ (view env s m).cached := by
    simp only [view, Moment.after, hr]
  refine ⟨⟨?_, fun hc => hpresent.mpr (hcached (hcache.mp hc)), fun j hrem hc => ?_⟩,
    ⟨hpresent.mp, history_guar⟩, ?_⟩
  · change Keys s w.pg.tables.sessions
    rw [hsessions]
    exact hkeyed
  · exact ended_after (hremoved j (removed_of_after (by rintro ⟨⟩) hrem) (hcache.mp hc))
  · cases r with
    | error e => trivial
    | ok x =>
      have hends : endsDeletion ⟨tid, .sql (.stmt st), .ok x⟩ = false := by
        cases st <;> first | rfl | cases hst
      refine ⟨fun h => hp.1 ((ended_after_self.mp h).resolve_left (by simp [hends])), fun ht => ?_⟩
      rcases hp.2 ht with h | h | h
      · exact .inl h
      · exact .inr (.inl (removed_after_self.mpr (.inr h)))
      · exact .inr (.inr fun hb => h (hpresent.mp hb))

/-- The deletion of the row: it takes place while the entry is removed, so the session is gone
from both stores. -/
theorem sat_deletion {st : Stmt} (hst : st.deletion? = some p)
    (hp : ∀ x : UserSession, x.id = s.id → x.userId = s.userId → (p x = true ↔ target)) :
    (discipline env s).Sat (server env) (ordered env s) tid (stmt st).run
      (Aimed s tid target []) (post (fun _ a => target → ¬ a.present) fun _ _ => True) := by
  refine Sat.sql stable_aimed (fun _ => stable_absent) (fun _ => .const True)
    fun m ch r w hi hpre _ he => ?_
  obtain ⟨hkeyed, hcached, hremoved⟩ := hi
  obtain ⟨hr, hcases⟩ := World.exec_stmt he
  have hrows : ∀ x ∈ w.pg.tables.sessions, x ∈ m.world.pg.tables.sessions := by
    intro x hx
    rcases hcases with ⟨-, hpg⟩ | hex
    · rwa [hpg] at hx
    · rw [(Stmt.exec_deletion hst hex).2.2] at hx
      exact (Table.mem_delete.mp hx).1
  have hpresent : Present s w → Present s m.world := fun ⟨x, hx, hid⟩ => ⟨x, hrows x hx, hid⟩
  have hcache : (view env s (m.after tid (.sql (.stmt st)) r w)).cached ↔ (view env s m).cached := by
    simp only [view, Moment.after, hr]
  refine ⟨⟨fun x hx => hkeyed x (hrows x hx), fun hc => ?_, fun j hrem hc => ?_⟩,
    ⟨hpresent, history_guar⟩, ?_⟩
  · -- a cached session is not the target, so its row stays
    have hc' := hcache.mp hc
    obtain ⟨x, hx, hid⟩ := hcached hc'
    have hnot : ¬ target := by
      intro ht
      rcases hpre.2 ht with h | h | h
      · cases h
      · exact hpre.1 (hremoved tid h hc')
      · exact h ⟨x, hx, hid⟩
    refine ⟨x, ?_, hid⟩
    rcases hcases with ⟨-, hpg⟩ | hex
    · change x ∈ w.pg.tables.sessions
      rwa [hpg]
    · change x ∈ w.pg.tables.sessions
      rw [(Stmt.exec_deletion hst hex).2.2]
      refine Table.mem_delete.mpr ⟨hx, Bool.eq_false_iff.mpr fun hpx => ?_⟩
      exact hnot ((hp x hid (hkeyed x hx (.inl hid)).2.2).mp hpx)
  · exact ended_after (hremoved j (removed_of_after (by rintro ⟨⟩) hrem) (hcache.mp hc))
  · cases r with
    | error e => trivial
    | ok n =>
      rintro ht ⟨x, hx, hid⟩
      rcases hcases with ⟨⟨e, h⟩, -⟩ | hex
      · cases h
      · change x ∈ w.pg.tables.sessions at hx
        rw [(Stmt.exec_deletion hst hex).2.2] at hx
        obtain ⟨hold, hpx⟩ := Table.mem_delete.mp hx
        rw [(hp x hid (hkeyed x hold (.inl hid)).2.2).mpr ht] at hpx
        cases hpx

/-- The end of every deletion: revoke the refresh tokens, then delete the rows. -/
theorem sat_revokeAndDelete {st st' : Stmt} {p' : RefreshToken → Bool}
    (hst' : st'.revocation? = some p') (hst : st.deletion? = some p)
    (hp : ∀ x : UserSession, x.id = s.id → x.userId = s.userId → (p x = true ↔ target)) :
    (discipline env s).Sat (server env) (ordered env s) tid (stmt st' >>= fun _ => stmt st).run
      (Aimed s tid target []) (post (fun _ a => target → ¬ a.present) fun _ _ => True) :=
  Sat.seqE (sat_revocation hst') fun _ => sat_deletion hst hp

theorem stable_running : (discipline env s).Stable tid fun a => ¬ a.ended tid :=
  fun _ hi _ _ _ _ hg hp h => hp ((hg.2 tid hi.symm).2.mp h)

/-- The session's row, if it exists, is found by everything that selects it. -/
theorem mem_select_of_present {m : Instant}
    (hi : (discipline env s).inv ((discipline env s).view m))
    (hp : ∀ x : UserSession, x.id = s.id → x.userId = s.userId → p x = true) (h : Present s m.world)
    :
    ∃ x ∈ m.world.pg.tables.sessions.select p, x.id = s.id ∧ x.sessionToken = s.sessionToken := by
  obtain ⟨x, hx, hid⟩ := h
  obtain ⟨-, htok, huid⟩ := hi.1 x hx (.inl hid)
  exact ⟨x, Table.mem_select.mpr ⟨hx, hp x hid huid⟩, hid, htok⟩

theorem sat_delete {id : Uuid} :
    (discipline env s).Sat (server env) (ordered env s) tid
      (delete env id).run (fun a => ¬ a.ended tid)
      (post (fun _ a => id = s.id → ¬ a.present) fun _ _ => True) := by
  unfold delete
  have hmatch : ∀ x : UserSession, x.id = s.id → x.userId = s.userId →
      ((x.id == id) = true ↔ id = s.id) := by
    intro x hid _
    rw [beq_iff_eq, hid, eq_comm]
  refine Sat.seqE (M := fun token => Aimed s tid (id = s.id) token.toList) ?_ fun token => ?_
  · refine Sat.query (silent_of_reading rfl) stable_running (fun _ => stable_aimed)
      (fun _ => .const True) (fun m hi hp => ⟨hp, ?_⟩) fun _ _ _ _ => trivial
    rintro rfl
    by_cases hpres : Present s m.world
    · obtain ⟨x, hx, hid, htok⟩ := mem_select_of_present hi (p := fun x => x.id == s.id)
        (fun x hid _ => beq_iff_eq.mpr hid) hpres
      have hfind : m.world.pg.tables.sessions.find? (fun x => x.id == s.id) = some x := by
        refine (Table.find?_eq_some fun a b ha hb => ?_).mpr (Table.mem_select.mp hx)
        simp [Keyed.clash, beq_iff_eq.mp ha, beq_iff_eq.mp hb]
      left
      simp [Query.exec, hfind, htok]
    · exact .inr (.inr hpres)
  · cases token with
    | none => exact sat_revokeAndDelete rfl rfl hmatch
    | some token =>
      refine Sat.seqE (M := fun _ => Aimed s tid (id = s.id) []) ?_ fun _ =>
        sat_revokeAndDelete rfl rfl hmatch
      refine Sat.seqE sat_del fun r => Sat.assume stable_aimed fun hr => ?_
      obtain ⟨x, rfl⟩ := hr
      exact Sat.ret stable_aimed fun _ _ hp => hp

theorem sat_deleteAllByUserId {uid : Uuid} :
    (discipline env s).Sat (server env) (ordered env s) tid
      (deleteAllByUserId env uid).run (fun a => ¬ a.ended tid)
      (post (fun _ a => uid = s.userId → ¬ a.present) fun _ _ => True) := by
  unfold deleteAllByUserId
  have hmatch : ∀ x : UserSession, x.id = s.id → x.userId = s.userId →
      ((x.userId == uid) = true ↔ uid = s.userId) := by
    intro x _ huid
    rw [beq_iff_eq, huid, eq_comm]
  refine Sat.seqE (M := fun tokens => Aimed s tid (uid = s.userId) tokens) ?_ fun tokens => ?_
  rotate_left
  · refine Sat.seqE sat_invalidateAll fun failed => ?_
    split
    · exact Sat.raise stable_aimed fun _ _ _ => trivial
    · exact sat_revokeAndDelete rfl rfl hmatch
  refine Sat.query (silent_of_reading rfl) stable_running (fun _ => stable_aimed)
    (fun _ => .const True) (fun m hi hp => ⟨hp, ?_⟩) fun _ _ _ _ => trivial
  rintro rfl
  by_cases hpres : Present s m.world
  · obtain ⟨x, hx, -, htok⟩ := mem_select_of_present hi (p := fun x => x.userId == s.userId)
      (fun x _ huid => beq_iff_eq.mpr huid) hpres
    exact .inl (List.mem_map.mpr ⟨x, hx, htok⟩)
  · exact .inr (.inr hpres)

theorem sat_deleteAllByUserIdExcept {uid keep : Uuid} :
    (discipline env s).Sat (server env) (ordered env s) tid
      (deleteAllByUserIdExcept env uid keep).run (fun a => ¬ a.ended tid)
      (post (fun _ a => uid = s.userId ∧ keep ≠ s.id → ¬ a.present) fun _ _ => True) := by
  unfold deleteAllByUserIdExcept
  have hmatch : ∀ x : UserSession, x.id = s.id → x.userId = s.userId →
      ((x.userId == uid && x.id != keep) = true ↔ uid = s.userId ∧ keep ≠ s.id) := by
    intro x hid huid
    rw [hid, huid, Bool.and_eq_true, beq_iff_eq, bne_iff_ne, ne_comm, @eq_comm _ s.userId]
  refine Sat.seqE (M := fun rows : List (Uuid × String) =>
      Aimed s tid (uid = s.userId ∧ keep ≠ s.id) (rows.map Prod.snd)) ?_ fun rows => ?_
  rotate_left
  · refine Sat.seqE sat_invalidateAll fun failed => ?_
    split
    · exact Sat.raise stable_aimed fun _ _ _ => trivial
    · exact sat_revokeAndDelete rfl rfl hmatch
  refine Sat.query (silent_of_reading rfl) stable_running (fun _ => stable_aimed)
    (fun _ => .const True) (fun m hi hp => ⟨hp, fun ht => ?_⟩) fun _ _ _ _ => trivial
  by_cases hpres : Present s m.world
  · obtain ⟨x, hx, -, htok⟩ := mem_select_of_present hi
      (fun x hid huid => (hmatch x hid huid).mpr ht) hpres
    refine .inl (List.mem_map.mpr ⟨(x.id, x.sessionToken), ?_, htok⟩)
    exact List.mem_map.mpr ⟨x, hx, rfl⟩
  · exact .inr (.inr hpres)

/-! ## Whole runs -/

/-- A lookup that started without the row does not find the session; a deletion that returned
`Ok` leaves its target without a row. -/
def spec (s : UserSession) : (call : Call) → Nat → Instant → Ret call → View → Prop
  | .findActiveSession token, _, m, a, _ =>
    token = s.sessionToken → ¬ Present s m.world → ∀ hit, a ≠ .ok (some hit)
  | call, _, _, a, v => targets s call = true → ∀ n, a = .ok n → ¬ v.present

theorem meets : Meets (discipline env s) (server env) (ordered env s) (spec s) := by
  intro call hc tid m hi hfresh
  have hrunning : ¬ Ended m tid := fun ⟨e, he, hj, _⟩ => absurd (hfresh e he) (by omega)
  rw [server_program]
  cases call with
  | findByToken token =>
    exact ⟨Gone False, False.elim, sat_findByToken.weaken fun _ _ _ _ ht => by cases ht⟩
  | findActiveSession token =>
    refine ⟨Gone (¬ Present s m.world), id, sat_findActiveSession.weaken fun x a _ hx => ?_⟩
    rintro rfl hgone hit rfl
    exact hx.2 rfl rfl hgone
  | deleteSession id =>
    refine ⟨fun a => ¬ a.ended tid, hrunning, sat_delete.weaken fun x a _ hx => ?_⟩
    rintro ht n rfl
    exact hx (beq_iff_eq.mp ht)
  | deleteAllByUserId uid =>
    refine ⟨fun a => ¬ a.ended tid, hrunning, sat_deleteAllByUserId.weaken fun x a _ hx => ?_⟩
    rintro ht n rfl
    exact hx (beq_iff_eq.mp ht)
  | deleteAllByUserIdExcept uid keep =>
    refine ⟨fun a => ¬ a.ended tid, hrunning,
      sat_deleteAllByUserIdExcept.weaken fun x a _ hx => ?_⟩
    rintro ht n rfl
    exact hx (by simpa [targets] using ht)
  | _ => cases hc

/-- The session is gone for good once its row is. -/
theorem absent_of_run {c c' : State}
    (hs : Sound (discipline env s) (server env) (ordered env s) (spec s) c)
    (run : Run (server env) (ordered env s) c c') (h : ¬ Present s c.moment.world) :
    ¬ Present s c'.moment.world :=
  hs.preserves meets run (J := fun a => ¬ a.present)
    (fun _ _ ⟨_, _, _, hg⟩ ha hb => ha (hg.1 hb)) h

end Proof

/-- A deletion is final in every run in which no cache entry of the session is written after its
row is gone or while a deletion has removed the entry but not yet the row. -/
theorem final_of_ordered (env : Env) (s : UserSession) : Final env s (ordered env s) := by
  intro w hs c₁ c₂ c₃ run₁ killer call n ht hkilled run₂ _ run₃ reader call' a hlen hreader
  have hstart : Sound (discipline env s) (server env) (ordered env s) (spec s)
      (Config.start w) := by
    refine Sound.start ⟨fun x hx hor => ?_, fun _ => ⟨s, hs, rfl⟩, ?_⟩
    · have heq : x = s := Table.eq_of_clash hx hs (by simpa [Keyed.clash] using hor)
      exact ⟨heq ▸ rfl, heq ▸ rfl, heq ▸ rfl⟩
    · rintro j ⟨e, he, -⟩
      cases he
  have hsound₁ := (hstart.run meets run₁).1
  have habsent₁ : ¬ Present s c₁.moment.world := by
    obtain ⟨born, hthread⟩ := hkilled
    have hspec := hsound₁.answered hthread
    cases call with
    | deleteSession | deleteAllByUserId | deleteAllByUserIdExcept => exact hspec ht n rfl
    | _ => cases ht
  obtain ⟨born, hthread⟩ := hreader
  rcases run₃.born_between hthread with ⟨t₀, ht₀, -⟩ | ⟨c', run₂', run₃', hborn, -⟩
  · have := (List.getElem?_eq_some_iff.mp ht₀).1
    omega
  · -- the lookup arrived when the row was gone
    have habsent : ¬ Present s c'.moment.world :=
      absent_of_run hsound₁ (run₂.trans run₂') habsent₁
    have hspec := (hsound₁.run meets (run₂.trans run₃)).1.answered hthread
    simp only at hborn
    subst hborn
    unfold accepts
    split
    · next token hit =>
      exact Bool.eq_false_iff.mpr fun hacc => hspec (beq_iff_eq.mp hacc) habsent hit rfl
    · rfl

section Counterexample

open Scenario

/-- A lookup reads the row, and a deletion runs from start to end. -/
def staleRead : List (Label Call Choice) :=
  [.spawn (.findByToken "session-a")] ++ steps 0 3 ++
    [.spawn (.deleteSession 2)] ++ steps 1 4

/-- The lookup writes what it has read to the cache, and a later lookup accepts the deleted
session. -/
theorem not_final : ¬ Final Scenario.env Scenario.session available := by
  intro hfinal
  have hplay : (Config.start (world tables) : State).reaches (server Scenario.env) family succeeds
      staleRead (fun c₁ =>
        c₁.replied 1 (fun call a => targets session call && Except.isOk a) &&
        c₁.reaches (server Scenario.env) family succeeds (steps 0 1) fun c₂ =>
          c₂.settled && decide (c₂.threads.length ≤ 2) &&
          c₂.reaches (server Scenario.env) family succeeds
            ([.spawn (.findActiveSession "session-a")] ++ steps 2 4) fun c₃ =>
              c₃.replied 2 (accepts "session-a")) = true := by
    decide +kernel
  have hrun : ∀ {c : State} {ls test}, c.reaches (server Scenario.env) family succeeds ls test =
      true → ∃ c', Run (server Scenario.env) available c c' ∧ test c' = true :=
    Config.run_of_reaches (fun _ h => h) fun _ _ _ _ h => redisUp_of_succeeds h
  obtain ⟨c₁, run₁, h₁⟩ := hrun hplay
  obtain ⟨hkilled, h₁⟩ := Bool.and_eq_true_iff.mp h₁
  obtain ⟨c₂, run₂, h₂⟩ := hrun h₁
  obtain ⟨hsettled, h₂⟩ := Bool.and_eq_true_iff.mp h₂
  obtain ⟨hsettled, hlen⟩ := Bool.and_eq_true_iff.mp hsettled
  obtain ⟨c₃, run₃, h₃⟩ := hrun h₂
  obtain ⟨call, a, hanswered, ht⟩ := Config.answered_of_replied hkilled
  obtain ⟨htarget, hok⟩ := Bool.and_eq_true_iff.mp ht
  obtain ⟨reader, b, hreader, hacc⟩ := Config.answered_of_replied h₃
  cases a with
  | error e => cases hok
  | ok n =>
    have hmem : session ∈ (world tables).pg.tables.sessions := List.mem_singleton_self _
    have := hfinal (world tables) hmem c₁ c₂ c₃ run₁ 1 call n htarget hanswered run₂ hsettled run₃
      2 reader b (of_decide_eq_true hlen) hreader
    rw [show Scenario.session.sessionToken = "session-a" from rfl, hacc] at this
    cases this

end Counterexample

end Termination

end AuthServer
