import AuthServer.Concurrent.RelyGuarantee
import AuthServer.Concurrent.Replay
import AuthServer.Footprint
import AuthServer.Store.Effects

/-!
# Reasoning about handlers

What one command does to the world, and the rely-guarantee rules for the
combinators that handlers are written with.
-/

namespace AuthServer

open Concurrent Discipline Storage

/-! ## The effect of one command -/

namespace World

variable {env : Env} {tid : Nat} {ch : Choice} {w w' : World}

/-- A SQL statement either fails for an outside reason or is executed. -/
theorem exec_sql {s : Sql} {r : Except DbError s.Res}
    (h : exec env tid (.sql s) ch w = some (r, w')) :
    (∃ text, ch.fail = some text ∧ r = .error (.failure text) ∧
        w' = { w.elapse ch.elapse with pg := s.fail tid w.pg }) ∨
      (ch.fail = none ∧ ∃ pg, s.exec env tid (w.now + ch.elapse) w.pg = some (r, pg) ∧
        w' = { w.elapse ch.elapse with pg }) := by
  simp only [exec] at h
  cases hf : ch.fail with
  | some text =>
    rw [hf] at h
    cases h
    exact .inl ⟨text, rfl, rfl, rfl⟩
  | none =>
    rw [hf] at h
    obtain ⟨⟨r', pg⟩, he, hr⟩ := Option.map_eq_some_iff.mp h
    cases hr
    exact .inr ⟨rfl, pg, he, rfl⟩

/-- A Redis command either fails without effect or is executed. -/
theorem exec_redis {c : RedisCmd} {r : Except String c.Res}
    (h : exec env tid (.redis c) ch w = some (r, w')) :
    (∃ text, ch.fail = some text ∧ r = .error text ∧ w' = w.elapse ch.elapse) ∨
      (ch.fail = none ∧ r = .ok (c.exec (w.now + ch.elapse) w.redis).1 ∧
        w' = { w.elapse ch.elapse with redis := (c.exec (w.now + ch.elapse) w.redis).2 }) := by
  simp only [exec] at h
  cases hf : ch.fail with
  | some text =>
    rw [hf] at h
    cases h
    exact .inl ⟨text, rfl, rfl, rfl⟩
  | none =>
    rw [hf] at h
    cases h
    exact .inr ⟨rfl, rfl, rfl⟩

/-- A `SELECT` leaves the stores alone and returns what is stored, unless it fails. -/
theorem exec_query {q : Query} {r : Except DbError q.Res}
    (h : exec env tid (.sql (.query q)) ch w = some (r, w')) :
    w'.pg = w.pg ∧ w'.redis = w.redis ∧
      ((∃ e, r = .error e) ∨ r = .ok (q.exec env w.pg.tables)) := by
  rcases exec_sql h with ⟨text, -, rfl, rfl⟩ | ⟨-, pg, he, rfl⟩
  · exact ⟨rfl, rfl, .inl ⟨_, rfl⟩⟩
  · cases he
    exact ⟨rfl, rfl, .inr rfl⟩

/-- A statement on the pool leaves Redis alone; it fails without effect or is executed. -/
theorem exec_stmt {s : Stmt} {r : Except DbError s.Res}
    (h : exec env tid (.sql (.stmt s)) ch w = some (r, w')) :
    w'.redis = w.redis ∧
      (((∃ e, r = .error e) ∧ w'.pg = w.pg) ∨
        s.exec (w.now + ch.elapse) w.pg = some (r, w'.pg)) := by
  rcases exec_sql h with ⟨text, -, rfl, rfl⟩ | ⟨-, pg, he, rfl⟩
  · exact ⟨rfl, .inl ⟨⟨_, rfl⟩, rfl⟩⟩
  · exact ⟨rfl, .inr he⟩

/-- A statement of a transaction leaves Redis and the drawn ids alone; it fails, which aborts or
ends the transaction, or it is executed. -/
theorem exec_tx {s : TxStmt} {r : Except DbError s.Res}
    (h : exec env tid (.sql (.tx s)) ch w = some (r, w')) :
    w'.redis = w.redis ∧ w'.uuids = w.uuids ∧
      ((∃ e, r = .error e ∧ w'.pg = s.fail tid w.pg) ∨ s.exec tid w.pg = some (r, w'.pg)) := by
  rcases exec_sql h with ⟨text, -, rfl, rfl⟩ | ⟨-, pg, he, rfl⟩
  · exact ⟨rfl, rfl, .inl ⟨_, rfl, rfl⟩⟩
  · exact ⟨rfl, rfl, .inr he⟩

end World

/-- Commands that read, draw or look at the clock, and those of the client cache: they change
neither the tables nor a Redis namespace that carries a security decision. -/
def Op.reading : Op → Bool
  | .sql (.query _) => true
  | .sql (.stmt _) | .sql (.tx _) => false
  | .redis (.client _) => true
  | .redis (.session (.get _)) | .redis (.authCode (.get _)) | .redis (.pending (.get _))
  | .redis (.userCode (.get _)) | .redis (.device (.hgetall _))
  | .redis (.device (.exists _)) => true
  | .redis (.session _) | .redis (.authCode _) | .redis (.pending _) | .redis (.userCode _)
  | .redis (.device _) | .redis (.counter _) => false
  | .now | .newUuid | .urlSafe _ | .userCode | .salt | .jitteredTtl _ | .activeKid => true

variable {op : Op} {env : Env} {tid : Nat} {ch : Choice} {w w' : World}

/-- The commands of reading handlers. -/
theorem reading_of_within (h : Within [.read] op) : op.reading = true := by
  have hkind : op.kind = .read := List.mem_singleton.mp (List.contains_iff_mem.mp h)
  unfold Op.kind at hkind
  split at hkind
  · rfl
  · next st =>
    unfold Stmt.kind at hkind
    split at hkind
    all_goals cases hkind
  · cases hkind
  · next c =>
    unfold RedisCmd.kind at hkind
    split at hkind
    all_goals first | rfl | cases hkind
  all_goals rfl

theorem World.exec_reading {r : Res op} (ho : op.reading = true)
    (h : World.exec env tid op ch w = some (r, w')) :
    w'.pg = w.pg ∧ w'.redis = { w.redis with clients := w'.redis.clients } := by
  cases op with
  | sql s =>
    cases s with
    | query q =>
      obtain ⟨hpg, hr, -⟩ := exec_query h
      exact ⟨hpg, by rw [hr]⟩
    | stmt s => cases ho
    | tx s => cases ho
  | redis c =>
    rcases exec_redis h with ⟨text, -, -, rfl⟩ | ⟨-, -, rfl⟩
    · exact ⟨rfl, rfl⟩
    · cases c with
      | client c => exact ⟨rfl, rfl⟩
      | session c => cases c <;> first | exact ⟨rfl, rfl⟩ | cases ho
      | authCode c => cases c <;> first | exact ⟨rfl, rfl⟩ | cases ho
      | pending c => cases c <;> first | exact ⟨rfl, rfl⟩ | cases ho
      | userCode c => cases c <;> first | exact ⟨rfl, rfl⟩ | cases ho
      | device c => cases c <;> first | exact ⟨rfl, rfl⟩ | cases ho
      | counter c => cases ho
  | now | activeKid | salt =>
    cases h
    exact ⟨rfl, rfl⟩
  | newUuid | urlSafe _ | userCode | jitteredTtl _ =>
    simp only [exec] at h
    split at h
    all_goals cases h
    all_goals exact ⟨rfl, rfl⟩

/-- Time passes as the environment decides. -/
theorem World.now_exec {r : Res op} (h : World.exec env tid op ch w = some (r, w'))
    : w'.now = w.now + ch.elapse := by
  cases op with
  | redis c =>
    rcases exec_redis h with ⟨text, -, -, rfl⟩ | ⟨-, -, rfl⟩
    · rfl
    · rfl
  | sql s =>
    rcases exec_sql h with ⟨text, -, -, rfl⟩ | ⟨-, pg, -, rfl⟩
    · rfl
    · rfl
  | now | activeKid | salt =>
    cases h
    rfl
  | newUuid | urlSafe _ | userCode | jitteredTtl _ =>
    simp only [exec] at h
    split at h
    all_goals cases h
    all_goals rfl

/-- Redis changes only by a Redis command that succeeds. -/
theorem World.redis_exec {r : Res op} (h : World.exec env tid op ch w = some (r, w')) :
    w'.redis = w.redis ∨ ∃ c, op = .redis c ∧ ch.fail = none ∧
      w'.redis = (c.exec (w.now + ch.elapse) w.redis).2 := by
  cases op with
  | redis c =>
    rcases exec_redis h with ⟨text, -, -, rfl⟩ | ⟨hf, -, rfl⟩
    · exact .inl rfl
    · exact .inr ⟨c, rfl, hf, rfl⟩
  | sql s =>
    rcases exec_sql h with ⟨text, -, -, rfl⟩ | ⟨-, pg, -, rfl⟩
    · exact .inl rfl
    · exact .inl rfl
  | now | activeKid | salt =>
    cases h
    exact .inl rfl
  | newUuid | urlSafe _ | userCode | jitteredTtl _ =>
    simp only [exec] at h
    split at h
    all_goals cases h
    all_goals exact .inl rfl

/-- Device authorizations change only by their own commands. -/
theorem World.devices_exec {r : Res op} (h : World.exec env tid op ch w = some (r, w'))
    (hop : ∀ c, op ≠ .redis (.device c)) : w'.redis.devices = w.redis.devices := by
  rcases redis_exec h with hr | ⟨c, rfl, -, hr⟩
  · rw [hr]
  · cases c with
    | device c => exact absurd rfl (hop c)
    | _ => rw [hr]; rfl

/-- The fields of a device authorization are those that a write has just assigned, or they were there
before. -/
theorem World.device_entry_exec {r : Res op} (h : World.exec env tid op ch w = some (r, w'))
    {d : String} {e : Entry (Fields String String)} (he : w'.redis.devices.entry d = some e) :
    (∃ fields, (⟨op, r⟩ : Reply Res) =
        ⟨.redis (.device (.hset d fields)), (.ok () : Except String Unit)⟩ ∧
        e.value = ((w.redis.devices.get (w.now + ch.elapse) d).getD []).setAll fields) ∨
      ∃ e₀, w.redis.devices.entry d = some e₀ ∧ e.value = e₀.value := by
  by_cases hop : ∃ cmd, op = .redis (.device cmd)
  · obtain ⟨cmd, rfl⟩ := hop
    rcases exec_redis h with ⟨text, -, -, rfl⟩ | ⟨-, rfl, rfl⟩
    · exact .inr ⟨e, he, rfl⟩
    · rcases HashCmd.entry_exec he with ⟨fields, rfl, hv⟩ | ⟨-, hold⟩
      · exact .inl ⟨fields, rfl, hv⟩
      · exact .inr hold
  · rw [devices_exec h fun cmd hc => hop ⟨cmd, hc⟩] at he
    exact .inr ⟨e, he, rfl⟩

/-- What a request has been told since some configuration was executed since then. -/
theorem executed_later {R : Rules} {c c' : State} (run : Run (server env) R c c')
    (hfresh : c.moment.own tid = []) {x : Res op} (hx : (⟨op, x⟩ : Reply Res) ∈ c'.moment.own tid) :
    ∃ c₂ c₃ ch, Run (server env) R c c₂ ∧ Run (server env) R c₂ c₃ ∧ Run (server env) R c₃ c' ∧
      c₃.moment = c₂.moment.after tid op x c₃.moment.world ∧
      World.exec env tid op ch c₂.moment.world = some (x, c₃.moment.world) := by
  obtain ⟨⟨j, op', x'⟩, hevent, rfl, hreply⟩ := Moment.mem_own.mp hx
  cases hreply
  rcases run.executed hevent with hearly | ⟨c₂, t, k, ch, w, run₂, ht, hp, hal, hexec, run₃⟩
  · have hmem := Moment.mem_own.mpr ⟨_, hearly, rfl, rfl⟩
    rw [hfresh] at hmem
    cases hmem
  · exact ⟨c₂, _, ch, run₂, .step (.refl c₂) ht hp hal hexec, run₃, rfl, hexec⟩

/-- The reply of a Redis command is what the command found when it was executed. -/
theorem redis_reply {R : Rules} {w₀ : World} {c : State}
    (run : Run (server env) R (Config.start w₀) c) {cmd : RedisCmd} {x : cmd.Res}
    (h : (⟨.redis cmd, (.ok x : Except String cmd.Res)⟩ : Reply Res) ∈ c.moment.own tid) :
    ∃ c₁ ch, Run (server env) R (Config.start w₀) c₁ ∧
      R.allows c₁.moment tid (.redis cmd) ch ∧ ch.fail = none ∧
      x = (cmd.exec (c₁.moment.world.now + ch.elapse) c₁.moment.world.redis).1 := by
  obtain ⟨c₁, t, k, ch, w, run₁, -, -, hallows, hexec, -⟩ := run.executed_own h
  have hexec : World.exec env tid (.redis cmd) ch c₁.moment.world = some (.ok x, w) := hexec
  rcases World.exec_redis hexec with ⟨text, -, hr, -⟩ | ⟨hf, hr, -⟩
  · cases hr
  · exact ⟨c₁, ch, run₁, hallows, hf, Except.ok.inj hr⟩

/-- The reply of a `SELECT` is what the tables held when it was executed. -/
theorem query_reply {R : Rules} {w₀ : World} {c : State}
    (run : Run (server env) R (Config.start w₀) c) {q : Query} {x : q.Res}
    (h : (⟨.sql (.query q), (.ok x : Except DbError q.Res)⟩ : Reply Res) ∈ c.moment.own tid) :
    ∃ c₁, Run (server env) R (Config.start w₀) c₁ ∧ x = q.exec env c₁.moment.world.pg.tables := by
  obtain ⟨c₁, t, k, ch, w, run₁, -, -, -, hexec, -⟩ := run.executed_own h
  have hexec : World.exec env tid (.sql (.query q)) ch c₁.moment.world = some (.ok x, w) := hexec
  obtain ⟨-, -, ⟨e, hr⟩ | hr⟩ := World.exec_query hexec
  · cases hr
  · exact ⟨c₁, run₁, Except.ok.inj hr⟩

/-! ## Rules for handlers -/

section Rules

variable {A α β : Type} {D : Discipline Res World A} {env : Env} {R : Rules} {tid : Nat}
variable {P : A → Prop} {E : Failure → A → Prop}

/-- A single command, with stable postconditions. -/
theorem Sat.perform {op : Op} {Q : Res op → A → Prop} (hs : D.Stable tid P)
    (hq : ∀ r, D.Stable tid (Q r))
    (h : ∀ m ch r w, D.inv (D.view m) → P (D.view m) → R.allows m tid op ch →
      World.exec env tid op ch m.world = some (r, w) →
      D.inv (D.view (m.after tid op r w)) ∧ D.guar tid (D.view m) (D.view (m.after tid op r w)) ∧
        Q r (D.view (m.after tid op r w))) :
    D.Sat (server env) R tid (Handler.perform op).run P (post Q E) := by
  refine Sat.call hs fun m ch r w hi hp ha he => ?_
  obtain ⟨hi', hg, hq'⟩ := h m ch r w hi hp ha he
  exact ⟨hi', hg, Q r, hq', Sat.pure (hq r) fun _ _ hx => hx⟩

/-- A command that is not visible in the abstraction: only its reply matters. -/
theorem Sat.read {op : Op} {Q : Res op → A → Prop} (ho : D.Silent (server env) R tid op)
    (hs : D.Stable tid P) (hq : ∀ r, D.Stable tid (Q r))
    (h : ∀ m ch r w, D.inv (D.view m) → P (D.view m) → R.allows m tid op ch →
      World.exec env tid op ch m.world = some (r, w) → Q r (D.view m)) :
    D.Sat (server env) R tid (Handler.perform op).run P (post Q E) := by
  refine Sat.perform hs hq fun m ch r w hi hp ha he => ?_
  rw [ho m ch r w hi ha he]
  exact ⟨hi, D.guar_refl _ _ hi, h m ch r w hi hp ha he⟩

/-- A SQL statement whose failure is propagated. -/
theorem Sat.sql {s : Sql} {Q : s.Res → A → Prop} (hs : D.Stable tid P)
    (hq : ∀ x, D.Stable tid (Q x)) (he : ∀ e, D.Stable tid (E (.db e)))
    (h : ∀ m ch (r : Except DbError s.Res) w, D.inv (D.view m) → P (D.view m) →
      R.allows m tid (.sql s) ch → World.exec env tid (.sql s) ch m.world = some (r, w) →
      D.inv (D.view (m.after tid (.sql s) r w)) ∧
        D.guar tid (D.view m) (D.view (m.after tid (.sql s) r w)) ∧
        post Q (fun e => E (.db e)) r (D.view (m.after tid (.sql s) r w))) :
    D.Sat (server env) R tid (Handler.sql s).run P (post Q E) := by
  have hstable : ∀ r : Except DbError s.Res, D.Stable tid (post Q (fun e => E (.db e)) r) := by
    intro r
    cases r with
    | ok x => exact hq x
    | error e => exact he e
  refine Sat.seqE (M := fun r : Except DbError s.Res => post Q (fun e => E (.db e)) r)
    (Sat.perform hs hstable h) fun r => ?_
  cases r with
  | ok x => exact Sat.pure (hq x) fun _ _ hx => hx
  | error e => exact Sat.pure (he e) fun _ _ hx => hx

/-- A `SELECT` returns what is stored. -/
theorem Sat.query {q : Query} {Q : q.Res → A → Prop}
    (ho : D.Silent (server env) R tid (.sql (.query q))) (hs : D.Stable tid P)
    (hq : ∀ x, D.Stable tid (Q x)) (he : ∀ e, D.Stable tid (E (.db e)))
    (hok : ∀ m, D.inv (D.view m) → P (D.view m) → Q (q.exec env m.world.pg.tables) (D.view m))
    (herr : ∀ e a, D.inv a → P a → E (.db e) a) :
    D.Sat (server env) R tid (Handler.query q).run P (post Q E) := by
  refine Sat.sql hs hq he fun m ch r w hi hp ha hx => ?_
  rw [ho m ch r w hi ha hx]
  refine ⟨hi, D.guar_refl _ _ hi, ?_⟩
  obtain ⟨-, -, ⟨e, rfl⟩ | rfl⟩ := World.exec_query hx
  · exact herr e _ hi hp
  · exact hok m hi hp

variable {Q : α → A → Prop} {h : Handler α}

theorem Sat.ret {x : α} (hs : D.Stable tid P) (hq : ∀ a, D.inv a → P a → Q x a) :
    D.Sat (server env) R tid (Pure.pure x : Handler α).run P (post Q E) := Sat.pure hs hq

theorem Sat.raise {e : Failure} (hs : D.Stable tid P) (hq : ∀ a, D.inv a → P a → E e a) :
    D.Sat (server env) R tid (throw e : Handler α).run P (post Q E) := Sat.pure hs hq

/-- A handler whose outcome is dropped. -/
theorem Sat.ignore {Q : Unit → A → Prop} (hh : D.Sat (server env) R tid h.run P fun _ => Q ()) :
    D.Sat (server env) R tid (Handler.ignore h).run P (post Q E) :=
  Sat.bind hh fun _ _ hs hi => Sat.pure hs hi

/-- A handler whose outcome becomes a value. -/
theorem Sat.attempt {Q : Except Failure α → A → Prop} (hh : D.Sat (server env) R tid h.run P Q) :
    D.Sat (server env) R tid (Handler.attempt h).run P (post Q E) :=
  Sat.bind hh fun _ _ hs hi => Sat.pure hs hi

/-- A transaction: its body is run between `BEGIN` and the way it ends. -/
theorem Sat.transaction {body : Handler (Handler.TxEnd α)} {P₁ : A → Prop}
    {M : Handler.TxEnd α → A → Prop} {F : Failure → A → Prop}
    (hbegin : D.Sat (server env) R tid (Handler.tx .begin).run P (post (fun _ => P₁) E))
    (hbody : D.Sat (server env) R tid body.run P₁ (post M F))
    (hcommit : ∀ a, D.Sat (server env) R tid (Handler.tx .commit).run (M (.commit a))
      (post (fun _ => Q a) E))
    (hdrop : ∀ a, D.Sat (server env) R tid (Handler.trySql (.tx .rollback)).run (M (.drop a))
      (post (fun _ => Q a) E))
    (hfail : ∀ e, D.Sat (server env) R tid (Handler.trySql (.tx .rollback)).run (F e)
      (post (fun _ => E e) E)) :
    D.Sat (server env) R tid (Handler.transaction body).run P (post Q E) := by
  refine Sat.seqE hbegin fun _ => Sat.seqE (Sat.attempt hbody) fun r => ?_
  match r with
  | .ok (.commit a) =>
    exact Sat.bind (hcommit a) fun x _ hs hi => by
      cases x with
      | ok _ => exact Sat.pure hs hi
      | error _ => exact Sat.pure hs hi
  | .ok (.drop a) =>
    exact Sat.bind (hdrop a) fun x _ hs hi => by
      cases x with
      | ok _ => exact Sat.pure hs hi
      | error _ => exact Sat.pure hs hi
  | .error e =>
    exact Sat.bind (hfail e) fun x _ hs hi => by
      cases x with
      | ok _ => exact Sat.pure hs hi
      | error _ => exact Sat.pure hs hi

/-- A handler all of whose commands are silent keeps every stable assertion. -/
theorem Sat.quiet (hu : h.run.Uses (D.Silent (server env) R tid)) (hs : D.Stable tid P)
    (hE : ∀ e a, D.inv a → P a → E e a) :
    D.Sat (server env) R tid h.run P (post (fun _ => P) E) := by
  refine (Sat.of_silent hu hs).weaken fun x a hi hp => ?_
  cases x with
  | ok x => exact hp
  | error e => exact hE e a hi hp

end Rules

end AuthServer
