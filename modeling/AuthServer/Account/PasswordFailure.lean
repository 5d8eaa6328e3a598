import AuthServer.Account.ResetVoid
import AuthServer.Failures

/-!
# Password changes that fail half-way

A reset and a change of the password write the credential, the reset tokens and the sessions of the
user one after the other, without a transaction, and report a failure of any of these commands. Up
to the credential nothing has been written when they fail; behind it the new password is in force
although the request has failed.
-/

namespace AuthServer

open Concurrent Handler Storage SessionRepository

/-- The commands of the password flows at which a store can fail, in the order of the source. -/
inductive PasswordStep where
  | findToken
  | findUser
  | findCredential
  | writeCredential
  | markConsumed
  | consumeSiblings
  | listSessions
  | uncacheSession
  | revokeTokens
  | deleteSessions
  deriving DecidableEq

namespace PasswordStep

/-- The step a command belongs to. -/
def of : Op → Option PasswordStep
  | .sql (.query (.passwordResetByHash _)) => some .findToken
  | .sql (.query (.userById _)) => some .findUser
  | .sql (.query (.credentialByUserAndType _ _)) => some .findCredential
  | .sql (.stmt (.updateCredential _)) | .sql (.stmt (.insertCredential _)) => some .writeCredential
  | .sql (.stmt (.markConsumed _)) => some .markConsumed
  | .sql (.stmt (.consumeSiblingTokens _ _)) => some .consumeSiblings
  | .sql (.query (.sessionTokensByUser _))
  | .sql (.query (.sessionTokensByUserExcept _ _)) => some .listSessions
  | .redis (.session (.del _)) => some .uncacheSession
  | .sql (.stmt (.revokeByUser _)) | .sql (.stmt (.revokeByUserExcept _ _)) => some .revokeTokens
  | .sql (.stmt (.deleteSessionsByUser _))
  | .sql (.stmt (.deleteSessionsByUserExcept _ _)) => some .deleteSessions
  | _ => none

/-- The steps up to the write of the credential. -/
def early : PasswordStep → Bool
  | .findToken | .findUser | .findCredential | .writeCredential => true
  | _ => false

end PasswordStep

namespace PasswordFailure

/-- The stores may fail at some steps. -/
def failingAt (env : Env) (F : PasswordStep → Prop) : Rules :=
  failingOnly env fun _ _ op => ∃ p, PasswordStep.of op = some p ∧ F p

/-- Credentials, reset tokens and sessions are as before, in Postgres and in the cache. -/
structure Unchanged (w w' : World) : Prop where
  credentials : w'.pg.tables.credentials = w.pg.tables.credentials
  resets : w'.pg.tables.passwordResets = w.pg.tables.passwordResets
  sessions : w'.pg.tables.sessions = w.pg.tables.sessions
  cache : w'.redis.sessions = w.redis.sessions

/-- A reset or a change of the password that ends with a propagated error has changed nothing,
wherever among the given steps the stores fail. -/
structure FailsCleanly (env : Env) (F : PasswordStep → Prop) : Prop where
  reset : ∀ tid m m' token password e, Alone (server env) (failingAt env F) tid
    (PasswordFlow.consumeReset env token password).run m (.error e) m' →
    Unchanged m.world m'.world
  change : ∀ tid m m' userId sessionId old new e, Alone (server env) (failingAt env F) tid
    (PasswordFlow.changePassword env userId sessionId old new).run m (.error e) m' →
    Unchanged m.world m'.world

section Proof

variable {env : Env} {F : PasswordStep → Prop} {R : Rules} {tid : Nat} {m m' : Instant}

theorem unchanged_of_stores (hpg : m'.world.pg.tables = m.world.pg.tables)
    (hredis : m'.world.redis = m.world.redis) : Unchanged m.world m'.world :=
  ⟨congrArg _ hpg, congrArg _ hpg, congrArg _ hpg, congrArg _ hredis⟩

theorem Unchanged.trans {w w₁ w₂ : World} (h₁ : Unchanged w w₁) (h₂ : Unchanged w₁ w₂) :
    Unchanged w w₂ :=
  ⟨h₂.credentials.trans h₁.credentials, h₂.resets.trans h₁.resets, h₂.sessions.trans h₁.sessions,
    h₂.cache.trans h₁.cache⟩

/-! ## Up to the credential -/

/-- Queries, draws and the clock change nothing. -/
theorem unchanged_of_reading {α : Type} {h : Handler α} {y : Except Failure α}
    (hu : h.Uses fun op => op.reading = true) (ha : Alone (server env) R tid h.run m y m') :
    Unchanged m.world m'.world := by
  obtain ⟨hpg, hcache⟩ := alone_reading hu ha
  exact ⟨congrArg (·.tables.credentials) hpg, congrArg (·.tables.passwordResets) hpg,
    congrArg (·.tables.sessions) hpg, hcache⟩

variable {e : Failure}

/-- A statement on the pool that fails changes nothing. -/
theorem unchanged_of_failed {st : Stmt}
    (ha : Alone (server env) R tid (stmt st).run m (.error e) m') : Unchanged m.world m'.world := by
  obtain ⟨hredis, ⟨-, hpg⟩ | ⟨x, at_, hx, -⟩⟩ := alone_stmt_cases ha
  · exact unchanged_of_stores hpg hredis
  · cases hx

/-- The credential is the last thing the replacement of a password writes. -/
theorem unchanged_of_rotatePassword {userId : Uuid} {password : String}
    (ha : Alone (server env) R tid (PasswordFlow.rotatePassword env userId password).run m
      (.error e) m') : Unchanged m.world m'.world := by
  unfold PasswordFlow.rotatePassword at ha
  rcases ha.bindE with ⟨e', -, hstop⟩ | ⟨salt, m₁, hsalt, ha⟩
  · exact unchanged_of_reading (uses_perform rfl) hstop
  refine (unchanged_of_reading (uses_perform rfl) hsalt).trans ?_
  rcases ha.bindE with ⟨e', -, hstop⟩ | ⟨at_, m₂, hnow, ha⟩
  · exact unchanged_of_reading (uses_now rfl) hstop
  refine (unchanged_of_reading (uses_now rfl) hnow).trans ?_
  rcases ha.bindE with ⟨e', -, hstop⟩ | ⟨found, m₃, hquery, ha⟩
  · exact unchanged_of_reading (uses_query rfl) hstop
  refine (unchanged_of_reading (uses_query rfl) hquery).trans ?_
  cases found with
  | some c =>
    rcases ha.bindE with ⟨e', -, hstop⟩ | ⟨x, m₄, -, ha⟩
    · exact unchanged_of_failed hstop
    · cases ha.ret.1
  | none =>
    rcases ha.bindE with ⟨e', -, hstop⟩ | ⟨id', m₄, hid, ha⟩
    · exact unchanged_of_reading (uses_newUuid rfl) hstop
    · exact (unchanged_of_reading (uses_newUuid rfl) hid).trans (unchanged_of_failed ha)

/-! ## Behind the credential -/

/-- Where `F` has only steps up to the credential, no later command fails. -/
theorem not_failing (hF : ∀ p, F p → p.early = true) {op : Op} {p : PasswordStep}
    (hop : PasswordStep.of op = some p) (hp : p.early = false) :
    ¬ ∃ p, PasswordStep.of op = some p ∧ F p := by
  rintro ⟨p', hop', hF'⟩
  cases hop.symm.trans hop'
  rw [hF p hF'] at hp
  cases hp

/-- The end of a handler that fails at the steps of `F` only. -/
abbrev Ends (env : Env) (F : PasswordStep → Prop) {α : Type} (h : Handler α) (P : α → Prop) : Prop :=
  Completes env (fun _ _ op => ∃ p, PasswordStep.of op = some p ∧ F p) (fun _ _ => True) h P

theorem ends_sql (hF : ∀ p, F p → p.early = true) {s : Sql} {p : PasswordStep}
    (hop : PasswordStep.of (.sql s) = some p) (hp : p.early = false) :
    Ends env F (sql s) fun _ => True :=
  completes_sql fun _ _ _ => not_failing hF hop hp

theorem ends_bind {α β : Type} {P : α → Prop} {Q : β → Prop} {h : Handler α} {f : α → Handler β}
    (hh : Ends env F h P) (hf : ∀ x, P x → Ends env F (f x) Q) : Ends env F (h >>= f) Q :=
  completes_bind (fun _ _ _ _ _ => id) hh hf

theorem ends_invalidateAll (hF : ∀ p, F p → p.early = true) (tokens : List String) :
    Ends env F (invalidateAll env tokens) fun failed => failed = 0 := by
  induction tokens with
  | nil => exact completes_pure rfl
  | cons token tokens ih =>
    refine ends_bind (completes_tryRedis fun _ _ _ =>
      not_failing hF (p := .uncacheSession) rfl rfl) ?_
    rintro _ ⟨x, rfl⟩
    exact ih

/-- The sessions are ended by a query, the invalidation of the cache and two statements. -/
theorem ends_deletion (hF : ∀ p, F p → p.early = true) (q : Query) (st st' : Stmt)
    {text : Nat → String} {tokens : q.Res → List String} (hq : PasswordStep.of (.sql (.query q)) = some .listSessions)
    (hst : PasswordStep.of (.sql (.stmt st)) = some .revokeTokens)
    (hst' : PasswordStep.of (.sql (.stmt st')) = some .deleteSessions) :
    Ends env F (do
      let rows ← query q
      let failed ← invalidateAll env (tokens rows)
      if 0 < failed then throw (.redisUnavailable (text failed))
      let _ ← stmt st
      stmt st') fun _ => True := by
  refine ends_bind (ends_sql hF hq rfl) fun rows _ => ?_
  refine ends_bind (ends_invalidateAll hF _) ?_
  rintro failed rfl
  exact ends_bind (ends_sql hF hst rfl) fun _ _ => ends_sql hF hst' rfl

theorem ends_deleteAllByUserId (hF : ∀ p, F p → p.early = true) (userId : Uuid) :
    Ends env F (deleteAllByUserId env userId) fun _ => True :=
  ends_deletion hF (.sessionTokensByUser userId) (.revokeByUser userId)
    (.deleteSessionsByUser userId) rfl rfl rfl

theorem ends_deleteAllByUserIdExcept (hF : ∀ p, F p → p.early = true) (userId keep : Uuid) :
    Ends env F (deleteAllByUserIdExcept env userId keep) fun _ => True :=
  ends_deletion hF (.sessionTokensByUserExcept userId keep) (.revokeByUserExcept userId keep)
    (.deleteSessionsByUserExcept userId keep) rfl rfl rfl

/-- What a reset does once the credential is written. -/
theorem ends_reset (hF : ∀ p, F p → p.early = true) (reset : PasswordReset) :
    Ends env F (do
      stmt (.markConsumed reset.id)
      let _ ← stmt (.consumeSiblingTokens reset.userId reset.id)
      let _ ← deleteAllByUserId env reset.userId
      return (.ok () : Except ResetError Unit)) fun _ => True := by
  refine ends_bind (ends_sql hF (p := .markConsumed) rfl rfl) fun _ _ => ?_
  refine ends_bind (ends_sql hF (p := .consumeSiblings) rfl rfl) fun _ _ => ?_
  exact ends_bind (ends_deleteAllByUserId hF _) fun _ _ => completes_pure trivial

/-- What a change does once the credential is written. -/
theorem ends_change (hF : ∀ p, F p → p.early = true) (userId : Uuid) (sessionId : Option Uuid) :
    Ends env F (do
      match sessionId with
      | some sid =>
        let _ ← deleteAllByUserIdExcept env userId sid
      | none =>
        let _ ← deleteAllByUserId env userId
      return (.ok () : Except ChangeError Unit)) fun _ => True := by
  cases sessionId with
  | some sid =>
    exact ends_bind (ends_deleteAllByUserIdExcept hF userId sid) fun _ _ => completes_pure trivial
  | none => exact ends_bind (ends_deleteAllByUserId hF userId) fun _ _ => completes_pure trivial

/-! ## The two flows -/

theorem unchanged_of_consumeReset (hF : ∀ p, F p → p.early = true) {token password : String} (ha : Alone (server env) (failingAt env F) tid
      (PasswordFlow.consumeReset env token password).run m (.error e) m') :
    Unchanged m.world m'.world := by
  unfold PasswordFlow.consumeReset at ha
  split at ha
  · cases ha.ret.1
  split at ha
  · cases ha.ret.1
  rcases ha.bindE with ⟨e', -, hstop⟩ | ⟨found, m₁, hquery, ha⟩
  · exact unchanged_of_reading (uses_query rfl) hstop
  refine (unchanged_of_reading (uses_query rfl) hquery).trans ?_
  cases found with
  | none => cases ha.ret.1
  | some reset =>
    rcases ha.bindE with ⟨e', -, hstop⟩ | ⟨at_, m₂, hnow, ha⟩
    · exact unchanged_of_reading (uses_now rfl) hstop
    refine (unchanged_of_reading (uses_now rfl) hnow).trans ?_
    split at ha
    · cases ha.ret.1
    rcases ha.bindE with ⟨e', -, hstop⟩ | ⟨_, m₃, -, ha⟩
    · exact unchanged_of_rotatePassword hstop
    · obtain ⟨x, hx, -⟩ := ends_reset hF reset _ _ _ _ trivial ha
      cases hx

theorem unchanged_of_changePassword (hF : ∀ p, F p → p.early = true) {userId : Uuid}
    {sessionId : Option Uuid} {old new : String}
    (ha : Alone (server env) (failingAt env F) tid
      (PasswordFlow.changePassword env userId sessionId old new).run m (.error e) m') :
    Unchanged m.world m'.world := by
  unfold PasswordFlow.changePassword at ha
  split at ha
  · cases ha.ret.1
  rcases ha.bindE with ⟨e', -, hstop⟩ | ⟨user, m₁, huser, ha⟩
  · exact unchanged_of_reading (uses_query rfl) hstop
  refine (unchanged_of_reading (uses_query rfl) huser).trans ?_
  cases user with
  | none => cases ha.ret.1
  | some user =>
    rcases ha.bindE with ⟨e', -, hstop⟩ | ⟨found, m₂, hquery, ha⟩
    · exact unchanged_of_reading (uses_query rfl) hstop
    refine (unchanged_of_reading (uses_query rfl) hquery).trans ?_
    cases found with
    | none => cases ha.ret.1
    | some c =>
      change Alone _ _ _ (ExceptT.run (ite _ _ _)) _ _ _ at ha
      split at ha
      · cases ha.ret.1
      rcases ha.bindE with ⟨e', -, hstop⟩ | ⟨_, m₃, -, ha⟩
      · exact unchanged_of_rotatePassword hstop
      · obtain ⟨x, hx, -⟩ := ends_change hF userId sessionId _ _ _ _ trivial ha
        cases hx

end Proof

/-! ## A failure behind the credential -/

/-- A credential and a reset token of the user of the sample session. -/
def resetWorld : World :=
  Scenario.world { Scenario.tables with
    credentials := Scenario.one
      { id := 7, credentialType := "password", secretData := some "old password"
        credentialData := some "", createdAt := 0, updatedAt := 0, userId := 1 }
    passwordResets := Scenario.one
      { id := 8, userId := 1, tokenHash := Scenario.hmac "reset-a", expiresAt := seconds 1800
        consumedAt := none, createdAt := 0 } }

/-- The number of commands that a reset executes before a step behind the credential. -/
def position : PasswordStep → Nat
  | .markConsumed => 6
  | .consumeSiblings => 7
  | .listSessions => 8
  | .uncacheSession => 9
  | .revokeTokens => 10
  | _ => 11

/-- The reset of the sample token, with a failure at a step. -/
def failedReset (p : PasswordStep) : Option (Except Failure (Except ResetError Unit) × Instant) :=
  (PasswordFlow.consumeReset Scenario.env "reset-a" "new password").run.playChecked
    (server Scenario.env) 0
    (fun op r => !op.failed r || decide (PasswordStep.of op = some p)) ⟨resetWorld, []⟩
    (List.replicate (position p) ({} : Choice) ++ [{ fail := some "down" }])

theorem failedReset_credentials (p : PasswordStep) (hp : p.early = false) :
    (failedReset p).any (fun y => !y.1.isOk &&
      y.2.world.pg.tables.credentials.rows.all fun c => c.secretData == some "new password") = true := by
  cases p with
  | findToken | findUser | findCredential | writeCredential => cases hp
  | _ => decide +kernel

/-- A failure at a step behind the credential leaves the new password behind. -/
theorem not_failsCleanly_of_late {F : PasswordStep → Prop} {p : PasswordStep} (hF : F p)
    (hp : p.early = false) : ¬ FailsCleanly Scenario.env F := by
  intro h
  obtain ⟨⟨y, m'⟩, hplay, hy⟩ := (Option.any_eq_true _ _).mp (failedReset_credentials p hp)
  obtain ⟨herror, hnew⟩ := Bool.and_eq_true_iff.mp hy
  cases y with
  | ok x => cases herror
  | error e =>
    have ha : Alone (server Scenario.env) (failingAt Scenario.env F) 0
        (PasswordFlow.consumeReset Scenario.env "reset-a" "new password").run ⟨resetWorld, []⟩
        (.error e) m' := by
      refine Alone.of_playChecked (fun m op ch r w he hok r' w' he' hfailed => ?_) hplay
      cases he.symm.trans he'
      rw [hfailed] at hok
      exact ⟨p, of_decide_eq_true hok, hF⟩
    have hsame := (h.reset _ _ _ _ _ _ ha).credentials
    dsimp only at hnew
    rw [hsame] at hnew
    revert hnew
    decide +kernel

/-- If all commands can fail, a reset that fails may have changed the password. -/
theorem not_failsCleanly : ¬ FailsCleanly Scenario.env fun _ => True :=
  not_failsCleanly_of_late (p := .markConsumed) trivial rfl

/-- Failed password changes leave everything as it was exactly when the stores fail at no command
behind the write of the credential. -/
theorem failsCleanly_iff (F : PasswordStep → Prop) :
    (∀ env, FailsCleanly env F) ↔ ∀ p, F p → p.early = true := by
  constructor
  · intro h p hF
    by_contra hp
    exact not_failsCleanly_of_late hF (Bool.eq_false_iff.mpr hp) (h Scenario.env)
  · intro hF env
    exact ⟨fun _ _ _ _ _ _ => unchanged_of_consumeReset hF,
      fun _ _ _ _ _ _ _ _ => unchanged_of_changePassword hF⟩

end PasswordFailure

end AuthServer
