import AuthServer.Logic
import AuthServer.Store.Transactions

/-!
# What one command can do to the tables

The committed rows change by a statement on the pool or by the commit of a
transaction. The effect of a statement is a function of the tables, so that a fact
about one table is a fact about the few statements that write it.
-/

namespace AuthServer

open Concurrent Storage Postgres

namespace Stmt

/-- The tables after a statement on the pool that has succeeded. -/
def effect (now : NaiveDateTime) (t : Tables) : Stmt → Tables
  | .insertSession s => { t with sessions := (t.sessions.insert s).getD t.sessions }
  | .updateLastAccessed id at_ =>
    { t with sessions := t.sessions.update (fun s => s.id == id) (UserSession.setLastAccessed at_) }
  | .revokeBySession sid => revoke fun r => r.sessionId == sid
  | .revokeByUser uid => revoke fun r => r.userId == uid
  | .revokeByUserExcept uid keep => revoke fun r => r.userId == uid && r.sessionId != keep
  | .deleteSession id => endSessions fun s => s.id == id
  | .deleteSessionsByUser uid => endSessions fun s => s.userId == uid
  | .deleteSessionsByUserExcept uid keep => endSessions fun s => s.userId == uid && s.id != keep
  | .updateRevoked id revoked =>
    { t with
      refreshTokens := t.refreshTokens.update (fun r => r.id == id)
        (RefreshToken.setRevoked revoked) }
  | .sweepRefreshTokens cutoff =>
    { t with
      refreshTokens := t.refreshTokens.delete fun r =>
        r.expiresAt.any fun e => decide (e < cutoff) }
  | .insertUser u => { t with users := (t.users.insert u).getD t.users }
  | .updateUser u =>
    { t with
      users := (t.users.replace (fun r => r.id == u.id)
        fun r => { u with id := r.id, createdAt := r.createdAt }).getD t.users }
  | .deleteUser id =>
    let ids := (t.sessions.select fun s => s.userId == id).map UserSession.id
    { t with
      users := t.users.delete fun u => u.id == id
      credentials := t.credentials.delete fun c => c.userId == id
      sessions := t.sessions.delete fun s => s.userId == id
      refreshTokens := t.refreshTokens.delete fun r => r.userId == id || ids.contains r.sessionId
      consents := t.consents.delete fun c => c.userId == id
      passwordResets := t.passwordResets.delete fun r => r.userId == id
      userRoles := t.userRoles.delete fun r => r.userId == id
      emailVerifications := t.emailVerifications.delete fun v => v.userId == id }
  | .insertCredential c => { t with credentials := (t.credentials.insert c).getD t.credentials }
  | .updateCredential c =>
    let credentials := t.credentials.update (fun r => r.id == c.id) c.setColumns
    if (credentials.find? fun r => r.id == c.id).isSome then { t with credentials } else t
  | .insertClient c => { t with clients := (t.clients.insert c).getD t.clients }
  | .updateClient c =>
    { t with clients := t.clients.update (fun r => r.id == c.id) c.setColumns }
  | .deleteClient id =>
    { t with
      clients := t.clients.delete fun c => c.id == id
      redirectUris := t.redirectUris.delete fun r => r.clientId == id
      refreshTokens := t.refreshTokens.delete fun r => r.clientId == id
      consents := t.consents.delete fun c => c.clientId == id }
  | .insertRedirectUri r => { t with redirectUris := (t.redirectUris.insert r).getD t.redirectUris }
  | .deleteRedirectUri id =>
    { t with redirectUris := t.redirectUris.delete fun r => r.id == id }
  | .insertConsent c => { t with consents := (t.consents.insert c).getD t.consents }
  | .updateConsent c =>
    { t with
      consents := t.consents.update (fun r => r.id == c.id)
        (UserConsent.setScopes c.scopes c.updatedAt) }
  | .deleteConsent id => { t with consents := t.consents.delete fun c => c.id == id }
  | .insertPasswordReset r =>
    { t with passwordResets := (t.passwordResets.insert r).getD t.passwordResets }
  | .markConsumed id =>
    { t with
      passwordResets := t.passwordResets.update (fun r => r.id == id)
        (PasswordReset.setConsumed now) }
  | .consumeSiblingTokens uid keep =>
    { t with
      passwordResets := t.passwordResets.update
        (fun r => r.userId == uid && r.id != keep && r.consumedAt.isNone)
        (PasswordReset.setConsumed now) }
  | .insertUserRole r => { t with userRoles := (t.userRoles.insert r).getD t.userRoles }
  | .signup u c roleId v =>
    Postgres.signedUp t ((t.users.insert u).getD t.users)
      ((t.credentials.insert c).getD t.credentials)
      ((t.emailVerifications.insert v).getD t.emailVerifications) u.id roleId
  | .verifyEmail uid id =>
    { t with
      users := t.users.update (fun u => u.id == uid) (User.setVerified now)
      emailVerifications := t.emailVerifications.update (fun v => v.id == id)
        (EmailVerification.setConsumed now) }
where
  revoke (p : RefreshToken → Bool) : Tables :=
    { t with
      refreshTokens := t.refreshTokens.update (fun r => p r && !r.revoked)
        (RefreshToken.setRevoked true) }
  endSessions (p : UserSession → Bool) : Tables :=
    let ids := (t.sessions.select p).map UserSession.id
    { t with
      sessions := t.sessions.delete p
      refreshTokens := t.refreshTokens.delete fun r => ids.contains r.sessionId }

variable {st : Stmt} {now : NaiveDateTime} {pg pg' : Postgres} {r : Except DbError st.Res}

/-- A statement on the pool fails and changes nothing, or it has its effect. -/
theorem exec_effect (h : st.exec now pg = some (r, pg')) :
    ((∃ e, r = .error e) ∧ pg' = pg) ∨
      ((∃ x, r = .ok x) ∧ pg' = { pg with tables := st.effect now pg.tables }) := by
  cases st with
  | revokeBySession | revokeByUser | revokeByUserExcept =>
    obtain ⟨rfl, -, rfl⟩ := Postgres.revokeWhere_cases h
    exact .inr ⟨⟨_, rfl⟩, rfl⟩
  | deleteSession | deleteSessionsByUser | deleteSessionsByUserExcept =>
    obtain ⟨rfl, -, rfl⟩ := Postgres.deleteSessions_cases h
    exact .inr ⟨⟨_, rfl⟩, rfl⟩
  | updateRevoked id revoked =>
    simp only [exec] at h
    split at h
    · cases h
    · cases h
      exact .inr ⟨⟨_, rfl⟩, rfl⟩
  | sweepRefreshTokens cutoff =>
    simp only [exec] at h
    split at h
    · cases h
    · cases h
      exact .inr ⟨⟨_, rfl⟩, rfl⟩
  | deleteUser id =>
    simp only [exec, Postgres.deleteUser] at h
    split at h
    · cases h
    · cases h
      exact .inr ⟨⟨_, rfl⟩, rfl⟩
  | deleteClient id =>
    simp only [exec, Postgres.deleteClient] at h
    split at h
    · cases h
    · cases h
      exact .inr ⟨⟨_, rfl⟩, rfl⟩
  | insertSession | insertUser | insertCredential | insertRedirectUri | insertConsent
  | insertPasswordReset | insertClient =>
    obtain ⟨he, rfl⟩ | ⟨rfl, -, t, ht, rfl⟩ := Postgres.insertRow_cases h
    · exact .inl ⟨he, rfl⟩
    · refine .inr ⟨⟨_, rfl⟩, ?_⟩
      rw [effect, ht]
      rfl
  | updateUser u =>
    simp only [exec, Postgres.updateUser] at h
    split at h
    · cases h
      exact .inl ⟨⟨_, rfl⟩, rfl⟩
    · next users hu =>
      cases h
      refine .inr ⟨⟨_, rfl⟩, ?_⟩
      rw [effect, hu]
      rfl
  | updateCredential c =>
    simp only [exec, Postgres.updateCredential] at h
    split at h
    · next hnone =>
      cases h
      refine .inr ⟨⟨_, rfl⟩, ?_⟩
      simp [effect, hnone]
    · next row hrow =>
      split at h
      · cases h
        refine .inr ⟨⟨_, rfl⟩, ?_⟩
        simp [effect, hrow]
      · cases h
        exact .inl ⟨⟨_, rfl⟩, rfl⟩
  | insertUserRole r =>
    simp only [exec, Postgres.insertUserRole] at h
    split at h
    · next hnone =>
      cases h
      refine .inr ⟨⟨_, rfl⟩, ?_⟩
      simp [effect, hnone]
    · next userRoles hins =>
      split at h
      · cases h
        refine .inr ⟨⟨_, rfl⟩, ?_⟩
        rw [effect, hins]
        rfl
      · cases h
        exact .inl ⟨⟨_, rfl⟩, rfl⟩
  | signup u c roleId v =>
    obtain ⟨he, rfl⟩ | ⟨rfl, users, credentials, verifications, hu, hc, hv, -, rfl⟩ :=
      Postgres.signup_cases h
    · exact .inl ⟨he, rfl⟩
    · refine .inr ⟨⟨_, rfl⟩, ?_⟩
      rw [effect, hu, hc, hv]
      rfl
  | updateLastAccessed | updateClient | deleteRedirectUri | updateConsent | deleteConsent
  | markConsumed | consumeSiblingTokens | verifyEmail =>
    cases h
    exact .inr ⟨⟨_, rfl⟩, rfl⟩

end Stmt

variable {env : Env} {tid : Nat} {st : Stmt} {ch : Choice} {w w' : World}

/-- A statement on the pool that succeeds has its effect. -/
theorem World.exec_stmt_ok {x : st.Res}
    (h : World.exec env tid (.sql (.stmt st)) ch w = some (.ok x, w')) :
    w'.pg.tables = st.effect (w.now + ch.elapse) w.pg.tables := by
  obtain ⟨-, ⟨⟨e, he⟩, -⟩ | hst⟩ := exec_stmt h
  · cases he
  · rcases Stmt.exec_effect hst with ⟨⟨e, he⟩, -⟩ | ⟨-, hpg⟩
    · cases he
    · exact congrArg tables hpg

/-- The tables change by a statement on the pool that succeeds, or by a commit. -/
theorem World.exec_tables {op : Op} {r : Res op} (h : World.exec env tid op ch w = some (r, w')) :
    w'.pg.tables = w.pg.tables ∨
      (∃ (st : Stmt) (x : st.Res),
        (⟨op, r⟩ : Reply Res) = ⟨.sql (.stmt st), (.ok x : Except DbError st.Res)⟩ ∧
          w'.pg.tables = st.effect (w.now + ch.elapse) w.pg.tables) ∨
      (op = .sql (.tx .commit) ∧ ∃ tokens, w'.pg.tables =
        { w.pg.tables with refreshTokens := tokens }) := by
  by_cases hread : op.reading = true
  · exact .inl (congrArg tables (exec_reading hread h).1)
  cases op with
  | sql s =>
    cases s with
    | query q => exact absurd rfl hread
    | stmt st =>
      obtain ⟨-, ⟨-, hpg⟩ | hst⟩ := exec_stmt h
      · exact .inl (congrArg tables hpg)
      · rcases Stmt.exec_effect hst with ⟨-, hpg⟩ | ⟨⟨x, rfl⟩, hpg⟩
        · exact .inl (congrArg tables hpg)
        · exact .inr (.inl ⟨st, x, rfl, congrArg tables hpg⟩)
    | tx s =>
      obtain ⟨-, -, ⟨e, -, hpg⟩ | hst⟩ := exec_tx h
      · rw [hpg]
        exact .inl (TxStmt.fail_frame s).2
      · by_cases hs : s = .commit
        · subst hs
          obtain ⟨x, -, -, -, htables⟩ := TxStmt.exec_commit hst
          split at htables
          · exact .inl htables
          · exact .inr (.inr ⟨rfl, _, htables⟩)
        · exact .inl ((TxStmt.exec_frame hst).2 hs)
  | redis c =>
    rcases exec_redis h with ⟨text, -, -, rfl⟩ | ⟨-, -, rfl⟩
    · exact .inl rfl
    · exact .inl rfl
  | _ => exact absurd rfl hread

/-- A part of the tables other than the refresh tokens changes only by a statement on the pool that
changes it. -/
theorem World.exec_frame {X : Type} (part : Tables → X)
    (hpart : ∀ t tokens, part { t with refreshTokens := tokens } = part t)
    {op : Op} {r : Res op}
    (h : World.exec env tid op ch w = some (r, w'))
    (hst : ∀ st, op = .sql (.stmt st) →
      part (st.effect (w.now + ch.elapse) w.pg.tables) = part w.pg.tables) :
    part w'.pg.tables = part w.pg.tables := by
  rcases exec_tables h with heq | ⟨st, x, hop, heq⟩ | ⟨-, tokens, heq⟩
  · rw [heq]
  · rw [heq]
    exact hst st (congrArg Sigma.fst hop)
  · rw [heq]
    exact hpart _ tokens

/-- The statements that write `users`. -/
def Stmt.writesUsers : Stmt → Bool
  | .insertUser _ | .updateUser _ | .deleteUser _ | .signup _ _ _ _ | .verifyEmail _ _ => true
  | _ => false

theorem Stmt.users_effect (hst : st.writesUsers = false) (now : NaiveDateTime) (t : Tables)
    : (st.effect now t).users = t.users := by
  cases st with
  | insertUser | updateUser | deleteUser | signup | verifyEmail => cases hst
  | updateCredential c =>
    simp only [effect]
    split
    · rfl
    · rfl
  | _ => rfl

/-- The statements that write `credentials`. -/
def Stmt.writesCredentials : Stmt → Bool
  | .insertCredential _ | .updateCredential _ | .deleteUser _ | .signup _ _ _ _ => true
  | _ => false

theorem Stmt.credentials_effect (hst : st.writesCredentials = false) (now : NaiveDateTime)
    (t : Tables) : (st.effect now t).credentials = t.credentials := by
  cases st with
  | insertCredential | updateCredential | deleteUser | signup => cases hst
  | _ => rfl

/-- The statements that write `password_resets`. -/
def Stmt.writesResets : Stmt → Bool
  | .insertPasswordReset _ | .markConsumed _ | .consumeSiblingTokens _ _ | .deleteUser _ => true
  | _ => false

theorem Stmt.resets_effect (hst : st.writesResets = false) (now : NaiveDateTime) (t : Tables)
    : (st.effect now t).passwordResets = t.passwordResets := by
  cases st with
  | insertPasswordReset | markConsumed | consumeSiblingTokens | deleteUser => cases hst
  | updateCredential c =>
    simp only [effect]
    split
    · rfl
    · rfl
  | _ => rfl

/-- The statements that write `clients`. -/
def Stmt.writesClients : Stmt → Bool
  | .insertClient _ | .updateClient _ | .deleteClient _ => true
  | _ => false

theorem Stmt.clients_effect (hst : st.writesClients = false) (now : NaiveDateTime) (t : Tables)
    : (st.effect now t).clients = t.clients := by
  cases st with
  | insertClient | updateClient | deleteClient => cases hst
  | updateCredential c =>
    simp only [effect]
    split
    · rfl
    · rfl
  | _ => rfl

/-! ## What one command can do to an open transaction -/

namespace Postgres

/-- The open transaction of a thread has inserted a row. -/
def HasInserted (pg : Postgres) (tid : Nat) (row : RefreshToken) : Prop :=
  ∃ x, pg.tx? tid = some x ∧ Write.insert row ∈ x.writes

variable {pg : Postgres} {tid i : Nat} {row : RefreshToken}

theorem hasInserted_abort : (pg.abort tid).HasInserted i row ↔ pg.HasInserted i row := by
  unfold HasInserted
  rw [tx?_abort]
  by_cases hi : i = tid
  · subst hi
    rw [if_pos rfl]
    cases pg.tx? i with
    | none => simp
    | some x => simp [OpenTx.abort]
  · rw [if_neg hi]

theorem hasInserted_close :
    (pg.close tid).HasInserted i row ↔ i ≠ tid ∧ pg.HasInserted i row := by
  unfold HasInserted
  rw [tx?_close]
  by_cases hi : i = tid
  · simp [hi]
  · simp [hi]

theorem hasInserted_record {locks : List Uuid} {ws : List Write} :
    (pg.record tid locks ws).HasInserted i row ↔
      pg.HasInserted i row ∨ (i = tid ∧ pg.tx? tid ≠ none ∧ Write.insert row ∈ ws) := by
  unfold HasInserted
  rw [tx?_record]
  by_cases hi : i = tid
  · subst hi
    rw [if_pos rfl]
    cases pg.tx? i with
    | none => simp
    | some x => simp [OpenTx.record]
  · rw [if_neg hi]
    simp [hi]

end Postgres

namespace TxStmt

variable {s : TxStmt} {tid : Nat} {pg pg' : Postgres}

/-- The rows that the foreign keys of a refresh token refer to are there. -/
structure Parents (t : Tables) (row : RefreshToken) : Prop where
  user : t.hasUser row.userId = true
  client : t.hasClient row.clientId = true
  session : t.hasSession row.sessionId = true

/-- A statement inside a transaction changes nothing, aborts it with an error, or adds locks and
writes to it; what it inserts has its parents. -/
theorem exec_inside {r : Except DbError s.Res} (h : s.exec tid pg = some (r, pg'))
    (hs : s ≠ .begin ∧ s ≠ .commit ∧ s ≠ .rollback) :
    pg' = pg ∨ ((∃ e, r = .error e) ∧ pg' = pg.abort tid) ∨ ∃ locks ws, pg' = pg.record tid locks ws ∧
      ∀ row, Write.insert row ∈ ws → s = .insertRefreshToken row ∧ Parents pg.tables row := by
  have hfree : ∀ {locks : List Uuid} {ws : List Write}, (∀ row, Write.insert row ∉ ws) →
      pg' = pg.record tid locks ws → ∃ locks ws, pg' = pg.record tid locks ws ∧
        ∀ row, Write.insert row ∈ ws → s = .insertRefreshToken row ∧ Parents pg.tables row :=
    fun hws hpg => ⟨_, _, hpg, fun row hrow => absurd hrow (hws row)⟩
  cases s with
  | begin => exact absurd rfl hs.1
  | commit => exact absurd rfl hs.2.1
  | rollback => exact absurd rfl hs.2.2
  | findForUpdate hash =>
    obtain ⟨x, -, ⟨-, -, hpg⟩ | ⟨-, h⟩⟩ := inTx_cases h
    · exact .inl hpg
    · obtain ⟨-, hpg⟩ | ⟨row, -, -, -, -, hpg⟩ := findForUpdate_cases h
      · exact .inl hpg
      · exact .inr (.inr (hfree (by simp) hpg))
  | insertRefreshToken t =>
    obtain ⟨x, -, ⟨-, -, hpg⟩ | ⟨-, h⟩⟩ := inTx_cases h
    · exact .inl hpg
    · obtain ⟨e, he, hpg⟩ | ⟨-, hpg, -, -, hu, hc, hs⟩ := insertRefreshToken_cases h
      · exact .inr (.inl ⟨⟨e, he⟩, hpg⟩)
      · refine .inr (.inr ⟨_, _, hpg, fun row hrow => ?_⟩)
        obtain rfl : row = t := by simpa using hrow
        exact ⟨rfl, hu, hc, hs⟩
  | updateRevoked id revoked =>
    obtain ⟨⟨y, pg₁⟩, hy, he⟩ := Option.map_eq_some_iff.mp h
    cases he
    obtain ⟨x, -, ⟨-, -, hpg⟩ | ⟨-, h⟩⟩ := inTx_cases hy
    · exact .inl hpg
    · obtain ⟨-, hpg, -⟩ | ⟨row, -, -, -, -, -, hpg⟩ := updateRow_cases h
      · exact .inl hpg
      · exact .inr (.inr (hfree (by simp) hpg))
  | familyScan sid =>
    obtain ⟨x, -, ⟨-, -, hpg⟩ | ⟨-, h⟩⟩ := inTx_cases h
    · exact .inl hpg
    · cases h
      exact .inl rfl
  | familyRow sid id =>
    obtain ⟨x, -, ⟨-, -, hpg⟩ | ⟨-, h⟩⟩ := inTx_cases h
    · exact .inl hpg
    · obtain ⟨-, hpg, -⟩ | ⟨row, -, -, -, -, -, hpg⟩ := updateRow_cases h
      · exact .inl hpg
      · exact .inr (.inr (hfree (by simp) hpg))

/-- A thread opens a transaction when it has none. -/
theorem exec_begin_none {r : Except DbError Unit} (h : TxStmt.begin.exec tid pg = some (r, pg')) :
    pg.tx? tid = none := by
  obtain ⟨txs, hins, -⟩ := Option.map_eq_some_iff.mp h
  refine Table.find?_eq_none.mpr fun x hx => ?_
  simpa [Keyed.clash] using Table.clash_of_insert hins hx

end TxStmt

namespace World

variable {env : Env} {tid i : Nat} {op : Op} {ch : Choice} {w w' : World} {r : Res op}

/-- The transactions change by their own statements only. -/
theorem exec_txs (h : World.exec env tid op ch w = some (r, w')) :
    w'.pg.tx? = w.pg.tx? ∨ ∃ s, op = .sql (.tx s) := by
  by_cases hread : op.reading = true
  · exact .inl (congrArg tx? (exec_reading hread h).1)
  cases op with
  | sql s =>
    cases s with
    | query q => exact absurd rfl hread
    | stmt st =>
      refine .inl ?_
      obtain ⟨-, ⟨-, hpg⟩ | hst⟩ := exec_stmt h
      · rw [hpg]
      · rcases Stmt.exec_effect hst with ⟨-, hpg⟩ | ⟨-, hpg⟩
        · rw [hpg]
        · rw [hpg]
          rfl
    | tx s => exact .inr ⟨s, rfl⟩
  | redis c =>
    rcases exec_redis h with ⟨text, -, -, rfl⟩ | ⟨-, -, rfl⟩
    · exact .inl rfl
    · exact .inl rfl
  | _ => exact absurd rfl hread

variable {row : RefreshToken}

/-- What a transaction has inserted after a command was inserted before, or just now while its
parents were there. -/
theorem hasInserted_of_exec (h : World.exec env tid op ch w = some (r, w'))
    (hrow : w'.pg.HasInserted i row) :
    w.pg.HasInserted i row ∨
      (op = .sql (.tx (.insertRefreshToken row)) ∧ TxStmt.Parents w.pg.tables row) := by
  rcases exec_txs h with htxs | ⟨s, rfl⟩
  · obtain ⟨x, hx, hmem⟩ := hrow
    exact .inl ⟨x, htxs ▸ hx, hmem⟩
  obtain ⟨-, -, ⟨e, -, hpg⟩ | hst⟩ := exec_tx h
  · rw [hpg] at hrow
    rcases @TxStmt.fail_cases w.pg tid s with hf | hf | hf
    · exact .inl (hf ▸ hrow)
    · rw [hf] at hrow
      exact .inl (hasInserted_abort.mp hrow)
    · rw [hf] at hrow
      exact .inl (hasInserted_close.mp hrow).2
  by_cases hs : s ≠ .begin ∧ s ≠ .commit ∧ s ≠ .rollback
  · rcases TxStmt.exec_inside hst hs with hpg | ⟨-, hpg⟩ | ⟨locks, ws, hpg, hws⟩
    · exact .inl (hpg ▸ hrow)
    · rw [hpg] at hrow
      exact .inl (hasInserted_abort.mp hrow)
    · rw [hpg] at hrow
      rcases hasInserted_record.mp hrow with hold | ⟨-, -, hmem⟩
      · exact .inl hold
      · obtain ⟨rfl, hparents⟩ := hws row hmem
        exact .inr ⟨rfl, hparents⟩
  · obtain ⟨y, hy, hmem⟩ := hrow
    have hold : ∀ x : Option OpenTx, (∀ i, w'.pg.tx? i = if i = tid then x else w.pg.tx? i) →
        (∀ x', x = some x' → x'.writes = []) → w.pg.HasInserted i row := by
      intro x htx hx
      rw [htx] at hy
      split at hy
      · rw [hx y hy] at hmem
        cases hmem
      · exact ⟨y, hy, hmem⟩
    cases s with
    | begin =>
      obtain ⟨-, -, htx⟩ := TxStmt.exec_begin hst
      exact .inl (hold _ htx fun x' hx' => by rw [← Option.some.inj hx'])
    | commit =>
      obtain ⟨x, -, -, htx, -⟩ := TxStmt.exec_commit hst
      exact .inl (hold none htx nofun)
    | rollback =>
      have hpg : w'.pg = w.pg.close tid := (Prod.mk.inj (Option.some.inj hst)).2.symm
      exact .inl (hold none (fun i => by rw [hpg]; exact tx?_close) nofun)
    | _ => exact absurd ⟨nofun, nofun, nofun⟩ hs

/-- What a transaction has inserted stays there until it ends. -/
theorem hasInserted_exec (h : World.exec env tid op ch w = some (r, w'))
    (hrow : w.pg.HasInserted i row)
    (hop : i = tid → op ≠ .sql (.tx .commit) ∧ op ≠ .sql (.tx .rollback)) :
    w'.pg.HasInserted i row := by
  rcases exec_txs h with htxs | ⟨s, rfl⟩
  · obtain ⟨x, hx, hmem⟩ := hrow
    exact ⟨x, htxs ▸ hx, hmem⟩
  obtain ⟨x, hx, hmem⟩ := id hrow
  by_cases hi : i = tid
  · subst hi
    obtain ⟨hcommit, hrollback⟩ := hop rfl
    obtain ⟨-, -, ⟨e, -, hpg⟩ | hst⟩ := exec_tx h
    · rw [hpg]
      cases s with
      | begin => exact hrow
      | commit => exact absurd rfl hcommit
      | rollback => exact absurd rfl hrollback
      | _ => exact hasInserted_abort.mpr hrow
    · by_cases hbegin : s = .begin
      · subst hbegin
        exact absurd (hx.symm.trans (TxStmt.exec_begin_none hst)) nofun
      · have hs : s ≠ .begin ∧ s ≠ .commit ∧ s ≠ .rollback :=
          ⟨hbegin, fun hc => hcommit (by rw [hc]), fun hc => hrollback (by rw [hc])⟩
        rcases TxStmt.exec_inside hst hs with hpg | ⟨-, hpg⟩ | ⟨locks, ws, hpg, -⟩
        · exact hpg ▸ hrow
        · rw [hpg]
          exact hasInserted_abort.mpr hrow
        · rw [hpg]
          exact hasInserted_record.mpr (.inl hrow)
  · refine ⟨x, ?_, hmem⟩
    obtain ⟨-, -, ⟨e, -, hpg⟩ | hst⟩ := exec_tx h
    · rw [hpg, (TxStmt.fail_frame s).1 i hi, hx]
    · rw [(TxStmt.exec_frame hst).1 i hi, hx]

/-- An insertion that succeeds is one of the writes of the transaction. -/
theorem hasInserted_insert
    (h : World.exec env tid (.sql (.tx (.insertRefreshToken row))) ch w = some (.ok (), w')) :
    w'.pg.HasInserted tid row := by
  obtain ⟨-, -, ⟨e, hr, -⟩ | hst⟩ := exec_tx h
  · cases hr
  obtain ⟨x, hx, ⟨-, hr, -⟩ | ⟨-, hins⟩⟩ := inTx_cases hst
  · cases hr
  · obtain ⟨e, hr, -⟩ | ⟨-, hpg, -⟩ := insertRefreshToken_cases hins
    · cases hr
    · rw [hpg]
      refine hasInserted_record.mpr (.inr ⟨rfl, ?_, List.mem_singleton_self _⟩)
      rw [hx]
      nofun

end World

end AuthServer
