import AuthServer.Store.World

/-!
# What the writing statements do

One inversion lemma for each kind of statement: from an executed statement, the
reply and the tables it leaves behind.
-/

namespace AuthServer

open Storage

namespace Postgres

variable {pg pg' : Postgres}

variable {r : Except DbError Unit}

/-- Revocation on the pool: it happens when no matching row is locked, and touches nothing
else. -/
theorem revokeWhere_cases {p : RefreshToken → Bool} (h : pg.revokeWhere p = some (r, pg')) :
    r = .ok () ∧ (∀ x ∈ pg.tables.refreshTokens, p x = true → x.revoked = false →
        pg.locked x.id = false) ∧
      pg' = { pg with tables := { pg.tables with
        refreshTokens := pg.tables.refreshTokens.update (fun x => p x && !x.revoked)
          (RefreshToken.setRevoked true) } } := by
  unfold revokeWhere at h
  split at h
  · cases h
  · next hl =>
    cases h
    refine ⟨rfl, fun x hx hp hr => ?_, rfl⟩
    simp only [Bool.not_eq_true, List.any_eq_false, Table.mem_select] at hl
    exact hl x ⟨hx, by simp [hp, hr]⟩

theorem cascadeBlocked_eq_false {p : RefreshToken → Bool} (h : pg.cascadeBlocked p = false) :
    (∀ x ∈ pg.tables.refreshTokens, p x = true → pg.locked x.id = false) ∧
      pg.inserting p = false := by
  simp only [cascadeBlocked, Bool.or_eq_false_iff, List.any_eq_false, Table.mem_select] at h
  exact ⟨fun x hx hp => Bool.eq_false_iff.mpr (h.1 x ⟨hx, hp⟩), h.2⟩

/-- Deletion of sessions: the matching rows and the refresh tokens of the deleted sessions
disappear. -/
theorem deleteSessions_cases {p : UserSession → Bool} {r : Except DbError Nat}
    (h : pg.deleteSessions p = some (r, pg')) :
    let ids := (pg.tables.sessions.select p).map UserSession.id
    r = .ok ids.length ∧ pg.cascadeBlocked (fun x => ids.contains x.sessionId) = false ∧
      pg' = { pg with tables := { pg.tables with
        sessions := pg.tables.sessions.delete p
        refreshTokens := pg.tables.refreshTokens.delete fun x => ids.contains x.sessionId } } := by
  simp only [deleteSessions] at h
  split at h
  · cases h
  · next hb =>
    cases h
    exact ⟨rfl, Bool.eq_false_iff.mpr hb, rfl⟩

/-- Insertion: it is refused, or the row is added and its parents exist. -/
theorem insertRow_cases {ρ : Type} [Keyed ρ] {table : Table ρ} {row : ρ} {parents : Bool}
    {put : Table ρ → Tables} (h : pg.insertRow table row parents put = some (r, pg')) :
    ((∃ e, r = .error e) ∧ pg' = pg) ∨
      (r = .ok () ∧ parents = true ∧
        ∃ t, table.insert row = some t ∧ pg' = { pg with tables := put t }) := by
  unfold insertRow at h
  split at h
  · cases h
    exact .inl ⟨⟨_, rfl⟩, rfl⟩
  · next t ht =>
    split at h
    · next hp =>
      cases h
      exact .inr ⟨rfl, hp, t, ht, rfl⟩
    · cases h
      exact .inl ⟨⟨_, rfl⟩, rfl⟩

/-- Signup: it is refused, or the three rows and the role are added. -/
theorem signup_cases {u : User} {c : Credential} {roleId : Option Uuid} {v : EmailVerification}
    (h : pg.signup u c roleId v = some (r, pg')) :
    ((∃ e, r = .error e) ∧ pg' = pg) ∨
      (r = .ok () ∧ ∃ users credentials verifications, pg.tables.users.insert u = some users ∧
        pg.tables.credentials.insert c = some credentials ∧
        pg.tables.emailVerifications.insert v = some verifications ∧
        (c.userId = u.id ∧ v.userId = u.id) ∧
        pg' = { pg with
          tables := signedUp pg.tables users credentials verifications u.id roleId }) := by
  unfold signup at h
  split at h
  · cases h
    exact .inl ⟨⟨_, rfl⟩, rfl⟩
  · next users hu =>
    split at h
    · next credentials verifications hc hv =>
      split at h
      · next hp =>
        cases h
        exact .inr ⟨rfl, users, credentials, verifications, hu, hc, hv, ⟨hp.1, hp.2.1⟩, rfl⟩
      · cases h
        exact .inl ⟨⟨_, rfl⟩, rfl⟩
    · cases h
      exact .inl ⟨⟨_, rfl⟩, rfl⟩

end Postgres

namespace Stmt

/-- The rows a revocation on the pool is for. -/
def revocation? : Stmt → Option (RefreshToken → Bool)
  | .revokeBySession sid => some fun r => r.sessionId == sid
  | .revokeByUser uid => some fun r => r.userId == uid
  | .revokeByUserExcept uid keep => some fun r => r.userId == uid && r.sessionId != keep
  | _ => none

/-- The rows a deletion of sessions is for. -/
def deletion? : Stmt → Option (UserSession → Bool)
  | .deleteSession id => some fun s => s.id == id
  | .deleteSessionsByUser uid => some fun s => s.userId == uid
  | .deleteSessionsByUserExcept uid keep => some fun s => s.userId == uid && s.id != keep
  | _ => none

variable {st : Stmt} {now : NaiveDateTime} {pg pg' : Postgres} {r : Except DbError st.Res}

theorem exec_revocation {p : RefreshToken → Bool} (hst : st.revocation? = some p)
    (h : st.exec now pg = some (r, pg')) :
    (∃ x, r = .ok x) ∧ (∀ x ∈ pg.tables.refreshTokens, p x = true → x.revoked = false →
        pg.locked x.id = false) ∧
      pg' = { pg with tables := { pg.tables with
        refreshTokens := pg.tables.refreshTokens.update (fun x => p x && !x.revoked)
          (RefreshToken.setRevoked true) } } := by
  cases st with
  | revokeBySession | revokeByUser | revokeByUserExcept =>
    cases hst
    obtain ⟨hr, hl, hpg⟩ := Postgres.revokeWhere_cases h
    exact ⟨⟨_, hr⟩, hl, hpg⟩
  | _ => cases hst

theorem exec_deletion {p : UserSession → Bool} (hst : st.deletion? = some p)
    (h : st.exec now pg = some (r, pg')) :
    let ids := (pg.tables.sessions.select p).map UserSession.id
    (∃ x, r = .ok x) ∧ pg.cascadeBlocked (fun x => ids.contains x.sessionId) = false ∧
      pg' = { pg with tables := { pg.tables with
        sessions := pg.tables.sessions.delete p
        refreshTokens := pg.tables.refreshTokens.delete fun x => ids.contains x.sessionId } } := by
  cases st with
  | deleteSession | deleteSessionsByUser | deleteSessionsByUserExcept =>
    cases hst
    obtain ⟨hr, hl, hpg⟩ := Postgres.deleteSessions_cases h
    exact ⟨⟨_, hr⟩, hl, hpg⟩
  | _ => cases hst

end Stmt

end AuthServer
