import AuthServer.Store.Effects

/-!
# Open transactions

What the statements of a transaction do to the open transactions and to the
committed refresh tokens, and what statements on the pool can do to rows that a
transaction has locked.
-/

namespace AuthServer

open Storage Postgres Table

namespace Postgres

variable {pg pg' : Postgres} {tid i : Nat} {x : OpenTx} {id : Uuid}

theorem tid_of_tx? (h : pg.tx? i = some x) : x.tid = i := by
  simpa using (mem_of_find? h).2

theorem mem_txs : x ∈ pg.txs ↔ pg.tx? x.tid = some x := by
  rw [tx?, find?_key fun _ _ h => decide_eq_true h]
  exact (and_iff_left rfl).symm

/-- A change of the transaction of one thread. -/
theorem tx?_update {f : Setter OpenTx} (hf : ∀ a, (f.apply a).tid = a.tid) :
    (pg.txs.update (fun x => x.tid == tid) f).find? (fun x => x.tid == i) =
      if i = tid then (pg.tx? tid).map f.apply else pg.tx? i :=
  find?_update_key hf

theorem tx?_record (locks : List Uuid) (ws : List Write) :
    (pg.record tid locks ws).tx? i =
      if i = tid then (pg.tx? tid).map (OpenTx.record locks ws).apply else pg.tx? i :=
  tx?_update fun _ => rfl

theorem tx?_abort : (pg.abort tid).tx? i =
    if i = tid then (pg.tx? tid).map OpenTx.abort.apply else pg.tx? i :=
  tx?_update fun _ => rfl

theorem tx?_close : (pg.close tid).tx? i = if i = tid then none else pg.tx? i :=
  find?_delete_key

theorem locked_eq_false :
    pg.locked id = false ↔ ∀ i x, pg.tx? i = some x → id ∉ x.locked := by
  simp only [locked, List.any_eq_false, List.contains_iff_mem]
  constructor
  · intro h i x hx
    exact h x (mem_of_find? hx).1
  · intro h x hx
    exact h x.tid x (mem_txs.mp hx)

theorem lockedByOther_eq_false :
    pg.lockedByOther tid id = false ↔ ∀ i x, i ≠ tid → pg.tx? i = some x → id ∉ x.locked := by
  simp only [lockedByOther, List.any_eq_false, Bool.and_eq_true, bne_iff_ne, ne_eq, not_and,
    List.contains_iff_mem]
  constructor
  · intro h i x hi hx
    have htid := tid_of_tx? hx
    exact h x (mem_of_find? hx).1 (htid ▸ hi)
  · intro h x hx hi
    exact h x.tid x hi (mem_txs.mp hx)

end Postgres

/-! ## Statements on the pool -/

/-- Rows are only revoked or deleted, and the locked ones are left alone. -/
structure Recedes (locked : Uuid → Bool) (t t' : Table RefreshToken) : Prop where
  old : ∀ r' ∈ t', ∃ r ∈ t, r' = r ∨ r' = { r with revoked := true }
  stays : ∀ r ∈ t, locked r.id = true → r ∈ t'

namespace Recedes

variable {locked : Uuid → Bool} {t : Table RefreshToken} {p : RefreshToken → Bool}

theorem refl : Recedes locked t t := ⟨fun r hr => ⟨r, hr, .inl rfl⟩, fun _ hr _ => hr⟩

theorem delete (h : ∀ r ∈ t, p r = true → locked r.id = false) :
    Recedes locked t (t.delete p) := by
  constructor
  · intro r hr
    exact ⟨r, (mem_delete.mp hr).1, .inl rfl⟩
  · intro r hr hl
    refine mem_delete.mpr ⟨hr, Bool.eq_false_iff.mpr fun hp => ?_⟩
    rw [h r hr hp] at hl
    cases hl

theorem revoke (h : ∀ r ∈ t, p r = true → locked r.id = false) :
    Recedes locked t (t.update p (RefreshToken.setRevoked true)) := by
  constructor
  · intro r' hr'
    obtain ⟨r, hr, rfl⟩ := mem_update.mp hr'
    refine ⟨r, hr, ?_⟩
    split
    · exact .inr rfl
    · exact .inl rfl
  · intro r hr hl
    refine mem_update.mpr ⟨r, hr, if_neg fun hp => ?_⟩
    rw [h r hr hp] at hl
    cases hl

end Recedes

namespace Stmt

variable {st : Stmt} {now : NaiveDateTime} {pg pg' : Postgres} {r : Except DbError st.Res}

/-- No statement on the pool touches a transaction, a locked row, or takes a revocation back. -/
theorem exec_recedes (hst : ∀ id, st ≠ .updateRevoked id false)
    (h : st.exec now pg = some (r, pg')) :
    pg'.txs = pg.txs ∧
      Recedes pg.locked pg.tables.refreshTokens pg'.tables.refreshTokens := by
  cases st with
  | revokeBySession | revokeByUser | revokeByUserExcept =>
    obtain ⟨-, hl, rfl⟩ := Postgres.revokeWhere_cases h
    refine ⟨rfl, .revoke fun r hr hp => ?_⟩
    obtain ⟨hp, hr'⟩ := Bool.and_eq_true_iff.mp hp
    exact hl r hr hp (Bool.not_eq_true' _ |>.mp hr')
  | deleteSession | deleteSessionsByUser | deleteSessionsByUserExcept =>
    obtain ⟨-, hb, rfl⟩ := Postgres.deleteSessions_cases h
    exact ⟨rfl, .delete (Postgres.cascadeBlocked_eq_false hb).1⟩
  | updateRevoked id revoked =>
    obtain rfl : revoked = true := by
      cases revoked
      · exact absurd rfl (hst id)
      · rfl
    simp only [exec] at h
    split at h
    · cases h
    · next hl =>
      cases h
      refine ⟨rfl, .revoke fun r _ hp => ?_⟩
      rw [beq_iff_eq.mp hp]
      exact Bool.eq_false_iff.mpr hl
  | sweepRefreshTokens cutoff =>
    simp only [exec] at h
    split at h
    · cases h
    · next hl =>
      cases h
      refine ⟨rfl, .delete fun r hr hp => ?_⟩
      simp only [Bool.not_eq_true, List.any_eq_false, mem_select] at hl
      exact hl r ⟨hr, hp⟩
  | deleteUser id =>
    simp only [exec, Postgres.deleteUser] at h
    split at h
    · cases h
    · next hb =>
      cases h
      exact ⟨rfl, .delete (Postgres.cascadeBlocked_eq_false (Bool.eq_false_iff.mpr hb)).1⟩
  | deleteClient id =>
    simp only [exec, Postgres.deleteClient] at h
    split at h
    · cases h
    · next hb =>
      cases h
      exact ⟨rfl, .delete (Postgres.cascadeBlocked_eq_false (Bool.eq_false_iff.mpr hb)).1⟩
  | insertSession | insertUser | insertCredential | insertRedirectUri | insertConsent
  | insertPasswordReset | insertClient =>
    obtain ⟨-, rfl⟩ | ⟨-, -, t, -, rfl⟩ := Postgres.insertRow_cases h
    · exact ⟨rfl, .refl⟩
    · exact ⟨rfl, .refl⟩
  | updateUser u =>
    simp only [exec, Postgres.updateUser] at h
    split at h
    all_goals cases h
    all_goals exact ⟨rfl, .refl⟩
  | updateCredential c =>
    simp only [exec, Postgres.updateCredential] at h
    repeat' split at h
    all_goals cases h
    all_goals exact ⟨rfl, .refl⟩
  | insertUserRole r =>
    simp only [exec, Postgres.insertUserRole] at h
    repeat' split at h
    all_goals cases h
    all_goals exact ⟨rfl, .refl⟩
  | signup u c roleId v =>
    obtain ⟨-, rfl⟩ | ⟨-, users, credentials, verifications, -, -, -, -, rfl⟩ :=
      Postgres.signup_cases h
    · exact ⟨rfl, .refl⟩
    · exact ⟨rfl, .refl⟩
  | updateLastAccessed | updateClient | deleteRedirectUri | updateConsent | deleteConsent
  | markConsumed | consumeSiblingTokens | verifyEmail =>
    cases h
    exact ⟨rfl, .refl⟩

end Stmt

/-! ## Statements of transactions -/

namespace Postgres

variable {pg pg' : Postgres} {tid : Nat} {x : OpenTx} {α : Type}

/-- Inside an aborted transaction every statement fails. -/
theorem inTx_cases {f : OpenTx → Outcome α} {r : Except DbError α}
    (h : pg.inTx tid f = some (r, pg')) :
    ∃ x, pg.tx? tid = some x ∧
      ((x.aborted = true ∧ r = .error .transactionAborted ∧ pg' = pg) ∨
        (x.aborted = false ∧ f x = some (r, pg'))) := by
  unfold inTx at h
  split at h
  · cases h
  · next x hx =>
    refine ⟨x, hx, ?_⟩
    split at h
    · next ha =>
      cases h
      exact .inl ⟨ha, rfl, rfl⟩
    · next ha => exact .inr ⟨Bool.eq_false_iff.mpr ha, h⟩

/-- `FOR UPDATE` returns nothing, or a visible row that it locks. -/
theorem findForUpdate_cases {hash : String} {r : Except DbError (Option RefreshToken)}
    (h : pg.findForUpdate tid hash x = some (r, pg')) :
    (r = .ok none ∧ pg' = pg) ∨
      ∃ row ∈ x.view pg.tables.refreshTokens, row.tokenHash = hash ∧
        pg.lockedByOther tid row.id = false ∧ r = .ok (some row) ∧
        pg' = pg.record tid [row.id] [] := by
  unfold findForUpdate at h
  split at h
  · cases h
    exact .inl ⟨rfl, rfl⟩
  · next row hrow =>
    obtain ⟨hmem, hhash⟩ := mem_of_find? hrow
    split at h
    · cases h
    · next hl =>
      cases h
      exact .inr ⟨row, hmem, by simpa using hhash, Bool.eq_false_iff.mpr hl, rfl, rfl⟩

/-- An insertion fails and aborts the transaction, or adds a row that clashes with no visible
row and whose parents exist. -/
theorem insertRefreshToken_cases {t : RefreshToken} {r : Except DbError Unit}
    (h : pg.insertRefreshToken tid t x = some (r, pg')) :
    (∃ e, r = .error e ∧ pg' = pg.abort tid) ∨
      (r = .ok () ∧ pg' = pg.record tid [t.id] [.insert t] ∧
        pg.insertingClash tid t = false ∧
        (∃ t', (x.view pg.tables.refreshTokens).insert t = some t') ∧
        pg.tables.hasUser t.userId = true ∧ pg.tables.hasClient t.clientId = true ∧
        pg.tables.hasSession t.sessionId = true) := by
  unfold insertRefreshToken at h
  split at h
  · cases h
  · next hc =>
    split at h
    · cases h
      exact .inl ⟨_, rfl, rfl⟩
    · next t' ht' =>
      split at h
      · next hp =>
        cases h
        simp only [Bool.and_eq_true] at hp
        exact .inr ⟨rfl, rfl, Bool.eq_false_iff.mpr hc, ⟨t', ht'⟩, hp.1.1, hp.1.2, hp.2⟩
      · cases h
        exact .inl ⟨_, rfl, rfl⟩

/-- An update of one row changes nothing, or records the new value and the lock. -/
theorem updateRow_cases {id : Uuid} {p : RefreshToken → Bool} {revoked : Bool}
    {r : Except DbError Bool} (h : pg.updateRow tid id p revoked x = some (r, pg')) :
    (r = .ok false ∧ pg' = pg ∧
        ∀ row ∈ x.view pg.tables.refreshTokens, row.id = id → p row = false) ∨
      ∃ row ∈ x.view pg.tables.refreshTokens, row.id = id ∧ p row = true ∧
        pg.lockedByOther tid id = false ∧ r = .ok true ∧
        pg' = pg.record tid [id] [.setRevoked id revoked] := by
  have hkey : ∀ a b : RefreshToken, (a.id == id) = true → (b.id == id) = true →
      Keyed.clash a b = true := by
    intro a b ha hb
    simp only [beq_iff_eq] at ha hb
    simp [Keyed.clash, ha, hb]
  unfold updateRow at h
  split at h
  · next hnone =>
    cases h
    refine .inl ⟨rfl, rfl, fun row hrow hid => ?_⟩
    have := find?_eq_none.mp hnone row hrow
    simp [hid] at this
  · next row hrow =>
    obtain ⟨hmem, hid⟩ := mem_of_find? hrow
    split at h
    · cases h
    · next hl =>
      split at h
      · next hp =>
        cases h
        exact .inr ⟨row, hmem, by simpa using hid, hp, Bool.eq_false_iff.mpr hl, rfl, rfl⟩
      · next hp =>
        cases h
        refine .inl ⟨rfl, rfl, fun row' hrow' hid' => ?_⟩
        have heq : row' = row :=
          eq_of_clash hrow' hmem (hkey row' row (by simp [hid']) hid)
        rw [heq]
        exact Bool.eq_false_iff.mpr hp

end Postgres

namespace TxStmt

variable {pg pg' : Postgres} {tid i : Nat}

theorem exec_begin {r : Except DbError Unit} (h : TxStmt.begin.exec tid pg = some (r, pg')) :
    r = .ok () ∧ pg'.tables = pg.tables ∧
      ∀ i, pg'.tx? i = if i = tid then some ⟨tid, [], [], false⟩ else pg.tx? i := by
  simp only [exec] at h
  obtain ⟨txs, hins, he⟩ := Option.map_eq_some_iff.mp h
  cases he
  refine ⟨rfl, rfl, fun i => ?_⟩
  simp only [tx?]
  rw [find?_insert hins]
  by_cases hi : i = tid
  · subst hi
    have hnone : pg.txs.find? (fun x => x.tid == i) = none := by
      refine find?_eq_none.mpr fun a ha => ?_
      have hc := clash_of_insert hins ha
      simpa [Keyed.clash] using hc
    simp [hnone]
  · simp [hi, Ne.symm hi]

theorem exec_commit {r : Except DbError Unit} (h : TxStmt.commit.exec tid pg = some (r, pg')) :
    ∃ x, pg.tx? tid = some x ∧ r = .ok () ∧
      (∀ i, pg'.tx? i = if i = tid then none else pg.tx? i) ∧
      pg'.tables = if x.aborted then pg.tables else
        { pg.tables with refreshTokens := x.view pg.tables.refreshTokens } := by
  simp only [exec, Postgres.commit] at h
  split at h
  · cases h
  · next x hx =>
    refine ⟨x, hx, ?_⟩
    split at h
    · next ha =>
      cases h
      exact ⟨rfl, fun i => Postgres.tx?_close, by rw [if_pos ha]; rfl⟩
    · next ha =>
      cases h
      exact ⟨rfl, fun i => Postgres.tx?_close, by rw [if_neg ha]; rfl⟩

/-- A statement of a transaction leaves the transactions of other threads alone, and only a
commit changes the tables. -/
theorem exec_frame {s : TxStmt} {r : Except DbError s.Res} (h : s.exec tid pg = some (r, pg')) :
    (∀ i ≠ tid, pg'.tx? i = pg.tx? i) ∧ (s ≠ .commit → pg'.tables = pg.tables) := by
  have hsame : (∀ i ≠ tid, pg.tx? i = pg.tx? i) ∧ (s ≠ .commit → pg.tables = pg.tables) :=
    ⟨fun _ _ => rfl, fun _ => rfl⟩
  have hrecord : ∀ locks ws, (∀ i ≠ tid, (pg.record tid locks ws).tx? i = pg.tx? i) ∧
      (s ≠ .commit → (pg.record tid locks ws).tables = pg.tables) :=
    fun _ _ => ⟨fun _ hi => (tx?_record _ _).trans (if_neg hi), fun _ => rfl⟩
  cases s with
  | begin =>
    obtain ⟨-, htables, htx⟩ := exec_begin h
    exact ⟨fun i hi => (htx i).trans (if_neg hi), fun _ => htables⟩
  | commit =>
    obtain ⟨x, -, -, htx, -⟩ := exec_commit h
    exact ⟨fun i hi => (htx i).trans (if_neg hi), fun hs => absurd rfl hs⟩
  | rollback =>
    cases h
    exact ⟨fun i hi => tx?_close.trans (if_neg hi), fun _ => rfl⟩
  | findForUpdate hash =>
    obtain ⟨x, -, ⟨-, -, rfl⟩ | ⟨-, h⟩⟩ := inTx_cases h
    · exact hsame
    · obtain ⟨-, rfl⟩ | ⟨row, -, -, -, -, rfl⟩ := findForUpdate_cases h
      · exact hsame
      · exact hrecord _ _
  | insertRefreshToken t =>
    obtain ⟨x, -, ⟨-, -, rfl⟩ | ⟨-, h⟩⟩ := inTx_cases h
    · exact hsame
    · obtain ⟨e, -, rfl⟩ | ⟨-, rfl, -⟩ := insertRefreshToken_cases h
      · exact ⟨fun i hi => tx?_abort.trans (if_neg hi), fun _ => rfl⟩
      · exact hrecord _ _
  | updateRevoked id revoked =>
    obtain ⟨⟨y, pg₁⟩, hy, he⟩ := Option.map_eq_some_iff.mp h
    cases he
    obtain ⟨x, -, ⟨-, -, rfl⟩ | ⟨-, h⟩⟩ := inTx_cases hy
    · exact hsame
    · obtain ⟨-, rfl, -⟩ | ⟨row, -, -, -, -, -, rfl⟩ := updateRow_cases h
      · exact hsame
      · exact hrecord _ _
  | familyScan sid =>
    obtain ⟨x, -, ⟨-, -, rfl⟩ | ⟨-, h⟩⟩ := inTx_cases h
    · exact hsame
    · cases h
      exact hsame
  | familyRow sid id =>
    obtain ⟨x, -, ⟨-, -, rfl⟩ | ⟨-, h⟩⟩ := inTx_cases h
    · exact hsame
    · obtain ⟨-, rfl, -⟩ | ⟨row, -, -, -, -, -, rfl⟩ := updateRow_cases h
      · exact hsame
      · exact hrecord _ _

/-- The same for a statement that fails. -/
theorem fail_frame (s : TxStmt) : (∀ i ≠ tid, (s.fail tid pg).tx? i = pg.tx? i) ∧
    (s.fail tid pg).tables = pg.tables := by
  cases s with
  | begin => exact ⟨fun _ _ => rfl, rfl⟩
  | commit | rollback => exact ⟨fun _ hi => tx?_close.trans (if_neg hi), rfl⟩
  | findForUpdate | insertRefreshToken | updateRevoked | familyScan | familyRow =>
    exact ⟨fun _ hi => tx?_abort.trans (if_neg hi), rfl⟩

/-- An error inside a transaction changes nothing or aborts it. -/
theorem exec_error {s : TxStmt} {e : DbError} (h : s.exec tid pg = some (.error e, pg')) :
    pg' = pg ∨ pg' = pg.abort tid := by
  cases s with
  | begin => cases (exec_begin h).1
  | commit =>
    obtain ⟨x, -, hr, -⟩ := exec_commit h
    cases hr
  | rollback => cases h
  | findForUpdate hash =>
    obtain ⟨x, -, ⟨-, -, rfl⟩ | ⟨-, h⟩⟩ := inTx_cases h
    · exact .inl rfl
    · obtain ⟨hr, -⟩ | ⟨row, -, -, -, hr, -⟩ := findForUpdate_cases h
      all_goals cases hr
  | insertRefreshToken t =>
    obtain ⟨x, -, ⟨-, -, rfl⟩ | ⟨-, h⟩⟩ := inTx_cases h
    · exact .inl rfl
    · obtain ⟨e, -, rfl⟩ | ⟨hr, -⟩ := insertRefreshToken_cases h
      · exact .inr rfl
      · cases hr
  | updateRevoked id revoked =>
    obtain ⟨⟨y, pg₁⟩, hy, he⟩ := Option.map_eq_some_iff.mp h
    obtain ⟨hr, rfl⟩ := Prod.mk.inj he
    obtain ⟨x, -, ⟨-, -, rfl⟩ | ⟨-, h⟩⟩ := inTx_cases hy
    · exact .inl rfl
    · obtain ⟨rfl, -⟩ | ⟨row, -, -, -, -, rfl, -⟩ := updateRow_cases h
      all_goals cases hr
  | familyScan sid =>
    obtain ⟨x, -, ⟨-, -, rfl⟩ | ⟨-, h⟩⟩ := inTx_cases h
    · exact .inl rfl
    · cases h
  | familyRow sid id =>
    obtain ⟨x, -, ⟨-, -, rfl⟩ | ⟨-, h⟩⟩ := inTx_cases h
    · exact .inl rfl
    · obtain ⟨hr, -⟩ | ⟨row, -, -, -, -, hr, -⟩ := updateRow_cases h
      all_goals cases hr

/-- A statement that fails changes nothing, aborts its transaction or ends it. -/
theorem fail_cases (s : TxStmt) :
    s.fail tid pg = pg ∨ s.fail tid pg = pg.abort tid ∨ s.fail tid pg = pg.close tid := by
  cases s with
  | begin => exact .inl rfl
  | commit | rollback => exact .inr (.inr rfl)
  | findForUpdate | insertRefreshToken | updateRevoked | familyScan | familyRow =>
    exact .inr (.inl rfl)

end TxStmt

/-! ## What a transaction sees -/

namespace OpenTx

variable {x : OpenTx} {t : Table RefreshToken}

/-- The writes of a transaction only revoke and insert. -/
def Revoking (ws : List Write) : Prop := ∀ id, Write.setRevoked id false ∉ ws

variable {ws : List Write} {r' : RefreshToken}

/-- A visible row is a committed one, possibly revoked, or one the transaction has inserted. -/
theorem mem_foldl_writes (hw : Revoking ws) (hr : r' ∈ ws.foldl Write.apply t) :
    (∃ r ∈ t, r' = r ∨ (r' = { r with revoked := true } ∧ Write.setRevoked r.id true ∈ ws)) ∨
      ∃ c, Write.insert c ∈ ws ∧ (r' = c ∨ r' = { c with revoked := true }) := by
  induction ws generalizing t with
  | nil => exact .inl ⟨r', hr, .inl rfl⟩
  | cons w ws ih =>
    have hw' : Revoking ws := fun id h => hw id (List.mem_cons_of_mem _ h)
    rcases ih hw' hr with ⟨r, hmem, hcase⟩ | ⟨c, hc, hcase⟩
    · cases w with
      | insert c =>
        have hold : r ∈ t ∨ r = c := by
          cases hins : t.insert c with
          | none => exact .inl (by simpa [Write.apply, hins] using hmem)
          | some t' =>
            have hmem' : r ∈ t' := by simpa [Write.apply, hins] using hmem
            exact (mem_insert hins).mp hmem'
        rcases hold with hold | rfl
        · refine .inl ⟨r, hold, ?_⟩
          rcases hcase with h | ⟨h, hset⟩
          · exact .inl h
          · exact .inr ⟨h, List.mem_cons_of_mem _ hset⟩
        · refine .inr ⟨r, List.mem_cons_self, ?_⟩
          rcases hcase with h | ⟨h, -⟩
          · exact .inl h
          · exact .inr h
      | setRevoked id revoked =>
        have htrue : revoked = true := by
          cases revoked
          · exact absurd List.mem_cons_self (hw id)
          · rfl
        subst htrue
        obtain ⟨r₀, hr₀, heq⟩ := mem_update.mp hmem
        split at heq
        · next hid =>
          have hid' : r₀.id = id := by simpa using hid
          subst heq
          refine .inl ⟨r₀, hr₀, .inr ⟨?_, by rw [hid']; exact List.mem_cons_self⟩⟩
          rcases hcase with h | ⟨h, -⟩
          · exact h
          · exact h
        · subst heq
          refine .inl ⟨r₀, hr₀, ?_⟩
          rcases hcase with h | ⟨h, hset⟩
          · exact .inl h
          · exact .inr ⟨h, List.mem_cons_of_mem _ hset⟩
    · exact .inr ⟨c, List.mem_cons_of_mem _ hc, hcase⟩

/-- A visible row belongs to the owner of a committed one, or of one the transaction has inserted. -/
theorem owner_of_mem_foldl (hr : r' ∈ ws.foldl Write.apply t) :
    (∃ r ∈ t, r'.owner = r.owner) ∨ ∃ c, Write.insert c ∈ ws ∧ r'.owner = c.owner := by
  induction ws generalizing t with
  | nil => exact .inl ⟨r', hr, rfl⟩
  | cons w ws ih =>
    rcases ih hr with ⟨r, hmem, how⟩ | ⟨c, hc, how⟩
    · cases w with
      | insert c =>
        cases hins : t.insert c with
        | none =>
          rw [Write.apply, hins] at hmem
          exact .inl ⟨r, hmem, how⟩
        | some t' =>
          rw [Write.apply, hins] at hmem
          rcases (mem_insert hins).mp hmem with hold | rfl
          · exact .inl ⟨r, hold, how⟩
          · exact .inr ⟨r, List.mem_cons_self, how⟩
      | setRevoked id revoked =>
        obtain ⟨r₀, hr₀, rfl⟩ := mem_update.mp hmem
        refine .inl ⟨r₀, hr₀, how.trans ?_⟩
        split
        · rfl
        · rfl
    · exact .inr ⟨c, List.mem_cons_of_mem _ hc, how⟩

/-- Once a row is revoked, writes that only revoke leave it revoked. -/
theorem foldl_keeps_revoked {id : Uuid} (hw : Revoking ws)
    (hc : ∀ c, Write.insert c ∈ ws → c.id ≠ id) (ht : ∀ r ∈ t, r.id = id → r.revoked = true)
    (hr : r' ∈ ws.foldl Write.apply t) (hid : r'.id = id) : r'.revoked = true := by
  rcases mem_foldl_writes hw hr with ⟨r, hmem, rfl | ⟨rfl, -⟩⟩ | ⟨c, hins, rfl | rfl⟩
  · exact ht _ hmem hid
  · rfl
  · exact absurd hid (hc _ hins)
  · rfl

/-- A row that is revoked by one of the writes is seen revoked. -/
theorem revoked_of_write {id : Uuid} (hw : Revoking ws) (hset : Write.setRevoked id true ∈ ws)
    (hc : ∀ c, Write.insert c ∈ ws → c.id ≠ id) (hr : r' ∈ ws.foldl Write.apply t)
    (hid : r'.id = id) :
    r'.revoked = true := by
  induction ws generalizing t with
  | nil => cases hset
  | cons w ws ih =>
    have hw' : Revoking ws := fun id h => hw id (List.mem_cons_of_mem _ h)
    have hc' : ∀ c, Write.insert c ∈ ws → c.id ≠ id :=
      fun c h => hc c (List.mem_cons_of_mem _ h)
    rcases List.mem_cons.mp hset with rfl | hset
    · refine foldl_keeps_revoked hw' hc' (fun r hr hid => ?_) hr hid
      obtain ⟨r₀, -, heq⟩ := mem_update.mp hr
      split at heq
      · rw [← heq]
        rfl
      · next hne =>
        rw [heq] at hne
        simp [hid] at hne
    · exact ih hw' hset hc' hr

/-- A committed row that a transaction has not written is visible to it as it is. -/
theorem mem_foldl_of_unwritten {r : RefreshToken} (hr : r ∈ t)
    (hw : ∀ b, Write.setRevoked r.id b ∉ ws) : r ∈ ws.foldl Write.apply t := by
  induction ws generalizing t with
  | nil => exact hr
  | cons w ws ih =>
    refine ih ?_ fun b h => hw b (List.mem_cons_of_mem _ h)
    cases w with
    | insert c =>
      cases hins : t.insert c with
      | none => simpa [Write.apply, hins] using hr
      | some t' => simpa [Write.apply, hins] using (mem_insert hins).mpr (.inl hr)
    | setRevoked id b =>
      refine mem_update.mpr ⟨r, hr, if_neg fun hid => ?_⟩
      have hid' : r.id = id := by simpa using hid
      exact hw b (by rw [hid']; exact List.mem_cons_self)

end OpenTx

end AuthServer
