import AuthServer.Role.Repository

/-!
# Open transactions of the role repository

What each command does to the committed roles and to the open transactions: a
transaction follows the replies its thread receives.
-/

namespace AuthServer

open Storage

namespace RoleStore

variable {s s' : RoleStore} {tid i : Nat} {x : RoleTx}

theorem tx?_onTx {f : Setter RoleTx} (hf : ∀ a, (f.apply a).tid = a.tid) :
    (s.onTx tid f).tx? i = if i = tid then (s.tx? tid).map f.apply else s.tx? i :=
  Table.find?_update_key hf

theorem tx?_close : (s.close tid).tx? i = if i = tid then none else s.tx? i := Table.find?_delete_key

theorem tx?_begin {txs : Table RoleTx} (h : s.txs.insert { tid } = some txs) :
    { s with txs }.tx? i = if i = tid then some { tid } else s.tx? i :=
  Table.find?_insert_key (fun _ _ h => decide_eq_true h) h

theorem anyOther_eq_false {p : RoleTx → Bool} (h : s.anyOther tid p = false) (hi : i ≠ tid)
    (hx : s.tx? i = some x) : p x = false := by
  obtain ⟨hmem, hid⟩ := Table.mem_of_find? hx
  have hne : (x.tid != tid) = true := by
    rw [beq_iff_eq.mp hid]
    exact bne_iff_ne.mpr hi
  have hany := List.any_eq_false.mp h x hmem
  rw [hne, Bool.true_and] at hany
  exact Bool.eq_false_iff.mpr hany

end RoleStore

/-- The transaction of a thread after a reply. -/
def RoleTx.next (tid : Nat) (x : Option RoleTx) : (op : RoleOp) → RoleRes op → Option RoleTx
  | .sql .begin, .ok _ => some { tid }
  | .sql .commit, _ => none
  | .sql .rollback, _ => none
  | .sql .advisoryLock, .ok _ => x.map RoleTx.takeAdvisory.apply
  | .sql .advisoryLock, .error _ => x.map RoleTx.abort.apply
  | .sql .selectForUpdate, .ok rows => x.map (RoleTx.scan rows).apply
  | .sql .selectForUpdate, .error _ => x.map RoleTx.abort.apply
  | .sql (.updateParent parentId id), .ok (n : Nat) =>
    if n = 0 then x else x.map (RoleTx.write id parentId).apply
  | .sql (.updateParent _ _), .error _ => x.map RoleTx.abort.apply
  | _, _ => x

namespace RoleStore

variable {α : Type} {s s' : RoleStore} {tid : Nat} {ch : Choice}

/-- A statement is executed inside a transaction that has not been aborted, or it is refused. -/
theorem inTx_cases {f : RoleTx → Option (Except DbError α × RoleStore)} {r : Except DbError α}
    (h : s.inTx tid f = some (r, s')) :
    ∃ x, s.tx? tid = some x ∧
      ((x.aborted = true ∧ r = .error .transactionAborted ∧ s' = s) ∨
        (x.aborted = false ∧ f x = some (r, s'))) := by
  unfold inTx at h
  split at h
  · cases h
  · next x hx =>
    refine ⟨x, hx, ?_⟩
    split at h
    · next hab =>
      cases h
      exact .inl ⟨hab, rfl, rfl⟩
    · next hab => exact .inr ⟨Bool.eq_false_iff.mpr hab, h⟩

theorem selectForUpdate_cases {x : RoleTx} {r : Except DbError (List (Uuid × Option Uuid))}
    (h : s.selectForUpdate tid x = some (r, s')) :
    let rows := (x.view s.roles).rows.map fun r => (r.id, r.parentId)
    r = .ok rows ∧ s' = s.onTx tid (RoleTx.scan rows) ∧
      ∀ i y, i ≠ tid → s.tx? i = some y → y.scanned = none ∧ y.writes = [] := by
  unfold selectForUpdate at h
  split at h
  · cases h
  · next hfree =>
    cases h
    refine ⟨rfl, rfl, fun i y hi hy => ?_⟩
    have hlock := anyOther_eq_false (Bool.eq_false_iff.mpr hfree) hi hy
    simpa using hlock

theorem updateParent_cases {q : Option Uuid} {id : Uuid} {r : Except DbError Nat}
    (h : s.updateParent tid q id = some (r, s')) :
    (r = .ok 0 ∧ s.hasRole id = false ∧ s' = s) ∨
      (r = .error .foreignKeyViolation ∧ (∃ p, q = some p ∧ s.hasRole p = false) ∧
        s' = s.onTx tid RoleTx.abort) ∨
      (r = .ok 1 ∧ s' = s.onTx tid (RoleTx.write id q)) := by
  unfold updateParent at h
  split at h
  · next hmiss =>
    cases h
    exact .inl ⟨rfl, by simpa using hmiss, rfl⟩
  split at h
  · cases h
  split at h
  · next hparent =>
    cases h
    obtain ⟨p, rfl, hp⟩ := (Option.any_eq_true _ _).mp hparent
    exact .inr (.inl ⟨rfl, ⟨p, rfl, by simpa using hp⟩, rfl⟩)
  · cases h
    exact .inr (.inr ⟨rfl, rfl⟩)

theorem commit_cases {r : Except DbError Unit} (h : s.commit tid = some (r, s')) :
    ∃ x, s.tx? tid = some x ∧ r = .ok () ∧
      s' = { s.close tid with roles := if x.aborted then s.roles else x.view s.roles } := by
  unfold commit at h
  split at h
  · cases h
  · next x hx =>
    refine ⟨x, hx, ?_⟩
    split at h
    · next hab =>
      cases h
      rw [if_pos hab]
      exact ⟨rfl, rfl⟩
    · next hab =>
      cases h
      rw [if_neg hab]
      exact ⟨rfl, rfl⟩

theorem insert_cases {role : Role} {r : Except DbError Unit} (h : s.insert role = some (r, s')) :
    s' = s ∨ ∃ roles, s.roles.insert role = some roles ∧ s' = { s with roles } := by
  unfold insert at h
  split at h
  · cases h
    exact .inl rfl
  · next roles hroles =>
    split at h
    · cases h
      exact .inl rfl
    · cases h
      exact .inr ⟨roles, hroles, rfl⟩

/-- What a command can do to the committed roles. -/
inductive Changes (tid : Nat) (s s' : RoleStore) : RoleOp → Prop
  | same {op : RoleOp} (h : s'.roles = s.roles) : Changes tid s s' op
  | committed {x : RoleTx} (hx : s.tx? tid = some x) (h : s'.roles = x.view s.roles) :
      Changes tid s s' (.sql .commit)
  | inserted {role : Role} (h : s.roles.insert role = some s'.roles) :
      Changes tid s s' (.sql (.insert role))

/-- What a command does to the open transactions: that of its thread follows the reply. -/
def Follows (tid : Nat) (s s' : RoleStore) (op : RoleOp) (r : RoleRes op) : Prop :=
  ∀ i, s'.tx? i = if i = tid then RoleTx.next tid (s.tx? tid) op r else s.tx? i

theorem follows_same {op : RoleOp} {r : RoleRes op} (hs : ∀ i, s'.tx? i = s.tx? i)
    (hnext : RoleTx.next tid (s.tx? tid) op r = s.tx? tid) : Follows tid s s' op r := by
  intro i
  split
  · next hi => rw [hnext, hi, hs]
  · exact hs i

theorem follows_aborted {op : RoleOp} {r : RoleRes op} {x : RoleTx} (hx : s.tx? tid = some x)
    (hab : x.aborted = true)
    (hnext : RoleTx.next tid (s.tx? tid) op r = (s.tx? tid).map RoleTx.abort.apply) :
    Follows tid s s op r := by
  refine follows_same (fun _ => rfl) ?_
  rw [hnext, hx, Option.map_some]
  obtain ⟨_, _, _, _, aborted⟩ := x
  obtain rfl : aborted = true := hab
  rfl

end RoleStore

open RoleStore in
theorem RoleSql.exec_effect {s s' : RoleStore} {tid : Nat} {q : RoleSql} {r : Except DbError q.Res}
    (h : q.exec tid s = some (r, s')) :
    Follows tid s s' (.sql q) r ∧ Changes tid s s' (.sql q) := by
  cases q with
  | findByName name =>
    cases h
    exact ⟨follows_same (fun _ => rfl) rfl, .same rfl⟩
  | insert role =>
    rcases insert_cases h with rfl | ⟨roles, hroles, rfl⟩
    · exact ⟨follows_same (fun _ => rfl) rfl, .same rfl⟩
    · exact ⟨follows_same (fun _ => rfl) rfl, .inserted hroles⟩
  | begin =>
    obtain ⟨txs, htxs, heq⟩ := Option.map_eq_some_iff.mp h
    cases heq
    exact ⟨fun i => tx?_begin htxs, .same rfl⟩
  | commit =>
    obtain ⟨x, hx, rfl, rfl⟩ := commit_cases h
    refine ⟨fun i => tx?_close, ?_⟩
    cases hab : x.aborted with
    | true => exact .same (by simp)
    | false => exact .committed hx (by simp)
  | rollback =>
    cases h
    exact ⟨fun i => tx?_close, .same rfl⟩
  | advisoryLock =>
    obtain ⟨x, hx, ⟨hab, rfl, rfl⟩ | ⟨-, hf⟩⟩ := inTx_cases h
    · exact ⟨follows_aborted hx hab rfl, .same rfl⟩
    · split at hf
      · cases hf
      · cases hf
        exact ⟨fun i => tx?_onTx fun _ => rfl, .same rfl⟩
  | selectForUpdate =>
    obtain ⟨x, hx, ⟨hab, rfl, rfl⟩ | ⟨-, hf⟩⟩ := inTx_cases h
    · exact ⟨follows_aborted hx hab rfl, .same rfl⟩
    · obtain ⟨rfl, rfl, -⟩ := selectForUpdate_cases hf
      exact ⟨fun i => tx?_onTx fun _ => rfl, .same rfl⟩
  | updateParent parentId id =>
    obtain ⟨x, hx, ⟨hab, rfl, rfl⟩ | ⟨-, hf⟩⟩ := inTx_cases h
    · exact ⟨follows_aborted hx hab rfl, .same rfl⟩
    · rcases updateParent_cases hf with ⟨rfl, -, rfl⟩ | ⟨rfl, -, rfl⟩ | ⟨rfl, rfl⟩
      · exact ⟨follows_same (fun _ => rfl) rfl, .same rfl⟩
      · exact ⟨fun i => tx?_onTx fun _ => rfl, .same rfl⟩
      · exact ⟨fun i => tx?_onTx fun _ => rfl, .same rfl⟩

open RoleStore in
theorem RoleSql.fail_effect (s : RoleStore) (tid : Nat) (q : RoleSql) {e : DbError} :
    Follows tid s (q.fail tid s) (.sql q) (.error e : Except DbError q.Res) ∧
      (q.fail tid s).roles = s.roles := by
  cases q with
  | findByName | insert | begin => exact ⟨follows_same (fun _ => rfl) rfl, rfl⟩
  | commit | rollback => exact ⟨fun i => tx?_close, rfl⟩
  | advisoryLock | selectForUpdate | updateParent =>
    exact ⟨fun i => tx?_onTx fun _ => rfl, rfl⟩

namespace RoleStore

variable {s s' : RoleStore} {tid : Nat} {ch : Choice}

theorem exec_effect {op : RoleOp} {r : RoleRes op} (h : exec tid op ch s = some (r, s')) :
    Follows tid s s' op r ∧ Changes tid s s' op := by
  cases op with
  | sql q =>
    simp only [exec] at h
    split at h
    · cases h
      obtain ⟨hfollows, hroles⟩ :=
        RoleSql.fail_effect { s with now := s.now + ch.elapse } tid q
      exact ⟨hfollows, .same hroles⟩
    · obtain ⟨hfollows, hchanges⟩ := RoleSql.exec_effect h
      refine ⟨hfollows, ?_⟩
      cases hchanges with
      | same hroles => exact .same hroles
      | committed hx hroles => exact .committed hx hroles
      | inserted hroles => exact .inserted hroles
  | now =>
    cases h
    exact ⟨follows_same (fun _ => rfl) rfl, .same rfl⟩
  | newUuid =>
    simp only [exec] at h
    split at h
    · cases h
    · cases h
      exact ⟨follows_same (fun _ => rfl) rfl, .same rfl⟩

/-- The locking scan returns the roles as its transaction sees them, while no other transaction has
locked or changed a role. -/
theorem exec_scan {rows : List (Uuid × Option Uuid)}
    (h : exec tid (.sql .selectForUpdate) ch s =
      some ((.ok rows : Except DbError (List (Uuid × Option Uuid))), s')) :
    ∃ x, s.tx? tid = some x ∧ rows = (x.view s.roles).rows.map (fun r => (r.id, r.parentId)) ∧
      ∀ i y, i ≠ tid → s.tx? i = some y → y.scanned = none ∧ y.writes = [] := by
  simp only [exec] at h
  split at h
  · cases (Prod.mk.inj (Option.some.inj h)).1
  · obtain ⟨x, hx, ⟨-, hr, -⟩ | ⟨-, hf⟩⟩ := inTx_cases h
    · cases hr
    · obtain ⟨hr, -, hfree⟩ := selectForUpdate_cases hf
      exact ⟨x, hx, Except.ok.inj hr, hfree⟩

end RoleStore

end AuthServer
