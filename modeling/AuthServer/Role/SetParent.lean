import AuthServer.Concurrent.Sequential
import AuthServer.Role.Hierarchy

/-!
# The answer of `set_parent`

A call that runs alone on a forest answers with a cycle exactly when the child is the
new parent or one of its ancestors, and otherwise changes the parent of the child and
nothing else. The walk ends on every map of parents.
-/

namespace AuthServer

open Storage Concurrent Graph

open RoleHandler RoleRepository RoleStore

variable {R : Regime RoleRes RoleStore Choice RoleCall} {tid : Nat}
variable {m m' : Moment RoleRes RoleStore} {roles : Table Role}

/-- The regime lets statements fail for reasons outside the model. -/
def Failing (R : Regime RoleRes RoleStore Choice RoleCall) : Prop :=
  ∃ m tid op ch, R.allows m tid op ch ∧ ch.fail ≠ none

/-- The thread has a transaction with these changes over these roles. -/
structure Inside (tid : Nat) (roles : Table Role) (writes : List (Uuid × Option Uuid))
    (s : RoleStore) : Prop where
  roles : s.roles = roles
  tx : ∃ x, s.tx? tid = some x ∧ x.aborted = false ∧ x.writes = writes

variable {q : RoleSql} {s : RoleStore} {x : RoleTx} {y : Except RoleError Unit} {child p : Uuid}

/-- A statement fails and is propagated, or it is executed. -/
theorem alone_roleSql {y : Except RoleError q.Res} (h : Alone roleServer R tid (sql q).run m y m') :
    (Failing R ∧ ∃ e, y = .error (.db e) ∧ m'.world.roles = m.world.roles) ∨
      ∃ now r, q.exec tid { m.world with now } = some (r, m'.world) ∧
        y = r.mapError RoleError.db := by
  unfold sql at h
  rw [ExceptT.run_bind, Alone.bind_iff] at h
  obtain ⟨z, m₁, hperform, hret⟩ := h
  obtain ⟨ch, r, w, hallow, hexec, hpure⟩ := Alone.call_iff.mp hperform
  obtain ⟨rfl, rfl⟩ := Alone.pure_iff.mp hpure
  have hend : y = (r : Except DbError q.Res).mapError RoleError.db ∧ m' = m.after tid _ r w := by
    cases r with
    | ok x => exact Alone.pure_iff.mp hret
    | error e => exact Alone.pure_iff.mp hret
  obtain ⟨rfl, rfl⟩ := hend
  change RoleStore.exec tid (.sql q) ch m.world = some (r, w) at hexec
  simp only [RoleStore.exec] at hexec
  split at hexec
  · next text hfail =>
    cases hexec
    refine .inl ⟨⟨m, tid, _, ch, hallow, by simp [hfail]⟩, _, rfl, ?_⟩
    exact (RoleSql.fail_effect _ _ _ (e := .failure text)).2
  · exact .inr ⟨_, r, hexec, rfl⟩

theorem inside_onTx {f : Setter RoleTx} (hroles : s.roles = roles) (hx : s.tx? tid = some x)
    (hf : ∀ a, (f.apply a).tid = a.tid) (hab : (f.apply x).aborted = false)
    : Inside tid roles (f.apply x).writes (s.onTx tid f) := by
  refine ⟨hroles, f.apply x, ?_, hab, rfl⟩
  rw [tx?_onTx hf, if_pos rfl, hx]
  rfl

/-- Inside a transaction a statement is not refused. -/
theorem Inside.of_inTx {α : Type} {writes : List (Uuid × Option Uuid)} {s s' : RoleStore}
    {f : RoleTx → Option (Except DbError α × RoleStore)} {r : Except DbError α}
    (hin : Inside tid roles writes s) (h : s.inTx tid f = some (r, s')) :
    ∃ x, s.tx? tid = some x ∧ x.aborted = false ∧ x.writes = writes ∧ f x = some (r, s') := by
  obtain ⟨x, hx, hab, hw⟩ := hin.tx
  obtain ⟨x', hx', ⟨hab', -⟩ | ⟨-, hf⟩⟩ := inTx_cases h
  · cases hx.symm.trans hx'
    rw [hab] at hab'
    cases hab'
  · cases hx.symm.trans hx'
    exact ⟨x, hx, hab, hw, hf⟩

theorem alone_begin (h : Alone roleServer R tid (sql .begin).run m y m') :
    (Failing R ∧ ∃ e, y = .error (.db e) ∧ m'.world.roles = m.world.roles) ∨
      (y = .ok () ∧ Inside tid m.world.roles [] m'.world) := by
  rcases alone_roleSql h with hfail | ⟨now, r, hexec, rfl⟩
  · exact .inl hfail
  · obtain ⟨txs, htxs, heq⟩ := Option.map_eq_some_iff.mp hexec
    obtain ⟨rfl, hw⟩ := Prod.mk.inj heq
    refine .inr ⟨rfl, ?_⟩
    rw [← hw]
    exact ⟨rfl, { tid }, (tx?_begin htxs).trans (if_pos rfl), rfl, rfl⟩

theorem alone_scan {y : Except RoleError (List (Uuid × Option Uuid))}
    (hin : Inside tid roles [] m.world)
    (h : Alone roleServer R tid (sql .selectForUpdate).run m y m') :
    (Failing R ∧ ∃ e, y = .error (.db e) ∧ m'.world.roles = m.world.roles) ∨
      (y = .ok (roles.rows.map fun r => (r.id, r.parentId)) ∧ Inside tid roles [] m'.world) := by
  rcases alone_roleSql h with hfail | ⟨now, r, hexec, rfl⟩
  · exact .inl hfail
  · have hin' : Inside tid roles [] { m.world with now } := ⟨hin.roles, hin.tx⟩
    obtain ⟨x, hx, hab, hw, hf⟩ := hin'.of_inTx hexec
    obtain ⟨rfl, hworld, -⟩ := selectForUpdate_cases hf
    have hview : x.view m.world.roles = roles := by
      unfold RoleTx.view
      rw [hw, hin.roles]
      rfl
    refine .inr ⟨?_, ?_⟩
    · change Except.ok ((x.view m.world.roles).rows.map _) = _
      rw [hview]
    · rw [hworld, ← hw]
      exact inside_onTx (f := RoleTx.scan _) hin.roles hx (fun _ => rfl) hab

theorem alone_update {parentId : Option Uuid} {id : Uuid} {y : Except RoleError Nat}
    (hin : Inside tid roles [] m.world) (hid : m.world.hasRole id = true)
    (hparent : ∀ p, parentId = some p → m.world.hasRole p = true)
    (h : Alone roleServer R tid (sql (.updateParent parentId id)).run m y m') :
    (Failing R ∧ ∃ e, y = .error (.db e) ∧ m'.world.roles = m.world.roles) ∨
      (y = .ok 1 ∧ Inside tid roles [(id, parentId)] m'.world) := by
  rcases alone_roleSql h with hfail | ⟨now, r, hexec, rfl⟩
  · exact .inl hfail
  · have hin' : Inside tid roles [] { m.world with now } := ⟨hin.roles, hin.tx⟩
    obtain ⟨x, hx, hab, hw, hf⟩ := hin'.of_inTx hexec
    rcases updateParent_cases hf with ⟨-, hmiss, -⟩ | ⟨-, ⟨p, hp, hmiss⟩, -⟩ | ⟨rfl, hworld⟩
    · cases hmiss.symm.trans hid
    · cases hmiss.symm.trans (hparent p hp)
    · refine .inr ⟨rfl, ?_⟩
      have hwrites : [(id, parentId)] = ((RoleTx.write id parentId).apply x).writes := by
        change _ = x.writes ++ [(id, parentId)]
        rw [hw]
        rfl
      rw [hworld, hwrites]
      exact inside_onTx hin.roles hx (fun _ => rfl) hab

theorem alone_commit {id : Uuid} {parentId : Option Uuid}
    (hin : Inside tid roles [(id, parentId)] m.world)
    (h : Alone roleServer R tid (sql .commit).run m y m') :
    (Failing R ∧ ∃ e, y = .error (.db e) ∧ m'.world.roles = m.world.roles) ∨
      (y = .ok () ∧
        m'.world.roles = roles.update (fun r => r.id == id) (Role.setParent parentId)) := by
  rcases alone_roleSql h with hfail | ⟨now, r, hexec, rfl⟩
  · exact .inl hfail
  · obtain ⟨x, hx, hab, hw⟩ := hin.tx
    obtain ⟨x', hx', rfl, hworld⟩ := commit_cases hexec
    cases hx.symm.trans hx'
    refine .inr ⟨rfl, ?_⟩
    rw [hworld]
    change (if x.aborted then m.world.roles else x.view m.world.roles) = _
    rw [hab, RoleTx.view, hw, hin.roles]
    rfl

/-- The body of the transaction: the walk over the roles decides. -/
theorem alone_body
    (hin : Inside tid roles [] m.world) (hchild : m.world.hasRole child = true)
    (hp : m.world.hasRole p = true)
    (h : Alone roleServer R tid (do
      guardCycle child (some p)
      let _ ← sql (.updateParent (some p) child) : RoleHandler Unit).run m y m') :
    (Failing R ∧ ∃ e, y = .error (.db e) ∧ m'.world.roles = roles) ∨
      (meetsCycle (roles.rows.map fun r => (r.id, r.parentId)) child p = true ∧
        (∃ text, y = .error (.cycle text)) ∧ m'.world.roles = roles) ∨
      (meetsCycle (roles.rows.map fun r => (r.id, r.parentId)) child p = false ∧
        y = .ok () ∧ Inside tid roles [(child, some p)] m'.world) := by
  rcases h.bindE with ⟨e, rfl, hguard⟩ | ⟨u, m₁, hguard, hrest⟩
  · -- the scan fails, or the walk meets a cycle
    rcases hguard.bindE with ⟨e', he, hscan⟩ | ⟨rows, m₂, hscan, htest⟩
    · obtain rfl := Except.error.inj he
      rcases alone_scan hin hscan with ⟨hf, e', he', hroles⟩ | ⟨he', -⟩
      · exact .inl ⟨hf, e', congrArg Except.error (Except.error.inj he'), hroles.trans hin.roles⟩
      · cases he'
    · rcases alone_scan hin hscan with ⟨-, e', he', -⟩ | ⟨he', hin₂⟩
      · cases he'
      · cases he'
        split at htest
        · next hmeets =>
          obtain ⟨he, rfl⟩ := Alone.pure_iff.mp htest
          exact .inr (.inl ⟨hmeets, ⟨_, congrArg Except.error (Except.error.inj he)⟩, hin₂.roles⟩)
        · cases (Alone.pure_iff.mp htest).1
  · obtain ⟨rows, m₂, hscan, htest⟩ := hguard.seq
    rcases alone_scan hin hscan with ⟨-, e', he', -⟩ | ⟨he', hin₂⟩
    · cases he'
    cases he'
    split at htest
    · cases (Alone.pure_iff.mp htest).1
    next hmeets =>
    obtain ⟨-, rfl⟩ := Alone.pure_iff.mp htest
    have hhas : ∀ a, m.world.hasRole a = true → m₁.world.hasRole a = true := by
      intro a ha
      unfold hasRole
      rw [hin₂.roles, ← hin.roles]
      exact ha
    have hparent : ∀ p', some p = some p' → m₁.world.hasRole p' = true := by
      intro p' heq
      cases heq
      exact hhas p hp
    rcases hrest.bindE with ⟨e, rfl, hupdate⟩ | ⟨n, m₃, hupdate, hend⟩
    · rcases alone_update hin₂ (hhas child hchild) hparent hupdate with ⟨hf, e', he', hroles⟩ | ⟨he', -⟩
      · exact .inl ⟨hf, e', congrArg Except.error (Except.error.inj he'), hroles.trans hin₂.roles⟩
      · cases he'
    · rcases alone_update hin₂ (hhas child hchild) hparent hupdate with ⟨-, e', he', -⟩ | ⟨-, hin₃⟩
      · cases he'
      · obtain ⟨rfl, rfl⟩ := Alone.pure_iff.mp hend
        exact .inr (.inr ⟨Bool.eq_false_iff.mpr hmeets, rfl, hin₃⟩)

/-- A transaction fails to start, or its body runs and it is committed or rolled back. -/
theorem alone_transaction {body : RoleHandler Unit}
    (h : Alone roleServer R tid (transaction body).run m y m') :
    (Failing R ∧ ∃ e, y = .error (.db e) ∧ m'.world.roles = m.world.roles) ∨
      ∃ m₁ z m₂, Inside tid m.world.roles [] m₁.world ∧ Alone roleServer R tid body.run m₁ z m₂ ∧
        ((z = .ok () ∧ Alone roleServer R tid (sql .commit).run m₂ y m') ∨
          ∃ e, z = .error e ∧ y = .error e ∧ m'.world.roles = m₂.world.roles) := by
  rcases h.bindE with ⟨e, rfl, hbegin⟩ | ⟨u, m₁, hbegin, hrest⟩
  · rcases alone_begin hbegin with hfail | ⟨he, -⟩
    · exact .inl hfail
    · cases he
  rcases alone_begin hbegin with ⟨-, e, he, -⟩ | ⟨-, hin⟩
  · cases he
  obtain ⟨x, m₂, hattempt, hend⟩ := Alone.bind_iff.mp hrest
  obtain ⟨z, m₃, hbody, hpure⟩ := Alone.bind_iff.mp hattempt
  obtain ⟨rfl, rfl⟩ := Alone.pure_iff.mp hpure
  refine .inr ⟨m₁, z, m₂, hin, hbody, ?_⟩
  cases z with
  | ok v =>
    refine .inl ⟨rfl, ?_⟩
    rcases hend.bindE with ⟨e, rfl, hcommit⟩ | ⟨_, m₄, hcommit, hret⟩
    · exact hcommit
    · obtain ⟨rfl, rfl⟩ := Alone.pure_iff.mp hret
      exact hcommit
  | error e =>
    obtain ⟨c, m₄, hroll, hret⟩ := Alone.bind_iff.mp hend
    obtain ⟨ch, r, w, -, hexec, hpure⟩ := Alone.call_iff.mp hroll
    obtain ⟨rfl, rfl⟩ := Alone.pure_iff.mp hpure
    obtain ⟨rfl, rfl⟩ := Alone.pure_iff.mp hret
    refine .inr ⟨e, rfl, rfl, ?_⟩
    have hexec : RoleStore.exec tid (.sql .rollback) ch m₂.world = some (r, w) := hexec
    cases (exec_effect hexec).2 with
    | same hroles => exact hroles

/-- What `set_parent` with a new parent does. -/
structure SetsParent (child p : Uuid) (roles : Table Role) (y : Except RoleError Unit)
    (roles' : Table Role) : Prop where
  cycle : (∃ text, y = .error (.cycle text)) ↔ p = child ∨ Reaches (parents roles) p child
  refused : p = child ∨ Reaches (parents roles) p child → roles' = roles
  done : ¬ (p = child ∨ Reaches (parents roles) p child) →
    y = .ok () ∧ roles' = roles.update (fun r => r.id == child) (Role.setParent (some p))

theorem SetsParent.of_cycle {text : String} (h : p = child ∨ Reaches (parents roles) p child) :
    SetsParent child p roles (.error (.cycle text)) roles :=
  ⟨⟨fun _ => h, fun _ => ⟨text, rfl⟩⟩, fun _ => rfl, fun hno => absurd h hno⟩

theorem SetsParent.of_done {roles' : Table Role}
    (hno : ¬ (p = child ∨ Reaches (parents roles) p child))
    (hroles : roles' = roles.update (fun r => r.id == child) (Role.setParent (some p))) :
    SetsParent child p roles (.ok ()) roles' :=
  ⟨⟨fun ⟨_, h⟩ => (nomatch h), fun h => absurd h hno⟩, fun h => absurd h hno,
    fun _ => ⟨rfl, hroles⟩⟩

/-- On a forest that has both roles the call answers exactly, unless a statement fails; then the
roles stay as they are. -/
theorem alone_setParent (hac : Acyclic (parents m.world.roles))
    (hchild : m.world.hasRole child = true) (hp : m.world.hasRole p = true)
    (h : Alone roleServer R tid (setParent child (some p)).run m y m') :
    (Failing R ∧ ∃ e, y = .error (.db e) ∧ m'.world.roles = m.world.roles) ∨
      SetsParent child p m.world.roles y m'.world.roles := by
  unfold setParent at h
  split at h
  · next heq =>
    obtain ⟨rfl, rfl⟩ := Alone.pure_iff.mp h
    exact .inr (.of_cycle (.inl (Option.some.inj heq)))
  next hne =>
  rcases alone_transaction h with hfail | ⟨m₁, z, m₂, hin, hbody, hend⟩
  · exact .inl hfail
  have hhas : ∀ a, m.world.hasRole a = true → m₁.world.hasRole a = true := by
    intro a ha
    unfold hasRole
    rw [hin.roles]
    exact ha
  rcases alone_body hin (hhas child hchild) (hhas p hp) hbody with
    ⟨hf, e, rfl, hroles⟩ | ⟨hmeets, ⟨text, rfl⟩, hroles⟩ | ⟨hmeets, rfl, hin₂⟩
  · rcases hend with ⟨hz, -⟩ | ⟨e', he, rfl, hroles'⟩
    · cases hz
    · cases he
      exact .inl ⟨hf, e, rfl, hroles'.trans hroles⟩
  · rcases hend with ⟨hz, -⟩ | ⟨e', he, rfl, hroles'⟩
    · cases hz
    · cases he
      rw [hroles', hroles]
      have hreach := reaches_of_meetsCycle (parentOf_rows ▸ hac) hmeets
      exact .inr (.of_cycle (.inr (parentOf_rows ▸ hreach)))
  · rcases hend with ⟨-, hcommit⟩ | ⟨e', he, -⟩
    · rcases alone_commit hin₂ hcommit with ⟨hf, e, rfl, hroles⟩ | ⟨rfl, hroles⟩
      · exact .inl ⟨hf, e, rfl, hroles.trans hin₂.roles⟩
      · refine .inr (.of_done ?_ hroles)
        rintro (rfl | hreach)
        · exact hne rfl
        · exact not_reaches_of_meetsCycle hmeets (parentOf_rows ▸ hreach)
    · cases he

/-! The call is not blocked when no other transaction is open. -/

/-- No thread but this one has a transaction. -/
def Only (tid : Nat) (s : RoleStore) : Prop := ∀ i, i ≠ tid → s.tx? i = none

/-- The regime in which no statement fails. -/
def healthy : Regime RoleRes RoleStore Choice RoleCall where
  allows _ _ _ ch := ch.fail = none

theorem tx?_of_mem (hx : x ∈ s.txs) : s.tx? x.tid = some x :=
  (Table.find?_key fun _ _ h => decide_eq_true h).mpr ⟨hx, rfl⟩

theorem Only.anyOther (h : Only tid s) (f : RoleTx → Bool) :
    s.anyOther tid f = false := by
  refine List.any_eq_false.mpr fun x hx => ?_
  by_cases hi : x.tid = tid
  · simp [hi]
  · cases (h x.tid hi).symm.trans (tx?_of_mem hx)

/-- A statement of a thread that has the only transaction is executed. -/
theorem Only.exec (h : Only tid s) (hx : s.tx? tid = some x) (q : RoleSql) (hq : q ≠ .begin)
    : ∃ r s', q.exec tid s = some (r, s') := by
  have hin : ∀ {α : Type} (f : RoleTx → Option (Except DbError α × RoleStore)),
      (∃ y, f x = some y) → ∃ r s', s.inTx tid f = some (r, s') := by
    rintro α f ⟨⟨r, s'⟩, hf⟩
    unfold inTx
    rw [hx]
    dsimp only
    split
    · exact ⟨_, _, rfl⟩
    · exact ⟨r, s', hf⟩
  cases q with
  | begin => exact absurd rfl hq
  | findByName name => exact ⟨_, _, rfl⟩
  | insert role =>
    change ∃ r s', s.insert role = some (r, s')
    unfold RoleStore.insert
    split
    · exact ⟨_, _, rfl⟩
    · split
      · exact ⟨_, _, rfl⟩
      · exact ⟨_, _, rfl⟩
  | commit =>
    change ∃ r s', s.commit tid = some (r, s')
    unfold RoleStore.commit
    rw [hx]
    dsimp only
    split
    · exact ⟨_, _, rfl⟩
    · exact ⟨_, _, rfl⟩
  | rollback => exact ⟨_, _, rfl⟩
  | advisoryLock =>
    refine hin _ ?_
    rw [h.anyOther]
    exact ⟨_, rfl⟩
  | selectForUpdate =>
    refine hin _ ?_
    unfold RoleStore.selectForUpdate
    rw [h.anyOther]
    exact ⟨_, rfl⟩
  | updateParent parentId id =>
    refine hin _ ?_
    unfold RoleStore.updateParent
    rw [h.anyOther]
    split
    · exact ⟨_, rfl⟩
    · split
      · contradiction
      · split
        · exact ⟨_, rfl⟩
        · exact ⟨_, rfl⟩

/-- The thread has the only transaction. -/
def OnlyOpen (tid : Nat) (m : Moment RoleRes RoleStore) : Prop :=
  Only tid m.world ∧ ∃ x, m.world.tx? tid = some x

theorem OnlyOpen.after {op : RoleOp} {ch : Choice} {r : RoleRes op} {w : RoleStore}
    (h : OnlyOpen tid m) (hexec : RoleStore.exec tid op ch m.world = some (r, w))
    (hnext : ∀ x, ∃ y, RoleTx.next tid (some x) op r = some y) :
    OnlyOpen tid (m.after tid op r w) := by
  have hfollows := (exec_effect hexec).1
  obtain ⟨hother, x, hx⟩ := h
  constructor
  · intro i hi
    exact (hfollows i).trans ((if_neg hi).trans (hother i hi))
  · obtain ⟨y, hy⟩ := hnext x
    refine ⟨y, (hfollows tid).trans ?_⟩
    rw [if_pos rfl, hx, hy]

theorem progresses_roleSql {P Q : Moment RoleRes RoleStore → Prop}
    (h : ∀ m, P m → ∃ r w, RoleStore.exec tid (.sql q) {} m.world = some (r, w) ∧
      Q (m.after tid (.sql q) r w)) :
    Progresses roleServer healthy tid P (sql q).run Q := by
  refine Progresses.call (Q := Q) (fun m hm => ?_) fun r => ?_
  · obtain ⟨r, w, hexec, hq⟩ := h m hm
    exact ⟨{}, r, w, rfl, hexec, hq⟩
  · cases r with
    | ok x => exact Progresses.pure _ fun _ h => h
    | error e => exact Progresses.pure _ fun _ h => h

theorem progresses_begin :
    Progresses roleServer healthy tid (fun m => ∀ i, m.world.tx? i = none) (sql .begin).run
      (OnlyOpen tid) := by
  refine progresses_roleSql fun m hidle => ?_
  have hfresh : ∀ x ∈ m.world.txs.rows, Keyed.clash x ({ tid } : RoleTx) = false :=
    fun x hx => nomatch (hidle x.tid).symm.trans (tx?_of_mem hx)
  have hinsert : ∃ txs, m.world.txs.insert { tid } = some txs := ⟨_, dif_pos hfresh⟩
  obtain ⟨txs, htxs⟩ := hinsert
  have hexec : RoleStore.exec tid (.sql .begin) {} m.world = some ((.ok () : Except DbError Unit),
      { m.world with now := m.world.now + (({} : Choice).elapse : Nat), txs }) := by
    change Option.map _ (m.world.txs.insert { tid }) = _
    rw [htxs]
    rfl
  refine ⟨_, _, hexec, fun i hi => ?_, { tid }, ?_⟩
  · exact ((exec_effect hexec).1 i).trans ((if_neg hi).trans (hidle i))
  · exact ((exec_effect hexec).1 tid).trans (if_pos rfl)

/-- A statement of a thread that has the only transaction progresses. -/
theorem progresses_inside {Q : Moment RoleRes RoleStore → Prop} (hq : q ≠ .begin)
    (hQ : ∀ m r w, OnlyOpen tid m → RoleStore.exec tid (.sql q) {} m.world = some (r, w) →
      Q (m.after tid (.sql q) r w)) :
    Progresses roleServer healthy tid (OnlyOpen tid) (sql q).run Q := by
  refine progresses_roleSql fun m hm => ?_
  obtain ⟨hother, x, hx⟩ := hm
  have helapsed : Only tid { m.world with now := m.world.now + (({} : Choice).elapse : Nat) } :=
    hother
  obtain ⟨r, w, hexec⟩ := helapsed.exec hx q hq
  exact ⟨r, w, hexec, hQ m r w ⟨hother, x, hx⟩ hexec⟩

theorem progresses_guardCycle (childId : Uuid) (parentId : Option Uuid) :
    Progresses roleServer healthy tid (OnlyOpen tid) (guardCycle childId parentId).run
      (OnlyOpen tid) := by
  cases parentId with
  | none => exact Progresses.pure _ fun _ h => h
  | some p =>
    refine Progresses.bindE (progresses_inside nofun fun m r w hm hexec => ?_) (fun all => ?_)
      fun _ h => h
    · refine hm.after hexec fun x => ?_
      cases r with
      | ok rows => exact ⟨_, rfl⟩
      | error e => exact ⟨_, rfl⟩
    · split
      · exact Progresses.pure _ fun _ h => h
      · exact Progresses.pure _ fun _ h => h

theorem progresses_update (childId : Uuid) (parentId : Option Uuid) :
    Progresses roleServer healthy tid (OnlyOpen tid) (sql (.updateParent parentId childId)).run
      (OnlyOpen tid) := by
  refine progresses_inside nofun fun m r w hm hexec => hm.after hexec fun x => ?_
  cases r with
  | error e => exact ⟨_, rfl⟩
  | ok n =>
    by_cases hn : @Eq Nat n 0
    · exact ⟨x, if_pos hn⟩
    · exact ⟨_, if_neg hn⟩

theorem progresses_transaction {body : RoleHandler Unit}
    (hbody : Progresses roleServer healthy tid (OnlyOpen tid) body.run (OnlyOpen tid)) :
    Progresses roleServer healthy tid (fun m => ∀ i, m.world.tx? i = none) (transaction body).run
      fun _ => True := by
  refine progresses_begin.bindE (fun _ => ?_) fun _ _ => trivial
  have hattempt : Progresses roleServer healthy tid (OnlyOpen tid) (attempt body).run
      (OnlyOpen tid) :=
    hbody.bind fun x => Progresses.pure _ fun _ h => h
  refine hattempt.bindE (fun z => ?_) fun _ _ => trivial
  cases z with
  | ok v =>
    refine Progresses.bindE (Q := fun _ => True) ?_ (fun _ => ?_) fun _ _ => trivial
    · exact progresses_inside nofun fun _ _ _ _ _ => trivial
    · exact Progresses.pure _ fun _ _ => trivial
  | error e =>
    refine Progresses.call (Q := fun _ => True) (fun m _ => ?_) fun _ => ?_
    · exact ⟨{}, _, _, rfl, rfl, trivial⟩
    · exact Progresses.pure _ fun _ _ => trivial

theorem progresses_setParent (childId : Uuid) (parentId : Option Uuid) :
    Progresses roleServer healthy tid (fun m => ∀ i, m.world.tx? i = none)
      (setParent childId parentId).run fun _ => True := by
  unfold setParent
  split
  · exact Progresses.pure _ fun _ _ => trivial
  · refine progresses_transaction ?_
    refine (progresses_guardCycle childId parentId).bindE (fun _ => ?_) fun _ h => h
    refine (progresses_update childId parentId).bindE (fun _ => ?_) fun _ h => h
    exact Progresses.pure _ fun _ h => h

/-! ## The result -/

/-- The hierarchy stays a forest in every run, `set_parent` refuses exactly the edges that would
close a cycle, and its walk ends. -/
structure HierarchyKept : Prop where
  /-- In every state of every interleaving of the calls, from any forest of roles. -/
  acyclic : ∀ (s : RoleStore) (c : RoleConfig), (∀ i, s.tx? i = none) → Acyclic (parents s.roles) →
    Run roleServer roleRuns (.start s) c → Acyclic (parents c.moment.world.roles)
  /-- The answer on a forest that contains both roles, while no statement fails. -/
  decides : ∀ (tid : Nat) (m m' : Moment RoleRes RoleStore) (child p : Uuid)
    (y : Except RoleError Unit), Acyclic (parents m.world.roles) → m.world.hasRole child = true →
    m.world.hasRole p = true →
    Alone roleServer healthy tid (setParent child (some p)).run m y m' →
    SetsParent child p m.world.roles y m'.world.roles
  /-- A failing statement leaves the roles as they are. -/
  fails : ∀ (tid : Nat) (m m' : Moment RoleRes RoleStore) (child p : Uuid)
    (y : Except RoleError Unit), Acyclic (parents m.world.roles) → m.world.hasRole child = true →
    m.world.hasRole p = true →
    Alone roleServer roleRuns tid (setParent child (some p)).run m y m' →
    (∃ e, y = .error (.db e) ∧ m'.world.roles = m.world.roles) ∨
      SetsParent child p m.world.roles y m'.world.roles
  /-- There is an answer whenever no transaction is open. -/
  answers : ∀ (tid : Nat) (m : Moment RoleRes RoleStore) (child : Uuid) (parentId : Option Uuid),
    (∀ i, m.world.tx? i = none) →
    ∃ y m', Alone roleServer healthy tid (setParent child parentId).run m y m'
  /-- The walk ends on every list of rows, with one result however long it may go on. -/
  ends : ∀ (all : List (Uuid × Option Uuid)) (child p : Uuid),
    ∃ b, ∀ fuel, all.length + 2 ≤ fuel → walk (parentOf all) child fuel (some p) [] = some b

theorem hierarchy_kept : HierarchyKept where
  acyclic _ _ hidle hac run := (kept_of_run hidle hac run).acyclic
  decides tid m m' child p y hac hchild hp h := by
    rcases alone_setParent hac hchild hp h with ⟨⟨_, _, _, ch, hallow, hfail⟩, -⟩ | hsets
    · exact absurd hallow hfail
    · exact hsets
  fails tid m m' child p y hac hchild hp h := by
    rcases alone_setParent hac hchild hp h with ⟨-, hfail⟩ | hsets
    · exact .inl hfail
    · exact .inr hsets
  answers tid m child parentId hidle := by
    obtain ⟨y, m', h, -⟩ := progresses_setParent child parentId m hidle
    exact ⟨y, m', h⟩
  ends _ _ _ := walk_parentOf_ends

end AuthServer
