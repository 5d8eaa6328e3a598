import AuthServer.Concurrent.Replay
import AuthServer.Role.Transactions

/-!
# The role hierarchy stays a forest

The walk of `set_parent` is made over rows that its transaction has locked. Until it commits, other
requests can only take edges away from them, so the new edge closes no cycle in the graph it is
added to.
-/

namespace AuthServer

open Storage Concurrent Graph Issues

/-- The parent of each role of a table. -/
def parents (t : Table Role) (a : Uuid) : Option Uuid :=
  (t.find? fun r => r.id == a).bind Role.parentId

section Parents

variable {t t' : Table Role} {a b child : Uuid} {q : Option Uuid} {role : Role}

theorem edge_parents : Edge (parents t) a b ↔ ∃ r ∈ t, r.id = a ∧ r.parentId = some b := by
  unfold Edge parents
  rw [Option.bind_eq_some_iff]
  refine exists_congr fun r => ?_
  rw [Table.find?_eq_some fun r₁ r₂ h₁ h₂ => ?_]
  · simp [and_assoc]
  · rw [beq_iff_eq] at h₁ h₂
    simp [Keyed.clash, h₁, h₂]

/-- A role without a parent adds no edge. -/
theorem parents_insert (h : t.insert role = some t') (hp : role.parentId = none) :
    parents t' = parents t := by
  funext a
  unfold parents
  rw [Table.find?_insert h]
  cases t.find? fun r => r.id == a with
  | some r => rfl
  | none =>
    rw [Option.none_or]
    split
    · exact hp
    · rfl

/-- A change of `parent_id` gives one role a new parent. -/
theorem edge_setParent
    (h : Edge (parents (t.update (fun r => r.id == child) (Role.setParent q))) a b) :
    Edge (Function.update (parents t) child q) a b := by
  obtain ⟨r', hr', rfl, hb⟩ := edge_parents.mp h
  obtain ⟨r, hr, rfl⟩ := Table.mem_update.mp hr'
  unfold Edge
  by_cases hid : r.id = child
  · rw [if_pos (beq_iff_eq.mpr hid)] at hb ⊢
    change Function.update (parents t) child q r.id = some b
    rw [hid, Function.update_self]
    exact hb
  · rw [if_neg (by rwa [beq_iff_eq])] at hb ⊢
    rw [Function.update_of_ne hid]
    exact edge_parents.mpr ⟨r, hr, rfl, hb⟩

/-- The map collected from the rows of a table is the parent map of the table. -/
theorem parentOf_rows :
    RoleRepository.parentOf (t.rows.map fun r => (r.id, r.parentId)) = parents t := by
  funext a
  have hkey : ∀ x ∈ (t.rows.map fun r => (r.id, r.parentId)).reverse, x.1 = a →
      x.2 = parents t a := by
    intro x hx ha
    obtain ⟨r, hr, rfl⟩ := List.mem_map.mp (List.mem_reverse.mp hx)
    have hfind : (t.find? fun r => r.id == a) = some r := by
      refine (Table.find?_eq_some fun r₁ r₂ h₁ h₂ => ?_).mpr ⟨hr, beq_iff_eq.mpr ha⟩
      rw [beq_iff_eq] at h₁ h₂
      simp [Keyed.clash, h₁, h₂]
    unfold parents
    rw [hfind]
    rfl
  unfold RoleRepository.parentOf
  cases hfind : (t.rows.map fun r => (r.id, r.parentId)).reverse.find? fun x => x.1 == a with
  | some x =>
    have hx := List.find?_some hfind
    exact hkey x (List.mem_of_find?_eq_some hfind) (beq_iff_eq.mp hx)
  | none =>
    have hnone : (t.find? fun r => r.id == a) = none := by
      refine Table.find?_eq_none.mpr fun r hr => ?_
      have hx := List.find?_eq_none.mp hfind (r.id, r.parentId)
        (List.mem_reverse.mpr (List.mem_map_of_mem hr))
      simpa using hx
    unfold parents
    rw [hnone]
    rfl

end Parents

/-! ## The walk -/

namespace RoleRepository

variable {all : List (Uuid × Option Uuid)} {child p : Uuid}

theorem mem_of_parentOf {a : Uuid} (h : parentOf all a ≠ none) : a ∈ all.map Prod.fst := by
  unfold parentOf at h
  cases hfind : all.reverse.find? fun r => r.1 == a with
  | none =>
    rw [hfind] at h
    exact absurd rfl h
  | some x =>
    have hx := List.find?_some hfind
    exact List.mem_map.mpr
      ⟨x, List.mem_reverse.mp (List.mem_of_find?_eq_some hfind), beq_iff_eq.mp hx⟩

/-- The walk comes to its result within as many rounds as there are rows, on any rows. -/
theorem walk_parentOf_ends : ∃ b, ∀ fuel, all.length + 2 ≤ fuel →
    walk (parentOf all) child fuel (some p) [] = some b := by
  have hends : ∃ b, walk (parentOf all) child (all.length + 2) (some p) [] = some b := by
    refine walk_ends (fun _ => mem_of_parentOf) List.nodup_nil (List.nil_subset _) ?_
    rw [List.length_map]
    exact le_rfl
  obtain ⟨b, hb⟩ := hends
  exact ⟨b, fun fuel hle => walk_mono hle hb⟩

theorem walk_eq_meetsCycle :
    walk (parentOf all) child (all.length + 2) (some p) [] = some (meetsCycle all child p) := by
  obtain ⟨b, hb⟩ : ∃ b, ∀ fuel, all.length + 2 ≤ fuel →
      walk (parentOf all) child fuel (some p) [] = some b := walk_parentOf_ends
  unfold meetsCycle
  rw [hb _ le_rfl]
  rfl

theorem not_reaches_of_meetsCycle (h : meetsCycle all child p = false) :
    ¬ Reaches (parentOf all) p child :=
  not_reaches_of_walk (h ▸ walk_eq_meetsCycle)

theorem reaches_of_meetsCycle (hac : Acyclic (parentOf all)) (h : meetsCycle all child p = true) :
    Reaches (parentOf all) p child :=
  reaches_of_walk hac (fun _ hs => absurd hs List.not_mem_nil) (h ▸ walk_eq_meetsCycle)

end RoleRepository

/-! ## The invariant -/

/-- The changes of an open transaction close no cycle: it has set at most one parent, after a walk
over the rows it has locked. -/
inductive RoleTx.Harmless (x : RoleTx) : Prop
  | unchanged (h : x.writes = [])
  | cleared {a : Uuid} (h : x.writes = [(a, none)])
  | moved {a p : Uuid} {all : List (Uuid × Option Uuid)} (h : x.writes = [(a, some p)])
      (hscan : x.scanned = some all) (hwalk : ¬ Reaches (RoleRepository.parentOf all) p a)

/-- The roles form a forest, at most one open transaction has locked them, and what it has seen still
covers the committed edges. -/
structure Kept (s : RoleStore) : Prop where
  acyclic : Acyclic (parents s.roles)
  single : ∀ i j x y, s.tx? i = some x → s.tx? j = some y → x.scanned ≠ none →
    y.scanned ≠ none → i = j
  covers : ∀ i x all, s.tx? i = some x → x.scanned = some all →
    ∀ a b, Edge (parents s.roles) a b → Edge (RoleRepository.parentOf all) a b
  harmless : ∀ i x, s.tx? i = some x → x.Harmless

/-- What a thread has made sure of before it issues a command. -/
def RoleTx.Ready (x : Option RoleTx) : RoleOp → Prop
  | .sql (.insert role) => role.parentId = none
  | .sql .selectForUpdate => ∃ y, x = some y ∧ y.writes = []
  | .sql (.updateParent parentId id) => ∃ y, x = some y ∧ y.writes = [] ∧
      ∀ p, parentId = some p → ∃ all, y.scanned = some all ∧
        ¬ Reaches (RoleRepository.parentOf all) p id
  | _ => True

namespace Kept

variable {s s' : RoleStore} {tid : Nat}

/-- Edges disappear, and transactions end, are opened or change neither what they have seen nor what
they have written. -/
theorem recede (hk : Kept s)
    (hroles : ∀ a b, Edge (parents s'.roles) a b → Edge (parents s.roles) a b)
    (htx : ∀ i x', s'.tx? i = some x' → (x'.scanned = none ∧ x'.writes = []) ∨
      ∃ x, s.tx? i = some x ∧ x'.scanned = x.scanned ∧ x'.writes = x.writes) : Kept s' := by
  have hscan : ∀ i x' all, s'.tx? i = some x' → x'.scanned = some all →
      ∃ x, s.tx? i = some x ∧ x.scanned = some all := by
    intro i x' all hx' hall
    rcases htx i x' hx' with ⟨hnone, -⟩ | ⟨x, hx, hseen, -⟩
    · rw [hall] at hnone
      cases hnone
    · exact ⟨x, hx, hseen ▸ hall⟩
  constructor
  · exact hk.acyclic.mono hroles
  · intro i j x' y' hx' hy' hxs hys
    obtain ⟨all, hall⟩ := Option.ne_none_iff_exists'.mp hxs
    obtain ⟨all', hall'⟩ := Option.ne_none_iff_exists'.mp hys
    obtain ⟨x, hx, hx₁⟩ := hscan i x' all hx' hall
    obtain ⟨y, hy, hy₁⟩ := hscan j y' all' hy' hall'
    exact hk.single i j x y hx hy (by simp [hx₁]) (by simp [hy₁])
  · intro i x' all hx' hall a b hab
    obtain ⟨x, hx, hx₁⟩ := hscan i x' all hx' hall
    exact hk.covers i x all hx hx₁ a b (hroles a b hab)
  · intro i x' hx'
    rcases htx i x' hx' with ⟨-, hnone⟩ | ⟨x, hx, hseen, hwritten⟩
    · exact .unchanged hnone
    · rcases hk.harmless i x hx with h | h | ⟨h, hall, hwalk⟩
      · exact .unchanged (hwritten.trans h)
      · exact .cleared (hwritten.trans h)
      · exact .moved (hwritten.trans h) (hseen.trans hall) hwalk

variable {x : RoleTx}

/-- A commit: the new edge was checked against rows that cover the present ones. -/
theorem commit (hk : Kept s) (hx : s.tx? tid = some x) (hroles : s'.roles = x.view s.roles)
    (htx : ∀ i, s'.tx? i = if i = tid then none else s.tx? i) : Kept s' := by
  have hother : ∀ i x', s'.tx? i = some x' → i ≠ tid ∧ s.tx? i = some x' := by
    intro i x' hx'
    rw [htx i] at hx'
    split at hx'
    · cases hx'
    · next hi => exact ⟨hi, hx'⟩
  have hstay : ∀ i x', s'.tx? i = some x' → (x'.scanned = none ∧ x'.writes = []) ∨
      ∃ x, s.tx? i = some x ∧ x'.scanned = x.scanned ∧ x'.writes = x.writes :=
    fun i x' hx' => .inr ⟨x', (hother i x' hx').2, rfl, rfl⟩
  unfold RoleTx.view at hroles
  rcases hk.harmless tid x hx with h | h | ⟨h, hall, hwalk⟩
  · rw [h] at hroles
    refine hk.recede (fun a b hab => ?_) hstay
    rw [hroles] at hab
    exact hab
  · rw [h] at hroles
    refine hk.recede (fun a b hab => ?_) hstay
    rw [hroles] at hab
    rcases edge_update (edge_setParent hab) with ⟨-, hnone⟩ | hold
    · cases hnone
    · exact hold
  · rw [h] at hroles
    have hcovers := hk.covers tid x _ hx hall
    -- no other transaction has locked the roles, so none has to cover the new edge
    have hnone : ∀ i x', s'.tx? i = some x' → x'.scanned = none := by
      intro i x' hx'
      obtain ⟨hi, hold⟩ := hother i x' hx'
      by_contra hs
      exact hi (hk.single i tid x' x hold hx hs (by simp [hall]))
    constructor
    · rw [hroles]
      exact (hk.acyclic.update fun hreach => hwalk (hreach.mono hcovers)).mono
        fun a b hab => edge_setParent hab
    · intro i j x' y' hx' _ hs
      exact absurd (hnone i x' hx') hs
    · intro i x' all hx' hs
      rw [hnone i x' hx'] at hs
      cases hs
    · intro i x' hx'
      exact hk.harmless i x' (hother i x' hx').2

/-- The scan: the rows are the committed ones, and no other transaction has locked a role. -/
theorem scan (hk : Kept s) {rows : List (Uuid × Option Uuid)} (hx : s.tx? tid = some x)
    (hw : x.writes = []) (hrows : rows = (x.view s.roles).rows.map fun r => (r.id, r.parentId))
    (hfree : ∀ i y, i ≠ tid → s.tx? i = some y → y.scanned = none ∧ y.writes = [])
    (hroles : s'.roles = s.roles)
    (htx : ∀ i, s'.tx? i = if i = tid then some ((RoleTx.scan rows).apply x) else s.tx? i) :
    Kept s' := by
  have hview : x.view s.roles = s.roles := by
    unfold RoleTx.view
    rw [hw]
    rfl
  have hother : ∀ i y, i ≠ tid → s'.tx? i = some y → y.scanned = none ∧ y.writes = [] := by
    intro i y hi hy
    rw [htx i, if_neg hi] at hy
    exact hfree i y hi hy
  have hself : ∀ y, s'.tx? tid = some y → y = (RoleTx.scan rows).apply x := by
    intro y hy
    rw [htx tid, if_pos rfl] at hy
    exact (Option.some.inj hy).symm
  have hmine : ∀ i y, s'.tx? i = some y → y.scanned ≠ none → i = tid := by
    intro i y hy hs
    by_contra hi
    exact hs (hother i y hi hy).1
  constructor
  · rw [hroles]
    exact hk.acyclic
  · intro i j y z hy hz hys hzs
    rw [hmine i y hy hys, hmine j z hz hzs]
  · intro i y all hy hall a b hab
    obtain rfl := hmine i y hy (by simp [hall])
    obtain rfl := hself y hy
    obtain rfl : rows = all := Option.some.inj hall
    rw [hrows, hview, parentOf_rows, ← hroles]
    exact hab
  · intro i y hy
    by_cases hi : i = tid
    · subst hi
      obtain rfl := hself y hy
      exact .unchanged hw
    · exact .unchanged (hother i y hi hy).2

/-- The first change of a transaction, after the walk if it sets a parent. -/
theorem write (hk : Kept s) {parentId : Option Uuid} {id : Uuid}
    (hx : s.tx? tid = some x) (hw : x.writes = [])
    (hwalk : ∀ p, parentId = some p → ∃ all, x.scanned = some all ∧
      ¬ Reaches (RoleRepository.parentOf all) p id)
    (hroles : s'.roles = s.roles)
    (htx : ∀ i, s'.tx? i = if i = tid then some ((RoleTx.write id parentId).apply x) else s.tx? i) :
    Kept s' := by
  have hseen : ∀ i y, s'.tx? i = some y → ∃ z, s.tx? i = some z ∧ y.scanned = z.scanned := by
    intro i y hy
    rw [htx i] at hy
    split at hy
    · next hi =>
      cases hy
      exact ⟨x, hi ▸ hx, rfl⟩
    · exact ⟨y, hy, rfl⟩
  constructor
  · rw [hroles]
    exact hk.acyclic
  · intro i j y z hy hz hys hzs
    obtain ⟨y₀, hy₀, hye⟩ := hseen i y hy
    obtain ⟨z₀, hz₀, hze⟩ := hseen j z hz
    exact hk.single i j y₀ z₀ hy₀ hz₀ (hye ▸ hys) (hze ▸ hzs)
  · intro i y all hy hall a b hab
    obtain ⟨y₀, hy₀, hye⟩ := hseen i y hy
    rw [hroles] at hab
    exact hk.covers i y₀ all hy₀ (hye ▸ hall) a b hab
  · intro i y hy
    rw [htx i] at hy
    split at hy
    · cases hy
      have hwrites : ((RoleTx.write id parentId).apply x).writes = [(id, parentId)] := by
        change x.writes ++ [(id, parentId)] = _
        rw [hw]
        rfl
      cases parentId with
      | none => exact .cleared hwrites
      | some p =>
        obtain ⟨all, hall, hno⟩ := hwalk p rfl
        exact .moved hwrites hall hno
    · exact hk.harmless i y hy

/-- A command that leaves what transactions have seen and written as it is. -/
theorem follow (hk : Kept s) {op : RoleOp} {r : RoleRes op}
    (hfollows : RoleStore.Follows tid s s' op r)
    (hroles : ∀ a b, Edge (parents s'.roles) a b → Edge (parents s.roles) a b)
    (hnext : ∀ x', RoleTx.next tid (s.tx? tid) op r = some x' →
      (x'.scanned = none ∧ x'.writes = []) ∨
        ∃ x, s.tx? tid = some x ∧ x'.scanned = x.scanned ∧ x'.writes = x.writes) : Kept s' := by
  refine hk.recede hroles fun i x' hx' => ?_
  rw [hfollows i] at hx'
  split at hx'
  · next hi =>
    subst hi
    exact hnext x' hx'
  · exact .inr ⟨x', hx', rfl, rfl⟩

/-- Every command of a thread that is ready for it keeps the invariant. -/
theorem exec (hk : Kept s) {op : RoleOp} {r : RoleRes op} {ch : Choice}
    (h : RoleStore.exec tid op ch s = some (r, s')) (hready : RoleTx.Ready (s.tx? tid) op) :
    Kept s' := by
  obtain ⟨hfollows, hchanges⟩ := RoleStore.exec_effect h
  have hsame : ∀ x', s.tx? tid = some x' → (x'.scanned = none ∧ x'.writes = []) ∨
      ∃ x, s.tx? tid = some x ∧ x'.scanned = x.scanned ∧ x'.writes = x.writes :=
    fun x' hx' => .inr ⟨x', hx', rfl, rfl⟩
  have habort : ∀ x', (s.tx? tid).map RoleTx.abort.apply = some x' →
      (x'.scanned = none ∧ x'.writes = []) ∨
        ∃ x, s.tx? tid = some x ∧ x'.scanned = x.scanned ∧ x'.writes = x.writes := by
    intro x' hx'
    obtain ⟨x, hx, rfl⟩ := Option.map_eq_some_iff.mp hx'
    exact .inr ⟨x, hx, rfl, rfl⟩
  cases hchanges with
  | inserted hroles =>
    have hparent : _ = none := hready
    exact hk.follow hfollows (fun a b hab => parents_insert hroles hparent ▸ hab) hsame
  | committed hx hroles => exact hk.commit hx hroles hfollows
  | same hroles =>
    have hedges : ∀ a b, Edge (parents s'.roles) a b → Edge (parents s.roles) a b :=
      fun a b hab => hroles ▸ hab
    cases op with
    | now | newUuid => exact hk.follow hfollows hedges hsame
    | sql q =>
      cases q with
      | findByName | insert => exact hk.follow hfollows hedges hsame
      | commit | rollback => exact hk.follow hfollows hedges nofun
      | begin =>
        cases r with
        | error e => exact hk.follow hfollows hedges hsame
        | ok _ =>
          refine hk.follow hfollows hedges fun x' hx' => .inl ?_
          cases hx'
          exact ⟨rfl, rfl⟩
      | advisoryLock =>
        cases r with
        | error e => exact hk.follow hfollows hedges habort
        | ok _ =>
          refine hk.follow hfollows hedges fun x' hx' => ?_
          obtain ⟨x, hx, rfl⟩ := Option.map_eq_some_iff.mp hx'
          exact .inr ⟨x, hx, rfl, rfl⟩
      | selectForUpdate =>
        cases r with
        | error e => exact hk.follow hfollows hedges habort
        | ok rows =>
          obtain ⟨x, hx, hrows, hfree⟩ := RoleStore.exec_scan h
          obtain ⟨y, hy, hw⟩ := hready
          cases hx.symm.trans hy
          refine hk.scan hx hw hrows hfree hroles fun i => ?_
          rw [hfollows i, hx]
          rfl
      | updateParent parentId id =>
        cases r with
        | error e => exact hk.follow hfollows hedges habort
        | ok n =>
          obtain ⟨y, hy, hw, hwalk⟩ := hready
          by_cases hn : @Eq Nat n 0
          · refine hk.follow hfollows hedges fun x' hx' => hsame x' ?_
            exact (if_pos hn).symm.trans hx'
          · refine hk.write hy hw hwalk hroles fun i => ?_
            rw [hfollows i, hy]
            congr 1
            exact if_neg hn

end Kept

/-! ## The programs are ready for what they issue -/

section Programs

open RoleHandler

variable {α β : Type} {tid : Nat} {es : List (Reply RoleRes)} {op : RoleOp}

theorem issues_rolePerform {op' : RoleOp} (h : Issues (perform op').run es op) :
    es = [] ∧ op = op' := by
  obtain ⟨k, h⟩ := h
  cases h with
  | refl => exact ⟨rfl, rfl⟩
  | call tail => cases tail

variable {q : RoleSql}

theorem issues_roleSql (h : Issues (sql q).run es op) : es = [] ∧ op = .sql q := by
  unfold sql at h
  rcases of_bindE h with h | ⟨es₁, es₂, r, rfl, -, h⟩
  · exact issues_rolePerform h
  · split at h
    · exact absurd h not_pure
    · exact absurd h not_pure

theorem returns_roleSql {x : q.Res} (h : Returns (sql q).run es (.ok x)) :
    es = [⟨.sql q, (.ok x : Except DbError q.Res)⟩] := by
  unfold sql at h
  obtain ⟨es₁, es₂, r, rfl, hperform, hret⟩ := h.seq
  split at hret
  · obtain ⟨rfl, rfl⟩ := hret.ret
    cases hperform with
    | call tail =>
      cases tail
      rfl
  · cases hret

/-- The transaction of a thread after a list of replies. -/
def RoleTx.replay (tid : Nat) (x : Option RoleTx) (es : List (Reply RoleRes)) : Option RoleTx :=
  es.foldl (fun x e => RoleTx.next tid x e.1 e.2) x

/-- Whatever its thread has done before, the program is ready for each of its commands. -/
def Careful (tid : Nat) (p : Prog RoleRes α) : Prop :=
  ∀ x es op, Issues p es op → RoleTx.Ready (RoleTx.replay tid x es) op

theorem Careful.pure (a : α) : Careful tid (.pure a) :=
  fun _ _ _ h => absurd h not_pure

theorem Careful.bindE {p : RoleHandler α} {f : α → RoleHandler β} (hp : Careful tid p.run)
    (hf : ∀ a, Careful tid (f a).run) : Careful tid (p >>= f).run := by
  intro x es op h
  rcases of_bindE h with h | ⟨es₁, es₂, a, rfl, -, h⟩
  · exact hp x es op h
  · rw [RoleTx.replay, List.foldl_append]
    exact hf a _ es₂ op h

theorem Careful.perform {op' : RoleOp} (h : ∀ x, RoleTx.Ready x op') :
    Careful tid (perform op').run := by
  intro x es op hi
  obtain ⟨rfl, rfl⟩ := issues_rolePerform hi
  exact h x

theorem Careful.sql (h : ∀ x, RoleTx.Ready x (.sql q)) : Careful tid (sql q).run := by
  intro x es op hi
  obtain ⟨rfl, rfl⟩ := issues_roleSql hi
  exact h x

theorem Careful.attempt {p : RoleHandler α} (hp : Careful tid p.run) :
    Careful tid (attempt p).run := by
  intro x es op h
  rcases of_bind h with h | ⟨es₁, es₂, a, rfl, -, h⟩
  · exact hp x es op h
  · exact absurd h not_pure

/-- The body of a transaction starts with a fresh one. -/
theorem Careful.transaction {body : RoleHandler α}
    (hbody : ∀ es op, Issues body.run es op → RoleTx.Ready (RoleTx.replay tid (some { tid }) es) op) :
    Careful tid (transaction body).run := by
  intro x es op h
  unfold RoleHandler.transaction at h
  rcases of_bindE h with h | ⟨es₁, es₂, _, rfl, hbegin, h⟩
  · exact Careful.sql (q := .begin) (fun _ => trivial) x es op h
  rw [returns_roleSql hbegin]
  change RoleTx.Ready (RoleTx.replay tid (some { tid }) es₂) op
  rcases of_bindE h with h | ⟨es₃, es₄, a, rfl, -, h⟩
  · rcases of_bind h with h | ⟨es₃, es₄, a, rfl, -, h⟩
    · exact hbody es₂ op h
    · exact absurd h not_pure
  · rw [RoleTx.replay, List.foldl_append]
    cases a with
    | ok a =>
      have hcommit : Careful tid (RoleHandler.sql .commit).run := Careful.sql fun _ => trivial
      have hreturn : Careful tid (ExceptT.pure a : RoleHandler α).run := Careful.pure _
      exact hcommit.bindE (fun _ => hreturn) _ es₄ op h
    | error e =>
      have hrollback : Careful tid (RoleHandler.perform (.sql .rollback)).run :=
        Careful.perform fun _ => trivial
      have hthrow : Careful tid (throw e : RoleHandler α).run := Careful.pure _
      exact hrollback.bindE (fun _ => hthrow) _ es₄ op h

open RoleRepository

/-- What the walk has established for the new parent. -/
theorem ready_of_guardCycle {childId : Uuid} {parentId : Option Uuid} {u : Unit}
    (h : Returns (guardCycle childId parentId).run es (.ok u)) :
    RoleTx.Ready (RoleTx.replay tid (some { tid }) es) (.sql (.updateParent parentId childId)) := by
  cases parentId with
  | none =>
    obtain ⟨rfl, -⟩ := h.ret
    exact ⟨_, rfl, rfl, fun _ hp => nomatch hp⟩
  | some p =>
    obtain ⟨es₁, es₂, all, rfl, hscan, hret⟩ := h.seq
    rw [returns_roleSql hscan]
    split at hret
    · cases hret
    · next hwalk =>
      obtain ⟨rfl, -⟩ := hret.ret
      refine ⟨_, rfl, rfl, fun p' hp' => ⟨all, rfl, ?_⟩⟩
      cases hp'
      exact not_reaches_of_meetsCycle (Bool.eq_false_iff.mpr hwalk)

theorem careful_setParent (childId : Uuid) (parentId : Option Uuid) :
    Careful tid (setParent childId parentId).run := by
  unfold setParent
  split
  · exact Careful.pure _
  · refine Careful.transaction fun es op h => ?_
    rcases of_bindE h with h | ⟨es₁, es₂, u, rfl, hguard, h⟩
    · cases parentId with
      | none => exact absurd h not_pure
      | some p =>
        rcases of_bindE h with h | ⟨es₁, es₂, all, rfl, -, h⟩
        · obtain ⟨rfl, rfl⟩ := issues_roleSql h
          exact ⟨_, rfl, rfl⟩
        · split at h
          · exact absurd h not_pure
          · exact absurd h not_pure
    · rcases of_bindE h with h | ⟨es₃, es₄, n, rfl, -, h⟩
      · obtain ⟨rfl, rfl⟩ := issues_roleSql h
        rw [List.append_nil]
        exact ready_of_guardCycle hguard
      · exact absurd h not_pure

theorem careful_ensureRole (name description : String) :
    Careful tid (RoleBootstrap.ensureRole name description).run := by
  refine Careful.bindE (Careful.sql fun _ => trivial) fun found => ?_
  cases found with
  | some role => exact Careful.pure _
  | none =>
    refine Careful.bindE (Careful.perform fun _ => trivial) fun id => ?_
    refine Careful.bindE (Careful.perform fun _ => trivial) fun createdAt => ?_
    exact Careful.sql fun _ => rfl

theorem careful_wireAdmin (admin user : Option Role) :
    Careful tid (RoleBootstrap.wireAdmin admin user).run := by
  unfold RoleBootstrap.wireAdmin
  split
  · split
    · exact Careful.bindE (careful_setParent _ _).attempt fun _ => Careful.pure _
    · exact Careful.pure _
  · exact Careful.pure _

theorem careful_ensureCoreRoles : Careful tid RoleBootstrap.ensureCoreRoles.run := by
  have hlock : Careful tid (transaction (sql .advisoryLock)).run := by
    refine Careful.transaction fun es op h => ?_
    obtain ⟨rfl, rfl⟩ := issues_roleSql h
    trivial
  refine Careful.bindE hlock fun _ => ?_
  refine Careful.bindE (careful_ensureRole _ _) fun _ => ?_
  refine Careful.bindE (careful_ensureRole _ _) fun _ => ?_
  refine Careful.bindE (Careful.sql fun _ => trivial) fun admin => ?_
  refine Careful.bindE (Careful.sql fun _ => trivial) fun user => ?_
  exact careful_wireAdmin admin user

end Programs

/-! ## Runs -/

/-- The calls of the runs: roles are inserted without a parent. -/
def RoleCall.Admitted : RoleCall → Prop
  | .persist role => role.parentId = none
  | _ => True

theorem careful_program {tid : Nat} {call : RoleCall} (h : call.Admitted) :
    Careful tid (roleServer.program call) := by
  cases call with
  | setParent childId parentId => exact careful_setParent childId parentId
  | persist role => exact Careful.sql fun _ => h
  | ensureCoreRoles => exact careful_ensureCoreRoles

/-- All interleavings of these calls; any statement can fail. -/
def roleRuns : Regime RoleRes RoleStore Choice RoleCall where
  admits := RoleCall.Admitted

/-- The transaction of every thread is what its replies have made it. -/
theorem tx?_of_run {s : RoleStore} (hidle : ∀ i, s.tx? i = none)
    {c : RoleConfig} (run : Run roleServer roleRuns (.start s) c) (i : Nat) :
    c.moment.world.tx? i = RoleTx.replay i none (c.moment.own i) := by
  refine run.invariant
    (J := fun c : RoleConfig => c.moment.world.tx? i = RoleTx.replay i none (c.moment.own i))
    (fun _ _ _ _ ih => ih) ?_ (hidle i)
  intro c₁ tid t op k ch r w _ ih _ _ _ hexec
  have hfollows := (RoleStore.exec_effect hexec).1 i
  change w.tx? i = RoleTx.replay i none ((c₁.moment.after tid op r w).own i)
  by_cases hi : i = tid
  · subst hi
    rw [hfollows, if_pos rfl, Moment.own_after_self, RoleTx.replay, List.foldl_append, ih]
    rfl
  · rw [hfollows, if_neg hi, Moment.own_after_of_ne hi]
    exact ih

theorem kept_of_run {s : RoleStore} (hidle : ∀ i, s.tx? i = none) (hac : Acyclic (parents s.roles))
    {c : RoleConfig} (run : Run roleServer roleRuns (.start s) c) : Kept c.moment.world := by
  refine run.invariant (J := fun c : RoleConfig => Kept c.moment.world) (fun _ _ _ _ ih => ih) ?_ ?_
  · intro c₁ tid t op k ch r w run₁ ih ht hp _ hexec
    have hlead := (run₁.replayed (Config.start_replayed s)).2 tid t ht
    rw [hp] at hlead
    have hadmit := run₁.admitted t (List.mem_of_getElem? ht)
    refine ih.exec hexec ?_
    rw [tx?_of_run hidle run₁ tid]
    exact careful_program hadmit none _ op ⟨k, hlead⟩
  · refine ⟨hac, fun i _ x _ hx => ?_, fun i x _ hx => ?_, fun i x hx => ?_⟩
    · cases (hidle i).symm.trans hx
    · cases (hidle i).symm.trans hx
    · cases (hidle i).symm.trans hx

end AuthServer
