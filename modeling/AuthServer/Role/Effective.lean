import AuthServer.Alone
import AuthServer.Graph.Parents

/-!
# Effective roles

The names that a user's roles stand for are those of the assigned roles and of all their ancestors.
The walk of the source is a recursion over a visited set that all assigned roles share. It always
comes to an end, and an early stop at a visited role loses no ancestor: whatever has been visited
has its ancestors visited too, but for the chain the walk is on.
-/

namespace AuthServer

open Concurrent Handler Storage Graph RoleRepository

namespace EffectiveRoles

/-- A step from a role to its parent that stays inside the table. -/
def ParentStep (t : Table Role) (a b : Role) : Prop := a ∈ t ∧ b ∈ t ∧ a.parentId = some b.id

/-- The names are, without duplicates, those of the roles and of their ancestors in the table. -/
structure Closure (t : Table Role) (direct : List Role) (names : List String) : Prop where
  nodup : names.Nodup
  mem : ∀ name, name ∈ names ↔
    ∃ d ∈ direct, ∃ r, Relation.ReflTransGen (ParentStep t) d r ∧ r.name = name

/-- `sink.push` of a name that is not there yet. -/
def addName (sink : List String) (name : String) : List String :=
  if sink.contains name then sink else sink ++ [name]

/-- The parent of a role in a list of roles. -/
def parentOf (all : List Role) (role : Role) : Option Role :=
  role.parentId.bind fun p => all.find? fun r => r.id == p

/-- `walk_ancestors` as the recursion it is, without a bound on its depth. -/
inductive Walks (all : List Role) :
    Role → List String × List Uuid → List String × List Uuid → Prop
  | visited {role sink visited} (h : role.id ∈ visited) :
      Walks all role (sink, visited) (sink, visited)
  | last {role sink visited} (h : role.id ∉ visited) (hp : parentOf all role = none) :
      Walks all role (sink, visited) (addName sink role.name, role.id :: visited)
  | next {role parent sink visited out} (h : role.id ∉ visited)
      (hp : parentOf all role = some parent)
      (tail : Walks all parent (addName sink role.name, role.id :: visited) out) :
      Walks all role (sink, visited) out

/-- The loop over the assigned roles. -/
inductive WalksAll (all : List Role) :
    List Role → List String × List Uuid → List String × List Uuid → Prop
  | nil (acc) : WalksAll all [] acc acc
  | cons {role roles acc acc₁ out} (head : Walks all role acc acc₁)
      (tail : WalksAll all roles acc₁ out) : WalksAll all (role :: roles) acc out

/-- The roles assigned to a user. -/
def assigned (t : Tables) (userId : Uuid) : List Role :=
  t.roles.select fun r => t.userRoles.rows.any fun ur => ur.userId == userId && ur.roleId == r.id

/-- Effective roles are exactly the closure of the assigned roles under parents. -/
structure Exact (env : Env) : Prop where
  terminates : ∀ (t : Table Role) (direct : List Role), (∀ r ∈ direct, r ∈ t) →
    ∃ visited, ∀ out, WalksAll t.rows direct ([], []) out ↔
      out = (RoleRepository.effectiveNames direct t.rows, visited)
  closure : ∀ (t : Table Role) (direct : List Role), (∀ r ∈ direct, r ∈ t) →
    Closure t direct (RoleRepository.effectiveNames direct t.rows)
  unordered : ∀ (t : Table Role) (direct direct' : List Role), (∀ r ∈ direct, r ∈ t) →
    (∀ r, r ∈ direct' ↔ r ∈ direct) → ∀ name,
      name ∈ RoleRepository.effectiveNames direct' t.rows ↔
        name ∈ RoleRepository.effectiveNames direct t.rows
  answers : ∀ tid m userId, ∃ names m', Alone (server env) frozen tid
    (RoleRepository.findEffectiveNamesByUserId userId).run m (.ok names) m'
  answer : ∀ R tid m m' userId names, Alone (server env) R tid
    (RoleRepository.findEffectiveNamesByUserId userId).run m (.ok names) m' →
    Closure m.world.pg.tables.roles (assigned m.world.pg.tables userId) names

section Walk

variable {t : Table Role} {role r a b : Role} {sink : List String} {visited : List Uuid} {fuel : Nat}
variable {acc acc' out out' : List String × List Uuid} {direct : List Role}

/-! ## The walk on ids -/

/-- The parent of an id, if both are in the table. -/
def parentId (t : Table Role) (id : Uuid) : Option Uuid :=
  (t.find? fun r => r.id == id).bind fun r => (parentOf t.rows r).map Role.id

theorem find?_id (hr : r ∈ t) : (t.find? fun r' => r'.id == r.id) = some r :=
  (Table.find?_key fun _ _ h => decide_eq_true (.inl h)).mpr ⟨hr, rfl⟩

theorem eq_of_id (ha : a ∈ t) (hb : b ∈ t) (h : a.id = b.id) : a = b :=
  Table.eq_of_clash ha hb (decide_eq_true (.inl h))

theorem parentId_of_mem (hr : r ∈ t) : parentId t r.id = (parentOf t.rows r).map Role.id := by
  rw [parentId, find?_id hr]
  rfl

theorem parentOf_eq_some : parentOf t.rows a = some b ↔ b ∈ t ∧ a.parentId = some b.id := by
  unfold parentOf
  rw [Option.bind_eq_some_iff]
  constructor
  · rintro ⟨p, hp, hfind⟩
    obtain ⟨hmem, hkey⟩ := Table.mem_of_find? hfind
    exact ⟨hmem, by rw [hp, beq_iff_eq.mp hkey]⟩
  · rintro ⟨hmem, hp⟩
    exact ⟨b.id, hp, find?_id hmem⟩

/-- One level of the bounded walk. -/
theorem walkAncestors_succ (all : List Role) :
    walkAncestors all (fuel + 1) role (sink, visited) =
      if role.id ∈ visited then (sink, visited)
      else match parentOf all role with
        | none => (addName sink role.name, role.id :: visited)
        | some parent => walkAncestors all fuel parent
            (addName sink role.name, role.id :: visited) := by
  rw [walkAncestors]
  refine if_congr List.contains_iff_mem rfl ?_
  unfold parentOf addName
  cases role.parentId with
  | none => rfl
  | some p => rfl

/-- The bounded walk visits what collecting ancestors sees. -/
theorem walkAncestors_visited (hrole : role ∈ t) :
    (walkAncestors t.rows fuel role (sink, visited)).2 =
      collect (parentId t) fuel role.id visited := by
  induction fuel generalizing role sink visited with
  | zero => rfl
  | succ fuel ih =>
    rw [walkAncestors_succ, collect, parentId_of_mem hrole]
    split
    · rfl
    · cases hparent : parentOf t.rows role with
      | none => rfl
      | some parent => exact ih (parentOf_eq_some.mp hparent).1

theorem foldl_visited (hdirect : ∀ r ∈ direct, r ∈ t) :
    (direct.foldl (fun acc r => walkAncestors t.rows fuel r acc) acc).2 =
      (direct.map Role.id).foldl (fun seen id => collect (parentId t) fuel id seen) acc.2 := by
  induction direct generalizing acc with
  | nil => rfl
  | cons d direct ih =>
    rw [List.foldl_cons, ih fun r hr => hdirect r (List.mem_cons_of_mem _ hr), List.map_cons,
      List.foldl_cons, walkAncestors_visited (hdirect d List.mem_cons_self)]

/-- The ids of the table. -/
abbrev ids (t : Table Role) : List Uuid := t.rows.map Role.id

theorem mem_ids_of_parentId {x y : Uuid} (h : parentId t x = some y) : y ∈ ids t := by
  unfold parentId at h
  obtain ⟨r, -, hr⟩ := Option.bind_eq_some_iff.mp h
  obtain ⟨p, hp, rfl⟩ := Option.map_eq_some_iff.mp hr
  exact List.mem_map_of_mem (parentOf_eq_some.mp hp).1

/-- Reaching an id is reaching its role. -/
theorem reaches_iff (ha : a ∈ t) {x : Uuid} : Reaches (parentId t) a.id x ↔
    ∃ r, Relation.ReflTransGen (ParentStep t) a r ∧ r.id = x ∧ r ∈ t := by
  constructor
  · intro h
    induction h with
    | refl => exact ⟨a, .refl, rfl, ha⟩
    | tail _ hedge ih =>
      obtain ⟨r, hreach, rfl, hr⟩ := ih
      have hparent := (parentId_of_mem hr).symm.trans hedge
      obtain ⟨p, hp, rfl⟩ := Option.map_eq_some_iff.mp hparent
      obtain ⟨hmem, hid⟩ := parentOf_eq_some.mp hp
      exact ⟨p, hreach.tail ⟨hr, hmem, hid⟩, rfl, hmem⟩
  · rintro ⟨r, hreach, rfl, -⟩
    induction hreach with
    | refl => exact .refl
    | tail _ hstep ih =>
      obtain ⟨hr, hmem, hid⟩ := hstep
      refine ih.tail ?_
      rw [Edge, parentId_of_mem hr, parentOf_eq_some.mpr ⟨hmem, hid⟩]
      rfl

/-! ## The names -/

/-- The names in the sink are those of the visited roles. -/
structure Named (t : Table Role) (acc : List String × List Uuid) : Prop where
  nodup : acc.1.Nodup
  mem : ∀ name, name ∈ acc.1 ↔ ∃ r ∈ t, r.id ∈ acc.2 ∧ r.name = name

theorem mem_addName {name name' : String} : name' ∈ addName sink name ↔ name' ∈ sink ∨ name' = name := by
  unfold addName
  split
  · next h =>
    refine ⟨.inl, fun h' => h'.elim id ?_⟩
    rintro rfl
    exact List.contains_iff_mem.mp h
  · rw [List.mem_append, List.mem_singleton]

theorem nodup_addName {name : String} (h : sink.Nodup) : (addName sink name).Nodup := by
  unfold addName
  split
  · exact h
  · next hmem =>
    refine List.nodup_append.mpr ⟨h, List.nodup_singleton _, ?_⟩
    rintro n hn n' hn' rfl
    rw [List.mem_singleton.mp hn'] at hn
    exact hmem (List.contains_iff_mem.mpr hn)

theorem Named.visit (h : Named t (sink, visited)) (hrole : role ∈ t) :
    Named t (addName sink role.name, role.id :: visited) := by
  refine ⟨nodup_addName h.nodup, fun name => ?_⟩
  rw [mem_addName, h.mem]
  constructor
  · rintro (⟨r, hr, hvisited, hname⟩ | rfl)
    · exact ⟨r, hr, List.mem_cons_of_mem _ hvisited, hname⟩
    · exact ⟨role, hrole, List.mem_cons_self, rfl⟩
  · rintro ⟨r, hr, hvisited, hname⟩
    rcases List.mem_cons.mp hvisited with heq | hvisited
    · obtain rfl := eq_of_id hr hrole heq
      exact .inr hname.symm
    · exact .inl ⟨r, hr, hvisited, hname⟩

theorem Named.of_walks (h : Named t acc) (hrole : role ∈ t) (hw : Walks t.rows role acc out) :
    Named t out := by
  induction hw with
  | visited => exact h
  | last => exact h.visit hrole
  | next _ hp _ ih => exact ih (h.visit hrole) (parentOf_eq_some.mp hp).1

theorem Named.of_walksAll (h : Named t acc) (hdirect : ∀ r ∈ direct, r ∈ t)
    (hw : WalksAll t.rows direct acc out) : Named t out := by
  induction hw with
  | nil => exact h
  | cons head _ ih =>
    exact ih (h.of_walks (hdirect _ List.mem_cons_self) head)
      fun r hr => hdirect r (List.mem_cons_of_mem _ hr)

/-! ## The walk ends -/

theorem Walks.unique {all : List Role} (h : Walks all role acc out) (h' : Walks all role acc out') :
    out' = out := by
  induction h with
  | visited hseen =>
    cases h' with
    | visited => rfl
    | last hnot => exact absurd hseen hnot
    | next hnot => exact absurd hseen hnot
  | last hnot hp =>
    cases h' with
    | visited hseen => exact absurd hseen hnot
    | last => rfl
    | next _ hp' => cases hp.symm.trans hp'
  | next hnot hp _ ih =>
    cases h' with
    | visited hseen => exact absurd hseen hnot
    | last _ hp' => cases hp.symm.trans hp'
    | next _ hp' tail =>
      cases hp.symm.trans hp'
      exact ih tail

theorem WalksAll.unique {all : List Role} (h : WalksAll all direct acc out)
    (h' : WalksAll all direct acc out') : out' = out := by
  induction h with
  | nil =>
    cases h'
    rfl
  | cons head _ ih =>
    cases h' with
    | cons head' tail' =>
      obtain rfl := head.unique head'
      exact ih tail'

/-- The visited ids are distinct ids of the table, so a chain is no longer than the table. -/
theorem walks_walkAncestors (hrole : role ∈ t) (hnodup : visited.Nodup) (hsub : visited ⊆ ids t)
    (hfuel : t.rows.length + 1 ≤ fuel + visited.length) :
    Walks t.rows role (sink, visited)
      (walkAncestors t.rows fuel role (sink, visited)) := by
  induction fuel generalizing role sink visited with
  | zero =>
    have hle := (hnodup.subperm hsub).length_le
    rw [List.length_map] at hle
    omega
  | succ fuel ih =>
    rw [walkAncestors_succ]
    split
    · next hseen => exact .visited hseen
    · next hnot =>
      cases hparent : parentOf t.rows role with
      | none => exact .last hnot hparent
      | some parent =>
        refine .next hnot hparent (ih (parentOf_eq_some.mp hparent).1
          (List.nodup_cons.mpr ⟨hnot, hnodup⟩)
          (List.cons_subset.mpr ⟨List.mem_map_of_mem hrole, hsub⟩) ?_)
        rw [List.length_cons]
        omega

theorem walksAll_foldl (hdirect : ∀ r ∈ direct, r ∈ t) (hnodup : acc.2.Nodup) (hsub : acc.2 ⊆ ids t) :
    WalksAll t.rows direct acc
      (direct.foldl (fun acc r => walkAncestors t.rows (t.rows.length + 1) r acc)
        acc) := by
  induction direct generalizing acc with
  | nil => exact .nil acc
  | cons d direct ih =>
    have hd := hdirect d List.mem_cons_self
    have hvisited : (walkAncestors t.rows (t.rows.length + 1) d acc).2 =
        collect (parentId t) (t.rows.length + 1) d.id acc.2 := walkAncestors_visited hd
    refine .cons (walks_walkAncestors hd hnodup hsub (by omega))
      (ih (fun r hr => hdirect r (List.mem_cons_of_mem _ hr)) ?_ ?_)
    · rw [hvisited]
      exact nodup_collect hnodup
    · rw [hvisited]
      exact collect_subset (fun _ _ => mem_ids_of_parentId) (List.mem_map_of_mem hd) hsub

theorem walksAll_direct (hdirect : ∀ r ∈ direct, r ∈ t) :
    WalksAll t.rows direct ([], [])
      (direct.foldl (fun acc r => walkAncestors t.rows (t.rows.length + 1) r acc)
        ([], [])) :=
  walksAll_foldl hdirect List.nodup_nil (List.nil_subset _)

theorem closure_effectiveNames (hdirect : ∀ r ∈ direct, r ∈ t) :
    Closure t direct (effectiveNames direct t.rows) := by
  have hstart : Named t ([], []) := ⟨List.nodup_nil, by simp⟩
  have hnamed := hstart.of_walksAll hdirect (walksAll_direct hdirect)
  refine ⟨hnamed.nodup, fun name => (hnamed.mem name).trans ?_⟩
  have hvisited : ∀ x, x ∈ (direct.foldl (fun acc r =>
      walkAncestors t.rows (t.rows.length + 1) r acc) ([], [])).2 ↔
      ∃ d ∈ direct, Reaches (parentId t) d.id x := by
    intro x
    have hroots : direct.map Role.id ⊆ ids t := by
      intro y hy
      obtain ⟨d, hd, rfl⟩ := List.mem_map.mp hy
      exact List.mem_map_of_mem (hdirect d hd)
    rw [foldl_visited hdirect, mem_foldl_collect (fun _ _ => mem_ids_of_parentId) hroots
      List.nodup_nil (List.nil_subset _) (by rw [List.length_map]) nofun]
    simp
  constructor
  · rintro ⟨r, hr, hmem, hname⟩
    obtain ⟨d, hd, hreach⟩ := (hvisited r.id).mp hmem
    obtain ⟨r', hsteps, hid, hr'⟩ := (reaches_iff (hdirect d hd)).mp hreach
    obtain rfl := eq_of_id hr' hr hid
    exact ⟨d, hd, r', hsteps, hname⟩
  · rintro ⟨d, hd, r, hsteps, hname⟩
    have hr : r ∈ t := by
      rcases Relation.ReflTransGen.cases_tail hsteps with rfl | ⟨_, -, hstep⟩
      · exact hdirect _ hd
      · exact hstep.2.1
    exact ⟨r, hr, (hvisited r.id).mpr ⟨d, hd, (reaches_iff (hdirect d hd)).mpr ⟨r, hsteps, rfl, hr⟩⟩,
      hname⟩

end Walk

/-! ## The request -/

section Request

variable {env : Env} {R : Rules} {tid : Nat} {m m' : Instant} {userId : Uuid}

theorem assigned_subset (t : Tables) : ∀ r ∈ assigned t userId, r ∈ t.roles :=
  fun _ hr => (Table.mem_select.mp hr).1

theorem answer_eq {names : List String} (ha : Alone (server env) R tid
    (findEffectiveNamesByUserId userId).run m (.ok names) m') :
    names = effectiveNames (assigned m.world.pg.tables userId)
      m.world.pg.tables.roles.rows := by
  unfold findEffectiveNamesByUserId at ha
  obtain ⟨direct, m₁, hdirect, ha⟩ := ha.seq
  obtain ⟨all, m₂, hall, ha⟩ := ha.seq
  obtain ⟨hnames, -⟩ := ha.ret
  obtain ⟨rfl, hpg, -⟩ := alone_query hdirect
  obtain ⟨rfl, -, -⟩ := alone_query hall
  rw [hpg] at hnames
  exact Except.ok.inj hnames

/-- The two queries are never blocked. -/
theorem exists_answer (tid : Nat) (m : Instant) (userId : Uuid) :
    ∃ names m', Alone (server env) frozen tid
      (findEffectiveNamesByUserId userId).run m (.ok names) m' := by
  obtain ⟨m₁, hdirect⟩ := exists_query env tid m (.rolesByUser userId)
  obtain ⟨m₂, hall⟩ := exists_query env tid m₁ .allRoles
  exact ⟨_, m₂, Alone.bindE_ok.mpr ⟨_, m₁, hdirect, Alone.bindE_ok.mpr ⟨_, m₂, hall,
    alone_pure.mpr ⟨rfl, rfl⟩⟩⟩⟩

end Request

/-- The effective roles are the ancestor closure of the assigned ones. -/
theorem effective_roles (env : Env) : Exact env where
  terminates t direct hdirect := by
    refine ⟨_, fun out => ⟨fun hw => (walksAll_direct hdirect).unique hw, ?_⟩⟩
    rintro rfl
    exact walksAll_direct hdirect
  closure t direct hdirect := closure_effectiveNames hdirect
  unordered t direct direct' hdirect hsame name := by
    have hdirect' : ∀ r ∈ direct', r ∈ t := fun r hr => hdirect r ((hsame r).mp hr)
    rw [(closure_effectiveNames hdirect').mem, (closure_effectiveNames hdirect).mem]
    simp only [hsame]
  answers := exists_answer
  answer R tid m m' userId names ha := by
    rw [answer_eq ha]
    exact closure_effectiveNames (assigned_subset _)

end EffectiveRoles

end AuthServer
