import AuthServer.Storage.Fields
import Mathlib.Logic.Function.Basic

/-!
# Key-value stores with expiring entries

Each key holds at most one entry, a value with an optional deadline. An entry is
visible as long as its deadline has not passed; the store need not drop an expired
entry, reading it simply finds nothing.
-/

namespace Storage

variable {K V : Type} [DecidableEq K]

/-- A stored value and the last instant at which it is visible. -/
structure Entry (V : Type) where
  value : V
  deadline : Option Int
  deriving DecidableEq

/-- Visibility of an entry at an instant. -/
def Entry.live (e : Entry V) (now : Int) : Bool :=
  match e.deadline with
  | none => true
  | some d => decide (now ≤ d)

/-- A store of expiring entries. -/
structure Expiring (K V : Type) where
  entry : K → Option (Entry V)

namespace Expiring

/-- The store without entries. -/
def empty : Expiring K V := ⟨fun _ => none⟩

omit [DecidableEq K] in
/-- The visible entry of a key. -/
def peek (s : Expiring K V) (now : Int) (k : K) : Option (Entry V) :=
  (s.entry k).filter fun e => e.live now

omit [DecidableEq K] in
/-- The visible value of a key. -/
def get (s : Expiring K V) (now : Int) (k : K) : Option V :=
  (s.peek now k).map Entry.value

/-- Replace the entry of a key. -/
def set (s : Expiring K V) (k : K) (v : V) (deadline : Option Int) : Expiring K V :=
  ⟨Function.update s.entry k (some ⟨v, deadline⟩)⟩

/-- Remove the entry of a key. -/
def erase (s : Expiring K V) (k : K) : Expiring K V :=
  ⟨Function.update s.entry k none⟩

variable {s : Expiring K V} {k k' : K} {v : V} {d : Option Int} {now : Int}

@[simp] theorem entry_set : (s.set k v d).entry k' =
    if k' = k then some ⟨v, d⟩ else s.entry k' := by
  simp [set, Function.update_apply]

@[simp] theorem entry_erase : (s.erase k).entry k' = if k' = k then none else s.entry k' := by
  simp [erase, Function.update_apply]

omit [DecidableEq K] in
/-- A visible value comes from an entry of the store. -/
theorem get_eq_some : s.get now k = some v ↔
    ∃ e, s.entry k = some e ∧ e.live now = true ∧ e.value = v := by
  simp only [get, peek, Option.map_eq_some_iff, Option.filter_eq_some_iff]
  constructor
  · rintro ⟨e, ⟨h₁, h₂⟩, h₃⟩
    exact ⟨e, h₁, h₂, h₃⟩
  · rintro ⟨e, h₁, h₂, h₃⟩
    exact ⟨e, ⟨h₁, h₂⟩, h₃⟩

omit [DecidableEq K] in
/-- What is visible was visible before, unless it has been written since. -/
theorem get_of_le {now' : Int} (hle : now ≤ now') (h : s.get now' k = some v) :
    s.get now k = some v := by
  obtain ⟨e, he, hlive, rfl⟩ := get_eq_some.mp h
  refine get_eq_some.mpr ⟨e, he, ?_, rfl⟩
  unfold Entry.live at hlive ⊢
  split at hlive
  · rfl
  · exact decide_eq_true (Int.le_trans hle (of_decide_eq_true hlive))

omit [DecidableEq K] in
/-- What is not visible stays so as time passes. -/
theorem peek_none_of_le {now' : Int} (hle : now ≤ now') (h : s.peek now k = none) :
    s.peek now' k = none := by
  simp only [peek, Option.filter_eq_none_iff] at h ⊢
  intro e he hlive
  refine h e he ?_
  unfold Entry.live at hlive ⊢
  split at hlive
  · rfl
  · exact decide_eq_true (Int.le_trans hle (of_decide_eq_true hlive))

omit [DecidableEq K] in
theorem get_of_entry_none (h : s.entry k = none) : s.get now k = none := by
  simp [get, peek, h]

end Expiring

/-! ## Commands on one namespace of keys -/

/-- The commands on plain values. A time to live is given in units of the clock. -/
inductive Kv (K V : Type) where
  | get (key : K)
  | setex (key : K) (value : V) (ttl : Int)
  | setnx (key : K) (value : V) (ttl : Int)
  | del (key : K)
  | getdel (key : K)
  deriving DecidableEq

namespace Kv

/-- The reply of a command. -/
def Res : Kv K V → Type
  | .get _ => Option V
  | .setex _ _ _ => Unit
  | .setnx _ _ _ => Bool
  | .del _ => Unit
  | .getdel _ => Option V

/-- Execute a command atomically. -/
def exec (now : Int) : (c : Kv K V) → Expiring K V → c.Res × Expiring K V
  | .get k, s => (s.get now k, s)
  | .setex k v ttl, s => ((), s.set k v (some (now + ttl)))
  | .setnx k v ttl, s =>
    match s.peek now k with
    | some _ => (false, s)
    | none => (true, s.set k v (some (now + ttl)))
  | .del k, s => ((), s.erase k)
  | .getdel k, s => (s.get now k, s.erase k)

/-- The key a command is about. -/
def key : Kv K V → K
  | .get k | .setex k _ _ | .setnx k _ _ | .del k | .getdel k => k

/-- The value a command writes, if any. -/
def writes : Kv K V → Option V
  | .setex _ v _ | .setnx _ v _ => some v
  | _ => none

variable {c : Kv K V} {s : Expiring K V} {k : K} {e : Entry V} {now : Int}

/-- A command leaves the entries of other keys alone. -/
theorem entry_exec_of_ne (h : k ≠ c.key) : (c.exec now s).2.entry k = s.entry k := by
  cases c with
  | get => rfl
  | setex => simp_all [exec, key]
  | setnx => simp only [exec]; split <;> simp_all [key]
  | del => simp_all [exec, key]
  | getdel => simp_all [exec, key]

/-- An entry found after a command was there before or has just been written. -/
theorem entry_exec (h : (c.exec now s).2.entry k = some e) :
    s.entry k = some e ∨ (k = c.key ∧ c.writes = some e.value) := by
  by_cases hk : k = c.key
  · cases c with
    | get => exact .inl h
    | setex k₀ v ttl =>
      rw [exec, Expiring.entry_set, if_pos (show k = k₀ from hk)] at h
      exact .inr ⟨hk, congrArg (Option.map Entry.value) h⟩
    | setnx k₀ v ttl =>
      simp only [exec] at h
      split at h
      · exact .inl h
      · rw [Expiring.entry_set, if_pos (show k = k₀ from hk)] at h
        exact .inr ⟨hk, congrArg (Option.map Entry.value) h⟩
    | del => simp_all [exec, key]
    | getdel => simp_all [exec, key]
  · exact .inl ((entry_exec_of_ne hk).symm.trans h)

end Kv

/-- The commands on hashes. -/
inductive HashCmd (K F V : Type) where
  | hgetall (key : K)
  | exists (key : K)
  | hset (key : K) (fields : Fields F V)
  | expire (key : K) (ttl : Int)
  deriving DecidableEq

namespace HashCmd

variable {F : Type} [DecidableEq F]

omit [DecidableEq K] [DecidableEq F] in
/-- The reply of a command. A missing hash is read as one without fields. -/
def Res : HashCmd K F V → Type
  | .hgetall _ => Fields F V
  | .exists _ => Bool
  | .hset _ _ => Unit
  | .expire _ _ => Unit

/-- Execute a command atomically. Writing to a missing hash creates one that does not expire;
writing to a present hash keeps its deadline. -/
def exec (now : Int) : (c : HashCmd K F V) → Expiring K (Fields F V) →
    c.Res × Expiring K (Fields F V)
  | .hgetall k, s => ((s.get now k).getD [], s)
  | .exists k, s => ((s.peek now k).isSome, s)
  | .hset k fields, s =>
    match s.peek now k with
    | some e => ((), s.set k (e.value.setAll fields) e.deadline)
    | none => ((), s.set k (Fields.setAll [] fields) none)
  | .expire k ttl, s =>
    match s.peek now k with
    | some e => ((), s.set k e.value (some (now + ttl)))
    | none => ((), s)

variable {c : HashCmd K F V} {s : Expiring K (Fields F V)} {k : K} {e : Entry (Fields F V)}
  {now : Int}

/-- The fields found after a command are those the command has just assigned, or they were there
before. -/
theorem entry_exec (h : (c.exec now s).2.entry k = some e) :
    (∃ fields, c = .hset k fields ∧ e.value = ((s.get now k).getD []).setAll fields) ∨
      ((∀ fields, c ≠ .hset k fields) ∧ ∃ e₀, s.entry k = some e₀ ∧ e.value = e₀.value) := by
  cases c with
  | hgetall => exact .inr ⟨fun _ hc => (nomatch hc), e, h, rfl⟩
  | «exists» => exact .inr ⟨fun _ hc => (nomatch hc), e, h, rfl⟩
  | hset k₀ fields =>
    simp only [exec] at h
    by_cases hk : k = k₀
    · subst hk
      refine .inl ⟨fields, rfl, ?_⟩
      split at h
      all_goals
        next he₀ =>
          rw [Expiring.entry_set, if_pos rfl] at h
          cases h
          simp [Expiring.get, he₀]
    · refine .inr ⟨fun _ hc => ?_, e, ?_, rfl⟩
      · cases hc
        exact hk rfl
      · split at h
        all_goals
          rw [Expiring.entry_set, if_neg hk] at h
          exact h
  | expire k₀ ttl =>
    refine .inr ⟨fun _ hc => (nomatch hc), ?_⟩
    simp only [exec] at h
    split at h
    · next e₀ he₀ =>
      rw [Expiring.entry_set] at h
      split at h
      · next hk =>
        subst hk
        cases h
        exact ⟨e₀, (Option.filter_eq_some_iff.mp he₀).1, rfl⟩
      · exact ⟨e, h, rfl⟩
    · exact ⟨e, h, rfl⟩

/-- The visible fields after a command are those the command has just assigned, or they were
visible before. -/
theorem get_exec {fields : Fields F V} (h : (c.exec now s).2.get now k = some fields) :
    (∃ extra, c = .hset k extra ∧ fields = ((s.get now k).getD []).setAll extra) ∨
      ((∀ extra, c ≠ .hset k extra) ∧ s.get now k = some fields) := by
  cases c with
  | hgetall => exact .inr ⟨fun _ hc => (nomatch hc), h⟩
  | «exists» => exact .inr ⟨fun _ hc => (nomatch hc), h⟩
  | hset k₀ extra =>
    obtain ⟨e, he, -, rfl⟩ := Expiring.get_eq_some.mp h
    rcases entry_exec he with ⟨extra', hc, hv⟩ | ⟨hne, -⟩
    · exact .inl ⟨extra', hc, hv⟩
    · refine .inr ⟨hne, ?_⟩
      have hk : k ≠ k₀ := by
        rintro rfl
        exact hne extra rfl
      rw [← h]
      simp only [exec]
      split
      all_goals simp only [Expiring.get, Expiring.peek, Expiring.entry_set, if_neg hk]
  | expire k₀ ttl =>
    refine .inr ⟨fun _ hc => (nomatch hc), ?_⟩
    simp only [exec] at h
    split at h
    · next e₀ he₀ =>
      by_cases hk : k = k₀
      · subst hk
        obtain ⟨e, he, -, rfl⟩ := Expiring.get_eq_some.mp h
        rw [Expiring.entry_set, if_pos rfl] at he
        cases he
        rw [Expiring.get, he₀, Option.map_some]
      · simpa only [Expiring.get, Expiring.peek, Expiring.entry_set, if_neg hk] using h
    · exact h

end HashCmd

end Storage
