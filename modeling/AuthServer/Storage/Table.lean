import Mathlib.Data.List.Basic
import Mathlib.Tactic.Common

/-!
# Tables with uniqueness constraints

A table is a list of rows in which no two rows violate a PRIMARY KEY or UNIQUE
constraint. The constraints of a row type are one symmetric relation, so that a
row type with several keys is handled like one with a single key. An insertion
that would violate them is refused; an update through a key-preserving setter
cannot violate them.
-/

namespace Storage

/-- Two rows clash when the constraints of their table exclude having both. -/
class Keyed (α : Type) where
  clash : α → α → Bool
  clash_self : ∀ a, clash a a = true
  clash_symm : ∀ a b, clash a b = clash b a

/-- The rows of a table, pairwise compatible with its constraints. -/
structure Table (α : Type) [Keyed α] where
  rows : List α
  unique : rows.Pairwise fun a b => Keyed.clash a b = false

/-- A change of row contents that leaves the constrained columns alone. -/
structure Setter (α : Type) [Keyed α] where
  apply : α → α
  clash_left : ∀ a b, Keyed.clash (apply a) b = Keyed.clash a b

namespace Table

variable {α : Type} [Keyed α]

instance : Membership α (Table α) := ⟨fun t a => a ∈ t.rows⟩

theorem mem_rows {t : Table α} {a : α} : a ∈ t ↔ a ∈ t.rows := Iff.rfl

/-- The table without rows. -/
def empty : Table α := ⟨[], .nil⟩

/-- The row a unique lookup returns. -/
def find? (t : Table α) (p : α → Bool) : Option α := t.rows.find? p

/-- All rows that satisfy a condition. -/
def select (t : Table α) (p : α → Bool) : List α := t.rows.filter p

/-- Add a row unless a constraint excludes it. -/
def insert (t : Table α) (a : α) : Option (Table α) :=
  if h : ∀ b ∈ t.rows, Keyed.clash b a = false then
    some ⟨t.rows ++ [a], List.pairwise_append.mpr
      ⟨t.unique, List.pairwise_singleton _ _, fun b hb c hc => by
        rw [List.mem_singleton.mp hc]
        exact h b hb⟩⟩
  else none

/-- Remove all rows that satisfy a condition. -/
def delete (t : Table α) (p : α → Bool) : Table α :=
  ⟨t.rows.filter fun a => !p a, t.unique.filter _⟩

/-- Change all rows that satisfy a condition. -/
def update (t : Table α) (p : α → Bool) (f : Setter α) : Table α :=
  ⟨t.rows.map fun a => if p a then f.apply a else a, by
    refine List.pairwise_map.mpr (t.unique.imp fun {a b} h => ?_)
    have hl : ∀ c, Keyed.clash (if p a then f.apply a else a) c = Keyed.clash a c := by
      intro c
      split
      · exact f.clash_left a c
      · rfl
    have hr : Keyed.clash a (if p b then f.apply b else b) = Keyed.clash a b := by
      split
      · rw [Keyed.clash_symm, f.clash_left, Keyed.clash_symm]
      · rfl
    rw [hl, hr, h]⟩

/-- Change all rows that satisfy a condition, unless the result violates a constraint. -/
def replace (t : Table α) (p : α → Bool) (f : α → α) : Option (Table α) :=
  if h : (t.rows.map fun a => if p a then f a else a).Pairwise
      (fun a b => Keyed.clash a b = false) then
    some ⟨_, h⟩
  else none

/-- The number of rows that satisfy a condition. -/
def count (t : Table α) (p : α → Bool) : Nat := (t.rows.filter p).length

variable {t t' : Table α} {p : α → Bool} {a b : α}

@[simp] theorem mem_select : a ∈ t.select p ↔ a ∈ t ∧ p a = true := by
  simp [select, mem_rows]

@[simp] theorem mem_delete : a ∈ t.delete p ↔ a ∈ t ∧ p a = false := by
  simp [delete, mem_rows]

@[simp] theorem mem_update {f : Setter α} :
    a ∈ t.update p f ↔ ∃ b ∈ t, (if p b then f.apply b else b) = a := by
  simp [update, mem_rows]

/-- A change that leaves every row it is made to as it was changes nothing. -/
theorem update_eq_self {f : Setter α} (h : ∀ a ∈ t, p a = true → f.apply a = a) :
    t.update p f = t := by
  have hrows : (t.rows.map fun a => if p a then f.apply a else a) = t.rows := by
    refine (List.map_congr_left fun a ha => ?_).trans (List.map_id _)
    split
    · exact h a ha ‹_›
    · rfl
  cases t
  simp only [update, mk.injEq]
  exact hrows

theorem mem_replace {f : α → α} (h : t.replace p f = some t') :
    a ∈ t' ↔ ∃ b ∈ t, (if p b then f b else b) = a := by
  unfold replace at h
  split at h
  · cases h
    simp [mem_rows]
  · cases h

theorem mem_insert (h : t.insert a = some t') : b ∈ t' ↔ b ∈ t ∨ b = a := by
  unfold insert at h
  split at h
  · cases h
    simp [mem_rows]
  · cases h

/-- A row that clashes with none of the rows is accepted. -/
theorem exists_insert (h : ∀ b ∈ t, Keyed.clash b a = false) : ∃ t', t.insert a = some t' :=
  ⟨_, dif_pos h⟩

/-- An accepted row clashes with none of the rows already present. -/
theorem clash_of_insert (h : t.insert a = some t') (hb : b ∈ t) : Keyed.clash b a = false := by
  unfold insert at h
  split at h
  · next hc => exact hc b hb
  · cases h

/-- Clashing rows of a table are the same row. -/
theorem eq_of_clash (ha : a ∈ t) (hb : b ∈ t) (h : Keyed.clash a b = true) : a = b := by
  obtain ⟨rows, hu⟩ := t
  simp only [mem_rows] at ha hb
  induction hu with
  | nil => cases ha
  | @cons c l hc _ ih =>
    rcases List.mem_cons.mp ha with rfl | ha' <;> rcases List.mem_cons.mp hb with rfl | hb'
    · rfl
    · rw [hc b hb'] at h
      cases h
    · rw [Keyed.clash_symm, hc a ha'] at h
      cases h
    · exact ih ha' hb'

theorem mem_of_find? (h : t.find? p = some a) : a ∈ t ∧ p a = true :=
  ⟨List.mem_of_find?_eq_some h, List.find?_some h⟩

theorem find?_eq_none : t.find? p = none ↔ ∀ a ∈ t, p a = false := by
  simp [find?, mem_rows]

/-- A lookup whose condition determines a key returns the row that satisfies it. -/
theorem find?_eq_some (hk : ∀ a b, p a = true → p b = true → Keyed.clash a b = true) :
    t.find? p = some a ↔ a ∈ t ∧ p a = true := by
  refine ⟨mem_of_find?, fun ⟨ha, hp⟩ => ?_⟩
  cases h : t.find? p with
  | none =>
    rw [find?_eq_none.mp h a ha] at hp
    cases hp
  | some b =>
    obtain ⟨hb, hpb⟩ := mem_of_find? h
    rw [eq_of_clash hb ha (hk b a hpb hp)]

/-- A lookup by a condition that an update does not touch finds the updated row. -/
theorem find?_update {q : α → Bool} {f : Setter α} (hp : ∀ a, p (f.apply a) = p a) :
    (t.update q f).find? p = (t.find? p).map fun a => if q a then f.apply a else a := by
  have hcomp : (p ∘ fun a => if q a then f.apply a else a) = p := by
    funext a
    simp only [Function.comp_apply]
    split
    · exact hp a
    · rfl
  simp only [find?, update, List.find?_map, hcomp]

theorem find?_insert (h : t.insert a = some t') :
    t'.find? p = (t.find? p).or (if p a then some a else none) := by
  unfold insert at h
  split at h
  · cases h
    simp [find?, List.find?_append, List.find?_singleton]
  · cases h

theorem find?_delete {q : α → Bool} :
    (t.delete q).find? p = t.find? fun a => !q a && p a := by
  simp [find?, delete, List.find?_filter]

/-! ### Lookups by a key -/

section Key

variable {κ : Type} [DecidableEq κ] {key : α → κ} {k i : κ}

theorem find?_update_key {f : Setter α} (hf : ∀ a, key (f.apply a) = key a) :
    (t.update (fun a => key a == k) f).find? (fun a => key a == i) =
      if i = k then (t.find? fun a => key a == k).map f.apply else t.find? fun a => key a == i := by
  rw [find?_update fun a => by rw [hf a]]
  split
  · next h =>
    subst h
    refine Option.map_congr fun a ha => ?_
    rw [if_pos (mem_of_find? ha).2]
  · next h =>
    cases hx : t.find? fun a => key a == i with
    | none => rfl
    | some a =>
      have hi : key a = i := beq_iff_eq.mp (mem_of_find? hx).2
      simp [hi, h]

theorem find?_delete_key :
    (t.delete fun a => key a == k).find? (fun a => key a == i) =
      if i = k then none else t.find? fun a => key a == i := by
  rw [find?_delete]
  split
  · next h =>
    subst h
    refine find?_eq_none.mpr fun a _ => ?_
    cases key a == i <;> rfl
  · next h =>
    congr 1
    funext a
    by_cases ha : key a = i
    · simp [ha, h]
    · simp [ha]

theorem find?_insert_key (hk : ∀ a b : α, key a = key b → Keyed.clash a b = true)
    (h : t.insert a = some t') :
    t'.find? (fun b => key b == i) = if i = key a then some a else t.find? fun b => key b == i := by
  rw [find?_insert h]
  by_cases hi : i = key a
  · subst hi
    have hnone : (t.find? fun b => key b == key a) = none := by
      refine find?_eq_none.mpr fun b hb => Bool.eq_false_iff.mpr fun heq => ?_
      cases (clash_of_insert h hb).symm.trans (hk b a (beq_iff_eq.mp heq))
    simp [hnone]
  · simp [hi, Ne.symm hi]

/-- The row of a key. -/
theorem find?_key (hk : ∀ a b : α, key a = key b → Keyed.clash a b = true) :
    (t.find? fun b => key b == i) = some a ↔ a ∈ t ∧ key a = i := by
  rw [find?_eq_some fun a b ha hb => hk a b ((beq_iff_eq.mp ha).trans (beq_iff_eq.mp hb).symm),
    beq_iff_eq]

end Key

end Table

end Storage
