import Mathlib.Data.List.Basic
import Mathlib.Tactic.Common

/-!
# Finite maps as association lists

The fields of a hash or of a JSON object: a later assignment to a name replaces
the earlier one.
-/

namespace Storage

/-- Assignments of values to names. -/
abbrev Fields (K V : Type) := List (K × V)

namespace Fields

variable {K V : Type} [DecidableEq K]

/-- The value of a name. -/
def get (m : Fields K V) (k : K) : Option V := (m.find? fun f => f.1 == k).map Prod.snd

/-- Assign a value to a name, dropping an earlier one. -/
def set (m : Fields K V) (k : K) (v : V) : Fields K V := (m.filter fun f => f.1 != k) ++ [(k, v)]

/-- Drop a name. -/
def erase (m : Fields K V) (k : K) : Fields K V := m.filter fun f => f.1 != k

/-- Assign all entries of a second map, in order. -/
def setAll (m extra : Fields K V) : Fields K V := extra.foldl (fun m f => m.set f.1 f.2) m

variable {m extra : Fields K V} {k k' : K} {v : V}

@[simp] theorem get_nil : get ([] : Fields K V) k = none := rfl

@[simp] theorem get_cons : get ((k, v) :: m) k' = if k = k' then some v else get m k' := by
  by_cases h : k = k'
  · simp [get, h]
  · simp [get, h, List.find?_cons_of_neg]

@[simp] theorem get_set : (m.set k v).get k' = if k' = k then some v else m.get k' := by
  simp only [get, set, List.find?_append, List.find?_filter]
  by_cases h : k' = k
  · subst h
    have hnone : m.find? (fun f => decide ((f.1 != k') = true ∧ (f.1 == k') = true)) = none := by
      simp
    rw [hnone, if_pos rfl, Option.none_or]
    simp
  · have hsame : (fun f : K × V => decide ((f.1 != k) = true ∧ (f.1 == k') = true)) =
        fun f => f.1 == k' := by
      funext f
      by_cases hf : f.1 = k'
      · simp [hf, h]
      · simp [hf]
    have hlast : ([(k, v)] : List (K × V)).find? (fun f => f.1 == k') = none := by
      simp [Ne.symm h]
    rw [hsame, hlast, if_neg h, Option.or_none]

@[simp] theorem get_erase : (m.erase k).get k' = if k' = k then none else m.get k' := by
  simp only [get, erase, List.find?_filter]
  by_cases h : k' = k
  · subst h
    have hnone : m.find? (fun f => decide ((f.1 != k') = true ∧ (f.1 == k') = true)) = none := by
      simp
    rw [hnone, if_pos rfl]
    rfl
  · have hsame : (fun f : K × V => decide ((f.1 != k) = true ∧ (f.1 == k') = true)) =
        fun f => f.1 == k' := by
      funext f
      by_cases hf : f.1 = k'
      · simp [hf, h]
      · simp [hf]
    rw [hsame, if_neg h]

theorem get_ne_none : m.get k ≠ none ↔ k ∈ m.map Prod.fst := by
  simp [get]

theorem get_append (m' : Fields K V) : get (m ++ m') k = (m.get k).or (m'.get k) := by
  rw [get, List.find?_append, Option.map_or]
  rfl

/-- A new name is added at the end. -/
theorem set_of_not_mem (h : ∀ f ∈ m, f.1 ≠ k) : m.set k v = m ++ [(k, v)] := by
  have hall : m.filter (fun f => f.1 != k) = m := List.filter_eq_self.mpr fun f hf => by
    simpa using h f hf
  rw [set, hall]

theorem mem_setAll {f : K × V} (h : f ∈ m.setAll extra) : f ∈ m ∨ f ∈ extra := by
  induction extra generalizing m with
  | nil => exact .inl h
  | cons g extra ih =>
    rcases ih h with hset | hextra
    · rcases List.mem_append.mp hset with hold | hnew
      · exact .inl (List.mem_filter.mp hold).1
      · exact .inr (List.mem_singleton.mp hnew ▸ List.mem_cons_self)
    · exact .inr (List.mem_cons_of_mem _ hextra)

/-- Assigning names other than `k` leaves the value of `k` alone. -/
theorem get_setAll_of_not_mem (h : ∀ f ∈ extra, f.1 ≠ k) :
    (m.setAll extra).get k = m.get k := by
  induction extra generalizing m with
  | nil => rfl
  | cons f extra ih =>
    have hf : k ≠ f.1 := (h f (by simp)).symm
    calc (m.setAll (f :: extra)).get k
        = ((m.set f.1 f.2).setAll extra).get k := rfl
      _ = (m.set f.1 f.2).get k := ih fun g hg => h g (List.mem_cons_of_mem _ hg)
      _ = m.get k := by rw [get_set, if_neg hf]

/-- When every assigned name occurs once, each assigned value can be read back. -/
theorem get_setAll_of_mem (hn : (extra.map Prod.fst).Nodup) (h : (k, v) ∈ extra) :
    (m.setAll extra).get k = some v := by
  induction extra generalizing m with
  | nil => cases h
  | cons f extra ih =>
    rw [List.map_cons, List.nodup_cons] at hn
    change ((m.set f.1 f.2).setAll extra).get k = some v
    rcases List.mem_cons.mp h with rfl | h
    · have hrest : ∀ g ∈ extra, g.1 ≠ k :=
        fun g hg he => hn.1 (List.mem_map.mpr ⟨g, hg, he⟩)
      rw [get_setAll_of_not_mem hrest, get_set, if_pos rfl]
    · exact ih hn.2 h

/-- Assigned names have their new value, the others keep theirs. -/
theorem get_setAll (hn : (extra.map Prod.fst).Nodup) :
    (m.setAll extra).get k = (extra.get k).or (m.get k) := by
  cases h : extra.get k with
  | some v =>
    obtain ⟨f, hf, rfl⟩ := Option.map_eq_some_iff.mp h
    have hk : f.1 = k := by simpa using List.find?_some hf
    exact get_setAll_of_mem hn (hk ▸ List.mem_of_find?_eq_some hf)
  | none =>
    refine get_setAll_of_not_mem fun f hf heq => ?_
    exact get_ne_none.mpr (List.mem_map.mpr ⟨f, hf, heq⟩) h

end Fields

end Storage
