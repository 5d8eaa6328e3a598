import Mathlib.Data.List.Perm.Subperm
import Mathlib.Logic.Function.Basic
import Mathlib.Logic.Relation
import Mathlib.Tactic.Common

/-!
# Parent maps

A graph in which each node has at most one parent, as a partial function. Following
parents ends at a root or comes back to a node; in a graph without cycles it passes
exactly the ancestors. A new parent closes a cycle exactly when the node is an
ancestor of it.
-/

namespace Graph

variable {α : Type} {f g : α → Option α} {a b p target : α}

/-- The edge from a node to its parent. -/
def Edge (f : α → Option α) (a b : α) : Prop := f a = some b

/-- A node is another one or an ancestor of it. -/
def Reaches (f : α → Option α) : α → α → Prop := Relation.ReflTransGen (Edge f)

/-- No node is an ancestor of itself. -/
def Acyclic (f : α → Option α) : Prop := ∀ a, ¬ Relation.TransGen (Edge f) a a

theorem Reaches.mono (h : Reaches g a b) (hsub : ∀ a b, Edge g a b → Edge f a b) :
    Reaches f a b :=
  Relation.ReflTransGen.mono hsub a b h

/-- Taking edges away closes no cycle. -/
theorem Acyclic.mono (hf : Acyclic f) (hsub : ∀ a b, Edge g a b → Edge f a b) : Acyclic g :=
  fun a ha => hf a (Relation.TransGen.mono hsub a a ha)

section Update

variable [DecidableEq α]

theorem edge_update {q : Option α} (h : Edge (Function.update f target q) a b) :
    (a = target ∧ q = some b) ∨ Edge f a b := by
  unfold Edge at h
  by_cases ha : a = target
  · subst ha
    rw [Function.update_self] at h
    exact .inl ⟨rfl, h⟩
  · rw [Function.update_of_ne ha] at h
    exact .inr h

/-- A path over the new edge comes from the node and goes on from the new parent. -/
theorem reaches_update (hp : ¬ Reaches f p target)
    (h : Reaches (Function.update f target (some p)) a b) :
    Reaches f a b ∨ (Reaches f a target ∧ Reaches f p b) := by
  induction h with
  | refl => exact .inl .refl
  | tail _ hedge ih =>
    rcases edge_update hedge with ⟨rfl, hnew⟩ | hold
    · cases hnew
      rcases ih with hreach | ⟨-, hback⟩
      · exact .inr ⟨hreach, .refl⟩
      · exact absurd hback hp
    · rcases ih with hreach | ⟨hleft, hright⟩
      · exact .inl (hreach.tail hold)
      · exact .inr ⟨hleft, hright.tail hold⟩

/-- A new parent that does not have the node as an ancestor closes no cycle. -/
theorem Acyclic.update (hf : Acyclic f) (hp : ¬ Reaches f p target) :
    Acyclic (Function.update f target (some p)) := by
  intro a hcycle
  obtain ⟨b, hedge, hback⟩ := Relation.TransGen.head'_iff.mp hcycle
  rcases edge_update hedge with ⟨rfl, hnew⟩ | hold
  · cases hnew
    rcases reaches_update hp hback with hreach | ⟨hreach, -⟩
    · exact hp hreach
    · exact hp hreach
  · rcases reaches_update hp hback with hreach | ⟨hleft, hright⟩
    · exact hf a (Relation.TransGen.head' hold hreach)
    · exact hp ((hright.tail hold).trans hleft)

end Update

/-! ## Following parents -/

section Walk

variable [DecidableEq α]

/-- Follow parents: `true` when the target or a node that has been seen is met, `false` at the end of
the chain. There is no result while the fuel does not suffice. -/
def walk (f : α → Option α) (target : α) : Nat → Option α → List α → Option Bool
  | 0, _, _ => none
  | _ + 1, none, _ => some false
  | fuel + 1, some a, seen =>
    if a = target ∨ a ∈ seen then some true else walk f target fuel (f a) (a :: seen)

variable {seen keys : List α} {fuel : Nat}

/-- The seen nodes are distinct keys of the map, so the walk ends within their number. -/
theorem walk_ends (hkeys : ∀ a, f a ≠ none → a ∈ keys) (hnodup : seen.Nodup) (hseen : seen ⊆ keys)
    (hfuel : keys.length + 2 ≤ fuel + seen.length) : ∃ r, walk f target fuel (some a) seen = some r := by
  induction fuel generalizing a seen with
  | zero =>
    have hle := (hnodup.subperm hseen).length_le
    omega
  | succ fuel ih =>
    rw [walk]
    by_cases hstop : a = target ∨ a ∈ seen
    · exact ⟨true, if_pos hstop⟩
    · rw [if_neg hstop]
      cases hparent : f a with
      | none =>
        have hle := (hnodup.subperm hseen).length_le
        obtain ⟨n, rfl⟩ : ∃ n, fuel = n + 1 := ⟨fuel - 1, by omega⟩
        exact ⟨false, rfl⟩
      | some b =>
        have hkey : a ∈ keys := hkeys a (by rw [hparent]; nofun)
        refine ih (List.nodup_cons.mpr ⟨fun h => hstop (.inr h), hnodup⟩)
          (List.cons_subset.mpr ⟨hkey, hseen⟩) ?_
        rw [List.length_cons]
        omega

/-- More fuel gives the same result. -/
theorem walk_succ {cursor : Option α} {r : Bool} (h : walk f target fuel cursor seen = some r) :
    walk f target (fuel + 1) cursor seen = some r := by
  induction fuel generalizing cursor seen with
  | zero => cases h
  | succ fuel ih =>
    cases cursor with
    | none => exact h
    | some a =>
      rw [walk] at h ⊢
      split at h
      · next hstop => rw [if_pos hstop, h]
      · next hstop =>
        rw [if_neg hstop]
        exact ih h

theorem walk_mono {fuel' : Nat} {cursor : Option α} {r : Bool} (hle : fuel ≤ fuel')
    (h : walk f target fuel cursor seen = some r) : walk f target fuel' cursor seen = some r := by
  induction hle with
  | refl => exact h
  | step _ ih => exact walk_succ ih

/-- A walk that comes to an end has not passed the target. -/
theorem not_reaches_of_walk (h : walk f target fuel (some a) seen = some false) :
    ¬ Reaches f a target := by
  induction fuel generalizing a seen with
  | zero => cases h
  | succ fuel ih =>
    rw [walk] at h
    split at h
    · cases h
    next hstop =>
      intro hreach
      rcases Relation.ReflTransGen.cases_head hreach with heq | ⟨b, hedge, hrest⟩
      · exact hstop (.inl heq)
      · rw [show f a = some b from hedge] at h
        exact ih h hrest

/-- In a graph without cycles a walk meets no node twice, so it stops at the target. -/
theorem reaches_of_walk (hf : Acyclic f) (hseen : ∀ s ∈ seen, Relation.TransGen (Edge f) s a)
    (h : walk f target fuel (some a) seen = some true) : Reaches f a target := by
  induction fuel generalizing a seen with
  | zero => cases h
  | succ fuel ih =>
    rw [walk] at h
    split at h
    · next hstop =>
      rcases hstop with rfl | hmem
      · exact .refl
      · exact absurd (hseen a hmem) (hf a)
    · cases hparent : f a with
      | none =>
        rw [hparent] at h
        cases fuel with
        | zero => cases h
        | succ n => cases h
      | some b =>
        rw [hparent] at h
        refine .head hparent (ih (fun s hs => ?_) h)
        rcases List.mem_cons.mp hs with rfl | hs
        · exact .single hparent
        · exact (hseen s hs).tail hparent

end Walk

/-! ## Collecting ancestors -/

/-- Nodes reached from a set that is closed under parents are in it. -/
theorem Reaches.mem_of_closed {seen : List α} (h : Reaches f a b) (ha : a ∈ seen)
    (hclosed : ∀ x ∈ seen, ∀ y, f x = some y → y ∈ seen) : b ∈ seen := by
  induction h with
  | refl => exact ha
  | tail _ hedge ih => exact hclosed _ ih _ hedge

theorem reaches_iff_of_none (h : f a = none) : Reaches f a b ↔ b = a := by
  constructor
  · intro hreach
    rcases Relation.ReflTransGen.cases_head hreach with heq | ⟨c, hedge, -⟩
    · exact heq.symm
    · rw [show f a = some c from hedge] at h
      cases h
  · rintro rfl
    exact .refl

theorem reaches_iff_of_some {c : α} (h : f a = some c) : Reaches f a b ↔ b = a ∨ Reaches f c b := by
  constructor
  · intro hreach
    rcases Relation.ReflTransGen.cases_head hreach with heq | ⟨d, hedge, hrest⟩
    · exact .inl heq.symm
    · cases h.symm.trans hedge
      exact .inr hrest
  · rintro (rfl | hrest)
    · exact .refl
    · exact .head h hrest

section Collect

variable [DecidableEq α]

/-- Follow parents up to the first node that has been seen, and see each node on the way. -/
def collect (f : α → Option α) : Nat → α → List α → List α
  | 0, _, seen => seen
  | fuel + 1, a, seen =>
    if a ∈ seen then seen
    else match f a with
      | none => a :: seen
      | some b => collect f fuel b (a :: seen)

variable {seen keys : List α} {fuel : Nat}

/-- Exactly the ancestors are added. In the middle of the way, each seen node has its parent among
the seen ones or is the child of the node that comes next. -/
theorem mem_collect (hkeys : ∀ a b, f a = some b → b ∈ keys) (ha : a ∈ keys) (hnodup : seen.Nodup)
    (hsub : seen ⊆ keys) (hfuel : keys.length + 1 ≤ fuel + seen.length)
    (hopen : ∀ x ∈ seen, ∀ y, f x = some y → y ∈ seen ∨ y = a) :
    b ∈ collect f fuel a seen ↔ b ∈ seen ∨ Reaches f a b := by
  induction fuel generalizing a seen with
  | zero =>
    have hle := (hnodup.subperm hsub).length_le
    omega
  | succ fuel ih =>
    rw [collect]
    by_cases hmem : a ∈ seen
    · rw [if_pos hmem]
      refine ⟨.inl, fun h => h.elim id fun hreach => hreach.mem_of_closed hmem ?_⟩
      intro x hx y hy
      rcases hopen x hx y hy with hseen | rfl
      · exact hseen
      · exact hmem
    · rw [if_neg hmem]
      cases hparent : f a with
      | none =>
        dsimp only
        rw [List.mem_cons, reaches_iff_of_none hparent, or_comm]
      | some c =>
        dsimp only
        rw [ih (hkeys a c hparent) (List.nodup_cons.mpr ⟨hmem, hnodup⟩)
          (List.cons_subset.mpr ⟨ha, hsub⟩) (by rw [List.length_cons]; omega), List.mem_cons,
          reaches_iff_of_some hparent, or_assoc, or_left_comm]
        intro x hx y hy
        rcases List.mem_cons.mp hx with rfl | hx
        · exact .inr (Option.some.inj (hparent.symm.trans hy)).symm
        · rcases hopen x hx y hy with hseen | rfl
          · exact .inl (List.mem_cons_of_mem _ hseen)
          · exact .inl List.mem_cons_self

theorem nodup_collect (hnodup : seen.Nodup) : (collect f fuel a seen).Nodup := by
  induction fuel generalizing a seen with
  | zero => exact hnodup
  | succ fuel ih =>
    rw [collect]
    split
    · exact hnodup
    · next hmem =>
      have hcons := List.nodup_cons.mpr ⟨hmem, hnodup⟩
      split
      · exact hcons
      · exact ih hcons

theorem collect_subset (hkeys : ∀ a b, f a = some b → b ∈ keys) (ha : a ∈ keys) (hsub : seen ⊆ keys) :
    collect f fuel a seen ⊆ keys := by
  induction fuel generalizing a seen with
  | zero => exact hsub
  | succ fuel ih =>
    rw [collect]
    have hcons := List.cons_subset.mpr ⟨ha, hsub⟩
    split
    · exact hsub
    · split
      · exact hcons
      · next hparent => exact ih (hkeys _ _ hparent) hcons

/-- The same from several nodes, one after the other with the same list. -/
theorem mem_foldl_collect (hkeys : ∀ a b, f a = some b → b ∈ keys) {roots : List α}
    (hroots : roots ⊆ keys) (hnodup : seen.Nodup) (hsub : seen ⊆ keys)
    (hfuel : keys.length + 1 ≤ fuel) (hclosed : ∀ x ∈ seen, ∀ y, f x = some y → y ∈ seen) :
    b ∈ roots.foldl (fun seen a => collect f fuel a seen) seen ↔
      b ∈ seen ∨ ∃ a ∈ roots, Reaches f a b := by
  induction roots generalizing seen with
  | nil => simp
  | cons a roots ih =>
    obtain ⟨ha, hroots⟩ := List.cons_subset.mp hroots
    have hmem : ∀ c, c ∈ collect f fuel a seen ↔ c ∈ seen ∨ Reaches f a c := fun c =>
      mem_collect hkeys ha hnodup hsub (by omega) fun x hx y hy => .inl (hclosed x hx y hy)
    rw [List.foldl_cons, ih hroots (nodup_collect hnodup) (collect_subset hkeys ha hsub), hmem,
      or_assoc, List.exists_mem_cons_iff]
    intro x hx y hy
    refine (hmem y).mpr (((hmem x).mp hx).imp (fun hseen => hclosed x hseen y hy) fun hreach => ?_)
    exact hreach.tail hy

end Collect

end Graph
