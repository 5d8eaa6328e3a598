import Mathlib.Init
import Mathlib.Tactic.Common

/-!
# Computations that may stop halfway

A computation changes a state step by step and may stop with an error at any of its steps. What it
has done until then stays done.
-/

namespace Storage

variable {σ α β : Type}

/-- A computation on a state, with an error text when it stops. -/
def Fallible (σ α : Type) : Type := σ → Except String α × σ

namespace Fallible

instance : Monad (Fallible σ) where
  pure a := fun s => (.ok a, s)
  bind x f := fun s =>
    match x s with
    | (.ok a, s') => f a s'
    | (.error e, s') => (.error e, s')

/-- Stop with an error. -/
def stop (e : String) : Fallible σ α := fun s => (.error e, s)

/-- Change the state. -/
def update (f : σ → σ) : Fallible σ Unit := fun s => (.ok (), f s)

/-- Read a part of the state. -/
def read (f : σ → α) : Fallible σ α := fun s => (.ok (f s), s)

/-- Stop if an error is given. -/
def ofExcept : Except String α → Fallible σ α
  | .ok a => pure a
  | .error e => stop e

variable {x : Fallible σ α} {f : α → Fallible σ β} {s s' : σ} {a : α} {b : β} {e : String}

variable {r : Except String α}

theorem pure_eq : (pure a : Fallible σ α) s = (r, s') ↔ r = .ok a ∧ s' = s := by
  rw [show (pure a : Fallible σ α) s = (.ok a, s) from rfl, Prod.mk.injEq, eq_comm,
    @eq_comm _ s s']

theorem stop_eq : (stop e : Fallible σ α) s = (r, s') ↔ r = .error e ∧ s' = s := by
  rw [stop, Prod.mk.injEq, eq_comm, @eq_comm _ s s']

theorem ofExcept_ok :
    (ofExcept r : Fallible σ α) s = (.ok a, s') ↔ r = .ok a ∧ s' = s := by
  cases r with
  | ok b =>
    rw [ofExcept, pure_eq]
    exact and_congr_left' eq_comm
  | error e =>
    rw [ofExcept, stop_eq]
    exact and_congr_left' eq_comm

/-- The first part stops the computation, or the rest goes on. -/
theorem bind_cases {r : Except String β} (h : (x >>= f) s = (r, s')) :
    (∃ e, x s = (.error e, s') ∧ r = .error e) ∨
      ∃ a s₁, x s = (.ok a, s₁) ∧ f a s₁ = (r, s') := by
  change (match x s with | (.ok a, s') => f a s' | (.error e, s') => (.error e, s')) = _ at h
  split at h
  · next a s₁ heq => exact .inr ⟨a, s₁, heq, h⟩
  · next e s₁ heq =>
    cases h
    exact .inl ⟨e, heq, rfl⟩

theorem bind_ok : (x >>= f) s = (.ok b, s') ↔ ∃ a s₁, x s = (.ok a, s₁) ∧ f a s₁ = (.ok b, s') := by
  change (match x s with | (.ok a, s') => f a s' | (.error e, s') => (.error e, s')) = _ ↔ _
  rcases x s with ⟨_ | a, s₁⟩
  · simp
  · simp

theorem bind_error : (x >>= f) s = (.error e, s') ↔
    x s = (.error e, s') ∨ ∃ a s₁, x s = (.ok a, s₁) ∧ f a s₁ = (.error e, s') := by
  change (match x s with | (.ok a, s') => f a s' | (.error e, s') => (.error e, s')) = _ ↔ _
  rcases x s with ⟨_ | a, s₁⟩
  · simp
  · simp

theorem bind_read {g : σ → α} : (read g >>= f) s = f (g s) s := rfl

theorem bind_update {g : σ → σ} {f : Unit → Fallible σ β} : (update g >>= f) s = f () (g s) := rfl

/-- The computation keeps a property of the state, whether it stops or not. -/
def Keeps (I : σ → Prop) (x : Fallible σ α) : Prop := ∀ s, I s → I (x s).2

variable {I : σ → Prop}

theorem keeps_pure (a : α) : Keeps I (pure a : Fallible σ α) := fun _ h => h

theorem keeps_stop (e : String) : Keeps I (stop e : Fallible σ α) := fun _ h => h

theorem keeps_read (f : σ → α) : Keeps I (read f : Fallible σ α) := fun _ h => h

theorem keeps_update {f : σ → σ} (h : ∀ s, I s → I (f s)) : Keeps I (update f : Fallible σ Unit) := h

theorem keeps_ofExcept (r : Except String α) : Keeps I (ofExcept r : Fallible σ α) := by
  cases r with
  | ok a => exact keeps_pure a
  | error e => exact keeps_stop e

theorem keeps_bind (hx : Keeps I x) (hf : ∀ a, Keeps I (f a)) : Keeps I (x >>= f) := by
  intro s hs
  have hx := hx s hs
  change I (match x s with | (.ok a, s') => f a s' | (.error e, s') => (.error e, s')).2
  split
  · next a s₁ heq =>
    rw [heq] at hx
    exact hf a s₁ hx
  · next e s₁ heq =>
    rw [heq] at hx
    exact hx

/-- A first part that keeps a property ends the computation with it, or hands it on. -/
theorem Keeps.bind_cases {r : Except String β} (hx : Keeps I x) (hs : I s)
    (h : (x >>= f) s = (r, s')) :
    I s' ∨ ∃ a s₁, x s = (.ok a, s₁) ∧ I s₁ ∧ f a s₁ = (r, s') := by
  have hx := hx s hs
  rcases Fallible.bind_cases h with ⟨e, hfail, -⟩ | ⟨a, s₁, hok, hrest⟩
  · rw [hfail] at hx
    exact .inl hx
  · rw [hok] at hx
    exact .inr ⟨a, s₁, hok, hx, hrest⟩

theorem keeps_ite {p : Prop} [Decidable p] {x y : Fallible σ α} (hx : Keeps I x) (hy : Keeps I y) :
    Keeps I (if p then x else y) := by
  split
  · exact hx
  · exact hy

/-- What is kept holds after a run. -/
theorem Keeps.of_eq (h : Keeps I x) (hs : I s) (hx : x s = (r, s')) : I s' := by
  have hafter := h s hs
  rwa [hx] at hafter

end Fallible

end Storage
