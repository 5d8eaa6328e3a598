import Mathlib.Init
import Mathlib.Tactic.Common

/-!
# Request programs over an interface of atomic commands

A program is a finite tree: it either returns a value or issues one command
of the interface and continues with the reply. Loops of a program are Lean
recursions that build the tree, so every program issues finitely many commands
along each sequence of replies.

## Implementation notes

The reply type depends on the command, not on a type index of the command, so
that an executed command together with its reply is an ordinary pair and can be
recorded in a history.
-/

namespace Concurrent

variable {Op : Type} {Res : Op → Type} {α β γ ε : Type}

/-- A request program: return a value, or issue a command and continue with its reply. -/
inductive Prog {Op : Type} (Res : Op → Type) (α : Type) : Type
  | pure (a : α)
  | call (op : Op) (k : Res op → Prog Res α)

namespace Prog

/-- Sequential composition grafts the second program onto the leaves of the first. -/
def bind : Prog Res α → (α → Prog Res β) → Prog Res β
  | .pure a, f => f a
  | .call op k, f => .call op fun r => (k r).bind f

/-- The program that issues a single command and returns its reply. -/
def perform (op : Op) : Prog Res (Res op) := .call op .pure

/-- The value of a program that has returned. -/
def result? : Prog Res α → Option α
  | .pure a => some a
  | .call _ _ => none

instance : Monad (Prog Res) where
  pure := .pure
  bind := bind

@[simp] theorem pure_bind' (a : α) (f : α → Prog Res β) :
    (Prog.pure a : Prog Res α) >>= f = f a := rfl

@[simp] theorem call_bind (op : Op) (k : Res op → Prog Res α) (f : α → Prog Res β) :
    Prog.call op k >>= f = .call op fun r => k r >>= f := rfl

@[simp] theorem pure_eq (a : α) : (pure a : Prog Res α) = .pure a := rfl

@[simp] theorem perform_bind (op : Op) (f : Res op → Prog Res β) :
    (perform op : Prog Res (Res op)) >>= f = .call op f := rfl

theorem bind_pure (p : Prog Res α) : p.bind .pure = p := by
  induction p with
  | pure a => rfl
  | call op k ih => simp only [bind, ih]

theorem bind_assoc (p : Prog Res α) (f : α → Prog Res β) (g : β → Prog Res γ) :
    (p.bind f).bind g = p.bind fun a => (f a).bind g := by
  induction p with
  | pure a => rfl
  | call op k ih => simp only [bind, ih]

instance : LawfulMonad (Prog Res) :=
  LawfulMonad.mk' (Prog Res) (fun p => bind_pure p) (fun _ _ => rfl) bind_assoc

variable {p : Prog Res α} {P : Op → Prop}

theorem result?_eq_some {a : α} :
    p.result? = some a ↔ p = .pure a := by
  cases p with
  | pure b => simp [result?]
  | call op k => simp [result?]

/-- Every command that the program can issue satisfies a predicate. -/
def Uses (ok : Op → Prop) : Prog Res α → Prop
  | .pure _ => True
  | .call op k => ok op ∧ ∀ r, (k r).Uses ok

theorem Uses.bind {ok : Op → Prop} {f : α → Prog Res β} (hp : p.Uses ok) (hf : ∀ a, (f a).Uses ok)
    : (p >>= f).Uses ok := by
  induction p with
  | pure a => exact hf a
  | call op k ih => exact ⟨hp.1, fun r => ih r (hp.2 r)⟩

theorem Uses.mono {ok ok' : Op → Prop} (hp : p.Uses ok) (h : ∀ op, ok op → ok' op)
    : p.Uses ok' := by
  induction p with
  | pure a => trivial
  | call op k ih => exact ⟨h op hp.1, fun r => ih r (hp.2 r)⟩

theorem uses_true (p : Prog Res α) : p.Uses fun _ => True := by
  induction p with
  | pure a => trivial
  | call op k ih => exact ⟨trivial, ih⟩

/-- The same closure for programs that may stop with an error. -/
theorem Uses.bindE {ok : Op → Prop} {p : ExceptT ε (Prog Res) α}
    {f : α → ExceptT ε (Prog Res) β}
    (hp : p.run.Uses ok) (hf : ∀ a, (f a).run.Uses ok) : (p >>= f).run.Uses ok := by
  refine Uses.bind hp fun r => ?_
  cases r with
  | ok a => exact hf a
  | error e => trivial

/-- Whatever the replies, the program issues a command of a kind at most once. -/
def Once (P : Op → Prop) : Prog Res α → Prop
  | .pure _ => True
  | .call op k => (∀ r, (k r).Once P) ∧ (P op → ∀ r, (k r).Uses fun op => ¬ P op)

theorem Uses.once (hp : p.Uses fun op => ¬ P op) : p.Once P := by
  induction p with
  | pure a => trivial
  | call op k ih => exact ⟨fun r => ih r (hp.2 r), fun h => absurd h hp.1⟩

theorem Once.bind {f : α → Prog Res β} (hp : p.Once P) (hf : ∀ a, (f a).Uses fun op => ¬ P op)
    : (p >>= f).Once P := by
  induction p with
  | pure a => exact (hf a).once
  | call op k ih => exact ⟨fun r => ih r (hp.1 r), fun h r => Uses.bind (hp.2 h r) hf⟩

theorem Once.bindE {p : ExceptT ε (Prog Res) α} {f : α → ExceptT ε (Prog Res) β} (hp : p.run.Once P)
    (hf : ∀ a, (f a).run.Uses fun op => ¬ P op) : (p >>= f).run.Once P := by
  refine Once.bind hp fun r => ?_
  cases r with
  | ok a => exact hf a
  | error e => trivial

end Prog

end Concurrent
