import AuthServer.Concurrent.RelyGuarantee
import AuthServer.Concurrent.Replay

/-!
# Marks in the history

A marking picks the executed commands that a statement is about and says what each
of them stands for. What a thread has done so far is then the set of its marks, and
a command changes it only by the mark it leaves.
-/

namespace Concurrent

variable {Op Call World Choice M A α : Type} {Res : Op → Type} {Ret : Call → Type}

/-- What a command with its reply stands for, if anything. -/
abbrev Marking (Res : Op → Type) (M : Type) := (op : Op) → Res op → Option M

namespace Moment

variable (mark : Marking Res M)

/-- A thread has left a mark. -/
def Marked (m : Moment Res World) (tid : Nat) (x : M) : Prop :=
  ∃ e ∈ m.trace, e.tid = tid ∧ mark e.op e.res = some x

variable {mark} {m : Moment Res World} {tid i : Nat} {op : Op} {r : Res op} {w : World} {x : M}

theorem marked_after : (m.after tid op r w).Marked mark i x ↔
    (i = tid ∧ mark op r = some x) ∨ m.Marked mark i x := by
  simp only [Marked, after, List.mem_cons, exists_eq_or_imp]
  constructor
  · rintro (⟨ht, hx⟩ | h)
    · exact .inl ⟨ht.symm, hx⟩
    · exact .inr h
  · rintro (⟨ht, hx⟩ | h)
    · exact .inl ⟨ht.symm, hx⟩
    · exact .inr h

theorem Marked.of_after (h : (m.after tid op r w).Marked mark i x) :
    (i = tid ∧ mark op r = some x) ∨ m.Marked mark i x := marked_after.mp h

/-- Marks stay. -/
theorem Marked.after (h : m.Marked mark i x) : (m.after tid op r w).Marked mark i x :=
  marked_after.mpr (.inr h)

/-- A command without a mark leaves the marks alone. -/
theorem marked_after_of_none (h : mark op r = none) :
    (m.after tid op r w).Marked mark = m.Marked mark := by
  funext i x
  rw [marked_after, h]
  simp

/-- A thread that has executed nothing has left no mark. -/
theorem not_marked_of_lt (h : ∀ e ∈ m.trace, e.tid < tid) : ¬ m.Marked mark tid x := by
  rintro ⟨e, he, ht, -⟩
  have := h e he
  omega

theorem not_marked_nil {w : World} : ¬ (⟨w, []⟩ : Moment Res World).Marked mark tid x := by
  rintro ⟨e, he, -⟩
  cases he

/-- The marks of a thread are those of its own replies. -/
theorem marked_iff_own : m.Marked mark tid x ↔ ∃ e ∈ m.own tid, mark e.1 e.2 = some x := by
  constructor
  · rintro ⟨e, he, ht, hx⟩
    exact ⟨⟨e.op, e.res⟩, mem_own.mpr ⟨e, he, ht, rfl⟩, hx⟩
  · rintro ⟨e, he, hx⟩
    obtain ⟨y, hy, ht, rfl⟩ := mem_own.mp he
    exact ⟨y, hy, ht, hx⟩

/-- A test for marks. -/
def marks [DecidableEq M] (mark : Marking Res M) (m : Moment Res World) (tid : Nat) (x : M) : Bool :=
  m.trace.any fun e => e.tid == tid && mark e.op e.res == some x

theorem marked_of_marks [DecidableEq M] (h : m.marks mark tid x = true) : m.Marked mark tid x := by
  obtain ⟨e, he, hx⟩ := List.any_eq_true.mp h
  rw [Bool.and_eq_true, beq_iff_eq, beq_iff_eq] at hx
  exact ⟨e, he, hx⟩

end Moment

namespace Discipline

variable {D : Discipline Res World A} {S : Server Res World Choice Ret}
variable {R : Regime Res World Choice Call} {tid : Nat} {P : A → Prop}

/-- A command whose execution by `tid` keeps to the discipline and keeps an assertion. -/
def Keeps (D : Discipline Res World A) (S : Server Res World Choice Ret)
    (R : Regime Res World Choice Call) (tid : Nat) (P : A → Prop) (op : Op) : Prop :=
  ∀ m ch r w, D.inv (D.view m) → P (D.view m) → R.allows m tid op ch →
    S.exec tid op ch m.world = some (r, w) →
    D.inv (D.view (m.after tid op r w)) ∧
    D.guar tid (D.view m) (D.view (m.after tid op r w)) ∧
    P (D.view (m.after tid op r w))

/-- A program all of whose commands keep a stable assertion keeps it. -/
theorem Sat.of_keeps {p : Prog Res α} (hu : p.Uses (Keeps D S R tid P))
    (hs : D.Stable tid P) : Sat D S R tid p P fun _ => P := by
  induction p with
  | pure x => exact .pure hs fun _ _ hp => hp
  | call op k ih =>
    refine .call hs fun m ch r w hi hp ha he => ?_
    obtain ⟨hi', hg, hp'⟩ := hu.1 m ch r w hi hp ha he
    exact ⟨hi', hg, P, hp', ih r (hu.2 r)⟩

end Discipline

end Concurrent
