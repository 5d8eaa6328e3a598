import AuthServer.Concurrent.History
import Mathlib.Data.Set.Basic

/-!
# Edits of a shared row

A row has columns, and an edit says of some of them which values they may have afterwards. When each
edit of a shared row starts from the row as it is stored, a column that one request has set keeps
its value whatever requests with other columns do.
-/

namespace Concurrent

/-- The columns of a row. -/
structure Columns (ρ : Type) where
  Col : Type
  Val : Col → Type
  get : ρ → (col : Col) → Val col

variable {ρ : Type} {C : Columns ρ}

/-- The columns that are set, each with the values it may have afterwards. -/
def Edit (C : Columns ρ) : Type := (col : C.Col) → Option (Set (C.Val col))

namespace Edit

variable {e e' : Edit C} {row row' : ρ}

/-- The row has a value of the edit in every column that is set. -/
def Carries (e : Edit C) (row : ρ) : Prop := ∀ col vs, e col = some vs → C.get row col ∈ vs

/-- The edit turns one row into another: it sets its columns and leaves the others alone. -/
structure Turns (e : Edit C) (row row' : ρ) : Prop where
  sets : e.Carries row'
  leaves : ∀ col, e col = none → C.get row' col = C.get row col

/-- No column is set by both. -/
def Apart (e e' : Edit C) : Prop := ∀ col, e col = none ∨ e' col = none

theorem Apart.symm (h : e.Apart e') : e'.Apart e := fun col => (h col).symm

/-- What one edit has set, an edit of other columns leaves. -/
theorem Turns.keeps (h : e'.Turns row row') (hapart : e.Apart e') (hc : e.Carries row) :
    e.Carries row' := by
  intro col vs hvs
  rcases hapart col with hnone | hnone
  · rw [hvs] at hnone
    cases hnone
  · rw [h.leaves col hnone]
    exact hc col vs hvs

end Edit

variable {Op Call World Choice : Type} {Res : Op → Type} {Ret : Call → Type}
variable {S : Server Res World Choice Ret} {R : Regime Res World Choice Call}
variable {c : Config Res World Ret} {w₀ : World}
/-- A thread had its request before its last step. -/
theorem Config.requested.of_advance {tid : Nat} {t : Thread Res World Ret} {op : Op} {r : Res op}
    {w : World} {p : Prog Res (Ret t.call)} {i : Nat} {call : Call}
    (h : (c.advance tid t op r w p).requested i call) (ht : c.threads[tid]? = some t) :
    c.requested i call := by
  obtain ⟨born, q, hi⟩ := h
  rw [Config.advance] at hi
  by_cases heq : tid = i
  · subst heq
    rw [List.getElem?_set_self (List.getElem?_eq_some_iff.mp ht).1] at hi
    cases hi
    exact ⟨_, _, ht⟩
  · rw [List.getElem?_set_ne heq] at hi
    exact ⟨born, q, hi⟩

variable (stored : World → Option ρ) (edit : Call → Edit C) (mark : Marking Res Unit)

/-- The row is there, and carries the edit of every request that has left a mark. -/
def Config.Edited (c : Config Res World Ret) : Prop :=
  ∃ row, stored c.moment.world = some row ∧
    ∀ i call, c.requested i call → c.moment.Marked mark i () → (edit call).Carries row

variable {stored edit mark}

/-- Two requests that have been answered and have left their marks have left a row with both
edits. -/
theorem Config.Edited.both (h : c.Edited stored edit mark) {i j : Nat} {call call' : Call}
    {y : Ret call} {y' : Ret call'} (hi : c.answered i call y) (hj : c.answered j call' y')
    (hmark : c.moment.Marked mark i ()) (hmark' : c.moment.Marked mark j ()) :
    ∃ row, stored c.moment.world = some row ∧ (edit call).Carries row ∧ (edit call').Carries row := by
  obtain ⟨row, hrow, hall⟩ := h
  obtain ⟨born, hi⟩ := hi
  obtain ⟨born', hj⟩ := hj
  exact ⟨row, hrow, hall i call ⟨_, _, hi⟩ hmark, hall j call' ⟨_, _, hj⟩ hmark'⟩

/-- Of two requests with different columns, any two are the same or have different columns. -/
theorem apart_of_pair {call call' : Call} (h : (edit call).Apart (edit call')) (x x' : Call)
    (hx : x = call ∨ x = call') (hx' : x' = call ∨ x' = call') :
    edit x = edit x' ∨ (edit x).Apart (edit x') := by
  rcases hx with rfl | rfl <;> rcases hx' with rfl | rfl
  · exact .inl rfl
  · exact .inr h
  · exact .inr h.symm
  · exact .inl rfl

/-- When every command that is executed leaves the row alone without a mark or turns it by the edit
of its request, and different requests set different columns, no edit is lost. -/
theorem Run.edited (run : Run S R (Config.start w₀) c) (hw : (stored w₀).isSome = true)
    (hapart : ∀ call call', R.admits call → R.admits call' →
      edit call = edit call' ∨ (edit call).Apart (edit call'))
    (hstep : ∀ c₁ tid t op k ch r w row, Run S R (Config.start w₀) c₁ →
      c₁.threads[tid]? = some t → t.prog = .call op k → R.allows c₁.moment tid op ch →
      S.exec tid op ch c₁.moment.world = some (r, w) → stored c₁.moment.world = some row →
      (stored w = some row ∧ mark op r = none) ∨
        ∃ row', stored w = some row' ∧ (edit t.call).Turns row row') :
    c.Edited stored edit mark := by
  refine run.invariant (J := Config.Edited stored edit mark) ?_ ?_ ?_
  · -- a request that has just arrived has left no mark
    rintro c₁ call run₁ - ⟨row, hrow, hall⟩
    refine ⟨row, hrow, fun i call' ⟨born, p, ht⟩ hmark => ?_⟩
    simp only [Config.spawn, List.getElem?_append] at ht
    split at ht
    · exact hall i call' ⟨born, p, ht⟩ hmark
    · next hlen =>
      refine absurd hmark (Moment.not_marked_of_lt fun e he => ?_)
      exact Nat.lt_of_lt_of_le (run₁.numbered (Config.start_numbered w₀) e he) (by omega)
  · rintro c₁ tid t op k ch r w run₁ ⟨row, hrow, hall⟩ ht hp ha he
    rcases hstep c₁ tid t op k ch r w row run₁ ht hp ha he hrow with ⟨hsame, hnone⟩ |
      ⟨row', hrow', hturns⟩
    · refine ⟨row, hsame, fun i call hi hmark => hall i call (hi.of_advance ht) ?_⟩
      rcases hmark.of_after with ⟨-, hnow⟩ | hbefore
      · rw [hnone] at hnow
        cases hnow
      · exact hbefore
    · refine ⟨row', hrow', fun i call hreq hmark => ?_⟩
      obtain ⟨born, p, hi⟩ := hreq.of_advance ht
      have hcall : R.admits call := run₁.admitted _ (List.mem_of_getElem? hi)
      have htcall : R.admits t.call := run₁.admitted t (List.mem_of_getElem? ht)
      rcases hapart call t.call hcall htcall with heq | hdisjoint
      · rw [heq]
        exact hturns.sets
      · rcases hmark.of_after with ⟨rfl, -⟩ | hbefore
        · cases ht.symm.trans hi
          exact hturns.sets
        · exact hturns.keeps hdisjoint (hall i call ⟨born, p, hi⟩ hbefore)
  · obtain ⟨row, hrow⟩ := Option.isSome_iff_exists.mp hw
    exact ⟨row, hrow, fun i call _ hmark => absurd hmark Moment.not_marked_nil⟩

end Concurrent
