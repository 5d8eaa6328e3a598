import AuthServer.Concurrent.Interleaving
import Mathlib.Logic.Relation

/-!
# Rely-guarantee reasoning for interleaved requests

A discipline consists of an abstraction of the moments of a run, an invariant of
the abstract state and, for each thread, a guarantee on its abstract steps. A
program meets a specification under a discipline when every command it issues
keeps the invariant and stays inside the guarantee, whatever the other threads do
inside theirs, and its result satisfies the postcondition. If the program of every
admitted request meets its specification, so does every thread of every run.

## Implementation notes

The specification is a recursive predicate on the program tree, so each assertion
is attached to a node and has to survive the steps of other threads. Commands that
leave the abstraction unchanged need no assertion of their own.
-/

namespace Concurrent

variable {Op Call World Choice : Type} {Res : Op → Type} {Ret : Call → Type}
variable {A α β ε : Type}

/-- An abstraction with its invariant and the guarantee of each thread. -/
structure Discipline (Res : Op → Type) (World A : Type) where
  view : Moment Res World → A
  inv : A → Prop
  guar : Nat → A → A → Prop
  guar_refl : ∀ tid a, inv a → guar tid a a

namespace Discipline

variable (D : Discipline Res World A) (S : Server Res World Choice Ret)
variable (R : Regime Res World Choice Call)

/-- An assertion that no step of another thread can invalidate. -/
def Stable (tid : Nat) (P : A → Prop) : Prop :=
  ∀ i ≠ tid, ∀ a b, D.inv a → D.inv b → D.guar i a b → P a → P b

/-- A step of any thread inside its guarantee. -/
def Moves (a b : A) : Prop := D.inv a ∧ D.inv b ∧ ∃ i, D.guar i a b

/-- Thread `tid`, started where `P` holds, keeps to the discipline and returns with `Q`. -/
def Sat (tid : Nat) : Prog Res α → (A → Prop) → (α → A → Prop) → Prop
  | .pure x, P, Q => D.Stable tid P ∧ ∀ a, D.inv a → P a → Q x a
  | .call op k, P, Q => D.Stable tid P ∧
      ∀ m ch r w, D.inv (D.view m) → P (D.view m) → R.allows m tid op ch →
        S.exec tid op ch m.world = some (r, w) →
        D.inv (D.view (m.after tid op r w)) ∧
        D.guar tid (D.view m) (D.view (m.after tid op r w)) ∧
        ∃ P', P' (D.view (m.after tid op r w)) ∧ Sat tid (k r) P' Q

/-- A command whose execution by `tid` does not change the abstract state. -/
def Silent (tid : Nat) (op : Op) : Prop :=
  ∀ m ch r w, D.inv (D.view m) → R.allows m tid op ch →
    S.exec tid op ch m.world = some (r, w) → D.view (m.after tid op r w) = D.view m

variable {D S R} {tid : Nat} {P P' : A → Prop}

variable {p : Prog Res α} {Q : α → A → Prop} {op : Op}

theorem Sat.stable (h : Sat D S R tid p P Q) :
    D.Stable tid P := by
  cases p with
  | pure x => exact h.1
  | call op k => exact h.1

/-- A stable assertion that is stronger than the precondition may replace it. -/
theorem Sat.strengthen (h : Sat D S R tid p P Q) (hs : D.Stable tid P')
    (hi : ∀ a, D.inv a → P' a → P a) : Sat D S R tid p P' Q := by
  cases p with
  | pure x => exact ⟨hs, fun a ha hp => h.2 a ha (hi a ha hp)⟩
  | call op k => exact ⟨hs, fun m ch r w ha hp => h.2 m ch r w ha (hi _ ha hp)⟩

/-- The postcondition may be weakened. -/
theorem Sat.weaken {Q Q' : α → A → Prop} (h : Sat D S R tid p P Q)
    (hq : ∀ x a, D.inv a → Q x a → Q' x a) : Sat D S R tid p P Q' := by
  induction p generalizing P with
  | pure x => exact ⟨h.1, fun a ha hp => hq x a ha (h.2 a ha hp)⟩
  | call op k ih =>
    refine ⟨h.1, fun m ch r w ha hp hc he => ?_⟩
    obtain ⟨hi, hg, P₁, hp₁, hk⟩ := h.2 m ch r w ha hp hc he
    exact ⟨hi, hg, P₁, hp₁, ih r hk⟩

theorem Sat.pure {x : α} (hs : D.Stable tid P) (hq : ∀ a, D.inv a → P a → Q x a)
    : Sat D S R tid (.pure x) P Q := ⟨hs, hq⟩

theorem Sat.call {k : Res op → Prog Res α} (hs : D.Stable tid P)
    (h : ∀ m ch r w, D.inv (D.view m) → P (D.view m) → R.allows m tid op ch →
      S.exec tid op ch m.world = some (r, w) →
      D.inv (D.view (m.after tid op r w)) ∧
      D.guar tid (D.view m) (D.view (m.after tid op r w)) ∧
      ∃ P', P' (D.view (m.after tid op r w)) ∧ Sat D S R tid (k r) P' Q) :
    Sat D S R tid (.call op k) P Q := ⟨hs, h⟩

/-- Sequencing: the continuation is started in whatever assertion the first program ends with. -/
theorem Sat.bind {f : α → Prog Res β} {M : α → A → Prop} {Q : β → A → Prop}
    (hp : Sat D S R tid p P M)
    (hf : ∀ x P', D.Stable tid P' → (∀ a, D.inv a → P' a → M x a) → Sat D S R tid (f x) P' Q) :
    Sat D S R tid (p >>= f) P Q := by
  induction p generalizing P with
  | pure x => exact hf x P hp.1 hp.2
  | call op k ih =>
    refine ⟨hp.1, fun m ch r w ha hm hc he => ?_⟩
    obtain ⟨hi, hg, P₁, hp₁, hk⟩ := hp.2 m ch r w ha hm hc he
    exact ⟨hi, hg, P₁, hp₁, ih r hk⟩

/-- Postconditions of programs that may stop with an error. -/
def post (Q : α → A → Prop) (E : ε → A → Prop) : Except ε α → A → Prop
  | .ok x => Q x
  | .error e => E e

/-- Sequencing of programs that may stop with an error. -/
theorem Sat.seqE {p : ExceptT ε (Prog Res) α} {f : α → ExceptT ε (Prog Res) β}
    {M : α → A → Prop} {Q : β → A → Prop} {E : ε → A → Prop}
    (hp : Sat D S R tid p.run P (post M E))
    (hf : ∀ x, Sat D S R tid (f x).run (M x) (post Q E)) :
    Sat D S R tid (p >>= f).run P (post Q E) := by
  refine Sat.bind hp fun x P' hs hi => ?_
  cases x with
  | ok x => exact (hf x).strengthen hs hi
  | error e => exact ⟨hs, hi⟩

/-- A silent command keeps every assertion. -/
theorem Sat.silent {k : Res op → Prog Res α} (ho : Silent D S R tid op) (hs : D.Stable tid P)
    (hk : ∀ r, Sat D S R tid (k r) P Q) :
    Sat D S R tid (.call op k) P Q := by
  refine ⟨hs, fun m ch r w ha hp hc he => ?_⟩
  rw [ho m ch r w ha hc he]
  exact ⟨ha, D.guar_refl _ _ ha, P, hp, hk r⟩

/-- A program all of whose commands are silent keeps every stable assertion. -/
theorem Sat.of_silent (hu : p.Uses (Silent D S R tid)) (hs : D.Stable tid P)
    : Sat D S R tid p P fun _ => P := by
  induction p with
  | pure x => exact ⟨hs, fun _ _ hp => hp⟩
  | call op k ih => exact .silent hu.1 hs fun r => ih r (hu.2 r)

theorem Stable.and {P₁ P₂ : A → Prop} (h₁ : D.Stable tid P₁) (h₂ : D.Stable tid P₂) :
    D.Stable tid fun a => P₁ a ∧ P₂ a :=
  fun i hi a b ha hb hg hp => ⟨h₁ i hi a b ha hb hg hp.1, h₂ i hi a b ha hb hg hp.2⟩

theorem Stable.const (p : Prop) : D.Stable tid fun _ => p :=
  fun _ _ _ _ _ _ _ hp => hp

/-- A fact in the precondition may be assumed. -/
theorem Sat.assume {fact : Prop} (hs : D.Stable tid P) (h : fact → Sat D S R tid p P Q)
    : Sat D S R tid p (fun a => P a ∧ fact) Q := by
  by_cases hf : fact
  · exact (h hf).strengthen (hs.and (.const fact)) fun _ _ hp => hp.1
  · cases p with
    | pure x => exact ⟨hs.and (.const fact), fun _ _ hp => absurd hp.2 hf⟩
    | call op k => exact ⟨hs.and (.const fact), fun _ _ _ _ _ hp => absurd hp.2 hf⟩

/-- Every thread meets the specification of its request from where it stands. -/
def Sound (D : Discipline Res World A) (S : Server Res World Choice Ret)
    (R : Regime Res World Choice Call)
    (spec : (call : Call) → Nat → Moment Res World → Ret call → A → Prop)
    (c : Config Res World Ret) : Prop :=
  c.Numbered ∧ D.inv (D.view c.moment) ∧
    ∀ tid t, c.threads[tid]? = some t →
      ∃ P, P (D.view c.moment) ∧ Sat D S R tid t.prog P (spec t.call tid t.born)

variable {spec : (call : Call) → Nat → Moment Res World → Ret call → A → Prop}
variable {c c' : Config Res World Ret}

/-- The obligation for a family of requests: each program meets its specification when it is
started at a moment whose history has no event of its thread. -/
def Meets (D : Discipline Res World A) (S : Server Res World Choice Ret)
    (R : Regime Res World Choice Call)
    (spec : (call : Call) → Nat → Moment Res World → Ret call → A → Prop) : Prop :=
  ∀ call, R.admits call → ∀ tid m, D.inv (D.view m) → (∀ e ∈ m.trace, e.tid < tid) →
    ∃ P, P (D.view m) ∧ Sat D S R tid (S.program call) P (spec call tid m)

theorem Sound.start {w : World} (hi : D.inv (D.view ⟨w, []⟩)) :
    Sound D S R spec (Config.start w) := by
  refine ⟨Config.start_numbered w, hi, fun tid t ht => ?_⟩
  simp [Config.start] at ht

theorem Sound.spawn (hm : Meets D S R spec) (h : Sound D S R spec c) {call : Call}
    (ha : R.admits call) : Sound D S R spec (c.spawn S call) := by
  refine ⟨(Run.spawn (.refl c) ha : Run S R c _).numbered h.1, h.2.1, fun tid t ht => ?_⟩
  simp only [Config.spawn, List.getElem?_append] at ht
  split at ht
  · exact h.2.2 tid t ht
  · next hlen =>
    obtain ⟨hz, -⟩ := List.getElem?_eq_some_iff.mp ht
    simp only [List.length_singleton] at hz
    obtain rfl : tid = c.threads.length := by omega
    simp only [Nat.sub_self, List.getElem?_cons_zero, Option.some.injEq] at ht
    subst ht
    exact hm call ha _ c.moment h.2.1 h.1

/-- One step of one thread keeps all threads sound, and it is a move of the discipline. -/
theorem Sound.step (h : Sound D S R spec c) {t : Thread Res World Ret}
    {k : Res op → Prog Res (Ret t.call)} {ch : Choice} {r : Res op} {w : World}
    (ht : c.threads[tid]? = some t) (hp : t.prog = .call op k) (hc : R.allows c.moment tid op ch)
    (he : S.exec tid op ch c.moment.world = some (r, w)) :
    Sound D S R spec (c.advance tid t op r w (k r)) ∧
      D.Moves (D.view c.moment) (D.view (c.moment.after tid op r w)) := by
  obtain ⟨hn, hi, hall⟩ := h
  obtain ⟨P, hP, hsat⟩ := hall tid t ht
  rw [hp] at hsat
  obtain ⟨hi', hg, P', hP', hk⟩ := hsat.2 c.moment ch r w hi hP hc he
  refine ⟨⟨(Run.step (.refl c) ht hp hc he : Run S R c _).numbered hn, hi', ?_⟩, hi, hi', tid, hg⟩
  intro tid' t' ht'
  simp only [Config.advance, List.getElem?_set] at ht'
  by_cases heq : tid = tid'
  · subst heq
    rw [if_pos rfl] at ht'
    split at ht'
    · cases ht'
      exact ⟨P', hP', hk⟩
    · cases ht'
  · rw [if_neg heq] at ht'
    obtain ⟨P₁, hP₁, hs₁⟩ := hall tid' t' ht'
    exact ⟨P₁, hs₁.stable tid heq _ _ hi hi' hg hP₁, hs₁⟩

/-- Every configuration of a run is sound, and the abstract states of the run are connected by
moves of the discipline. -/
theorem Sound.run (hm : Meets D S R spec) (run : Run S R c c') (h : Sound D S R spec c) :
    Sound D S R spec c' ∧
      Relation.ReflTransGen D.Moves (D.view c.moment) (D.view c'.moment) := by
  induction run with
  | refl => exact ⟨h, .refl⟩
  | spawn _ ha ih => exact ⟨ih.1.spawn hm ha, ih.2⟩
  | step _ ht hp hc he ih =>
    obtain ⟨hs, hmv⟩ := ih.1.step ht hp hc he
    exact ⟨hs, ih.2.tail hmv⟩

/-- The answer of a finished thread satisfies the specification of its request. -/
theorem Sound.answered (h : Sound D S R spec c) {call : Call} {a : Ret call}
    {born : Moment Res World} (ht : c.threads[tid]? = some ⟨call, born, .pure a⟩) :
    spec call tid born a (D.view c.moment) := by
  obtain ⟨P, hP, hs⟩ := h.2.2 tid _ ht
  exact hs.2 _ h.2.1 hP

/-- A property kept by every move is kept by every run. -/
theorem Sound.preserves (hm : Meets D S R spec) (run : Run S R c c')
    (h : Sound D S R spec c) {J : A → Prop} (hJ : ∀ a b, D.Moves a b → J a → J b)
    (hc : J (D.view c.moment)) : J (D.view c'.moment) := by
  have hmoves := (h.run hm run).2
  generalize D.view c'.moment = b at hmoves ⊢
  induction hmoves with
  | refl => exact hc
  | tail _ hmv ih => exact hJ _ _ hmv ih

-- The rules above are the interface; unfolding the predicate would unfold whole programs.
attribute [irreducible] Sat

end Discipline

end Concurrent
