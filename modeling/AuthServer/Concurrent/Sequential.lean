import AuthServer.Concurrent.Interleaving

/-!
# Requests executed without interference

The execution of one program from start to end while no other request takes a
step. The environment keeps its choices: time passes and commands fail as the
regime allows.
-/

namespace Concurrent

variable {Op Call World Choice : Type} {Res : Op → Type} {Ret : Call → Type}
variable {α β ε : Type}

/-- The program runs alone from one moment to another and returns a value. -/
inductive Alone (S : Server Res World Choice Ret) (R : Regime Res World Choice Call)
    (tid : Nat) : Prog Res α → Moment Res World → α → Moment Res World → Prop
  | pure (a m) : Alone S R tid (.pure a) m a m
  | call {op k m ch r w a m'} (hc : R.allows m tid op ch)
      (he : S.exec tid op ch m.world = some (r, w))
      (tail : Alone S R tid (k r) (m.after tid op r w) a m') :
      Alone S R tid (.call op k) m a m'

namespace Alone

variable {S : Server Res World Choice Ret} {R : Regime Res World Choice Call} {tid : Nat}
variable {m m' : Moment Res World}

@[simp] theorem pure_iff {a b : α} :
    Alone S R tid (.pure a) m b m' ↔ b = a ∧ m' = m := by
  constructor
  · intro h
    cases h
    exact ⟨rfl, rfl⟩
  · rintro ⟨rfl, rfl⟩
    exact .pure _ _

theorem call_iff {op : Op} {k : Res op → Prog Res α} {a : α} :
    Alone S R tid (.call op k) m a m' ↔
      ∃ ch r w, R.allows m tid op ch ∧ S.exec tid op ch m.world = some (r, w) ∧
        Alone S R tid (k r) (m.after tid op r w) a m' := by
  constructor
  · intro h
    cases h with
    | call hc he tail => exact ⟨_, _, _, hc, he, tail⟩
  · rintro ⟨ch, r, w, hc, he, tail⟩
    exact .call hc he tail

variable {p : Prog Res α}

/-- A sequence runs alone exactly when its two parts do, one after the other. -/
theorem bind_iff {f : α → Prog Res β} {b : β} :
    Alone S R tid (p >>= f) m b m' ↔
      ∃ a m₁, Alone S R tid p m a m₁ ∧ Alone S R tid (f a) m₁ b m' := by
  induction p generalizing m with
  | pure a => simp
  | call op k ih =>
    simp only [Prog.call_bind, call_iff, ih]
    constructor
    · rintro ⟨ch, r, w, hc, he, a, m₁, h₁, h₂⟩
      exact ⟨a, m₁, ⟨ch, r, w, hc, he, h₁⟩, h₂⟩
    · rintro ⟨a, m₁, ⟨ch, r, w, hc, he, h₁⟩, h₂⟩
      exact ⟨ch, r, w, hc, he, a, m₁, h₁, h₂⟩

/-- The successful end of a sequence of programs that may stop with an error. -/
theorem bindE_ok {p : ExceptT ε (Prog Res) α} {f : α → ExceptT ε (Prog Res) β} {b : β} :
    Alone S R tid (p >>= f).run m (.ok b) m' ↔
      ∃ a m₁, Alone S R tid p.run m (.ok a) m₁ ∧ Alone S R tid (f a).run m₁ (.ok b) m' := by
  rw [ExceptT.run_bind, bind_iff]
  constructor
  · rintro ⟨x, m₁, h₁, h₂⟩
    cases x with
    | ok a => exact ⟨a, m₁, h₁, h₂⟩
    | error e => cases h₂
  · rintro ⟨a, m₁, h₁, h₂⟩
    exact ⟨.ok a, m₁, h₁, h₂⟩

theorem seq {p : ExceptT ε (Prog Res) α} {f : α → ExceptT ε (Prog Res) β} {b : β}
    (h : Alone S R tid (p >>= f).run m (.ok b) m') :
    ∃ a m₁, Alone S R tid p.run m (.ok a) m₁ ∧ Alone S R tid (f a).run m₁ (.ok b) m' := bindE_ok.mp h

theorem ret {a : α} {b : Except ε α}
    (h : Alone S R tid (Pure.pure a : ExceptT ε (Prog Res) α).run m b m') : b = .ok a ∧ m' = m :=
  pure_iff.mp h

/-- A sequence of programs that may stop with an error stops in its first part or goes on with
the second. -/
theorem bindE {p : ExceptT ε (Prog Res) α} {f : α → ExceptT ε (Prog Res) β} {b : Except ε β}
    (h : Alone S R tid (p >>= f).run m b m') :
    (∃ e, b = .error e ∧ Alone S R tid p.run m (.error e) m') ∨
      ∃ a m₁, Alone S R tid p.run m (.ok a) m₁ ∧ Alone S R tid (f a).run m₁ b m' := by
  rw [ExceptT.run_bind, bind_iff] at h
  obtain ⟨x, m₁, hfirst, hrest⟩ := h
  cases x with
  | ok a => exact .inr ⟨a, m₁, hfirst, hrest⟩
  | error e =>
    obtain ⟨rfl, rfl⟩ := pure_iff.mp hrest
    exact .inl ⟨e, rfl, hfirst⟩

/-- What each command of a program keeps, the program keeps when it is executed alone. -/
theorem keeps {J : Moment Res World → Prop} {ok : Op → Prop} {a : α}
    (h : Alone S R tid p m a m') (hu : p.Uses ok)
    (hstep : ∀ m op ch r w, J m → ok op → R.allows m tid op ch →
      S.exec tid op ch m.world = some (r, w) → J (m.after tid op r w)) (hm : J m) : J m' := by
  induction h with
  | pure => exact hm
  | call hc he _ ih => exact ih (hu.2 _) (hstep _ _ _ _ _ hm hu.1 hc he)

/-- A program whose commands can always be executed runs to its end. -/
theorem of_uses {ok : Op → Prop} (hu : p.Uses ok)
    (hok : ∀ m op, ok op → ∃ ch r w, R.allows m tid op ch ∧ S.exec tid op ch m.world = some (r, w))
    (m : Moment Res World) : ∃ a m', Alone S R tid p m a m' := by
  induction p generalizing m with
  | pure a => exact ⟨a, m, .pure a m⟩
  | call op k ih =>
    obtain ⟨ch, r, w, hallow, hexec⟩ := hok m op hu.1
    obtain ⟨a, m', htail⟩ := ih r (hu.2 r) (m.after tid op r w)
    exact ⟨a, m', .call hallow hexec htail⟩

/-- A request that can be executed alone is answered in a run of the server. -/
theorem run {call : Call} {p : Prog Res (Ret call)} {a : Ret call} (h : Alone S R tid p m a m')
    {c : Config Res World Ret} {born : Moment Res World} (hm : c.moment = m)
    (ht : c.threads[tid]? = some ⟨call, born, p⟩) :
    ∃ c', Run S R c c' ∧ c'.moment = m' ∧ c'.answered tid call a := by
  induction h generalizing c with
  | pure a m => exact ⟨c, .refl c, hm, born, ht⟩
  | @call op k m ch r w a m' hallow hexec _ ih =>
    subst hm
    have hlt := (List.getElem?_eq_some_iff.mp ht).1
    obtain ⟨c', later, hm', ha⟩ := ih
      (c := c.advance tid ⟨call, born, .call op k⟩ op r w (k r)) rfl
      (List.getElem?_set_self hlt)
    exact ⟨c', (Run.step (.refl c) ht rfl hallow hexec).trans later, hm', ha⟩

end Alone

/-- From every moment that satisfies `P` the program can run to its end alone, to a moment that
satisfies `Q`: no command of it stays blocked. -/
def Progresses (S : Server Res World Choice Ret) (R : Regime Res World Choice Call) (tid : Nat)
    (P : Moment Res World → Prop) (p : Prog Res α) (Q : Moment Res World → Prop) : Prop :=
  ∀ m, P m → ∃ a m', Alone S R tid p m a m' ∧ Q m'

namespace Progresses

variable {S : Server Res World Choice Ret} {R : Regime Res World Choice Call} {tid : Nat}
variable {P Q Q' : Moment Res World → Prop}

theorem pure (a : α) (h : ∀ m, P m → Q m) : Progresses S R tid P (.pure a) Q :=
  fun m hm => ⟨a, m, .pure a m, h m hm⟩

theorem call {op : Op} {k : Res op → Prog Res α}
    (h : ∀ m, P m → ∃ ch r w, R.allows m tid op ch ∧ S.exec tid op ch m.world = some (r, w) ∧
      Q (m.after tid op r w))
    (hk : ∀ r, Progresses S R tid Q (k r) Q') : Progresses S R tid P (.call op k) Q' := by
  intro m hm
  obtain ⟨ch, r, w, hallow, hexec, hq⟩ := h m hm
  obtain ⟨a, m', hrun, hq'⟩ := hk r _ hq
  exact ⟨a, m', .call hallow hexec hrun, hq'⟩

theorem bind {p : Prog Res α} {f : α → Prog Res β} (hp : Progresses S R tid P p Q)
    (hf : ∀ a, Progresses S R tid Q (f a) Q') : Progresses S R tid P (p >>= f) Q' := by
  intro m hm
  obtain ⟨a, m₁, hfirst, hq⟩ := hp m hm
  obtain ⟨b, m', hrest, hq'⟩ := hf a m₁ hq
  exact ⟨b, m', Alone.bind_iff.mpr ⟨a, m₁, hfirst, hrest⟩, hq'⟩

theorem bindE {p : ExceptT ε (Prog Res) α} {f : α → ExceptT ε (Prog Res) β}
    (hp : Progresses S R tid P p.run Q) (hf : ∀ a, Progresses S R tid Q (f a).run Q')
    (hstop : ∀ m, Q m → Q' m) : Progresses S R tid P (p >>= f).run Q' := by
  refine bind hp fun x => ?_
  cases x with
  | ok a => exact hf a
  | error e => exact pure _ hstop

end Progresses

/-- Execute a program alone with the given choices. -/
def Prog.playAlone (S : Server Res World Choice Ret) (tid : Nat) :
    Prog Res α → Moment Res World → List Choice → Option (α × Moment Res World)
  | .pure a, m, _ => some (a, m)
  | .call _ _, _, [] => none
  | .call op k, m, ch :: chs =>
    match S.exec tid op ch m.world with
    | none => none
    | some (r, w) => (k r).playAlone S tid (m.after tid op r w) chs

/-- What is executed with choices that a regime allows is an execution alone. -/
theorem Alone.of_playAlone {S : Server Res World Choice Ret} {R : Regime Res World Choice Call}
    {tid : Nat} {p : Prog Res α} {m m' : Moment Res World} {chs : List Choice} {a : α}
    (hc : ∀ ch ∈ chs, ∀ m op, R.allows m tid op ch)
    (h : p.playAlone S tid m chs = some (a, m')) : Alone S R tid p m a m' := by
  induction p generalizing m chs with
  | pure b =>
    obtain ⟨rfl, rfl⟩ : b = a ∧ m = m' := by simpa [Prog.playAlone] using h
    exact .pure _ _
  | call op k ih =>
    cases chs with
    | nil => cases h
    | cons ch chs =>
      simp only [Prog.playAlone] at h
      split at h
      · cases h
      · next r w he =>
        exact .call (hc ch List.mem_cons_self m op) he
          (ih r (fun ch hmem => hc ch (List.mem_cons_of_mem _ hmem)) h)

/-- Execute a program alone as long as each reply passes a test. -/
def Prog.playChecked (S : Server Res World Choice Ret) (tid : Nat) (ok : (op : Op) → Res op → Bool) :
    Prog Res α → Moment Res World → List Choice → Option (α × Moment Res World)
  | .pure a, m, _ => some (a, m)
  | .call _ _, _, [] => none
  | .call op k, m, ch :: chs =>
    match S.exec tid op ch m.world with
    | none => none
    | some (r, w) => if ok op r then (k r).playChecked S tid ok (m.after tid op r w) chs else none

/-- An execution alone under a regime that allows every step whose reply passes the test. -/
theorem Alone.of_playChecked {S : Server Res World Choice Ret} {R : Regime Res World Choice Call}
    {tid : Nat} {ok : (op : Op) → Res op → Bool} {p : Prog Res α} {m m' : Moment Res World}
    {chs : List Choice} {a : α}
    (hok : ∀ m op ch r w, S.exec tid op ch m.world = some (r, w) → ok op r = true →
      R.allows m tid op ch)
    (h : p.playChecked S tid ok m chs = some (a, m')) : Alone S R tid p m a m' := by
  induction p generalizing m chs with
  | pure b =>
    obtain ⟨rfl, rfl⟩ : b = a ∧ m = m' := by simpa [Prog.playChecked] using h
    exact .pure _ _
  | call op k ih =>
    cases chs with
    | nil => cases h
    | cons ch chs =>
      simp only [Prog.playChecked] at h
      split at h
      · cases h
      · next r w he =>
        split at h
        · next hr => exact .call (hok m op ch r w he hr) he (ih r h)
        · cases h

end Concurrent
