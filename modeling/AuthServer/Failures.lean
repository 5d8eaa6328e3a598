import AuthServer.Alone

/-!
# Which commands may fail

Executions alone in which a store may fail at some commands only. A handler that issues none of
them ends without a propagated error, so that an answer that reports one says where the handler has
stopped.
-/

namespace AuthServer

open Concurrent Handler

/-- The reply reports a failure of the store. -/
def Op.failed : (op : Op) → Res op → Bool
  | .sql _, (r : Except DbError _) => !r.isOk
  | .redis _, (r : Except String _) => !r.isOk
  | .now, _ | .newUuid, _ | .urlSafe _, _ | .userCode, _ | .salt, _ | .jitteredTtl _, _
  | .activeKid, _ => false

/-- A command of a request fails only where `F` allows it. -/
def failingOnly (env : Env) (F : Nat → Instant → Op → Prop) : Rules where
  allows m tid op ch := ∀ r w, World.exec env tid op ch m.world = some (r, w) →
    op.failed r = true → F tid m op

/-- From the moments of `J` the handler ends without a propagated error and with a value of `P`. -/
def Completes (env : Env) (F : Nat → Instant → Op → Prop) (J : Nat → Instant → Prop) {α : Type}
    (h : Handler α) (P : α → Prop) : Prop :=
  ∀ tid m y m', J tid m → Alone (server env) (failingOnly env F) tid h.run m y m' →
    ∃ x, y = .ok x ∧ P x

section Rules

variable {α β : Type} {env : Env} {F : Nat → Instant → Op → Prop} {J : Nat → Instant → Prop}
variable {P : α → Prop} {Q : β → Prop}

theorem completes_pure {x : α} (hx : P x) : Completes env F J (pure x) P := by
  intro tid m y m' _ ha
  obtain ⟨rfl, -⟩ := ha.ret
  exact ⟨x, rfl, hx⟩

/-- `J` holds on once it holds. -/
theorem later_of_alone (hJ : ∀ tid m op r w, J tid m → J tid (m.after tid op r w)) {tid : Nat}
    {m m' : Instant} {p : Prog Res α} {x : α} {R : Rules} (hm : J tid m)
    (ha : Alone (server env) R tid p m x m') : J tid m' := by
  induction ha with
  | pure => exact hm
  | call _ _ _ ih => exact ih (hJ _ _ _ _ _ hm)

theorem completes_bind (hJ : ∀ tid m op r w, J tid m → J tid (m.after tid op r w))
    {h : Handler α} {f : α → Handler β} (hh : Completes env F J h P)
    (hf : ∀ x, P x → Completes env F J (f x) Q) : Completes env F J (h >>= f) Q := by
  intro tid m y m' hm ha
  rcases ha.bindE with ⟨e, rfl, hstop⟩ | ⟨x, m₁, hfirst, hrest⟩
  · obtain ⟨x, hx, -⟩ := hh tid m _ m' hm hstop
    cases hx
  · obtain ⟨x', hx, hP⟩ := hh tid m _ m₁ hm hfirst
    cases hx
    exact hf x hP tid m₁ y m' (later_of_alone hJ hm hfirst) hrest

theorem completes_perform (op : Op) : Completes env F J (perform op) fun _ => True := by
  intro tid m y m' _ ha
  obtain ⟨_, r, _, -, -, rfl, -⟩ := alone_perform.mp ha
  exact ⟨r, rfl, trivial⟩

theorem completes_sql {s : Sql} (hs : ∀ tid m, J tid m → ¬ F tid m (.sql s)) :
    Completes env F J (sql s) fun _ => True := by
  intro tid m y m' hm ha
  obtain ⟨ch, r, w, hallow, he, -, ⟨e, rfl, rfl⟩ | ⟨x, -, rfl⟩⟩ := alone_sql_cases ha
  · exact absurd (hallow _ _ he rfl) (hs tid m hm)
  · exact ⟨x, rfl, trivial⟩

theorem completes_tryRedis {c : RedisCmd} (hc : ∀ tid m, J tid m → ¬ F tid m (.redis c)) :
    Completes env F J (tryRedis c) fun r => ∃ x, r = .ok x := by
  intro tid m y m' hm ha
  obtain ⟨ch, r, w, hallow, he, rfl, -⟩ := alone_perform.mp ha
  refine ⟨r, rfl, ?_⟩
  obtain ⟨text, -, hr, -⟩ | ⟨-, hr, -⟩ := World.exec_redis he
  · subst hr
    exact absurd (hallow _ _ he rfl) (hc tid m hm)
  · exact ⟨_, hr⟩

theorem completes_ignore (h : Handler α) : Completes env F J (ignore h) fun _ => True := by
  intro tid m y m' _ ha
  obtain ⟨x, m₁, -, hrest⟩ := Alone.bind_iff.mp ha
  obtain ⟨rfl, -⟩ := Alone.pure_iff.mp hrest
  exact ⟨(), rfl, trivial⟩

end Rules

end AuthServer
