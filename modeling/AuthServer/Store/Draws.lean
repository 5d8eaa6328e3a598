import AuthServer.Concurrent.History
import AuthServer.Logic

/-!
# Random values

Ids and tokens are drawn so that no value is drawn twice: the world remembers what has
been drawn. A drawn value belongs to one request, and to none that ran before it.
-/

namespace AuthServer

open Concurrent

/-- A kind of random values: the mark of a draw, and the values that have been drawn. -/
structure Draw (X : Type) where
  mark : Marking Res X
  pool : World → List X
  exec : ∀ {env : Env} {tid : Nat} {op : Op} {ch : Choice} {w w' : World} {r : Res op},
    World.exec env tid op ch w = some (r, w') →
      (mark op r = none ∧ pool w' = pool w) ∨
        ∃ x, mark op r = some x ∧ x ∉ pool w ∧ pool w' = x :: pool w

namespace Draw

variable {X : Type} (d : Draw X)

/-- What holds of the drawn values at every moment of a run. -/
structure Fresh (w₀ : World) (m : Instant) : Prop where
  old : ∀ x ∈ d.pool w₀, x ∈ d.pool m.world
  known : ∀ i x, m.Marked d.mark i x → x ∈ d.pool m.world ∧ x ∉ d.pool w₀
  once : ∀ i j x, m.Marked d.mark i x → m.Marked d.mark j x → i = j

variable {d} {env : Env} {R : Rules} {w₀ w : World} {m : Instant} {c : State}
variable {tid : Nat} {op : Op} {ch : Choice} {r : Res op}

theorem Fresh.step (h : d.Fresh w₀ m) (he : World.exec env tid op ch m.world = some (r, w)) :
    d.Fresh w₀ (m.after tid op r w) := by
  rcases d.exec he with ⟨hnone, hpool⟩ | ⟨x, hmark, hnew, hpool⟩
  · have hmarks : ∀ i y, (m.after tid op r w).Marked d.mark i y ↔ m.Marked d.mark i y :=
      fun i y => by rw [Moment.marked_after_of_none hnone]
    constructor
    · intro y hy
      change y ∈ d.pool w
      rw [hpool]
      exact h.old y hy
    · intro i y hy
      change y ∈ d.pool w ∧ _
      rw [hpool]
      exact h.known i y ((hmarks i y).mp hy)
    · intro i j y hi hj
      exact h.once i j y ((hmarks i y).mp hi) ((hmarks j y).mp hj)
  · have hmarks : ∀ i y, (m.after tid op r w).Marked d.mark i y →
        (i = tid ∧ y = x) ∨ m.Marked d.mark i y := by
      intro i y hy
      rcases hy.of_after with ⟨rfl, hnew⟩ | hold
      · exact .inl ⟨rfl, Option.some.inj (hnew.symm.trans hmark)⟩
      · exact .inr hold
    -- the new value has not been drawn before
    have hfresh : ∀ i, ¬ m.Marked d.mark i x := fun i hi => hnew (h.known i x hi).1
    constructor
    · intro y hy
      change y ∈ d.pool w
      rw [hpool]
      exact List.mem_cons_of_mem _ (h.old y hy)
    · intro i y hy
      change y ∈ d.pool w ∧ _
      rw [hpool]
      rcases hmarks i y hy with ⟨-, rfl⟩ | hy
      · exact ⟨List.mem_cons_self, fun hold => hnew (h.old y hold)⟩
      · exact ⟨List.mem_cons_of_mem _ (h.known i y hy).1, (h.known i y hy).2⟩
    · intro i j y hi hj
      rcases hmarks i y hi with ⟨rfl, rfl⟩ | hi'
      · rcases hmarks j y hj with ⟨rfl, -⟩ | hj'
        · rfl
        · exact absurd hj' (hfresh j)
      · rcases hmarks j y hj with ⟨rfl, rfl⟩ | hj'
        · exact absurd hi' (hfresh i)
        · exact h.once i j y hi' hj'

theorem fresh_of_run (run : Run (server env) R (Config.start w₀) c) : d.Fresh w₀ c.moment := by
  refine run.invariant (J := fun c => d.Fresh w₀ c.moment) (fun _ _ _ _ ih => ih)
    (fun _ _ _ _ _ _ _ _ _ ih _ _ _ he => ih.step he) ⟨fun x hx => hx, ?_, ?_⟩
  · exact fun i x h => absurd h Moment.not_marked_nil
  · exact fun i j x h => absurd h Moment.not_marked_nil

/-- Tokens and codes. -/
def texts : Draw String where
  mark
    | .urlSafe _, s => some s
    | _, _ => none
  pool := World.tokens
  exec {env tid op ch w w' r} h := by
    cases op with
    | urlSafe n =>
      simp only [World.exec] at h
      split at h
      · cases h
      · next hnew =>
        cases h
        exact .inr ⟨_, rfl, by simpa [World.elapse] using hnew, rfl⟩
    | sql s =>
      rcases World.exec_sql h with ⟨text, -, -, rfl⟩ | ⟨-, pg, -, rfl⟩
      · exact .inl ⟨rfl, rfl⟩
      · exact .inl ⟨rfl, rfl⟩
    | redis c =>
      rcases World.exec_redis h with ⟨text, -, -, rfl⟩ | ⟨-, -, rfl⟩
      · exact .inl ⟨rfl, rfl⟩
      · exact .inl ⟨rfl, rfl⟩
    | now | activeKid | salt =>
      cases h
      exact .inl ⟨rfl, rfl⟩
    | newUuid | userCode | jitteredTtl _ =>
      simp only [World.exec] at h
      split at h
      all_goals cases h
      all_goals exact .inl ⟨rfl, rfl⟩

/-- Ids. -/
def ids : Draw Uuid where
  mark
    | .newUuid, id => some id
    | _, _ => none
  pool := World.uuids
  exec {env tid op ch w w' r} h := by
    cases op with
    | newUuid =>
      simp only [World.exec] at h
      split at h
      · cases h
      · next hnew =>
        cases h
        exact .inr ⟨_, rfl, by simpa [World.elapse] using hnew, rfl⟩
    | sql s =>
      rcases World.exec_sql h with ⟨text, -, -, rfl⟩ | ⟨-, pg, -, rfl⟩
      · exact .inl ⟨rfl, rfl⟩
      · exact .inl ⟨rfl, rfl⟩
    | redis c =>
      rcases World.exec_redis h with ⟨text, -, -, rfl⟩ | ⟨-, -, rfl⟩
      · exact .inl ⟨rfl, rfl⟩
      · exact .inl ⟨rfl, rfl⟩
    | now | activeKid | salt =>
      cases h
      exact .inl ⟨rfl, rfl⟩
    | urlSafe _ | userCode | jitteredTtl _ =>
      simp only [World.exec] at h
      split at h
      all_goals cases h
      all_goals exact .inl ⟨rfl, rfl⟩

/-- An id drawn in a run was not in use at its start. -/
theorem id_new (run : Run (server env) R (Config.start w₀) c) {i : Nat} {id : Uuid}
    (h : (⟨.newUuid, id⟩ : Reply Res) ∈ c.moment.own i) : id ∉ w₀.uuids := by
  obtain ⟨⟨k, op, r⟩, hx, htid, hreply⟩ := Moment.mem_own.mp h
  cases hreply
  exact ((fresh_of_run (d := ids) run).known i _ ⟨_, hx, htid, rfl⟩).2

/-- An id was drawn by one request. -/
theorem id_once (run : Run (server env) R (Config.start w₀) c) {i j : Nat} {id : Uuid}
    (hi : (⟨.newUuid, id⟩ : Reply Res) ∈ c.moment.own i)
    (hj : (⟨.newUuid, id⟩ : Reply Res) ∈ c.moment.own j) : i = j := by
  have hmark : ∀ {i : Nat}, (⟨.newUuid, id⟩ : Reply Res) ∈ c.moment.own i →
      c.moment.Marked ids.mark i id := by
    intro i h
    obtain ⟨⟨k, op, r⟩, hx, htid, hreply⟩ := Moment.mem_own.mp h
    cases hreply
    exact ⟨_, hx, htid, rfl⟩
  exact (fresh_of_run (d := ids) run).once i j id (hmark hi) (hmark hj)

/-- A drawn text was drawn by one request. -/
theorem text_once (run : Run (server env) R (Config.start w₀) c) {i j n n' : Nat} {s : String}
    (hi : (⟨.urlSafe n, s⟩ : Reply Res) ∈ c.moment.own i)
    (hj : (⟨.urlSafe n', s⟩ : Reply Res) ∈ c.moment.own j) : i = j := by
  have hmark : ∀ {i n : Nat}, (⟨.urlSafe n, s⟩ : Reply Res) ∈ c.moment.own i →
      c.moment.Marked texts.mark i s := by
    intro i n h
    obtain ⟨⟨k, op, r⟩, hx, htid, hreply⟩ := Moment.mem_own.mp h
    cases hreply
    exact ⟨_, hx, htid, rfl⟩
  exact (fresh_of_run (d := texts) run).once i j s (hmark hi) (hmark hj)

end Draw

end AuthServer
