import AuthServer.Concurrent.Interleaving

/-!
# Replaying one request from its replies

What a thread does depends only on the replies it has received. Its own part of the
history, replayed on the program of its request, gives the program it is left with,
however the commands of other threads lie in between. Facts about the control flow of
a request are therefore facts about its program and a list of replies, without any
reference to the world.
-/

namespace Concurrent

variable {Op Call World Choice : Type} {Res : Op → Type} {Ret : Call → Type}
variable {α β ε : Type}

/-- A command together with its reply. -/
abbrev Reply (Res : Op → Type) := (op : Op) × Res op

/-- The replies lead from one program to another. -/
inductive Leads : Prog Res α → List (Reply Res) → Prog Res α → Prop
  | refl (p) : Leads p [] p
  | call {op k r es q} (tail : Leads (k r) es q) : Leads (.call op k) (⟨op, r⟩ :: es) q

/-- The program returns a value when it is given the replies. -/
def Returns (p : Prog Res α) (es : List (Reply Res)) (a : α) : Prop := Leads p es (.pure a)

/-- After the replies the program issues a command. -/
def Issues (p : Prog Res α) (es : List (Reply Res)) (op : Op) : Prop :=
  ∃ k, Leads p es (.call op k)

namespace Leads

variable {p q : Prog Res α} {es es' : List (Reply Res)}

theorem trans {q' : Prog Res α} (h : Leads p es q) (h' : Leads q es' q') :
    Leads p (es ++ es') q' := by
  induction h with
  | refl p => exact h'
  | call _ ih => exact .call (ih h')

/-- One more reply. -/
theorem snoc {op : Op} {k : Res op → Prog Res α} (h : Leads p es (.call op k)) (r : Res op) :
    Leads p (es ++ [⟨op, r⟩]) (k r) :=
  h.trans (.call (.refl _))

/-- The replies belong to commands the program can issue. -/
theorem uses {ok : Op → Prop} (hp : p.Uses ok) (h : Leads p es q) :
    (∀ e ∈ es, ok e.1) ∧ q.Uses ok := by
  induction h with
  | refl p => exact ⟨nofun, hp⟩
  | call _ ih =>
    obtain ⟨hes, hq⟩ := ih (hp.2 _)
    refine ⟨fun e he => ?_, hq⟩
    rcases List.mem_cons.mp he with rfl | he
    · exact hp.1
    · exact hes e he

/-- Of a kind of command that is issued at most once there are no two replies. -/
theorem once {P : Op → Prop} (hp : p.Once P) (h : Leads p es q) :
    es.Pairwise fun e e' => ¬ (P e.1 ∧ P e'.1) := by
  induction h with
  | refl p => exact .nil
  | call tail ih =>
    refine .cons (fun e he hboth => ?_) (ih (hp.1 _))
    exact (tail.uses (hp.2 hboth.1 _)).1 e he hboth.2

end Leads

namespace Returns

variable {es : List (Reply Res)}

@[simp] theorem pure_iff {a b : α} : Returns (.pure a : Prog Res α) es b ↔ es = [] ∧ b = a := by
  constructor
  · intro h
    cases h
    exact ⟨rfl, rfl⟩
  · rintro ⟨rfl, rfl⟩
    exact .refl _

/-- A sequence returns when its first part returns and then its second. -/
theorem bind_iff {p : Prog Res α} {f : α → Prog Res β} {b : β} :
    Returns (p >>= f) es b ↔
      ∃ es₁ es₂ a, es = es₁ ++ es₂ ∧ Returns p es₁ a ∧ Returns (f a) es₂ b := by
  induction p generalizing es with
  | pure a =>
    constructor
    · intro h
      exact ⟨[], es, a, rfl, .refl _, h⟩
    · rintro ⟨es₁, es₂, a', rfl, h₁, h₂⟩
      obtain ⟨rfl, rfl⟩ := pure_iff.mp h₁
      exact h₂
  | call op k ih =>
    constructor
    · intro h
      cases h with
      | call tail =>
        obtain ⟨es₁, es₂, a, rfl, h₁, h₂⟩ := (ih _).mp tail
        exact ⟨_ :: es₁, es₂, a, rfl, .call h₁, h₂⟩
    · rintro ⟨es₁, es₂, a, rfl, h₁, h₂⟩
      cases h₁ with
      | call tail => exact .call ((ih _).mpr ⟨_, _, _, rfl, tail, h₂⟩)

/-- The successful end of a sequence of programs that may stop with an error. -/
theorem bindE_ok {p : ExceptT ε (Prog Res) α} {f : α → ExceptT ε (Prog Res) β} {b : β} :
    Returns (p >>= f).run es (.ok b) ↔
      ∃ es₁ es₂ a, es = es₁ ++ es₂ ∧ Returns p.run es₁ (.ok a) ∧ Returns (f a).run es₂ (.ok b) := by
  rw [ExceptT.run_bind, bind_iff]
  constructor
  · rintro ⟨es₁, es₂, x, rfl, h₁, h₂⟩
    cases x with
    | ok a => exact ⟨es₁, es₂, a, rfl, h₁, h₂⟩
    | error e => cases h₂
  · rintro ⟨es₁, es₂, a, rfl, h₁, h₂⟩
    exact ⟨es₁, es₂, .ok a, rfl, h₁, h₂⟩

theorem seq {p : ExceptT ε (Prog Res) α} {f : α → ExceptT ε (Prog Res) β} {b : β}
    (h : Returns (p >>= f).run es (.ok b)) :
    ∃ es₁ es₂ a, es = es₁ ++ es₂ ∧ Returns p.run es₁ (.ok a) ∧ Returns (f a).run es₂ (.ok b) :=
  bindE_ok.mp h

/-- A sequence of programs that may stop with an error stops in its first part or returns from its
second. -/
theorem bindE {p : ExceptT ε (Prog Res) α} {f : α → ExceptT ε (Prog Res) β} {b : Except ε β}
    (h : Returns (p >>= f).run es b) :
    (∃ e, b = .error e ∧ Returns p.run es (.error e)) ∨
      ∃ es₁ es₂ a, es = es₁ ++ es₂ ∧ Returns p.run es₁ (.ok a) ∧ Returns (f a).run es₂ b := by
  rw [ExceptT.run_bind, bind_iff] at h
  obtain ⟨es₁, es₂, x, rfl, h₁, h₂⟩ := h
  cases x with
  | ok a => exact .inr ⟨es₁, es₂, a, rfl, h₁, h₂⟩
  | error e =>
    obtain ⟨rfl, rfl⟩ := pure_iff.mp h₂
    exact .inl ⟨e, rfl, by rwa [List.append_nil]⟩

@[simp] theorem pureE_ok {a b : α} :
    Returns (pure a : ExceptT ε (Prog Res) α).run es (.ok b) ↔ es = [] ∧ b = a := by
  refine Iff.trans pure_iff ?_
  rw [Except.ok.injEq]

theorem ret {a b : α} (h : Returns (pure a : ExceptT ε (Prog Res) α).run es (.ok b)) :
    es = [] ∧ b = a := pureE_ok.mp h

/-- A check whose failure is answered with something else has passed. -/
theorem guard {c : Prop} [Decidable c] {a b : α} {k : ExceptT ε (Prog Res) α}
    (h : Returns (if c then pure a else k).run es (.ok b)) (hne : b ≠ a) :
    ¬ c ∧ Returns k.run es (.ok b) := by
  split at h
  · exact absurd h.ret.2 hne
  · exact ⟨‹_›, h⟩

end Returns

namespace Leads

variable {es : List (Reply Res)}

/-- A sequence is still in its first part, or its first part has returned. -/
theorem of_bind {p : Prog Res α} {f : α → Prog Res β} {q : Prog Res β}
    (h : Leads (p >>= f) es q) :
    (∃ op k, Leads p es (.call op k) ∧ ∃ k', q = .call op k') ∨
      ∃ es₁ es₂ a, es = es₁ ++ es₂ ∧ Returns p es₁ a ∧ Leads (f a) es₂ q := by
  induction p generalizing es with
  | pure a => exact .inr ⟨[], es, a, rfl, .refl _, h⟩
  | call op k ih =>
    cases h with
    | refl => exact .inl ⟨op, k, .refl _, _, rfl⟩
    | call tail =>
      rcases ih _ tail with ⟨op', k', hi, hq⟩ | ⟨es₁, es₂, a, rfl, h₁, h₂⟩
      · exact .inl ⟨op', k', .call hi, hq⟩
      · exact .inr ⟨_ :: es₁, es₂, a, rfl, .call h₁, h₂⟩

/-- A sequence of programs that may stop with an error is in its first part, has stopped there, or
is in its second part. -/
theorem of_bindE {p : ExceptT ε (Prog Res) α} {f : α → ExceptT ε (Prog Res) β}
    {q : Prog Res (Except ε β)} (h : Leads (p >>= f).run es q) :
    (∃ op k, Leads p.run es (.call op k) ∧ ∃ k', q = .call op k') ∨
      (∃ e, Returns p.run es (.error e) ∧ q = .pure (.error e)) ∨
      ∃ es₁ es₂ a, es = es₁ ++ es₂ ∧ Returns p.run es₁ (.ok a) ∧ Leads (f a).run es₂ q := by
  rcases of_bind h with h | ⟨es₁, es₂, x, rfl, h₁, h₂⟩
  · exact .inl h
  · cases x with
    | ok a => exact .inr (.inr ⟨es₁, es₂, a, rfl, h₁, h₂⟩)
    | error e =>
      cases h₂
      exact .inr (.inl ⟨e, by rwa [List.append_nil], rfl⟩)

theorem pure_iff {a : α} {q : Prog Res α} : Leads (.pure a) es q ↔ es = [] ∧ q = .pure a := by
  constructor
  · intro h
    cases h
    exact ⟨rfl, rfl⟩
  · rintro ⟨rfl, rfl⟩
    exact .refl _

end Leads

namespace Issues

variable {es : List (Reply Res)} {op : Op}

@[simp] theorem not_pure {a : α} : ¬ Issues (.pure a : Prog Res α) es op := by
  rintro ⟨k, h⟩
  cases h

/-- A command of a sequence is one of its first part, or one of its second after the first has
returned. -/
theorem of_bind {p : Prog Res α} {f : α → Prog Res β} (h : Issues (p >>= f) es op) :
    Issues p es op ∨
      ∃ es₁ es₂ a, es = es₁ ++ es₂ ∧ Returns p es₁ a ∧ Issues (f a) es₂ op := by
  induction p generalizing es with
  | pure a => exact .inr ⟨[], es, a, rfl, .refl _, h⟩
  | call op' k ih =>
    obtain ⟨k', h⟩ := h
    cases h with
    | refl => exact .inl ⟨_, .refl _⟩
    | call tail =>
      rcases ih _ ⟨k', tail⟩ with ⟨k'', hi⟩ | ⟨es₁, es₂, a, rfl, h₁, h₂⟩
      · exact .inl ⟨k'', .call hi⟩
      · exact .inr ⟨_ :: es₁, es₂, a, rfl, .call h₁, h₂⟩

theorem of_bindE {p : ExceptT ε (Prog Res) α} {f : α → ExceptT ε (Prog Res) β}
    (h : Issues (p >>= f).run es op) :
    Issues p.run es op ∨
      ∃ es₁ es₂ a, es = es₁ ++ es₂ ∧ Returns p.run es₁ (.ok a) ∧ Issues (f a).run es₂ op := by
  rcases of_bind h with h | ⟨es₁, es₂, x, rfl, h₁, h₂⟩
  · exact .inl h
  · cases x with
    | ok a => exact .inr ⟨es₁, es₂, a, rfl, h₁, h₂⟩
    | error e => exact absurd h₂ not_pure

/-- A program issues only the commands it can. -/
theorem uses {ok : Op → Prop} {p : Prog Res α} (hp : p.Uses ok) (h : Issues p es op) : ok op := by
  obtain ⟨k, h⟩ := h
  exact (h.uses hp).2.1

/-- A command that the first part of a sequence cannot issue is issued by its second part. -/
theorem skip {ok : Op → Prop} {p : ExceptT ε (Prog Res) α} {f : α → ExceptT ε (Prog Res) β}
    (hp : p.run.Uses ok) (hop : ¬ ok op) (h : Issues (p >>= f).run es op) :
    ∃ es₁ es₂ a, es = es₁ ++ es₂ ∧ Returns p.run es₁ (.ok a) ∧ Issues (f a).run es₂ op := by
  rcases of_bindE h with h | h
  · exact absurd (uses hp h) hop
  · exact h

end Issues

/-! ## Threads of runs -/

/-- The replies a thread has received, in order. -/
def Moment.own (m : Moment Res World) (tid : Nat) : List (Reply Res) :=
  (m.trace.filterMap fun e => if e.tid = tid then some ⟨e.op, e.res⟩ else none).reverse

namespace Moment

variable {m : Moment Res World} {tid i : Nat}

theorem own_after_self {op : Op} {r : Res op} {w : World} :
    (m.after tid op r w).own tid = m.own tid ++ [⟨op, r⟩] := by
  simp [own, after]

theorem own_after_of_ne {op : Op} {r : Res op} {w : World} (h : i ≠ tid) :
    (m.after tid op r w).own i = m.own i := by
  simp [own, after, Ne.symm h]

theorem own_of_lt (h : ∀ e ∈ m.trace, e.tid < tid) : m.own tid = [] := by
  have hnone : ∀ e ∈ m.trace, (if e.tid = tid then some (⟨e.op, e.res⟩ : Reply Res) else none) =
      none := by
    intro e he
    have hlt := h e he
    exact if_neg (by omega)
  rw [own, List.filterMap_eq_nil_iff.mpr hnone, List.reverse_nil]

theorem mem_own {e : Reply Res} :
    e ∈ m.own tid ↔ ∃ x ∈ m.trace, x.tid = tid ∧ (⟨x.op, x.res⟩ : Reply Res) = e := by
  rw [own, List.mem_reverse, List.mem_filterMap]
  constructor
  · rintro ⟨x, hx, he⟩
    by_cases ht : x.tid = tid
    · rw [if_pos ht] at he
      exact ⟨x, hx, ht, Option.some.inj he⟩
    · rw [if_neg ht] at he
      cases he
  · rintro ⟨x, hx, ht, he⟩
    exact ⟨x, hx, by rw [if_pos ht, he]⟩

end Moment

variable {S : Server Res World Choice Ret} {R : Regime Res World Choice Call}
variable {c c' : Config Res World Ret}

/-- Every thread is where its own replies have led its program. -/
def Config.Replayed (S : Server Res World Choice Ret) (c : Config Res World Ret) : Prop :=
  c.Numbered ∧ ∀ tid t, c.threads[tid]? = some t →
    Leads (S.program t.call) (c.moment.own tid) t.prog

theorem Config.start_replayed (w : World) :
    (Config.start w : Config Res World Ret).Replayed S := by
  refine ⟨start_numbered w, fun tid t ht => ?_⟩
  simp [start] at ht

theorem Run.replayed (run : Run S R c c') (h : c.Replayed S) : c'.Replayed S := by
  induction run with
  | refl => exact h
  | @spawn c' call run ha ih =>
    refine ⟨(Run.spawn (.refl c') ha : Run S R c' _).numbered ih.1, fun tid t ht => ?_⟩
    simp only [Config.spawn, List.getElem?_append] at ht
    split at ht
    · exact ih.2 tid t ht
    · next hlen =>
      obtain ⟨hz, -⟩ := List.getElem?_eq_some_iff.mp ht
      simp only [List.length_singleton] at hz
      obtain rfl : tid = c'.threads.length := by omega
      simp only [Nat.sub_self, List.getElem?_cons_zero, Option.some.injEq] at ht
      subst ht
      change Leads (S.program call) (c'.moment.own c'.threads.length) (S.program call)
      rw [Moment.own_of_lt ih.1]
      exact .refl _
  | @step c' tid t op k ch r w run ht hp ha he ih =>
    refine ⟨(Run.step (.refl c') ht hp ha he : Run S R c' _).numbered ih.1, fun i t' ht' => ?_⟩
    simp only [Config.advance, List.getElem?_set] at ht'
    by_cases heq : tid = i
    · subst heq
      rw [if_pos rfl] at ht'
      split at ht'
      · cases ht'
        change Leads (S.program t.call) ((c'.moment.after tid op r w).own tid) (k r)
        rw [Moment.own_after_self]
        exact (hp ▸ ih.2 tid t ht).snoc r
      · cases ht'
    · rw [if_neg heq] at ht'
      change Leads (S.program t'.call) ((c'.moment.after tid op r w).own i) t'.prog
      rw [Moment.own_after_of_ne (Ne.symm heq)]
      exact ih.2 i t' ht'

variable {w : World} {tid : Nat} {op : Op} {call : Call} {ok : Op → Prop}

/-- A command about to be executed is one that the program of the request issues after its
replies. -/
theorem Run.issues (run : Run S R (Config.start w) c) {t : Thread Res World Ret}
    {k : Res op → Prog Res (Ret t.call)} (ht : c.threads[tid]? = some t) (hp : t.prog = .call op k)
    :
    Issues (S.program t.call) (c.moment.own tid) op :=
  ⟨k, hp ▸ (run.replayed (Config.start_replayed w)).2 tid t ht⟩

/-- An answer is what the replies of the thread make of its request. -/
theorem Config.Replayed.returns (h : c.Replayed S) {a : Ret call} (ha : c.answered tid call a)
    : Returns (S.program call) (c.moment.own tid) a := by
  obtain ⟨born, ht⟩ := ha
  exact h.2 tid _ ht

/-- A property of configurations that arrivals and steps keep holds along a run. -/
theorem Run.invariant {J : Config Res World Ret → Prop} (run : Run S R c c')
    (hspawn : ∀ c₁ call, Run S R c c₁ → R.admits call → J c₁ → J (c₁.spawn S call))
    (hstep : ∀ c₁ tid t op k ch r w, Run S R c c₁ → J c₁ → c₁.threads[tid]? = some t →
      t.prog = .call op k → R.allows c₁.moment tid op ch →
      S.exec tid op ch c₁.moment.world = some (r, w) → J (c₁.advance tid t op r w (k r)))
    (h : J c) : J c' := by
  induction run with
  | refl => exact h
  | spawn run ha ih => exact hspawn _ _ run ha ih
  | step run ht hp ha he ih => exact hstep _ _ _ _ _ _ _ _ run ih ht hp ha he

/-- A request stays what it was. -/
theorem Run.requested (run : Run S R c c') (h : c.requested tid call) :
    c'.requested tid call := by
  refine run.invariant (J := fun c => c.requested tid call) ?_ ?_ h
  · rintro c₁ call' - - ⟨born, p, ht⟩
    have hlt : tid < c₁.threads.length := (List.getElem?_eq_some_iff.mp ht).1
    exact ⟨born, p, (List.getElem?_append_left hlt).trans ht⟩
  · rintro c₁ i t op k ch r w - ⟨born, p, ht⟩ hi hp - -
    by_cases heq : i = tid
    · subst heq
      cases hi.symm.trans ht
      exact ⟨born, k r, List.getElem?_set_self (List.getElem?_eq_some_iff.mp ht).1⟩
    · exact ⟨born, p, (List.getElem?_set_ne heq).trans ht⟩

theorem Config.requested_spawn :
    (c.spawn S call).requested c.threads.length call :=
  ⟨_, _, List.getElem?_concat_length⟩

/-- A thread answers the request it was started for. -/
theorem Config.requested.answered {call call' : Call} {a : Ret call'} (h : c.requested tid call)
    (ha : c.answered tid call' a) : call' = call := by
  obtain ⟨born, p, ht⟩ := h
  obtain ⟨born', ht'⟩ := ha
  exact congrArg Thread.call (Option.some.inj (ht'.symm.trans ht))

/-- An answer stays. -/
theorem Run.answered (run : Run S R c c') {a : Ret call} (h : c.answered tid call a)
    : c'.answered tid call a := by
  refine run.invariant (J := fun c => c.answered tid call a) ?_ ?_ h
  · rintro c₁ call' - - ⟨born, ht⟩
    exact ⟨born, (List.getElem?_append_left (List.getElem?_eq_some_iff.mp ht).1).trans ht⟩
  · rintro c₁ i t op k ch r w - ⟨born, ht⟩ hi hp - -
    by_cases heq : i = tid
    · subst heq
      cases hi.symm.trans ht
      cases hp
    · exact ⟨born, (List.getElem?_set_ne heq).trans ht⟩

/-- The replies of a thread are only added to. -/
theorem Run.own_mono (run : Run S R c c') (tid : Nat) :
    c.moment.own tid <+: c'.moment.own tid := by
  refine run.invariant (J := fun c' => c.moment.own tid <+: c'.moment.own tid)
    (fun _ _ _ _ ih => ih) ?_ (List.prefix_refl _)
  intro c₁ i t op k ch r w _ ih _ _ _ _
  by_cases heq : tid = i
  · subst heq
    refine ih.trans ?_
    change c₁.moment.own tid <+: (c₁.moment.after tid op r w).own tid
    rw [Moment.own_after_self]
    exact List.prefix_append _ _
  · change c.moment.own tid <+: (c₁.moment.after i op r w).own tid
    rw [Moment.own_after_of_ne heq]
    exact ih

/-- The requests of a run from the start are admitted ones. -/
theorem Run.admitted (run : Run S R (Config.start w) c) :
    ∀ t ∈ c.threads, R.admits t.call := by
  refine run.invariant (J := fun c => ∀ t ∈ c.threads, R.admits t.call) ?_ ?_ fun _ h => nomatch h
  · intro c₁ call _ hcall ih t ht
    rcases List.mem_append.mp ht with ht | ht
    · exact ih t ht
    · obtain rfl := List.mem_singleton.mp ht
      exact hcall
  · intro c₁ tid t op k ch r w _ ih ht _ _ _ t' ht'
    rcases List.mem_or_eq_of_mem_set ht' with ht' | rfl
    · exact ih t' ht'
    · exact ih t (List.mem_of_getElem? ht)

/-- Requests that have been answered issue nothing. -/
theorem Config.uses_of_settled (h : c.settled = true) :
    ∀ t ∈ c.threads, t.prog.Uses ok := by
  intro t ht
  have hdone := List.all_eq_true.mp h t ht
  cases hprog : t.prog with
  | pure a => trivial
  | call op k =>
    rw [hprog] at hdone
    cases hdone

/-- The threads of a run issue only commands that the admitted requests can issue. -/
theorem Run.uses (run : Run S R c c') (hok : ∀ call, R.admits call → (S.program call).Uses ok)
    (h : ∀ t ∈ c.threads, t.prog.Uses ok) : ∀ t ∈ c'.threads, t.prog.Uses ok := by
  refine run.invariant (J := fun c => ∀ t ∈ c.threads, t.prog.Uses ok) ?_ ?_ h
  · intro c₁ call _ hcall ih t ht
    rcases List.mem_append.mp ht with ht | ht
    · exact ih t ht
    · obtain rfl := List.mem_singleton.mp ht
      exact hok call hcall
  · intro c₁ tid t op k ch r w _ ih ht hp _ _ t' ht'
    rcases List.mem_or_eq_of_mem_set ht' with ht' | rfl
    · exact ih t' ht'
    · have hu : (Prog.call op k).Uses ok := hp ▸ ih t (List.mem_of_getElem? ht)
      exact hu.2 r

/-- A property of moments holds along a run from the start when each command that the admitted
requests can issue keeps it. -/
theorem Run.keeps {J : Moment Res World → Prop}
    (run : Run S R (Config.start w) c)
    (hok : ∀ call, R.admits call → (S.program call).Uses ok)
    (hstep : ∀ m tid op ch r w, J m → ok op → R.allows m tid op ch →
      S.exec tid op ch m.world = some (r, w) → J (m.after tid op r w))
    (h : J ⟨w, []⟩) : J c.moment := by
  refine run.invariant (J := fun c => J c.moment) (fun _ _ _ _ ih => ih) ?_ h
  intro c₁ tid t op k ch r w run₁ ih ht hp ha he
  have hu : (Prog.call op k).Uses ok :=
    hp ▸ run₁.uses hok (fun _ h => nomatch h) t (List.mem_of_getElem? ht)
  exact hstep _ _ _ _ _ _ ih hu.1 ha he

/-- Every event of a run was executed at some configuration of the run. -/
theorem Run.executed (run : Run S R c c') {e : Event Res} (he : e ∈ c'.moment.trace) :
    e ∈ c.moment.trace ∨ ∃ c₁ t k ch w, Run S R c c₁ ∧ c₁.threads[e.tid]? = some t ∧
      t.prog = .call e.op k ∧ R.allows c₁.moment e.tid e.op ch ∧
      S.exec e.tid e.op ch c₁.moment.world = some (e.res, w) ∧
      Run S R (c₁.advance e.tid t e.op e.res w (k e.res)) c' := by
  induction run with
  | refl => exact .inl he
  | spawn run ha ih =>
    rcases ih he with h | ⟨c₁, t, k, ch, w, h₁, ht, hp, hal, hx, h₂⟩
    · exact .inl h
    · exact .inr ⟨c₁, t, k, ch, w, h₁, ht, hp, hal, hx, .spawn h₂ ha⟩
  | @step c₂ tid t op k ch r w run ht hp ha hx ih =>
    rcases List.mem_cons.mp he with rfl | he
    · exact .inr ⟨c₂, t, k, ch, w, run, ht, hp, ha, hx, .refl _⟩
    · rcases ih he with h | ⟨c₁, t₁, k₁, ch₁, w₁, h₁, ht₁, hp₁, ha₁, hx₁, h₂⟩
      · exact .inl h
      · exact .inr ⟨c₁, t₁, k₁, ch₁, w₁, h₁, ht₁, hp₁, ha₁, hx₁, .step h₂ ht hp ha hx⟩

/-- Every reply a thread has received was given at some configuration of the run. -/
theorem Run.executed_own {w₀ : World} (run : Run S R (Config.start w₀) c) {r : Res op}
    (h : (⟨op, r⟩ : Reply Res) ∈ c.moment.own tid) :
    ∃ c₁ t k ch w, Run S R (Config.start w₀) c₁ ∧ c₁.threads[tid]? = some t ∧
      t.prog = .call op k ∧ R.allows c₁.moment tid op ch ∧
      S.exec tid op ch c₁.moment.world = some (r, w) ∧
      Run S R (c₁.advance tid t op r w (k r)) c := by
  obtain ⟨⟨i, op', r'⟩, hx, rfl, hreply⟩ := Moment.mem_own.mp h
  cases hreply
  rcases run.executed hx with hnone | hexec
  · cases hnone
  · exact hexec

/-- The replies of a thread that arrived later were given later. -/
theorem Run.executed_since (run : Run S R c c') (hn : c.Numbered) (hle : c.threads.length ≤ tid)
    {r : Res op} (h : (⟨op, r⟩ : Reply Res) ∈ c'.moment.own tid) :
    ∃ c₁ t k ch w, Run S R c c₁ ∧ c₁.threads[tid]? = some t ∧ t.prog = .call op k ∧
      R.allows c₁.moment tid op ch ∧ S.exec tid op ch c₁.moment.world = some (r, w) ∧
      Run S R (c₁.advance tid t op r w (k r)) c' := by
  obtain ⟨⟨i, op', r'⟩, hx, rfl, hreply⟩ := Moment.mem_own.mp h
  cases hreply
  rcases run.executed hx with hearly | hexec
  · have hlt := hn _ hearly
    omega
  · exact hexec

end Concurrent
