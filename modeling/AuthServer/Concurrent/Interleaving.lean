import AuthServer.Concurrent.Program
import Mathlib.Data.List.Basic

/-!
# Interleaved execution of request programs

A server executes the commands of its requests one at a time against a shared
world. A configuration holds the world, the history of all executed commands and
one thread for each request received so far. Between two commands of one request
any number of commands of other requests may be executed.

## Implementation notes

The choice of a step is everything the server does not control: the time that
passed, a failure of the store, a drawn random value. A command for which the
world gives no successor under any choice is blocked. The history is kept newest
first, and each thread remembers the moment its request arrived; neither is read
by any program.
-/

namespace Concurrent

variable {Op Call World Choice : Type} {Res : Op → Type} {Ret : Call → Type}

/-- One executed command with the thread that issued it and the reply it received. -/
structure Event (Res : Op → Type) where
  tid : Nat
  op : Op
  res : Res op

/-- The shared world together with the history of executed commands, newest first. -/
structure Moment (Res : Op → Type) (World : Type) where
  world : World
  trace : List (Event Res)

/-- The moment after a command has been executed. -/
def Moment.after (m : Moment Res World) (tid : Nat) (op : Op) (r : Res op) (w : World) :
    Moment Res World :=
  ⟨w, ⟨tid, op, r⟩ :: m.trace⟩

/-- A received request: what was asked, when it arrived, and what is left to do. -/
structure Thread (Res : Op → Type) (World : Type) (Ret : Call → Type) where
  call : Call
  born : Moment Res World
  prog : Prog Res (Ret call)

/-- A configuration of the server. -/
structure Config (Res : Op → Type) (World : Type) (Ret : Call → Type) where
  moment : Moment Res World
  threads : List (Thread Res World Ret)

/-- The semantics of the commands and the program of each request. -/
structure Server (Res : Op → Type) (World Choice : Type) (Ret : Call → Type) where
  exec : Nat → (op : Op) → Choice → World → Option (Res op × World)
  program : (c : Call) → Prog Res (Ret c)

/-- Which requests arrive and which commands are executed in a family of runs. -/
structure Regime (Res : Op → Type) (World Choice Call : Type) where
  admits : Call → Prop := fun _ => True
  allows : Moment Res World → Nat → (op : Op) → Choice → Prop := fun _ _ _ _ => True

namespace Config

/-- A server that has received nothing yet. -/
def start (w : World) : Config Res World Ret := ⟨⟨w, []⟩, []⟩

/-- A further request arrives. -/
def spawn (S : Server Res World Choice Ret) (c : Config Res World Ret) (call : Call) :
    Config Res World Ret :=
  { c with threads := c.threads ++ [⟨call, c.moment, S.program call⟩] }

/-- Thread `tid` has executed a command with reply `r` and is left with `p`. -/
def advance (c : Config Res World Ret) (tid : Nat) (t : Thread Res World Ret)
    (op : Op) (r : Res op) (w : World) (p : Prog Res (Ret t.call)) : Config Res World Ret :=
  ⟨c.moment.after tid op r w, c.threads.set tid { t with prog := p }⟩

/-- Thread ids are positions in the thread list, so no event names a later one. -/
def Numbered (c : Config Res World Ret) : Prop :=
  ∀ e ∈ c.moment.trace, e.tid < c.threads.length

/-- The reply of a request that has been answered. -/
def answered (c : Config Res World Ret) (tid : Nat) (call : Call) (a : Ret call) : Prop :=
  ∃ born, c.threads[tid]? = some ⟨call, born, .pure a⟩

/-- The request of a thread, answered or not. -/
def requested (c : Config Res World Ret) (tid : Nat) (call : Call) : Prop :=
  ∃ born p, c.threads[tid]? = some ⟨call, born, p⟩

end Config

/-- The runs of a server inside a regime. -/
inductive Run (S : Server Res World Choice Ret) (R : Regime Res World Choice Call) :
    Config Res World Ret → Config Res World Ret → Prop
  | refl (c) : Run S R c c
  | spawn {c c' call} (run : Run S R c c') (ha : R.admits call) : Run S R c (c'.spawn S call)
  | step {c c' tid t op k ch r w} (run : Run S R c c') (ht : c'.threads[tid]? = some t)
      (hp : t.prog = .call op k) (ha : R.allows c'.moment tid op ch)
      (he : S.exec tid op ch c'.moment.world = some (r, w)) :
      Run S R c (c'.advance tid t op r w (k r))

variable {S : Server Res World Choice Ret} {R : Regime Res World Choice Call}
variable {c c' c'' : Config Res World Ret}

theorem Run.trans (h₁ : Run S R c c') (h₂ : Run S R c' c'') : Run S R c c'' := by
  induction h₂ with
  | refl => exact h₁
  | spawn _ ha ih => exact .spawn ih ha
  | step _ ht hp ha he ih => exact .step ih ht hp ha he

theorem Run.numbered (run : Run S R c c') (hn : c.Numbered) : c'.Numbered := by
  induction run with
  | refl => exact hn
  | spawn _ _ ih =>
    intro e he
    have := ih e he
    simp only [Config.spawn, List.length_append, List.length_singleton]
    omega
  | @step _ tid t op k ch r w _ ht _ _ _ ih =>
    intro e he
    simp only [Config.advance, List.length_set]
    rcases List.mem_cons.mp he with rfl | he
    · exact (List.getElem?_eq_some_iff.mp ht).1
    · exact ih e he

theorem Config.start_numbered (w : World) :
    (Config.start w : Config Res World Ret).Numbered := by
  intro e he
  cases he

/-- The history only grows along a run. -/
theorem Run.trace_suffix (run : Run S R c c') : c.moment.trace <:+ c'.moment.trace := by
  induction run with
  | refl => exact List.suffix_refl _
  | spawn _ _ ih => exact ih
  | step _ _ _ _ _ ih => exact ih.trans (List.suffix_cons _ _)

/-- A thread of the later configuration is either one of the earlier ones, with the same
request and arrival, or it arrived at some configuration in between. -/
theorem Run.born_between (run : Run S R c c') {tid : Nat} {t : Thread Res World Ret}
    (ht : c'.threads[tid]? = some t) :
    (∃ t₀, c.threads[tid]? = some t₀ ∧ t₀.call = t.call ∧ t₀.born = t.born) ∨
      ∃ c₁, Run S R c c₁ ∧ Run S R c₁ c' ∧ t.born = c₁.moment ∧ tid = c₁.threads.length := by
  induction run generalizing t with
  | refl => exact .inl ⟨t, ht, rfl, rfl⟩
  | @spawn c' call run ha ih =>
    simp only [Config.spawn, List.getElem?_append] at ht
    split at ht
    · rcases ih ht with h | ⟨c₁, h₁, h₂, h₃, h₄⟩
      · exact .inl h
      · exact .inr ⟨c₁, h₁, .spawn h₂ ha, h₃, h₄⟩
    · next hlen =>
      obtain ⟨hz, rfl⟩ := List.getElem?_eq_some_iff.mp ht
      simp only [List.length_singleton] at hz
      refine .inr ⟨c', run, .spawn (.refl _) ha, ?_, by omega⟩
      simp [show tid - c'.threads.length = 0 by omega]
  | @step c' tid' t' op k ch r w run ht' hp ha he ih =>
    have hback : ∃ t₁, c'.threads[tid]? = some t₁ ∧ t₁.call = t.call ∧ t₁.born = t.born := by
      simp only [Config.advance, List.getElem?_set] at ht
      by_cases heq : tid' = tid
      · subst heq
        rw [if_pos rfl] at ht
        split at ht
        · cases ht
          exact ⟨t', ht', rfl, rfl⟩
        · cases ht
      · rw [if_neg heq] at ht
        exact ⟨t, ht, rfl, rfl⟩
    obtain ⟨t₁, ht₁, hc₁, hb₁⟩ := hback
    rcases ih ht₁ with ⟨t₀, h₀, hc, hb⟩ | ⟨c₁, h₁, h₂, h₃, h₄⟩
    · exact .inl ⟨t₀, h₀, hc.trans hc₁, hb.trans hb₁⟩
    · exact .inr ⟨c₁, h₁, .step h₂ ht' hp ha he, hb₁ ▸ h₃, h₄⟩

/-! ## Executing a given schedule -/

/-- One entry of a schedule: a request arrives, or a thread executes its next command. -/
inductive Label (Call Choice : Type) where
  | spawn (call : Call)
  | step (tid : Nat) (ch : Choice)

namespace Config

/-- Execute one entry of a schedule, if it can be executed. -/
def next (S : Server Res World Choice Ret) (c : Config Res World Ret) :
    Label Call Choice → Option (Config Res World Ret)
  | .spawn call => some (c.spawn S call)
  | .step tid ch =>
    match c.threads[tid]? with
    | none => none
    | some t =>
      match t.prog with
      | .pure _ => none
      | .call op k =>
        match S.exec tid op ch c.moment.world with
        | none => none
        | some (r, w) => some (c.advance tid t op r w (k r))

/-- Execute a whole schedule. -/
def play (S : Server Res World Choice Ret) (c : Config Res World Ret) :
    List (Label Call Choice) → Option (Config Res World Ret)
  | [] => some c
  | l :: ls => (c.next S l).bind fun c' => c'.play S ls

/-- The value returned by a thread, if it has returned. -/
def reply? (c : Config Res World Ret) (tid : Nat) : Option ((call : Call) × Ret call) :=
  c.threads[tid]?.bind fun t => t.prog.result?.map fun a => ⟨t.call, a⟩

/-- The entries of a schedule keep to a regime. -/
def Complies (S : Server Res World Choice Ret) (R : Regime Res World Choice Call)
    (c : Config Res World Ret) : List (Label Call Choice) → Prop
  | [] => True
  | l :: ls =>
    (match l with
      | .spawn call => R.admits call
      | .step tid ch => ∀ t, c.threads[tid]? = some t →
          ∀ op k, t.prog = .call op k → R.allows c.moment tid op ch) ∧
    ∀ c', c.next S l = some c' → c'.Complies S R ls

theorem reply?_eq_some {c : Config Res World Ret} {tid : Nat} {call : Call} {a : Ret call} :
    c.reply? tid = some ⟨call, a⟩ ↔ c.answered tid call a := by
  unfold reply? answered
  constructor
  · intro h
    obtain ⟨⟨call', born, p⟩, ht, hr⟩ := Option.bind_eq_some_iff.mp h
    obtain ⟨b, hb, he⟩ := Option.map_eq_some_iff.mp hr
    cases he
    have hp : p = .pure b := Prog.result?_eq_some.mp hb
    exact ⟨born, hp ▸ ht⟩
  · rintro ⟨born, ht⟩
    rw [ht]
    rfl

end Config

variable {ls : List (Label Call Choice)}

/-- A schedule that complies with a regime and can be executed is a run of that regime. -/
theorem Run.of_play (hp : c.play S ls = some c') (hc : c.Complies S R ls) : Run S R c c' := by
  induction ls generalizing c with
  | nil =>
    cases hp
    exact .refl _
  | cons l ls ih =>
    obtain ⟨c₁, hn, hp⟩ := Option.bind_eq_some_iff.mp hp
    refine Run.trans ?_ (ih hp (hc.2 c₁ hn))
    cases l with
    | spawn call =>
      cases hn
      exact .spawn (.refl _) hc.1
    | step tid ch =>
      simp only [Config.next] at hn
      split at hn
      · cases hn
      · next t ht =>
        split at hn
        · cases hn
        · next op k hk =>
          split at hn
          · cases hn
          · next r w he =>
            cases hn
            exact .step (.refl _) ht hk (hc.1 t ht op k hk) he

/-! ## Schedules that are checked by evaluation -/

/-- The requests and the choices of a schedule pass two tests. -/
def Label.passes (accept : Call → Bool) (good : Choice → Bool) : Label Call Choice → Bool
  | .spawn call => accept call
  | .step _ ch => good ch

theorem Config.complies_of_passes {accept : Call → Bool} {good : Choice → Bool}
    (ha : ∀ call, accept call = true → R.admits call)
    (hg : ∀ m tid op ch, good ch = true → R.allows m tid op ch)
    (h : ls.all (Label.passes accept good) = true) :
    c.Complies S R ls := by
  induction ls generalizing c with
  | nil => trivial
  | cons l ls ih =>
    rw [List.all_cons, Bool.and_eq_true] at h
    refine ⟨?_, fun c' _ => ih h.2⟩
    cases l with
    | spawn call => exact ha call h.1
    | step tid ch => exact fun _ _ op _ _ => hg _ tid op ch h.1

/-- Execute a schedule that passes and test the configuration it leads to. -/
def Config.reaches (S : Server Res World Choice Ret) (accept : Call → Bool) (good : Choice → Bool)
    (c : Config Res World Ret) (ls : List (Label Call Choice))
    (test : Config Res World Ret → Bool) : Bool :=
  ls.all (Label.passes accept good) && (c.play S ls).any test

/-- What is reached by a schedule that passes is reached by a run of the regime. -/
theorem Config.run_of_reaches {accept : Call → Bool} {good : Choice → Bool}
    (ha : ∀ call, accept call = true → R.admits call)
    (hg : ∀ m tid op ch, good ch = true → R.allows m tid op ch) {test : Config Res World Ret → Bool}
    (h : c.reaches S accept good ls test = true) :
    ∃ c', Run S R c c' ∧ test c' = true := by
  rw [reaches, Bool.and_eq_true] at h
  obtain ⟨c', hp, ht⟩ := (Option.any_eq_true _ _).mp h.2
  exact ⟨c', .of_play hp (complies_of_passes ha hg h.1), ht⟩

/-- The reply of a thread passes a test. -/
def Config.replied (c : Config Res World Ret) (tid : Nat)
    (test : (call : Call) → Ret call → Bool) : Bool :=
  (c.reply? tid).any fun x => test x.1 x.2

theorem Config.answered_of_replied {tid : Nat} {test : (call : Call) → Ret call → Bool}
    (h : c.replied tid test = true) :
    ∃ call a, c.answered tid call a ∧ test call a = true := by
  obtain ⟨⟨call, a⟩, hr, ht⟩ := (Option.any_eq_true _ _).mp h
  exact ⟨call, a, reply?_eq_some.mp hr, ht⟩

/-- All requests received so far have been answered. -/
def Config.settled (c : Config Res World Ret) : Bool :=
  c.threads.all fun t => t.prog.result?.isSome

end Concurrent
