import AuthServer.Concurrent.Sequential

/-!
# Requests executed one after the other

Runs in which a request arrives only when all earlier ones have been answered. Each request is then
executed alone, and what every request keeps when it is executed alone holds whenever all requests
have been answered.
-/

namespace Concurrent

variable {Op Call World Choice : Type} {Res : Op → Type} {Ret : Call → Type}

/-- The runs in which a request arrives only when every earlier one has been answered: each request
is one step of the whole. -/
inductive Serial (S : Server Res World Choice Ret) (R : Regime Res World Choice Call) :
    Config Res World Ret → Config Res World Ret → Prop
  | refl (c) : Serial S R c c
  | spawn {c c' call} (run : Serial S R c c') (hidle : c'.settled = true) (ha : R.admits call) :
      Serial S R c (c'.spawn S call)
  | step {c c' tid t op k ch r w} (run : Serial S R c c') (ht : c'.threads[tid]? = some t)
      (hp : t.prog = .call op k) (ha : R.allows c'.moment tid op ch)
      (he : S.exec tid op ch c'.moment.world = some (r, w)) :
      Serial S R c (c'.advance tid t op r w (k r))

section Serial

variable {S : Server Res World Choice Ret} {R : Regime Res World Choice Call}
variable {c c' : Config Res World Ret}

theorem Serial.run (h : Serial S R c c') : Run S R c c' := by
  induction h with
  | refl => exact .refl _
  | spawn _ _ ha ih => exact .spawn ih ha
  | step _ ht hp ha he ih => exact .step ih ht hp ha he

theorem Serial.trans {c'' : Config Res World Ret} (h₁ : Serial S R c c') (h₂ : Serial S R c' c'') :
    Serial S R c c'' := by
  induction h₂ with
  | refl => exact h₁
  | spawn _ hidle ha ih => exact .spawn ih hidle ha
  | step _ ht hp ha he ih => exact .step ih ht hp ha he

/-- A request was executed alone, between two configurations in which everything was answered. -/
structure Served (S : Server Res World Choice Ret) (R : Regime Res World Choice Call)
    (c c₀ c₁ c' : Config Res World Ret) (call : Call) (a : Ret call) : Prop where
  before : Serial S R c c₀
  idle : c₀.settled = true
  admitted : R.admits call
  alone : Alone S R c₀.threads.length (S.program call) c₀.moment a c₁.moment
  done : c₁.settled = true
  count : c₁.threads.length = c₀.threads.length + 1
  after : Serial S R c₁ c'

theorem Served.trans {c₀ c₁ c'' : Config Res World Ret} {call : Call} {a : Ret call}
    (h : Served S R c c₀ c₁ c' call a) (later : Serial S R c' c'') : Served S R c c₀ c₁ c'' call a :=
  { h with after := h.after.trans later }

/-- Every request that came after `c` has been served, except that the last one may still be at
work. -/
def Serving (S : Server Res World Choice Ret) (R : Regime Res World Choice Call)
    (c c' : Config Res World Ret) : Prop :=
  ∀ tid t, c'.threads[tid]? = some t →
    (tid + 1 < c'.threads.length ∨ tid < c.threads.length → t.prog.result?.isSome = true) ∧
    (c.threads.length ≤ tid → ∃ c₀, c₀.threads.length = tid ∧
      ((∃ c₁ a, t.prog = .pure a ∧ Served S R c c₀ c₁ c' t.call a) ∨
        tid + 1 = c'.threads.length ∧ Serial S R c c₀ ∧ c₀.settled = true ∧ R.admits t.call ∧
          ∀ a m, Alone S R tid t.prog c'.moment a m →
            Alone S R tid (S.program t.call) c₀.moment a m))

theorem Serial.length_le (run : Serial S R c c') : c.threads.length ≤ c'.threads.length := by
  induction run with
  | refl => exact Nat.le_refl _
  | spawn _ _ _ ih =>
    simp only [Config.spawn, List.length_append, List.length_singleton]
    omega
  | step _ _ _ _ _ ih =>
    simp only [Config.advance, List.length_set]
    exact ih

theorem Serial.serving (run : Serial S R c c') (hc : c.settled = true) : Serving S R c c' := by
  induction run with
  | refl =>
    intro tid t ht
    have hlt := (List.getElem?_eq_some_iff.mp ht).1
    exact ⟨fun _ => List.all_eq_true.mp hc t (List.mem_of_getElem? ht), fun hle => by omega⟩
  | @spawn c₁ call run hidle ha ih =>
    intro tid t ht
    have later : Serial S R c₁ (c₁.spawn S call) := .spawn (.refl c₁) hidle ha
    have hlength : (c₁.spawn S call).threads.length = c₁.threads.length + 1 := by
      simp [Config.spawn]
    by_cases hold : tid < c₁.threads.length
    · rw [Config.spawn, List.getElem?_append_left hold] at ht
      have hdone := List.all_eq_true.mp hidle t (List.mem_of_getElem? ht)
      refine ⟨fun _ => hdone, fun hle => ?_⟩
      obtain ⟨c₀, htid, ⟨c₂, a, hpure, hserved⟩ | ⟨hend, before, hidle₀, hadmits, hback⟩⟩ :=
        (ih tid t ht).2 hle
      · exact ⟨c₀, htid, .inl ⟨c₂, a, hpure, hserved.trans later⟩⟩
      · obtain ⟨a, ha⟩ := Option.isSome_iff_exists.mp hdone
        have hpure := Prog.result?_eq_some.mp ha
        refine ⟨c₀, htid, .inl ⟨c₁, a, hpure, before, hidle₀, hadmits, ?_, hidle, ?_, later⟩⟩
        · rw [htid]
          exact hback a _ (hpure ▸ .pure a _)
        · omega
    · have hlt := (List.getElem?_eq_some_iff.mp ht).1
      obtain rfl : tid = c₁.threads.length := by omega
      rw [Config.spawn, List.getElem?_concat_length] at ht
      cases ht
      have hle := run.length_le
      refine ⟨fun h => by omega, fun _ => ⟨c₁, rfl, .inr ⟨by omega, run, hidle, ha, ?_⟩⟩⟩
      exact fun _ _ h => h
  | @step c₁ tid' t' op k ch r w run ht' hp ha he ih =>
    intro tid t ht
    have later : Serial S R c₁ (c₁.advance tid' t' op r w (k r)) := .step (.refl c₁) ht' hp ha he
    have hlength : (c₁.advance tid' t' op r w (k r)).threads.length = c₁.threads.length := by
      simp [Config.advance]
    have hlt := (List.getElem?_eq_some_iff.mp ht').1
    have hlast : ¬ (tid' + 1 < c₁.threads.length ∨ tid' < c.threads.length) := fun h => by
      have hdone := (ih tid' t' ht').1 h
      rw [hp] at hdone
      cases hdone
    by_cases heq : tid' = tid
    · subst heq
      rw [Config.advance, List.getElem?_set_self hlt] at ht
      cases ht
      refine ⟨fun h => absurd (hlength ▸ h) hlast, fun hle => ?_⟩
      obtain ⟨c₀, htid, ⟨c₂, a, hpure, -⟩ | ⟨-, before, hidle₀, hadmits, hback⟩⟩ :=
        (ih tid' t' ht').2 hle
      · rw [hp] at hpure
        cases hpure
      · refine ⟨c₀, htid, .inr ⟨by omega, before, hidle₀, hadmits, fun a m h => ?_⟩⟩
        exact hback a m (hp ▸ .call ha he h)
    · rw [Config.advance, List.getElem?_set_ne heq] at ht
      obtain ⟨hdone, hserved⟩ := ih tid t ht
      refine ⟨fun h => hdone (hlength ▸ h), fun hle => ?_⟩
      obtain ⟨c₀, htid, ⟨c₂, a, hpure, hserved⟩ | ⟨hend, -⟩⟩ := hserved hle
      · exact ⟨c₀, htid, .inl ⟨c₂, a, hpure, hserved.trans later⟩⟩
      · omega

/-- In a serial run, a request that has been answered was executed alone. -/
theorem Serial.served (run : Serial S R c c') (hc : c.settled = true) {tid : Nat}
    (hle : c.threads.length ≤ tid) {call : Call} {a : Ret call} (ha : c'.answered tid call a) :
    ∃ c₀ c₁, c₀.threads.length = tid ∧ Served S R c c₀ c₁ c' call a := by
  obtain ⟨born, ht⟩ := ha
  have hserving := run.serving hc
  obtain ⟨c₀, htid, ⟨c₁, a', hpure, hserved⟩ | ⟨hend, before, hidle, hadmits, hback⟩⟩ :=
    (hserving tid _ ht).2 hle
  · cases hpure
    exact ⟨c₀, c₁, htid, hserved⟩
  · -- the last request: the others have been answered before
    refine ⟨c₀, c', htid, before, hidle, hadmits, ?_, ?_, by omega, .refl _⟩
    · rw [htid]
      exact hback a _ (.pure a _)
    · refine List.all_eq_true.mpr fun t hmem => ?_
      obtain ⟨i, hi⟩ := List.getElem?_of_mem hmem
      have hlt := (List.getElem?_eq_some_iff.mp hi).1
      by_cases heq : i = tid
      · subst heq
        cases hi.symm.trans ht
        rfl
      · exact (hserving i t hi).1 (.inl (by omega))

/-- Where everything has been answered, nothing happens until a request arrives. -/
theorem Serial.eq_of_length (run : Serial S R c c') (hc : c.settled = true)
    (hlength : c'.threads.length = c.threads.length) : c' = c := by
  induction run with
  | refl => rfl
  | spawn run _ _ _ =>
    have hle := run.length_le
    simp only [Config.spawn, List.length_append, List.length_singleton] at hlength
    omega
  | step run ht hp _ _ ih =>
    simp only [Config.advance, List.length_set] at hlength
    obtain rfl := ih hlength
    have hdone := List.all_eq_true.mp hc _ (List.mem_of_getElem? ht)
    rw [hp] at hdone
    cases hdone

/-- What every request keeps when it is executed alone holds whenever all requests have been
answered. -/
theorem Serial.settles {J : Moment Res World → Prop}
    (hcalls : ∀ call tid m a m', R.admits call → J m → Alone S R tid (S.program call) m a m' → J m')
    (run : Serial S R c c') (hc : c.settled = true) (hj : J c.moment) (hs : c'.settled = true) :
    J c'.moment := by
  -- by induction on the number of requests, each configuration being reached from the one before
  -- its last request
  induction hn : c'.threads.length using Nat.strongRecOn generalizing c' with
  | ind n ih =>
    have hle := run.length_le
    by_cases hlength : c'.threads.length = c.threads.length
    · obtain rfl := run.eq_of_length hc hlength
      exact hj
    · have hlt : c'.threads.length - 1 < c'.threads.length := by omega
      obtain ⟨⟨call, born, p⟩, ht⟩ : ∃ t, c'.threads[c'.threads.length - 1]? = some t :=
        ⟨_, List.getElem?_eq_getElem hlt⟩
      obtain ⟨a, ha⟩ : ∃ a : Ret call, p.result? = some a :=
        Option.isSome_iff_exists.mp (List.all_eq_true.mp hs _ (List.mem_of_getElem? ht))
      rw [Prog.result?_eq_some.mp ha] at ht
      obtain ⟨c₀, c₁, hcount, hserved⟩ := run.served hc (by omega) ⟨born, ht⟩
      have hend : c' = c₁ := by
        refine hserved.after.eq_of_length hserved.done ?_
        rw [hserved.count]
        omega
      have hbefore := ih c₀.threads.length (by omega) hserved.before hserved.idle rfl
      rw [hend]
      exact hcalls _ _ _ _ _ hserved.admitted hbefore hserved.alone

/-! ## Schedules in which requests do not overlap -/

/-- Execute a schedule in which a request arrives only when every earlier one has been answered. -/
def Config.serve (S : Server Res World Choice Ret) (c : Config Res World Ret) :
    List (Label Call Choice) → Option (Config Res World Ret)
  | [] => some c
  | .spawn call :: ls => if c.settled then (c.spawn S call).serve S ls else none
  | .step tid ch :: ls => (c.next S (.step tid ch)).bind fun c' => c'.serve S ls

theorem Serial.of_serve {ls : List (Label Call Choice)} (hs : c.serve S ls = some c')
    (hc : c.Complies S R ls) : Serial S R c c' := by
  induction ls generalizing c with
  | nil =>
    cases hs
    exact .refl _
  | cons l ls ih =>
    cases l with
    | spawn call =>
      simp only [Config.serve] at hs
      split at hs
      · next hidle =>
        exact Serial.trans (.spawn (.refl _) hidle hc.1) (ih hs (hc.2 _ rfl))
      · cases hs
    | step tid ch =>
      obtain ⟨c₁, hn, hs⟩ := Option.bind_eq_some_iff.mp hs
      refine Serial.trans ?_ (ih hs (hc.2 c₁ hn))
      simp only [Config.next] at hn
      split at hn
      · cases hn
      · next t ht =>
        split at hn
        · cases hn
        · next op k hk =>
          split at hn
          · cases hn
          · next r w he =>
            cases hn
            exact .step (.refl _) ht hk (hc.1 t ht op k hk) he

/-- Execute such a schedule, if it passes, and test the configuration it leads to. -/
def Config.serves (S : Server Res World Choice Ret) (accept : Call → Bool) (good : Choice → Bool)
    (c : Config Res World Ret) (ls : List (Label Call Choice))
    (test : Config Res World Ret → Bool) : Bool :=
  ls.all (Label.passes accept good) && (c.serve S ls).any test

theorem Config.serial_of_serves {accept : Call → Bool} {good : Choice → Bool}
    (ha : ∀ call, accept call = true → R.admits call)
    (hg : ∀ m tid op ch, good ch = true → R.allows m tid op ch)
    {ls : List (Label Call Choice)} {test : Config Res World Ret → Bool}
    (h : c.serves S accept good ls test = true) :
    ∃ c', Serial S R c c' ∧ test c' = true := by
  rw [serves, Bool.and_eq_true] at h
  obtain ⟨c', hs, ht⟩ := (Option.any_eq_true _ _).mp h.2
  exact ⟨c', .of_serve hs (complies_of_passes ha hg h.1), ht⟩

end Serial

end Concurrent
