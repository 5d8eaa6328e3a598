import AuthServer.Concurrent.Replay

/-!
# Dated histories

The history of a run together with the instant at which each command was executed, as a clock of
the world shows it after the command.
-/

namespace Concurrent

variable {Op Call World Choice T : Type} {Res : Op → Type} {Ret : Call → Type}

/-- The configurations of the runs from a world, with their dated histories, newest first. -/
inductive Chronicle (S : Server Res World Choice Ret) (R : Regime Res World Choice Call)
    (clock : World → T) (w₀ : World) : Config Res World Ret → List (T × Event Res) → Prop
  | start : Chronicle S R clock w₀ (.start w₀) []
  | spawn {c l call} (h : Chronicle S R clock w₀ c l) (ha : R.admits call) :
      Chronicle S R clock w₀ (c.spawn S call) l
  | step {c l tid t op k ch r w} (h : Chronicle S R clock w₀ c l) (ht : c.threads[tid]? = some t)
      (hp : t.prog = .call op k) (ha : R.allows c.moment tid op ch)
      (he : S.exec tid op ch c.moment.world = some (r, w)) :
      Chronicle S R clock w₀ (c.advance tid t op r w (k r)) ((clock w, ⟨tid, op, r⟩) :: l)

variable {S : Server Res World Choice Ret} {R : Regime Res World Choice Call} {clock : World → T}
variable {w₀ : World} {c : Config Res World Ret} {l : List (T × Event Res)}

/-- Every run has a dated history. -/
theorem Run.chronicle (run : Run S R (.start w₀) c) : ∃ l, Chronicle S R clock w₀ c l := by
  refine run.invariant (J := fun c => ∃ l, Chronicle S R clock w₀ c l) ?_ ?_ ⟨[], .start⟩
  · rintro c₁ call - ha ⟨l, hl⟩
    exact ⟨l, .spawn hl ha⟩
  · rintro c₁ tid t op k ch r w - ⟨l, hl⟩ ht hp ha he
    exact ⟨_, .step hl ht hp ha he⟩

namespace Chronicle

theorem run (h : Chronicle S R clock w₀ c l) : Run S R (.start w₀) c := by
  induction h with
  | start => exact .refl _
  | spawn _ ha ih => exact .spawn ih ha
  | step _ ht hp ha he ih => exact .step ih ht hp ha he

/-- Without the dates it is the history of the run. -/
theorem events (h : Chronicle S R clock w₀ c l) : l.map Prod.snd = c.moment.trace := by
  induction h with
  | start => rfl
  | spawn _ _ ih => exact ih
  | step _ _ _ _ _ ih => exact congrArg _ ih

/-- A property of moments and dated histories holds when each command that the admitted requests can
issue keeps it. -/
theorem keeps {J : Moment Res World → List (T × Event Res) → Prop} {ok : Op → Prop}
    (h : Chronicle S R clock w₀ c l) (hok : ∀ call, R.admits call → (S.program call).Uses ok)
    (hstep : ∀ m l tid op ch r w, J m l → ok op → R.allows m tid op ch →
      S.exec tid op ch m.world = some (r, w) →
      J (m.after tid op r w) ((clock w, ⟨tid, op, r⟩) :: l))
    (h₀ : J ⟨w₀, []⟩ []) : J c.moment l := by
  induction h with
  | start => exact h₀
  | spawn _ _ ih => exact ih
  | step h ht hp ha he ih =>
    have hu : (Prog.call _ _).Uses ok :=
      hp ▸ h.run.uses hok (fun _ h => nomatch h) _ (List.mem_of_getElem? ht)
    exact hstep _ _ _ _ _ _ _ ih hu.1 ha he

/-- Every entry of a dated history was executed at the end of the history before it. -/
theorem split {later earlier : List (T × Event Res)} {t : T} {e : Event Res}
    (h : Chronicle S R clock w₀ c (later ++ (t, e) :: earlier)) :
    ∃ c₁ th k ch w, Chronicle S R clock w₀ c₁ earlier ∧ c₁.threads[e.tid]? = some th ∧
      th.prog = .call e.op k ∧ R.allows c₁.moment e.tid e.op ch ∧
      S.exec e.tid e.op ch c₁.moment.world = some (e.res, w) ∧ t = clock w ∧
      Run S R (c₁.advance e.tid th e.op e.res w (k e.res)) c := by
  generalize hl : later ++ (t, e) :: earlier = l at h
  induction h generalizing later with
  | start => simp at hl
  | spawn h ha ih =>
    obtain ⟨c₁, th, k, ch, w, h₁, ht, hp, hal, he, htime, run⟩ := ih hl
    exact ⟨c₁, th, k, ch, w, h₁, ht, hp, hal, he, htime, .spawn run ha⟩
  | step h ht hp ha he ih =>
    cases later with
    | nil =>
      obtain ⟨hx, rfl⟩ := List.cons.inj hl
      cases hx
      exact ⟨_, _, _, _, _, h, ht, hp, ha, he, rfl, .refl _⟩
    | cons x later =>
      obtain ⟨c₁, th, k, ch, w, h₁, ht₁, hp₁, hal, he₁, htime, run⟩ := ih (List.cons.inj hl).2
      exact ⟨c₁, th, k, ch, w, h₁, ht₁, hp₁, hal, he₁, htime, .step run ht hp ha he⟩

/-- A kind of command that every request issues at most once occurs once for each thread. -/
theorem once {P : Op → Prop} (h : Chronicle S R clock w₀ c l)
    (hok : ∀ call, R.admits call → (S.program call).Once P) :
    l.Pairwise fun x y => x.2.tid = y.2.tid → ¬ (P x.2.op ∧ P y.2.op) := by
  induction h with
  | start => exact .nil
  | spawn _ _ ih => exact ih
  | @step c l tid t op k ch r w h ht hp ha he ih =>
    refine .cons (fun y hy heq hboth => ?_) ih
    obtain rfl : tid = y.2.tid := heq
    have hleads : Leads (S.program t.call) (c.moment.own y.2.tid) (.call op k) :=
      hp ▸ (h.run.replayed (Config.start_replayed w₀)).2 _ t ht
    have hpair := (hleads.snoc r).once (hok _ (h.run.admitted t (List.mem_of_getElem? ht)))
    have hown : (⟨y.2.op, y.2.res⟩ : Reply Res) ∈ c.moment.own y.2.tid :=
      Moment.mem_own.mpr ⟨y.2, h.events ▸ List.mem_map_of_mem hy, rfl, rfl⟩
    exact (List.pairwise_append.mp hpair).2.2 _ hown _ (List.mem_singleton_self _)
      ⟨hboth.2, hboth.1⟩

end Chronicle

/-! ## Dated histories of given schedules -/

/-- Execute a schedule and date its commands. -/
def Config.record (S : Server Res World Choice Ret) (clock : World → T) (c : Config Res World Ret)
    (l : List (T × Event Res)) :
    List (Label Call Choice) → Option (Config Res World Ret × List (T × Event Res))
  | [] => some (c, l)
  | label :: labels => (c.next S label).bind fun c' =>
    c'.record S clock (match label, c'.moment.trace with
      | .step _ _, e :: _ => (clock c'.moment.world, e) :: l
      | _, _ => l) labels

/-- Execute a schedule that passes and test the dated history it leads to. -/
def Config.recorded (S : Server Res World Choice Ret) (clock : World → T) (accept : Call → Bool)
    (good : Choice → Bool) (w₀ : World) (labels : List (Label Call Choice))
    (test : Config Res World Ret → List (T × Event Res) → Bool) : Bool :=
  labels.all (Label.passes accept good) &&
    ((Config.start w₀).record S clock [] labels).any fun x => test x.1 x.2

theorem Chronicle.of_record {labels : List (Label Call Choice)} {c' : Config Res World Ret}
    {l' : List (T × Event Res)} (h : Chronicle S R clock w₀ c l)
    (hr : c.record S clock l labels = some (c', l')) (hc : c.Complies S R labels) :
    Chronicle S R clock w₀ c' l' := by
  induction labels generalizing c l with
  | nil =>
    cases hr
    exact h
  | cons label labels ih =>
    obtain ⟨c₁, hn, hr⟩ := Option.bind_eq_some_iff.mp hr
    refine ih ?_ hr (hc.2 c₁ hn)
    cases label with
    | spawn call =>
      cases hn
      exact .spawn h hc.1
    | step tid ch =>
      simp only [Config.next] at hn
      split at hn
      · cases hn
      · next t ht =>
        split at hn
        · cases hn
        · next op k hk =>
          split at hn
          · cases hn
          · next r w he =>
            cases hn
            exact .step h ht hk (hc.1 t ht op k hk) he

/-- What is recorded from a schedule that passes is a dated history of the regime. -/
theorem Chronicle.of_recorded {accept : Call → Bool} {good : Choice → Bool}
    (ha : ∀ call, accept call = true → R.admits call)
    (hg : ∀ m tid op ch, good ch = true → R.allows m tid op ch)
    {labels : List (Label Call Choice)}
    {test : Config Res World Ret → List (T × Event Res) → Bool}
    (h : Config.recorded S clock accept good w₀ labels test = true) :
    ∃ c l, Chronicle S R clock w₀ c l ∧ test c l = true := by
  rw [Config.recorded, Bool.and_eq_true] at h
  obtain ⟨⟨c, l⟩, hr, ht⟩ := (Option.any_eq_true _ _).mp h.2
  exact ⟨c, l, .of_record .start hr (Config.complies_of_passes ha hg h.1), ht⟩

end Concurrent
