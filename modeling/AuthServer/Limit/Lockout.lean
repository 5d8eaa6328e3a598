import AuthServer.Limit.Guessing

/-!
# Who is locked out by the counter of an identifier

The counter counts every attempt, also one with the right password, and nothing resets it before
its time.
-/

namespace AuthServer

open Concurrent Storage FixedWindow Handler

namespace Lockout

variable (env : Env)

/-- Logins by JSON for one identifier. -/
def oneIdentifier (name : String) : Rules where
  admits call := Guessing.account? env call = some name ∧ Guessing.isJson call = true
  allows _ _ op ch := Guessing.Available op ch

/-- The login has been answered with `401`, or with a session. -/
def Failed (c : State) (tid : Nat) : Prop :=
  ∃ req body, c.answered tid (.loginJson req body) (.ok none)

def Succeeded (c : State) (tid : Nat) : Prop :=
  ∃ req body r, c.answered tid (.loginJson req body) (.ok (some r))

/-- A login is refused at the end of a dated history only if, where `holds`, at least
`login_email_max` logins that were counted in the current lifetime of the counter have failed, all
of them after the last success. -/
def RefusedOnlyAfterFailures (holds : State → List (Nat × Int × Nat) → Prop) : Prop :=
  ∀ name w₀ c t e n earlier, w₀.redis.counters.entry (Keys.rlLoginEmail name) = none →
    Chronicle (server env) (oneIdentifier env name) World.now w₀ c ((t, e) :: earlier) →
    increment? (Keys.rlLoginEmail name) e = some n → env.ratelimit.loginEmailMax < n →
    holds c (hits (Keys.rlLoginEmail name) earlier) →
    ∃ attempts : List Nat, attempts.Nodup ∧ env.ratelimit.loginEmailMax ≤ attempts.length ∧
      ∀ i ∈ attempts, Failed c i ∧
        ∃ newer u k older, hits (Keys.rlLoginEmail name) earlier = newer ++ (i, u, k) :: older ∧
          ∀ y ∈ newer, y.2.2 ≠ 1 ∧ ¬ Succeeded c y.1

/-- Every login counted in the current lifetime has failed. -/
def AllFailed (c : State) (hs : List (Nat × Int × Nat)) : Prop :=
  ∀ newer x older, hs = newer ++ x :: older → (∀ y ∈ newer, y.2.2 ≠ 1) → Failed c x.1

end Lockout

open Lockout

variable {env : Env} {name : String}

/-! ## A login is counted once -/

/-- The command counts under a key. -/
def Increments (key : String) (op : Op) : Prop :=
  ∃ life, op = .redis (.counter (.incrAndExpire key life))

theorem once_applyLimit (key : String) (max window : Nat) :
    (applyLimit key max window).run.Once (Increments key) := by
  have hrest : ∀ n, (RateLimiter.readTtlOrDefault key n).Uses fun op => ¬ Increments key op := by
    intro n
    unfold RateLimiter.readTtlOrDefault
    refine uses_bind (uses_tryRedis ?_) fun r => ?_
    · rintro ⟨life, h⟩
      cases h
    · split <;> exact uses_pure _
  unfold applyLimit
  refine Prog.Once.bindE ?_ fun d => (uses_ite (uses_pure _) (uses_throw _)).run
  unfold RateLimiter.check
  split
  · trivial
  · refine Prog.Once.bindE ⟨fun _ => trivial, fun _ _ => trivial⟩ fun r => ?_
    split
    · exact (uses_pure _).run
    · exact (uses_ite (uses_bind (hrest _) fun _ => uses_pure _) (uses_pure _)).run

theorem once_loginJson (req : HttpRequest) (body : LoginRequest) :
    (LoginResource.login env req body).run.Once (Increments (Keys.rlLoginEmail name)) := by
  unfold LoginResource.login
  refine Prog.Once.bindE ?_ fun _ => (uses_bind ?_ fun _ => ?_).run
  · unfold LoginResource.applyEmailLimit
    split
    · trivial
    · next id _ =>
      by_cases hid : Keys.rlLoginEmail (LoginResource.attemptName env id) = Keys.rlLoginEmail name
      · rw [hid]
        exact once_applyLimit _ _ _
      · refine (Prog.Uses.once ?_)
        refine (uses_applyLimit_key (fun _ _ _ => ?_) ?_).run
        · rintro ⟨life, h⟩
          injection h with h
          injection h with h
          injection h with h
          exact hid h
        · rintro ⟨life, h⟩
          cases h
  · unfold applyIpLimit
    split
    · exact uses_pure _
    · next ip _ =>
      refine uses_applyLimit_key (fun _ _ _ => ?_) ?_
      · rintro ⟨life, h⟩
        injection h with h
        injection h with h
        injection h with h
        exact Keys.loginIp_ne_loginEmail ip name h
      · rintro ⟨life, h⟩
        cases h
  · refine (uses_login env _ _ _ _).uses.of_within fun op hop => ?_
    rintro ⟨life, rfl⟩
    cases hop

/-- Threads that count at most once are counted once each. -/
theorem nodup_hits {key : String} {log : List (NaiveDateTime × Event Res)}
    (h : log.Pairwise fun x y => x.2.tid = y.2.tid →
      ¬ (Increments key x.2.op ∧ Increments key y.2.op)) :
    ((hits key log).map Prod.fst).Nodup := by
  induction h with
  | nil => exact .nil
  | @cons x log hx _ ih =>
    obtain ⟨t, e⟩ := x
    cases hi : increment? key e with
    | none => rwa [hits_of_none hi]
    | some n =>
      rw [hits_of_some hi, List.map_cons, List.nodup_cons]
      refine ⟨fun hmem => ?_, ih⟩
      obtain ⟨⟨i, u, k⟩, hhit, rfl⟩ := List.mem_map.mp hmem
      obtain ⟨life', hin⟩ := mem_hits.mp hhit
      obtain ⟨tid, life, he⟩ := increment?_eq_some.mp hi
      exact hx _ hin rfl ⟨⟨life, by rw [he]⟩, life', rfl⟩

/-! ## The lockout -/

/-- The increments before one that returned `n` are those of its lifetime, down to the one that
created the counter. -/
theorem window_split {width t : Int} {n j : Nat} {hs : List (Nat × Int × Nat)} {x : Nat × Int × Nat}
    (hvalid : Valid width ((t, n) :: hs.map Prod.snd)) (hj : j + 1 < n) (hx : hs[j]? = some x) :
    hs = hs.take j ++ x :: hs.drop (j + 1) ∧ ∀ y ∈ hs.take j, y.2.2 ≠ 1 := by
  obtain ⟨hlt, rfl⟩ := List.getElem?_eq_some_iff.mp hx
  refine ⟨by rw [← List.drop_eq_getElem_cons hlt, List.take_append_drop], fun y hy hone => ?_⟩
  obtain ⟨i, hi⟩ := List.mem_iff_getElem?.mp hy
  rw [List.getElem?_take] at hi
  split at hi
  · have hvalue := hvalid.values (i := i + 1) (by omega)
    rw [List.getElem?_cons_succ, List.getElem?_map, hi] at hvalue
    simp only [Option.map_some, Option.some.injEq] at hvalue
    omega
  · cases hi

theorem not_succeeded_of_failed {c : State} {tid : Nat} (h : Failed c tid) : ¬ Succeeded c tid := by
  rintro ⟨req', body', r, born', hs⟩
  obtain ⟨req, body, born, hf⟩ := h
  rw [hf] at hs
  cases hs

/-- The password of the sample user. -/
def credential : Credential :=
  { id := 9, credentialType := "password", secretData := some "correct-horse"
    credentialData := some "", createdAt := 0, updatedAt := 0, userId := 1 }

/-- A world in which the sample user can log in. -/
def loginWorld : World :=
  Scenario.world { Scenario.tables with credentials := Scenario.one credential }

/-- A login of the sample user with the right password. -/
def rightLogin : Call :=
  .loginJson {} { identifier := some "alice", password := some "correct-horse" }

/-- A login with the right password from its arrival to its answer, and the first command of a
second one. -/
def twoRightLogins : List (Label Call Choice) :=
  [.spawn rightLogin] ++ Scenario.steps 0 4 ++
    [Scenario.drawUuid 0 10, Scenario.drawText 0 "session-b"] ++ Scenario.steps 0 5 ++
    [.spawn rightLogin, .step 1 {}]

/-- A login has been answered with a session. -/
def loggedIn : (call : Call) → Ret call → Bool
  | .loginJson _ _, .ok (some _) => true
  | _, _ => false

/-- The last command counts two, after a login that has succeeded. -/
def refusedAfterSuccess (key : String) (c : State) : List (NaiveDateTime × Event Res) → Bool
  | (_, e) :: earlier =>
    increment? key e == some 2 && (hits key earlier).all (fun x => x.1 == 0) &&
      c.replied 0 loggedIn
  | [] => false

end AuthServer
