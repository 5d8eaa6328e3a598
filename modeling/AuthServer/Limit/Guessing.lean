import AuthServer.Limit.Window

/-!
# Password guessing and the counter of an identifier

Attempts are counted under the identifier that `POST /auth/login` names. The form endpoint
`POST /login` reaches the same password check without counting.
-/

namespace AuthServer

open Concurrent Storage FixedWindow Handler

namespace Guessing

variable (env : Env)

/-- The account identifier a login names, in lower case and without surrounding blanks. -/
def account? : Call → Option String
  | .loginJson _ body => body.resolveIdentifier.map (LoginResource.attemptName env)
  | .submitLogin _ form => form.email.map (LoginResource.attemptName env)
  | _ => none

/-- Logins by JSON. -/
def isJson : Call → Bool
  | .loginJson _ _ => true
  | _ => false

/-- Redis commands succeed. -/
def Available (op : Op) (ch : Choice) : Prop := ∀ c, op = .redis c → ch.fail = none

/-- The thread has not sent a SQL statement yet; its first one looks for the account. -/
def Unchecked (trace : List (Event Res)) (tid : Nat) : Prop :=
  ∀ e ∈ trace, e.tid = tid → ∀ q, e.op ≠ .sql q

/-- No counter of the key was created after the thread was counted. -/
def StillCounted (key : String) (trace : List (Event Res)) (tid : Nat) : Prop :=
  ∀ newer e older n, trace = newer ++ e :: older → e.tid = tid → increment? key e = some n →
    ∀ x ∈ newer, increment? key x ≠ some 1

/-- Logins on both endpoints that name one account. -/
def bothEndpoints (name : String) : Rules where
  admits call := account? env call = some name
  allows _ _ op ch := Available op ch

/-- Logins by JSON only, each of which reaches the password check before a new counter is created. -/
def jsonInTime (name : String) : Rules where
  admits call := account? env call = some name ∧ isJson call = true
  allows m tid op ch := Available op ch ∧
    ∀ q, op = .sql q → Unchecked m.trace tid → StillCounted (Keys.rlLoginEmail name) m.trace tid

/-- In every lifetime of the counter of an identifier, from its creation at `s` on, at most
`login_email_max` logins reach the password check. -/
def GuessesBounded (rules : String → Rules) : Prop :=
  ∀ name w₀ c log, w₀.redis.counters.entry (Keys.rlLoginEmail name) = none →
    Chronicle (server env) (rules name) World.now w₀ c log →
    ∀ later s e earlier, log = later ++ (s, e) :: earlier →
      increment? (Keys.rlLoginEmail name) e = some 1 →
      ∀ tids : List Nat, tids.Nodup →
        (∀ tid ∈ tids, Unchecked (earlier.map Prod.snd) tid ∧
          ∃ x ∈ later, x.1 ≤ s + seconds env.ratelimit.loginEmailWindow ∧ x.2.tid = tid ∧
            ∃ q, x.2.op = .sql q) →
        tids.length ≤ env.ratelimit.loginEmailMax

end Guessing

open Guessing

variable {env : Env} {name : String}

/-! ## What a login by JSON does before the password check -/

/-- A login counts under its identifier when the limit is in force, with the configured window. -/
def CountsLogin (env : Env) (name : String) (op : Op) : Prop :=
  ∀ life, op = .redis (.counter (.incrAndExpire (Keys.rlLoginEmail name) life)) →
    life = seconds env.ratelimit.loginEmailWindow ∧ 1 ≤ env.ratelimit.loginEmailMax ∧
      1 ≤ env.ratelimit.loginEmailWindow

theorem uses_loginJson (req : HttpRequest) (body : LoginRequest) :
    (LoginResource.login env req body).Uses (CountsLogin env name) := by
  unfold LoginResource.login
  refine uses_bind ?_ fun _ => uses_bind ?_ fun _ => ?_
  · unfold LoginResource.applyEmailLimit
    split
    · exact uses_pure _
    · refine uses_applyLimit_key (fun _ hmax hwindow life h => ?_) fun life h => by cases h
      injection h with h
      injection h with h
      injection h with _ hlife
      exact ⟨hlife.symm, Nat.one_le_iff_ne_zero.mpr hmax, Nat.one_le_iff_ne_zero.mpr hwindow⟩
  · unfold applyIpLimit
    split
    · exact uses_pure _
    · next ip _ =>
      refine uses_applyLimit_key (fun _ _ _ life h => ?_) fun life h => by cases h
      have hkey : Keys.rlLoginIp ip = Keys.rlLoginEmail name := by
        injection h with h
        injection h with h
        injection h
      exact absurd hkey (Keys.loginIp_ne_loginEmail ip name)
  · refine (uses_login env _ _ _ _).uses.of_within fun op hop life h => ?_
    subst h
    cases hop

/-- A login that sends a SQL statement names an account and has passed the limit of it. -/
theorem passed_of_issues {req : HttpRequest} {body : LoginRequest} {es : Replies} {q : Sql}
    (h : Issues (LoginResource.login env req body).run es (.sql q)) :
    ∃ id es₁ es₂ d, body.resolveIdentifier = some id ∧ es = es₁ ++ es₂ ∧
      RateLimiter.Decides (Keys.rlLoginEmail (LoginResource.attemptName env id))
        env.ratelimit.loginEmailMax env.ratelimit.loginEmailWindow es₁ d ∧ d.allowed = true := by
  unfold LoginResource.login at h
  obtain ⟨es₁, es₂, _, rfl, hlimit, hrest⟩ :=
    Issues.skip (uses_applyEmailLimit_counting env _).run (not_counting_sql q) h
  obtain ⟨es₃, es₄, _, rfl, -, hlogin⟩ :=
    Issues.skip (uses_applyIpLimit_counting _ _ _ _).run (not_counting_sql q) hrest
  unfold LoginResource.applyEmailLimit at hlimit
  split at hlimit
  · next hnone =>
    -- without an identifier the password check sends nothing
    exfalso
    have hblank : (body.resolveIdentifier.map Text.trim).filter (fun s => s != "") = none := by
      cases hid : body.resolveIdentifier with
      | none => rfl
      | some id => simpa [hid] using hnone
    unfold AuthServer.login LoginService.authenticate at hlogin
    rw [hblank] at hlogin
    exact Issues.not_pure hlogin
  · next id hid =>
    obtain ⟨d, hd, hallowed⟩ := returns_applyLimit hlimit
    exact ⟨id, es₁, _, d, (Option.filter_eq_some_iff.mp hid).1, rfl, hd, hallowed⟩

theorem Keys.loginEmail_ne_empty (name : String) : Keys.rlLoginEmail name ≠ "" := by
  intro h
  have hlist := congrArg String.toList h
  simp [Keys.rlLoginEmail] at hlist

/-- A request that the rules admit is a login by JSON that names the account. -/
theorem json_of_account {call : Call} (ha : account? env call = some name)
    (hj : isJson call = true) : ∃ req body, call = .loginJson req body ∧
      body.resolveIdentifier.map (LoginResource.attemptName env) = some name := by
  cases call with
  | loginJson req body => exact ⟨req, body, rfl, ha⟩
  | _ => cases hj

section Runs

variable {R : Rules} {w₀ : World} {c : State} {log : List (NaiveDateTime × Event Res)}

/-- While Redis is available, no reply of a counter is an error. -/
theorem counter_reply_ok (havail : ∀ m tid op ch, R.allows m tid op ch → Available op ch)
    (run : Run (server env) R (.start w₀) c) {tid : Nat} {key : String} {window : Nat}
    {text : String} : RateLimiter.incrReply key window (.error text) ∉ c.moment.own tid := by
  intro hmem
  obtain ⟨c₁, t, k, ch, w, -, -, -, hallow, hexec, -⟩ := run.executed_own hmem
  have hexec : World.exec env tid (.redis (.counter (.incrAndExpire key (seconds window)))) ch
      c₁.moment.world = some ((.error text : Except String Nat), w) := hexec
  rcases World.exec_counter hexec with ⟨_, hfail, -, -⟩ | ⟨-, hr, -⟩
  · rw [havail _ _ _ _ hallow _ rfl] at hfail
    cases hfail
  · cases hr

/-- What a thread has been told is in the dated history. -/
theorem hit_of_own (h : Chronicle (server env) R World.now w₀ c log) {tid n window : Nat}
    {key : String} (hmem : RateLimiter.incrReply key window (.ok n) ∈ c.moment.own tid) :
    ∃ t, (tid, t, n) ∈ hits key log := by
  obtain ⟨⟨i, op, r⟩, hx, rfl, heq⟩ := Moment.mem_own.mp hmem
  cases heq
  rw [← h.events] at hx
  obtain ⟨⟨t, e⟩, he, rfl⟩ := List.mem_map.mp hx
  exact ⟨t, mem_hits.mpr ⟨_, he⟩⟩

/-- A login by JSON that sends a SQL statement was counted within the limit, unless the limit is not
in force. -/
theorem hit_of_sql (hjson : ∀ call, R.admits call → account? env call = some name ∧ isJson call = true)
    (havail : ∀ m tid op ch, R.allows m tid op ch → Available op ch)
    (h : Chronicle (server env) R World.now w₀ c log) {tid : Nat} {th : Thread Res World Ret}
    {q : Sql} {k : Res (.sql q) → Prog Res (Ret th.call)} (ht : c.threads[tid]? = some th)
    (hp : th.prog = .call (.sql q) k) :
    (env.ratelimit.loginEmailMax = 0 ∨ env.ratelimit.loginEmailWindow = 0) ∨
      ∃ t n, (tid, t, n) ∈ hits (Keys.rlLoginEmail name) log ∧
        n ≤ env.ratelimit.loginEmailMax := by
  have hleads := (h.run.replayed (Config.start_replayed w₀)).2 tid th ht
  obtain ⟨call, born, p⟩ := th
  obtain ⟨haccount, hj⟩ := hjson call (h.run.admitted _ (List.mem_of_getElem? ht))
  obtain ⟨req, body, rfl, hname⟩ := json_of_account haccount hj
  have hissues : Issues (LoginResource.login env req body).run (c.moment.own tid) (.sql q) :=
    ⟨k, hp ▸ hleads⟩
  obtain ⟨id, es₁, es₂, d, hid, hown, hdecides, hallowed⟩ := passed_of_issues hissues
  obtain rfl : LoginResource.attemptName env id = name := by
    rw [hid] at hname
    exact Option.some.inj hname
  have hsub : ∀ x ∈ es₁, x ∈ c.moment.own tid := fun x hx => hown ▸ List.mem_append_left _ hx
  cases hdecides with
  | unlimited hoff =>
    rcases hoff with hoff | hoff
    · exact absurd hoff (Keys.loginEmail_ne_empty _)
    · exact .inl hoff
  | unavailable text =>
    exact absurd (hsub _ (List.mem_singleton_self _)) (counter_reply_ok havail h.run)
  | passes n hn =>
    obtain ⟨t, hmem⟩ := hit_of_own h (hsub _ (List.mem_singleton_self _))
    exact .inr ⟨t, n, hmem, hn⟩
  | refuses => cases hallowed

end Runs

/-! ## The bound -/

/-- The oldest entry of a list with a property. -/
theorem exists_oldest {α : Type} {p : α → Prop} {l : List α} (h : ∃ x ∈ l, p x) :
    ∃ a y b, l = a ++ y :: b ∧ p y ∧ ∀ z ∈ b, ¬ p z := by
  induction l with
  | nil =>
    obtain ⟨x, hx, -⟩ := h
    cases hx
  | cons z l ih =>
    by_cases hl : ∃ x ∈ l, p x
    · obtain ⟨a, y, b, rfl, hy, hb⟩ := ih hl
      exact ⟨z :: a, y, b, rfl, hy, hb⟩
    · refine ⟨[], z, l, rfl, ?_, fun x hx hp => hl ⟨x, hx, hp⟩⟩
      obtain ⟨x, hx, hp⟩ := h
      rcases List.mem_cons.mp hx with rfl | hx
      · exact hp
      · exact absurd ⟨x, hx, hp⟩ hl

/-- The creation of a counter is not a SQL statement. -/
theorem op_ne_sql_of_increment {key : String} {e : Event Res} {n : Nat}
    (h : increment? key e = some n) (q : Sql) : e.op ≠ .sql q := by
  obtain ⟨tid, life, rfl⟩ := increment?_eq_some.mp h
  nofun

section Json

variable {w₀ : World} {c : State} {log : List (NaiveDateTime × Event Res)}

theorem uses_jsonInTime (call : Call) (h : (jsonInTime env name).admits call) :
    ((server env).program call).Uses (CountsLogin env name) := by
  obtain ⟨req, body, rfl, -⟩ := json_of_account h.1 h.2
  exact uses_program (uses_loginJson req body)

/-- Where a counter exists the limit is in force. -/
theorem limit_in_force (h : Chronicle (server env) (jsonInTime env name) World.now w₀ c log)
    {later earlier : List (NaiveDateTime × Event Res)} {s : NaiveDateTime} {e : Event Res} {n : Nat}
    (hlog : log = later ++ (s, e) :: earlier)
    (hn : increment? (Keys.rlLoginEmail name) e = some n) :
    1 ≤ env.ratelimit.loginEmailMax ∧ 1 ≤ env.ratelimit.loginEmailWindow := by
  subst hlog
  obtain ⟨c₁, th, k, ch, w, h₁, ht, hp, -⟩ := h.split
  obtain ⟨tid, life, rfl⟩ := increment?_eq_some.mp hn
  have hu := h₁.run.uses uses_jsonInTime (fun _ h => nomatch h) th (List.mem_of_getElem? ht)
  rw [hp] at hu
  exact (hu.1 life rfl).2

/-- A login that reaches the password check after a counter was created was counted by it. -/
theorem counted_since {newer later earlier : List (NaiveDateTime × Event Res)} {s : NaiveDateTime}
    {e : Event Res} {y : NaiveDateTime × Event Res} {q : Sql}
    (h : Chronicle (server env) (jsonInTime env name) World.now w₀ c
      (newer ++ y :: (later ++ (s, e) :: earlier)))
    (hone : increment? (Keys.rlLoginEmail name) e = some 1) (hy : y.2.op = .sql q)
    (hfirst : Unchecked ((later ++ (s, e) :: earlier).map Prod.snd) y.2.tid) :
    y.2.tid = e.tid ∨ ∃ t n, (y.2.tid, t, n) ∈ hits (Keys.rlLoginEmail name) later ∧
      n ≤ env.ratelimit.loginEmailMax := by
  obtain ⟨t, ⟨tid, op, r⟩⟩ := y
  obtain rfl : op = .sql q := hy
  obtain ⟨c₁, th, k, ch, w, h₁, ht, hp, hallow, -⟩ := h.split
  have hstill := hallow.2 q rfl (by rw [← h₁.events]; exact hfirst)
  obtain hoff | ⟨u, n, hmem, hn⟩ := hit_of_sql (R := jsonInTime env name) (fun _ ha => ha)
    (fun _ _ _ _ ha => ha.1) h₁ ht hp
  · have := limit_in_force h₁ rfl hone
    omega
  · rw [hits_append, hits_of_some hone] at hmem
    rcases List.mem_append.mp hmem with hlater | hrest
    · exact .inr ⟨u, n, hlater, hn⟩
    · rcases List.mem_cons.mp hrest with heq | hearlier
      · cases heq
        exact .inl rfl
      · -- it would have been counted before the counter was created
        obtain ⟨life, hin⟩ := mem_hits.mp hearlier
        obtain ⟨p, p', rfl⟩ := List.append_of_mem hin
        refine absurd hone (hstill ((later ++ (s, e) :: p).map Prod.snd)
          ⟨tid, .redis (.counter (.incrAndExpire (Keys.rlLoginEmail name) life)),
            (.ok n : Except String Nat)⟩ (p'.map Prod.snd) n ?_ rfl
          (increment?_eq_some.mpr ⟨_, life, rfl⟩) e ?_)
        · rw [← h₁.events]
          simp
        · simp

end Json

/-- Logins by JSON that reach the password check in the lifetime they were counted in are
bounded. -/
theorem guesses_bounded_of_json (env : Env) : GuessesBounded env (jsonInTime env) := by
  rintro name w₀ c log hw h later s e earlier rfl hone tids hnd hreach
  have htracks : Tracks (seconds env.ratelimit.loginEmailWindow) _ _ (Keys.rlLoginEmail name) _ :=
    tracks_of_chronicle (fun call ha => (uses_jsonInTime call ha).mono
      fun op hop life heq => (hop life heq).1) hw h
  have hsorted := (List.pairwise_append.mp (sorted_of_chronicle h).2).1
  refine lifetime_of_tracks (limit_in_force h rfl hone).1 htracks
    (by rw [hits_append, hits_of_some hone]) hnd fun tid htid => ?_
  obtain ⟨hearlier, x, hx, hle, hxtid, hxop⟩ := hreach tid htid
  obtain ⟨a, y, b, rfl, ⟨hytid, q, hyop⟩, hb⟩ :=
    exists_oldest (p := fun z : NaiveDateTime × Event Res => z.2.tid = tid ∧ ∃ q, z.2.op = .sql q)
      ⟨x, hx, hxtid, hxop⟩
  -- its first statement is not later than the one in this lifetime
  have hyx : y.1 ≤ x.1 := by
    rcases List.mem_append.mp hx with hxa | hxb
    · exact (List.pairwise_append.mp hsorted).2.2 x hxa y (List.mem_cons_self ..)
    · rcases List.mem_cons.mp hxb with rfl | hxb
      · exact Int.le_refl _
      · exact absurd ⟨hxtid, hxop⟩ (hb x hxb)
  have hfirst : Unchecked ((b ++ (s, e) :: earlier).map Prod.snd) y.2.tid := by
    rw [hytid]
    intro e' he' htid' q' hop'
    rw [List.map_append, List.map_cons] at he'
    rcases List.mem_append.mp he' with hin | hin
    · obtain ⟨z, hz, rfl⟩ := List.mem_map.mp hin
      exact hb z hz ⟨htid', q', hop'⟩
    · rcases List.mem_cons.mp hin with rfl | hin
      · exact op_ne_sql_of_increment hone q' hop'
      · exact hearlier e' hin htid' q' hop'
  have hlog : a ++ y :: b ++ (s, e) :: earlier = a ++ y :: (b ++ (s, e) :: earlier) := by simp
  rw [hlog] at h
  rw [← hytid]
  refine (counted_since h hone hyop hfirst).imp_right fun ⟨t, n, hmem, hn⟩ => ?_
  obtain ⟨life, hin⟩ := mem_hits.mp hmem
  have hty : t ≤ y.1 := (List.pairwise_cons.mp (List.pairwise_append.mp hsorted).2.1).1 _ hin
  refine ⟨t, n, mem_hits.mpr ⟨life, ?_⟩, hn, Int.le_trans hty (Int.le_trans hyx hle)⟩
  exact List.mem_append_right _ (List.mem_cons_of_mem _ hin)

/-- The sample environment with one attempt for each identifier. -/
def strictEnv : Env := { Scenario.env with ratelimit := { loginEmailMax := 1 } }

/-- One attempt by JSON, which is counted, and one by the form, which is not. -/
def jsonThenForm : List (Label Call Choice) :=
  [.spawn (.loginJson {} { identifier := some "alice", password := some "guess-one" }),
    .step 0 {}, .step 0 {},
    .spawn (.submitLogin { csrfCookie := some "csrf" }
      { email := some " Alice", password := some "guess-two", csrfToken := some "csrf" }),
    .step 1 {}]

/-- A history of three commands: a counter is created, then two threads look for an account. -/
def twoChecks (key : String) : List (NaiveDateTime × Event Res) → Bool
  | [(0, ⟨1, .sql _, _⟩), (0, ⟨0, .sql _, _⟩), (0, e)] => increment? key e == some 1
  | _ => false

/-- The form endpoint reaches the password check of an account that has no attempt left. -/
theorem form_not_counted : ¬ GuessesBounded strictEnv (bothEndpoints strictEnv) := by
  intro h
  have hplay : Config.recorded (server strictEnv) World.now
      (fun call => account? strictEnv call == some "alice") Scenario.succeeds
      (Scenario.world Scenario.tables) jsonThenForm
      (fun _ log => twoChecks (Keys.rlLoginEmail "alice") log) = true := by decide +kernel
  obtain ⟨c, log, hc, htest⟩ := Chronicle.of_recorded (R := bothEndpoints strictEnv "alice")
    (fun call ha => beq_iff_eq.mp ha) (fun _ _ _ ch hg _ _ => Option.isNone_iff_eq_none.mp hg) hplay
  unfold twoChecks at htest
  split at htest
  · next q r q' r' e =>
    have hnone : ∀ tid, Unchecked (List.map Prod.snd ([] : List (NaiveDateTime × Event Res))) tid :=
      fun tid e he => absurd he List.not_mem_nil
    have hin : (0 : Int) ≤ 0 + seconds strictEnv.ratelimit.loginEmailWindow := by decide
    have hbound := h "alice" _ c _ rfl hc [(0, ⟨1, .sql q, r⟩), (0, ⟨0, .sql q', r'⟩)] 0 e [] rfl
      (beq_iff_eq.mp htest) [0, 1] (by decide) fun tid htid => ⟨hnone tid, by
        simp only [List.mem_cons, List.not_mem_nil, or_false] at htid
        rcases htid with rfl | rfl
        · exact ⟨_, .tail _ (.head _), hin, rfl, q', rfl⟩
        · exact ⟨_, .head _, hin, rfl, q, rfl⟩⟩
    exact absurd hbound (by decide)
  · cases htest

end AuthServer
