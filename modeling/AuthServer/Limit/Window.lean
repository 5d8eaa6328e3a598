import AuthServer.Alone
import AuthServer.Limit.Counters
import AuthServer.Scenario

/-!
# The fixed-window bound of the rate limiter

Any number of callers check one key with one limit and one window. What a counter admits in one
lifetime and in any interval as long as the window is bounded, whatever the interleaving.
-/

namespace AuthServer

open Concurrent Storage FixedWindow Handler

/-- Callers of one key while Redis is available. -/
def checking (key : String) (limit window : Nat) : Rules where
  admits call := call = .checkRate key limit window
  allows _ _ _ ch := ch.fail = none

section

variable (env : Env) (key : String) (limit window : Nat)

/-- The call was allowed at an instant: its increment stayed within the limit, or it was allowed on
arrival, without one. -/
def AllowedAt (c : State) (log : List (NaiveDateTime × Event Res)) (tid : Nat)
    (t : NaiveDateTime) : Prop :=
  (∃ n, (tid, t, n) ∈ hits key log ∧ n ≤ limit) ∨
    ∃ th d, c.threads[tid]? = some th ∧ th.born.world.now = t ∧ c.moment.own tid = [] ∧
      c.answered tid (.checkRate key limit window) (.ok d) ∧ d.allowed = true

/-- What the limiter guarantees in a configuration with its dated history. -/
structure WindowKept (c : State) (log : List (NaiveDateTime × Event Res)) : Prop where
  /-- The counter carries a time to live. -/
  expires : ∀ e, c.moment.world.redis.counters.entry key = some e → e.deadline.isSome
  /-- From the creation of a counter to its expiry at most `limit` calls are allowed. -/
  lifetime : ∀ later i s earlier, hits key log = later ++ (i, s, 1) :: earlier →
    ∀ tids : List Nat, tids.Nodup →
      (∀ tid ∈ tids, tid = i ∨
        ∃ t n, (tid, t, n) ∈ later ∧ n ≤ limit ∧ t ≤ s + seconds window) →
      tids.length ≤ limit
  /-- In an interval as long as the window at most twice as many are. -/
  interval : ∀ (t : NaiveDateTime) (tids : List Nat), tids.Nodup →
    (∀ tid ∈ tids, ∃ u, AllowedAt key limit window c log tid u ∧ t ≤ u ∧ u ≤ t + seconds window) →
    tids.length ≤ 2 * limit
  /-- A refused call is told a number of seconds up to the window. -/
  retry : ∀ tid d, c.answered tid (.checkRate key limit window) (.ok d) → d.allowed = false →
    1 ≤ d.retryAfterSeconds ∧ d.retryAfterSeconds ≤ window
  /-- Once the counter has expired, a call with no other one in between is allowed. -/
  reopens : c.moment.world.redis.counters.peek c.moment.world.now key = none → ∀ tid,
    (∃ y m', Alone (server env) (checking key limit window) tid
      ((server env).program (.checkRate key limit window)) c.moment y m') ∧
    ∀ y m', Alone (server env) (checking key limit window) tid
      ((server env).program (.checkRate key limit window)) c.moment y m' →
      ∃ d, y = .ok d ∧ d.allowed = true

/-- The guarantees hold in every run from a state in which the key has not been counted. -/
def FixedWindowKept : Prop :=
  ∀ w₀ c log, w₀.redis.counters.entry key = none →
    Chronicle (server env) (checking key limit window) World.now w₀ c log →
    WindowKept env key limit window c log

end

variable {env : Env} {key : String} {limit window : Nat}

/-- A caller counts with the window of its call. -/
theorem uses_checking (call : Call) (h : (checking key limit window).admits call) :
    ((server env).program call).Uses (KeepsWidth key (seconds window)) := by
  obtain rfl := h
  refine uses_program ?_
  rw [handler, RateLimiter.check, RateLimiter.readTtlOrDefault]
  repeat' first
    | exact uses_pure _ | refine uses_bind ?_ fun _ => ?_ | split
    | exact uses_tryRedis fun life h => by cases h; rfl
    | exact uses_tryRedis fun life h => by cases h

section Runs

variable {w₀ : World} {c : State} {log : List (NaiveDateTime × Event Res)}

variable {tid : Nat}

/-- The replies of a call while Redis is available. -/
theorem decides_of_answered
    (h : Chronicle (server env) (checking key limit window) World.now w₀ c log)
    {d : RateLimitDecision} (ha : c.answered tid (.checkRate key limit window) (.ok d)) :
    RateLimiter.Decides key limit window (c.moment.own tid) d := by
  have hret := (h.run.replayed (Config.start_replayed w₀)).returns ha
  rw [server_program, handler] at hret
  exact RateLimiter.returns_check hret

/-- The remaining time that Redis reports is at most the window. -/
theorem ttl_le_window (hw : w₀.redis.counters.entry key = none)
    (h : Chronicle (server env) (checking key limit window) World.now w₀ c log)
    {r : Except String Int} (hr : RateLimiter.ttlReply key r ∈ c.moment.own tid) :
    ∀ sec, r = .ok sec → sec ≤ window := by
  rintro sec rfl
  obtain ⟨c₁, t, k, ch, w, run₁, -, -, -, hexec, -⟩ := h.run.executed_own hr
  obtain ⟨log₁, h₁⟩ : ∃ l, Chronicle _ _ World.now w₀ c₁ l := run₁.chronicle
  have hexec : World.exec env tid (.redis (.counter (.ttl key (seconds 1)))) ch c₁.moment.world =
      some ((.ok sec : Except String Int), w) := hexec
  have hnow : c₁.moment.world.now ≤ w.now := by
    rw [World.now_exec hexec]
    exact Int.le_add_of_nonneg_right (Int.natCast_nonneg _)
  have htracks := (tracks_of_chronicle uses_checking hw h₁).elapse hnow
  rcases World.exec_counter hexec with ⟨text, -, he, -⟩ | ⟨-, he, -⟩
  · cases he
  · rw [Except.ok.inj he]
    exact Tracks.ttl_le (n := window) htracks (Int.natCast_nonneg _) (by decide)

/-- A call that was allowed has incremented the counter, which stayed within the limit. -/
theorem hit_of_allowedAt (hkey : key ≠ "") (hlimit : 1 ≤ limit) (hwindow : 1 ≤ window)
    (h : Chronicle (server env) (checking key limit window) World.now w₀ c log) {t : NaiveDateTime}
    (ha : AllowedAt key limit window c log tid t) :
    ∃ n, (tid, t, n) ∈ hits key log ∧ n ≤ limit := by
  rcases ha with hhit | ⟨th, d, -, -, hown, hans, -⟩
  · exact hhit
  · have hdecides := decides_of_answered h hans
    rw [hown] at hdecides
    cases hdecides with
    | unlimited hoff =>
      rcases hoff with hoff | hoff | hoff
      · exact absurd hoff hkey
      · omega
      · omega

theorem lifetime_of_tracks (hlimit : 1 ≤ limit)
    (ht : Tracks (seconds window) c.moment.world.now c.moment.world.redis.counters key
      (counted key log)) {later earlier : List (Nat × Int × Nat)} {i : Nat} {s : NaiveDateTime}
    (hsplit : hits key log = later ++ (i, s, 1) :: earlier) {tids : List Nat} (hnd : tids.Nodup)
    (hin : ∀ tid ∈ tids, tid = i ∨
      ∃ t n, (tid, t, n) ∈ later ∧ n ≤ limit ∧ t ≤ s + seconds window) :
    tids.length ≤ limit := by
  have hvalid := ht.valid
  rw [counted, hsplit, List.map_append, List.map_cons] at hvalid
  have hafter : ∀ x ∈ later, s ≤ x.2.1 := fun x hx =>
    (List.pairwise_append.mp hvalid.sorted).2.2 x.2 (List.mem_map_of_mem hx) _
      (List.mem_cons_self ..)
  have hrest : (tids.erase i).length ≤
      (admitted limit s (s + seconds window) (later.map Prod.snd)).length := by
    refine length_le_admitted (hnd.erase i) fun tid htid => ?_
    obtain ⟨hne, htid⟩ := hnd.mem_erase_iff.mp htid
    obtain ⟨t, n, hmem, hn, hle⟩ := (hin tid htid).resolve_left hne
    exact ⟨t, n, hmem, hn, hafter _ hmem, hle⟩
  have hbound := hvalid.admitted_in_lifetime hlimit
  rw [List.length_erase] at hrest
  split at hrest <;> omega

end Runs

/-- While Redis is available a call can always be executed. -/
theorem check_runs {tid : Nat} {m : Instant} :
    ∃ y m', Alone (server env) (checking key limit window) tid
      ((server env).program (.checkRate key limit window)) m y m' := by
  have huses : ((server env).program (.checkRate key limit window)).Uses
      fun op => ∃ c, op = .redis (.counter c) := by
    refine uses_program ?_
    rw [handler, RateLimiter.check, RateLimiter.readTtlOrDefault]
    repeat' first
      | exact uses_pure _ | refine uses_bind ?_ fun _ => ?_ | split | exact uses_tryRedis ⟨_, rfl⟩
  refine Alone.of_uses huses ?_ m
  rintro m op ⟨c, rfl⟩
  exact ⟨{}, _, _, rfl, rfl⟩

/-- A call that finds no counter is allowed. -/
theorem check_reopens (hkey : key ≠ "") (hlimit : 1 ≤ limit) (hwindow : 1 ≤ window) {tid : Nat}
    {m m' : Instant} {y : Except Failure RateLimitDecision}
    (hgone : m.world.redis.counters.peek m.world.now key = none)
    (h : Alone (server env) (checking key limit window) tid
      ((server env).program (.checkRate key limit window)) m y m') :
    ∃ d, y = .ok d ∧ d.allowed = true := by
  have hon : ¬ (key = "" ∨ limit = 0 ∨ window = 0) := by
    rintro (hoff | hoff | hoff)
    · exact hkey hoff
    · omega
    · omega
  rw [server_program, handler, RateLimiter.check, if_neg hon] at h
  rcases h.bindE with ⟨e, rfl, hperform⟩ | ⟨r, m₁, hperform, hrest⟩
  · obtain ⟨_, _, _, -, -, hy, -⟩ := alone_perform.mp hperform
    cases hy
  · obtain ⟨ch, r', w, hok, hexec, hr, -⟩ := alone_perform.mp hperform
    cases hr
    have hlater : m.world.redis.counters.peek w.now key = none :=
      Expiring.peek_none_of_le (by
        rw [World.now_exec hexec]
        exact Int.le_add_of_nonneg_right (Int.natCast_nonneg _)) hgone
    rcases World.exec_counter hexec with ⟨text, hfail, -, -⟩ | ⟨-, hone, -⟩
    · rw [show ch.fail = none from hok] at hfail
      cases hfail
    · have hcount : r = (.ok 1 : Except String Nat) := by
        rw [hone]
        simp only [CounterCmd.exec, hlater]
        rfl
      split at hrest
      · cases hcount
      · next count =>
        obtain rfl : count = 1 := Except.ok.inj hcount
        split at hrest
        · omega
        · obtain ⟨rfl, -⟩ := Alone.pure_iff.mp hrest
          exact ⟨_, rfl, rfl⟩

end AuthServer
