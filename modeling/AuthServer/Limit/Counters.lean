import AuthServer.Concurrent.Chronicle
import AuthServer.Logic
import AuthServer.Replies

/-!
# The log of a rate-limit counter

In every run whose requests count under a key with one window, the counter of the key follows the
dated increments of the run.
-/

namespace AuthServer

open Concurrent Storage FixedWindow Handler

/-- The value that an increment of a key has returned. -/
def increment? (key : String) (e : Event Res) : Option Nat :=
  match e with
  | ⟨_, .redis (.counter (.incrAndExpire k _)), (r : Except String Nat)⟩ =>
    if k = key then r.toOption else none
  | _ => none

/-- The increments of a key, newest first: thread, instant and value. -/
def hits (key : String) (log : List (NaiveDateTime × Event Res)) : List (Nat × Int × Nat) :=
  log.filterMap fun x => (increment? key x.2).map fun n => (x.2.tid, x.1, n)

/-- The log of the counter of a key. -/
def counted (key : String) (log : List (NaiveDateTime × Event Res)) : Log :=
  (hits key log).map Prod.snd

section Hits

variable {key : String} {log : List (NaiveDateTime × Event Res)} {t : NaiveDateTime} {e : Event Res}

theorem hits_of_none (h : increment? key e = none) : hits key ((t, e) :: log) = hits key log := by
  simp [hits, h]

variable {n : Nat}

theorem hits_of_some (h : increment? key e = some n) :
    hits key ((t, e) :: log) = (e.tid, t, n) :: hits key log := by
  simp [hits, h]

theorem hits_append {later earlier : List (NaiveDateTime × Event Res)} :
    hits key (later ++ earlier) = hits key later ++ hits key earlier :=
  List.filterMap_append ..

theorem counted_of_none (h : increment? key e = none) :
    counted key ((t, e) :: log) = counted key log := by
  rw [counted, hits_of_none h, counted]

theorem counted_of_some (h : increment? key e = some n) :
    counted key ((t, e) :: log) = (t, n) :: counted key log := by
  rw [counted, hits_of_some h, counted, List.map_cons]

theorem increment?_eq_some : increment? key e = some n ↔
    ∃ tid life, e = ⟨tid, .redis (.counter (.incrAndExpire key life)),
      (.ok n : Except String Nat)⟩ := by
  constructor
  · intro h
    unfold increment? at h
    split at h
    · next tid k life r =>
      split at h
      · next hk =>
        subst hk
        cases r with
        | error => cases h
        | ok n' =>
          cases h
          exact ⟨_, _, rfl⟩
      · cases h
    · cases h
  · rintro ⟨tid, life, rfl⟩
    simp [increment?, Except.toOption]

theorem mem_hits {tid n : Nat} : (tid, t, n) ∈ hits key log ↔
    ∃ life, (t, ⟨tid, .redis (.counter (.incrAndExpire key life)),
      (.ok n : Except String Nat)⟩) ∈ log := by
  simp only [hits, List.mem_filterMap, Option.map_eq_some_iff, increment?_eq_some]
  constructor
  · rintro ⟨⟨t', e⟩, hx, n', ⟨tid', life, rfl⟩, heq⟩
    cases heq
    exact ⟨life, hx⟩
  · rintro ⟨life, hx⟩
    exact ⟨_, hx, n, ⟨tid, life, rfl⟩, rfl⟩

/-- Different threads with an increment each are at most as many as the increments. -/
theorem length_le_admitted {limit : Nat} {a b : Int} {hs : List (Nat × Int × Nat)}
    {tids : List Nat} (hnd : tids.Nodup)
    (h : ∀ tid ∈ tids, ∃ t n, (tid, t, n) ∈ hs ∧ n ≤ limit ∧ a ≤ t ∧ t ≤ b) :
    tids.length ≤ (admitted limit a b (hs.map Prod.snd)).length := by
  rw [admitted, List.filter_map, List.length_map]
  refine Nat.le_trans (List.Subperm.length_le (hnd.subperm fun tid htid => ?_))
    (Nat.le_of_eq (List.length_map Prod.fst))
  obtain ⟨t, n, hmem, hn, ha, hb⟩ := h tid htid
  exact List.mem_map.mpr ⟨_, List.mem_filter.mpr ⟨hmem, by simp [hn, ha, hb]⟩, rfl⟩

end Hits

/-- The command counts under the key with the given window, if at all. -/
def KeepsWidth (key : String) (width : Int) (op : Op) : Prop :=
  ∀ life, op = .redis (.counter (.incrAndExpire key life)) → life = width

variable {env : Env} {tid : Nat} {ch : Choice} {w w' : World} {key : String}
variable {log : List (NaiveDateTime × Event Res)}

theorem World.counters_exec {op : Op} {r : Res op} (h : World.exec env tid op ch w = some (r, w'))
    (hop : ∀ c, op ≠ .redis (.counter c)) : w'.redis.counters = w.redis.counters := by
  rcases redis_exec h with hr | ⟨c, rfl, -, hr⟩
  · rw [hr]
  · cases c with
    | counter c => exact absurd rfl (hop c)
    | _ => rw [hr]; rfl

/-- A counter command fails and changes nothing, or it is executed at the instant the clock then
shows. -/
theorem World.exec_counter {cmd : CounterCmd String} {r : Except String cmd.Res}
    (h : World.exec env tid (.redis (.counter cmd)) ch w = some (r, w')) :
    (∃ text, ch.fail = some text ∧ r = .error text ∧ w'.redis.counters = w.redis.counters) ∨
      (ch.fail = none ∧ r = .ok (cmd.exec w'.now w.redis.counters).1 ∧
        w'.redis.counters = (cmd.exec w'.now w.redis.counters).2) := by
  rcases World.exec_redis h with ⟨text, hf, rfl, rfl⟩ | ⟨hf, rfl, rfl⟩
  · exact .inl ⟨text, hf, rfl, rfl⟩
  · exact .inr ⟨hf, rfl, rfl⟩

/-- One command keeps the log of a counter. -/
theorem tracks_exec {op : Op} {r : Res op} {width : Int}
    (h : World.exec env tid op ch w = some (r, w')) (hop : KeepsWidth key width op)
    (ht : Tracks width w.now w.redis.counters key (counted key log)) :
    Tracks width w'.now w'.redis.counters key (counted key ((w'.now, ⟨tid, op, r⟩) :: log)) := by
  have hnow := World.now_exec h
  have ht : Tracks width w'.now w.redis.counters key (counted key log) :=
    ht.elapse (by rw [hnow]; exact Int.le_add_of_nonneg_right (Int.natCast_nonneg _))
  by_cases hcount : ∃ cmd, op = .redis (.counter cmd)
  · obtain ⟨cmd, rfl⟩ := hcount
    rcases World.exec_counter h with ⟨text, -, hr, hw⟩ | ⟨-, hr, hw⟩
    · -- a failed command is not counted
      have hnone : increment? key ⟨tid, .redis (.counter cmd), r⟩ = none := by
        subst hr
        cases cmd with
        | incrAndExpire => exact ite_self _
        | ttl => rfl
      rw [counted_of_none hnone, hw]
      exact ht
    · rw [hw]
      cases cmd with
      | ttl k unit =>
        rw [counted_of_none rfl]
        exact ht
      | incrAndExpire k life =>
        by_cases hk : k = key
        · subst hk
          obtain rfl := hop life rfl
          rw [counted_of_some (increment?_eq_some.mpr ⟨tid, life, by rw [hr]; rfl⟩)]
          exact ht.incr
        · have hnone : increment? key ⟨tid, .redis (.counter (.incrAndExpire k life)), r⟩ = none :=
            if_neg hk
          rw [counted_of_none hnone]
          exact ht.congr (CounterCmd.entry_exec_of_ne (Ne.symm hk))
  · have hnone : increment? key ⟨tid, op, r⟩ = none := by
      cases hi : increment? key ⟨tid, op, r⟩ with
      | none => rfl
      | some n =>
        obtain ⟨_, life, he⟩ := increment?_eq_some.mp hi
        cases he
        exact absurd ⟨_, rfl⟩ hcount
    rw [counted_of_none hnone, World.counters_exec h fun c hc => hcount ⟨c, hc⟩]
    exact ht

/-- The counter of a key follows its log in every run that counts under the key with one window. -/
theorem tracks_of_chronicle {R : Rules} {width : Int} {w₀ : World} {c : State}
    (hok : ∀ call, R.admits call → ((server env).program call).Uses (KeepsWidth key width))
    (hw : w₀.redis.counters.entry key = none) (h : Chronicle (server env) R World.now w₀ c log) :
    Tracks width c.moment.world.now c.moment.world.redis.counters key (counted key log) := by
  refine h.keeps (J := fun m log => Tracks width m.world.now m.world.redis.counters key
    (counted key log)) hok ?_ ?_
  · intro m log tid op ch r w hJ hop _ he
    exact tracks_exec he hop hJ
  · exact ⟨.nil, nofun, fun _ => hw, nofun⟩

/-- The history is ordered by its instants. -/
theorem sorted_of_chronicle {R : Rules} {w₀ : World} {c : State}
    (h : Chronicle (server env) R World.now w₀ c log) :
    (∀ x ∈ log, x.1 ≤ c.moment.world.now) ∧ log.Pairwise fun x y => y.1 ≤ x.1 := by
  induction h with
  | start => exact ⟨fun x hx => absurd hx List.not_mem_nil, .nil⟩
  | spawn _ _ ih => exact ih
  | @step c l tid t op k ch r w _ _ _ _ he ih =>
    have hle : ∀ x ∈ l, x.1 ≤ w.now := fun x hx =>
      Int.le_trans (ih.1 x hx) (by
        rw [World.now_exec he]
        exact Int.le_add_of_nonneg_right (Int.natCast_nonneg _))
    refine ⟨fun x hx => ?_, .cons hle ih.2⟩
    rcases List.mem_cons.mp hx with rfl | hx
    · exact Int.le_refl _
    · exact hle x hx

/-! ## The replies of a check -/

namespace RateLimiter

variable {key : String} {limit window : Nat} {es : Replies}

/-- The reply to the increment of a check. -/
def incrReply (key : String) (window : Nat) (r : Except String Nat) : Reply Res :=
  ⟨.redis (.counter (.incrAndExpire key (seconds window))), r⟩

/-- The reply to the question for the remaining time. -/
def ttlReply (key : String) (r : Except String Int) : Reply Res :=
  ⟨.redis (.counter (.ttl key (seconds 1))), r⟩

/-- What a refused request is told to wait. -/
def retryAfter (window : Nat) : Except String Int → Nat
  | .ok sec => if 0 < sec then sec.toNat else window
  | .error _ => window

/-- The replies behind a decision: no counter is used, it is not available, or it is incremented and
the value is compared with the limit. -/
inductive Decides (key : String) (limit window : Nat) : Replies → RateLimitDecision → Prop
  | unlimited (h : key = "" ∨ limit = 0 ∨ window = 0) : Decides key limit window [] .failOpen
  | unavailable (text : String) :
      Decides key limit window [incrReply key window (.error text)] .failOpen
  | passes (n : Nat) (h : n ≤ limit) : Decides key limit window [incrReply key window (.ok n)] (.pass n)
  | refuses (n : Nat) (r : Except String Int) (h : limit < n) :
      Decides key limit window [incrReply key window (.ok n), ttlReply key r]
        (.denied n (retryAfter window r))

theorem returns_readTtlOrDefault {n : Nat}
    (h : Returns (readTtlOrDefault key window).run es (.ok n)) :
    ∃ r, es = [ttlReply key r] ∧ n = retryAfter window r := by
  unfold readTtlOrDefault at h
  obtain ⟨es₁, es₂, r, rfl, hperform, hret⟩ := h.seq
  refine ⟨r, ?_⟩
  rw [returns_perform.mp hperform]
  split at hret
  · obtain ⟨rfl, rfl⟩ := hret.ret
    exact ⟨rfl, rfl⟩
  · obtain ⟨rfl, rfl⟩ := hret.ret
    exact ⟨rfl, rfl⟩

theorem returns_check {d : RateLimitDecision}
    (h : Returns (check key limit window).run es (.ok d)) : Decides key limit window es d := by
  unfold check at h
  split at h
  · next hoff =>
    obtain ⟨rfl, rfl⟩ := h.ret
    exact .unlimited hoff
  · obtain ⟨es₁, es₂, r, rfl, hperform, hret⟩ := h.seq
    rw [returns_perform.mp hperform]
    split at hret
    · obtain ⟨rfl, rfl⟩ := hret.ret
      exact .unavailable _
    · split at hret
      · next hlt =>
        obtain ⟨es₃, es₄, n, rfl, hread, hret⟩ := hret.seq
        obtain ⟨rfl, rfl⟩ := hret.ret
        obtain ⟨r, rfl, rfl⟩ := returns_readTtlOrDefault hread
        exact .refuses _ r hlt
      · next hle =>
        obtain ⟨rfl, rfl⟩ := hret.ret
        exact .passes _ (Nat.le_of_not_lt hle)

end RateLimiter

/-- A request that has passed a limit: the decision allowed it. -/
theorem returns_applyLimit {max window : Nat} {es : Replies}
    (h : Returns (applyLimit key max window).run es (.ok ())) :
    ∃ d, RateLimiter.Decides key max window es d ∧ d.allowed = true := by
  unfold applyLimit at h
  obtain ⟨es₁, es₂, d, rfl, hcheck, hret⟩ := h.seq
  split at hret
  · next hallowed =>
    obtain ⟨rfl, -⟩ := hret.ret
    rw [List.append_nil]
    exact ⟨d, RateLimiter.returns_check hcheck, hallowed⟩
  · cases hret

/-- A limit counts under its key with its window, and only when it is in force. -/
theorem uses_applyLimit_key {max window : Nat} {ok : Op → Prop}
    (hincr : key ≠ "" → max ≠ 0 → window ≠ 0 →
      ok (.redis (.counter (.incrAndExpire key (seconds window)))))
    (httl : ok (.redis (.counter (.ttl key (seconds 1))))) :
    (applyLimit key max window).Uses ok := by
  unfold applyLimit RateLimiter.check RateLimiter.readTtlOrDefault
  refine uses_bind ?_ fun d => uses_ite (uses_pure _) (uses_throw _)
  split
  · exact uses_pure _
  · next hon =>
    rw [not_or, not_or] at hon
    refine uses_bind (uses_tryRedis (hincr hon.1 hon.2.1 hon.2.2)) fun r => ?_
    split
    · exact uses_pure _
    · refine uses_ite (uses_bind (uses_bind (uses_tryRedis httl) fun r => ?_) fun _ =>
        uses_pure _) (uses_pure _)
      split <;> exact uses_pure _

/-- The command is one of a counter. -/
def Counting (op : Op) : Prop := ∃ c, op = .redis (.counter c)

theorem not_counting_sql (q : Sql) : ¬ Counting (.sql q) := by
  rintro ⟨c, h⟩
  cases h

theorem uses_applyIpLimit_counting (req : HttpRequest) (key : String → String) (max window : Nat) :
    (applyIpLimit req key max window).Uses Counting := by
  unfold applyIpLimit
  split
  · exact uses_pure _
  · exact uses_applyLimit_key (fun _ _ _ => ⟨_, rfl⟩) ⟨_, rfl⟩

theorem uses_applyEmailLimit_counting (env : Env) (identifier : Option String) :
    (LoginResource.applyEmailLimit env identifier).Uses Counting := by
  unfold LoginResource.applyEmailLimit
  split
  · exact uses_pure _
  · exact uses_applyLimit_key (fun _ _ _ => ⟨_, rfl⟩) ⟨_, rfl⟩

/-- Keys of different limits differ. -/
theorem Keys.loginIp_ne_loginEmail (ip name : String) : Keys.rlLoginIp ip ≠ Keys.rlLoginEmail name := by
  intro h
  have hlist := congrArg String.toList h
  simp [Keys.rlLoginIp, Keys.rlLoginEmail] at hlist

end AuthServer
