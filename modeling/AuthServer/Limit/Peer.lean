import AuthServer.Limit.Lockout

/-!
# Counting by address

Three endpoints count requests by the address of the client. The address is the first entry of
`X-Forwarded-For` where a request has one, so it is the client who chooses the counter.
-/

namespace AuthServer

open Concurrent Storage FixedWindow Handler

namespace Peer

variable (env : Env)

/-- The requests that count by address. -/
def limited : Call → Bool
  | .loginJson _ _ | .signup _ _ | .verifyEmail _ _ => true
  | _ => false

/-- Without what its headers say a request is its peer and its body. -/
def sansHeaders : Call → Call
  | .loginJson req body => .loginJson { peerAddr := req.peerAddr } body
  | .signup req body => .signup { peerAddr := req.peerAddr } body
  | .verifyEmail req token => .verifyEmail { peerAddr := req.peerAddr } token
  | call => call

/-- The entry of `X-Forwarded-For` that a request is taken to come from. -/
def forwarded? : Call → Option String
  | .loginJson req _ | .signup req _ | .verifyEmail req _ => req.forwarded
  | _ => none

/-- A text begins with another one. -/
def startsWith (key front : String) : Bool := front.toList.isPrefixOf key.toList

/-- The limit and the window of a key that stands for an address. -/
def address? (key : String) : Option (Nat × Nat) :=
  if startsWith key "rl:login:ip:" then some (env.ratelimit.loginIpMax, env.ratelimit.loginIpWindow)
  else if startsWith key "rl:signup:ip:" then
    some (env.ratelimit.signupIpMax, env.ratelimit.signupIpWindow)
  else if startsWith key "rl:verify-email:" then
    some (env.ratelimit.verifyEmailIpMax, env.ratelimit.verifyEmailIpWindow)
  else none

/-- What the limiter has decided for an address. -/
def decision? (e : Event Res) : Option Bool :=
  match e with
  | ⟨_, .redis (.counter (.incrAndExpire key _)), (r : Except String Nat)⟩ =>
    (address? env key).bind fun p => r.toOption.map fun n => decide (n ≤ p.1)
  | _ => none

/-- The decisions of the limiters by address, newest first: instant, thread and whether the request
was allowed. -/
def decisions (log : List (NaiveDateTime × Event Res)) : List ((NaiveDateTime × Nat) × Bool) :=
  log.filterMap fun x => (decision? env x.2).map fun b => ((x.1, x.2.tid), b)

/-- Two runs have the same peers, bodies and timing. -/
structure Agree (c₁ c₂ : State) (log₁ log₂ : List (NaiveDateTime × Event Res)) : Prop where
  calls : ∀ tid call₁ call₂, c₁.requested tid call₁ → c₂.requested tid call₂ →
    sansHeaders call₁ = sansHeaders call₂
  timing : (decisions env log₁).map Prod.fst = (decisions env log₂).map Prod.fst

/-- A signup from a TCP peer. -/
def signupFrom (peer : String) : Call → Bool
  | .signup req _ => req.peerAddr == some peer
  | _ => false

/-- The signups from a peer that a counter of an address has counted, newest first. -/
def signups (c : State) (peer : String) (log : List (NaiveDateTime × Event Res)) :
    List (Nat × Int × Nat) :=
  log.filterMap fun x =>
    match x.2 with
    | ⟨tid, .redis (.counter (.incrAndExpire key _)), (.ok n : Except String Nat)⟩ =>
      if (address? env key).isSome && (c.threads[tid]?).any fun th => signupFrom peer th.call then
        some (tid, x.1, n)
      else none
    | _ => none

/-- No address has been counted yet. -/
def Fresh (w : World) : Prop := ∀ key, address? env key ≠ none → w.redis.counters.entry key = none

/-- The address of a request is that of its TCP peer. -/
structure ByPeer (R : Rules) : Prop where
  /-- Runs that differ in headers only have the same decisions. -/
  decided : ∀ w₀ c₁ c₂ log₁ log₂, Fresh env w₀ → Chronicle (server env) R World.now w₀ c₁ log₁ →
    Chronicle (server env) R World.now w₀ c₂ log₂ → Agree env c₁ c₂ log₁ log₂ →
    decisions env log₁ = decisions env log₂
  /-- From the signup that begins a window of a peer on, at most `signup_ip_max` signups of the peer
  are processed until its end. -/
  signups : ∀ w₀ c log peer, peer ≠ "" → Fresh env w₀ →
    Chronicle (server env) R World.now w₀ c log →
    ∀ later i s k earlier, signups env c peer log = later ++ (i, s, k) :: earlier →
      (∃ l, count (seconds env.ratelimit.signupIpWindow) (s :: earlier.map fun x => x.2.1) =
        (s, 1) :: l) →
      ∀ tids : List Nat, tids.Nodup →
        (∀ tid ∈ tids, (tid = i ∧ k ≤ env.ratelimit.signupIpMax) ∨
          ∃ t n, (tid, t, n) ∈ later ∧ n ≤ env.ratelimit.signupIpMax ∧
            t ≤ s + seconds env.ratelimit.signupIpWindow) →
        tids.length ≤ env.ratelimit.signupIpMax

/-- Any requests to the three endpoints, while Redis is available. -/
def anyHeaders : Rules where
  admits call := limited call = true
  allows _ _ op ch := Guessing.Available op ch

/-- Requests without an entry in `X-Forwarded-For`. -/
def noForwarding : Rules where
  admits call := limited call = true ∧ forwarded? call = none
  allows _ _ op ch := Guessing.Available op ch

end Peer

open Peer

variable {env : Env}

/-! ## The key of a request -/

/-- The key a request is counted under by its address. -/
def addressKey? : Call → Option String
  | .loginJson req _ => (req.clientIp.filter fun ip => ip != "").map Keys.rlLoginIp
  | .signup req _ => (req.clientIp.filter fun ip => ip != "").map Keys.rlSignupIp
  | .verifyEmail req _ => (req.clientIp.filter fun ip => ip != "").map Keys.rlVerifyEmail
  | _ => none

theorem address?_loginEmail (name : String) : address? env (Keys.rlLoginEmail name) = none := by
  simp [address?, startsWith, Keys.rlLoginEmail]

theorem address?_loginIp (ip : String) : address? env (Keys.rlLoginIp ip) =
    some (env.ratelimit.loginIpMax, env.ratelimit.loginIpWindow) := by
  simp [address?, startsWith, Keys.rlLoginIp]

theorem address?_signupIp (ip : String) : address? env (Keys.rlSignupIp ip) =
    some (env.ratelimit.signupIpMax, env.ratelimit.signupIpWindow) := by
  simp [address?, startsWith, Keys.rlSignupIp]

theorem address?_verifyEmail (ip : String) : address? env (Keys.rlVerifyEmail ip) =
    some (env.ratelimit.verifyEmailIpMax, env.ratelimit.verifyEmailIpWindow) := by
  simp [address?, startsWith, Keys.rlVerifyEmail]

/-- The request counts by address under its own key, with the window of the key. -/
def CountsAddress (env : Env) (call : Call) (op : Op) : Prop :=
  ∀ key life p, op = .redis (.counter (.incrAndExpire key life)) → address? env key = some p →
    addressKey? call = some key ∧ life = seconds p.2 ∧ 1 ≤ p.1

theorem CountsAddress.of_within {ks : List Kind} {op : Op} (hks : ks.contains .count = false)
    (h : Within ks op) (call : Call) : CountsAddress env call op := by
  rintro key life p rfl
  rw [Within, show Op.kind _ = Kind.count from rfl, hks] at h
  cases h

variable {call : Call}

theorem uses_applyIpLimit_address {req : HttpRequest} {key : String → String} {max window : Nat}
    (hkey : addressKey? call = (req.clientIp.filter fun ip => ip != "").map key)
    (hp : ∀ ip, address? env (key ip) = some (max, window)) :
    (applyIpLimit req key max window).Uses (CountsAddress env call) := by
  unfold applyIpLimit
  split
  · exact uses_pure _
  · next ip hip =>
    refine uses_applyLimit_key (fun _ hmax _ key' life p h haddress => ?_)
      fun key' life p h => by cases h
    injection h with h
    injection h with h
    injection h with hk hlife
    subst hk
    rw [hp] at haddress
    cases haddress
    refine ⟨?_, hlife.symm, Nat.one_le_iff_ne_zero.mpr hmax⟩
    rw [hkey, hip]
    rfl

theorem uses_address (call : Call) (h : limited call = true) :
    (handler env call).Uses (CountsAddress env call) := by
  cases call with
  | loginJson req body =>
    rw [handler]
    unfold LoginResource.login
    refine uses_bind ?_ fun _ => uses_bind (uses_applyIpLimit_address rfl address?_loginIp)
      fun _ => (uses_login env _ _ _ _).uses.of_within fun op hop => .of_within rfl hop _
    unfold LoginResource.applyEmailLimit
    split
    · exact uses_pure _
    · refine uses_applyLimit_key (fun _ _ _ key life p h haddress => ?_)
        fun key life p h => by cases h
      injection h with h
      injection h with h
      injection h with hk
      rw [← hk, address?_loginEmail] at haddress
      cases haddress
  | signup req body =>
    rw [handler]
    unfold SignupResource.signup
    exact uses_bind (uses_applyIpLimit_address rfl address?_signupIp) fun _ =>
      (SignupFlow.uses_signup env _).uses.of_within fun op hop => .of_within rfl hop _
  | verifyEmail req token =>
    rw [handler]
    unfold SignupResource.verifyEmail
    exact uses_bind (uses_applyIpLimit_address rfl address?_verifyEmail) fun _ =>
      (SignupFlow.uses_verifyEmail env _).uses.of_within fun op hop => .of_within rfl hop _
  | _ => cases h

/-- Without forwarding the key of a request does not depend on its headers. -/
theorem addressKey?_sansHeaders (hl : limited call = true) (h : forwarded? call = none)
    : addressKey? (sansHeaders call) = addressKey? call := by
  have hip : ∀ req : HttpRequest, req.forwarded = none →
      HttpRequest.clientIp { peerAddr := req.peerAddr } = req.clientIp := by
    intro req hreq
    rw [HttpRequest.clientIp, HttpRequest.clientIp, hreq]
    rfl
  cases call with
  | loginJson req body => rw [sansHeaders, addressKey?, addressKey?, hip req h]
  | signup req body => rw [sansHeaders, addressKey?, addressKey?, hip req h]
  | verifyEmail req token => rw [sansHeaders, addressKey?, addressKey?, hip req h]
  | _ => cases hl

/-! ## Decisions as a function of keys and instants -/

theorem decision?_eq_some {e : Event Res} {b : Bool} : decision? env e = some b ↔
    ∃ key n p, increment? key e = some n ∧ address? env key = some p ∧ b = decide (n ≤ p.1) := by
  constructor
  · intro h
    unfold decision? at h
    split at h
    · next tid key life r =>
      obtain ⟨p, hp, h⟩ := Option.bind_eq_some_iff.mp h
      obtain ⟨n, hn, rfl⟩ := Option.map_eq_some_iff.mp h
      exact ⟨key, n, p, (if_pos rfl).trans hn, hp, rfl⟩
    · cases h
  · rintro ⟨key, n, p, hn, hp, rfl⟩
    obtain ⟨tid, life, rfl⟩ := increment?_eq_some.mp hn
    simp [decision?, hp, Except.toOption]

/-- The instants at which a key is counted. -/
def bucket (keyOf : Nat → Option String) (key : String) (l : List (NaiveDateTime × Nat)) :
    List NaiveDateTime :=
  (l.filter fun x => keyOf x.2 == some key).map Prod.fst

/-- The decision for the newest of a list of requests, given the keys they are counted under. -/
def verdict (env : Env) (keyOf : Nat → Option String) (x : NaiveDateTime × Nat)
    (l : List (NaiveDateTime × Nat)) : Bool :=
  (keyOf x.2).any fun key => (address? env key).any fun p =>
    ((count (seconds p.2) (bucket keyOf key (x :: l))).head?).any fun y => decide (y.2 ≤ p.1)

def verdicts (env : Env) (keyOf : Nat → Option String) :
    List (NaiveDateTime × Nat) → List ((NaiveDateTime × Nat) × Bool)
  | [] => []
  | x :: l => (x, verdict env keyOf x l) :: verdicts env keyOf l

theorem verdicts_congr {k₁ k₂ : Nat → Option String} {l : List (NaiveDateTime × Nat)}
    (h : ∀ x ∈ l, k₁ x.2 = k₂ x.2) : verdicts env k₁ l = verdicts env k₂ l := by
  induction l with
  | nil => rfl
  | cons x l ih =>
    have hb : ∀ key, bucket k₁ key (x :: l) = bucket k₂ key (x :: l) := fun key => by
      rw [bucket, bucket, List.filter_congr fun y hy => by rw [h y hy]]
    rw [verdicts, verdicts, ih fun y hy => h y (List.mem_cons_of_mem _ hy), verdict, verdict,
      h x (List.mem_cons_self ..)]
    simp only [hb]

section Runs

variable {R : Rules} {w₀ : World} {c : State} {log : List (NaiveDateTime × Event Res)}
variable {keyOf : Nat → Option String}

/-- The entries of a dated history that count by address belong to the keys of their threads. -/
def Keyed (env : Env) (keyOf : Nat → Option String) (log : List (NaiveDateTime × Event Res)) : Prop :=
  ∀ x ∈ log, ∀ key n p, increment? key x.2 = some n → address? env key = some p →
    keyOf x.2.tid = some key

variable {key : String} {p : Nat × Nat}

/-- The log of an address counts the decisions of its key. -/
theorem times_counted (hp : address? env key = some p) (h : Keyed env keyOf log) :
    (counted key log).map Prod.fst = bucket keyOf key ((decisions env log).map Prod.fst) := by
  induction log with
  | nil => rfl
  | cons x log ih =>
    obtain ⟨t, e⟩ := x
    have ih := ih fun y hy => h y (List.mem_cons_of_mem _ hy)
    cases hd : decision? env e with
    | none =>
      have hnone : increment? key e = none := by
        cases hi : increment? key e with
        | none => rfl
        | some n =>
          rw [decision?_eq_some.mpr ⟨key, n, p, hi, hp, rfl⟩] at hd
          cases hd
      rw [counted_of_none hnone, ih]
      simp [decisions, hd]
    | some b =>
      obtain ⟨key', n, p', hi, hp', -⟩ := decision?_eq_some.mp hd
      have hkey := h (t, e) (List.mem_cons_self ..) key' n p' hi hp'
      have hdec : decisions env ((t, e) :: log) = ((t, e.tid), b) :: decisions env log := by
        simp [decisions, hd]
      rw [hdec, List.map_cons, bucket, List.filter_cons]
      by_cases hk : key' = key
      · subst hk
        rw [counted_of_some hi, List.map_cons, ih, if_pos (by simp [hkey])]
        rfl
      · have hnone : increment? key e = none := by
          obtain ⟨tid, life, rfl⟩ := increment?_eq_some.mp hi
          exact if_neg hk
        rw [counted_of_none hnone, ih, if_neg (by simp [hkey, hk])]
        rfl

theorem uses_limited (hR : ∀ call, R.admits call → limited call = true)
    (hp : address? env key = some p) (call : Call) (ha : R.admits call) :
    ((server env).program call).Uses (KeepsWidth key (seconds p.2)) :=
  (uses_program (uses_address call (hR call ha))).mono
    fun _ hop life heq => (hop key life p heq hp).2.1

/-- Who counts by address counts under the key of its request. -/
theorem key_of_increment (hR : ∀ call, R.admits call → limited call = true)
    (h : Chronicle (server env) R World.now w₀ c log) {t : NaiveDateTime} {e : Event Res}
    (he : (t, e) ∈ log) {n : Nat} (hi : increment? key e = some n) (hp : address? env key = some p)
    :
    ∃ th, c.threads[e.tid]? = some th ∧ R.admits th.call ∧ addressKey? th.call = some key ∧
      1 ≤ p.1 := by
  obtain ⟨later, earlier, rfl⟩ := List.append_of_mem he
  obtain ⟨c₁, th, k, ch, w, h₁, ht, hprog, hallow, hexec, -, run⟩ := h.split
  obtain ⟨tid, life, rfl⟩ := increment?_eq_some.mp hi
  obtain ⟨born, prog, hth⟩ : c.requested tid th.call :=
    ((Run.step (.refl c₁) ht hprog hallow hexec).trans run).requested ⟨th.born, th.prog, ht⟩
  have hadmit := h₁.run.admitted th (List.mem_of_getElem? ht)
  have hleads := (h₁.run.replayed (Config.start_replayed w₀)).2 tid th ht
  have hu := (hleads.uses (uses_program (uses_address th.call (hR _ hadmit)))).2
  rw [hprog] at hu
  obtain ⟨hkey, -, hlimit⟩ := hu.1 key life p rfl hp
  exact ⟨_, hth, hadmit, hkey, hlimit⟩

theorem keyed_of_chronicle (hR : ∀ call, R.admits call → limited call = true)
    (h : Chronicle (server env) R World.now w₀ c log)
    (hkey : ∀ tid call, c.requested tid call → keyOf tid = addressKey? call) :
    Keyed env keyOf log := by
  rintro ⟨t, e⟩ hx key n p hi hp
  obtain ⟨th, hth, -, hown, -⟩ := key_of_increment hR h hx hi hp
  rw [hkey e.tid th.call ⟨th.born, th.prog, hth⟩, hown]

/-- The decisions of a run are those for its keys and instants. -/
theorem decisions_eq_verdicts (hR : ∀ call, R.admits call → limited call = true)
    (hfresh : Fresh env w₀) (h : Chronicle (server env) R World.now w₀ c log)
    (hkey : ∀ tid call, c.requested tid call → keyOf tid = addressKey? call) :
    decisions env log = verdicts env keyOf ((decisions env log).map Prod.fst) := by
  induction h with
  | start => rfl
  | @spawn c l call h ha ih =>
    exact ih fun tid call' hreq => hkey tid call' ((Run.spawn (.refl c) ha).requested hreq)
  | @step c l tid t op k ch r w h ht hp ha he ih =>
    have hstep : Chronicle (server env) R World.now w₀ _ _ := .step h ht hp ha he
    have ih := ih fun i call hreq => hkey i call ((Run.step (.refl c) ht hp ha he).requested hreq)
    cases hd : decision? env ⟨tid, op, r⟩ with
    | none =>
      have hsame : decisions env ((World.now w, ⟨tid, op, r⟩) :: l) = decisions env l := by
        simp [decisions, hd]
      rw [hsame]
      exact ih
    | some b =>
      obtain ⟨key, n, p, hi, haddress, rfl⟩ := decision?_eq_some.mp hd
      have hkeyed := keyed_of_chronicle hR hstep hkey
      have hvalid := (tracks_of_chronicle (uses_limited hR haddress)
        (hfresh key (by rw [haddress]; nofun)) hstep).valid
      have htimes := times_counted haddress hkeyed
      have hcons : decisions env ((World.now w, ⟨tid, op, r⟩) :: l) =
          ((World.now w, tid), decide (n ≤ p.1)) :: decisions env l := by
        simp [decisions, hd]
      have hcount := hvalid.eq_count
      rw [htimes, hcons, List.map_cons, counted_of_some hi] at hcount
      have hown := hkeyed _ (List.mem_cons_self ..) key n p hi haddress
      rw [hcons, List.map_cons, verdicts, ← ih, verdict, hown, Option.any_some, haddress,
        Option.any_some, ← hcount]
      rfl

/-- A thread that has counted by address has a request. -/
theorem requested_of_decision (hR : ∀ call, R.admits call → limited call = true)
    (h : Chronicle (server env) R World.now w₀ c log) {x : NaiveDateTime × Nat}
    (hx : x ∈ (decisions env log).map Prod.fst) :
    ∃ call, R.admits call ∧ c.requested x.2 call := by
  obtain ⟨⟨x', b⟩, hmem, rfl⟩ := List.mem_map.mp hx
  obtain ⟨⟨t, e⟩, hlog, hdec⟩ := List.mem_filterMap.mp hmem
  obtain ⟨b', hb, heq⟩ := Option.map_eq_some_iff.mp hdec
  obtain ⟨key, n, p, hi, hp, -⟩ := decision?_eq_some.mp hb
  obtain ⟨th, hth, hadmit, -, -⟩ := key_of_increment hR h hlog hi hp
  cases heq
  exact ⟨th.call, hadmit, th.born, th.prog, hth⟩

/-- The key of a thread's request. -/
def threadKey (c : State) (tid : Nat) : Option String := (c.threads[tid]?).bind fun th => addressKey? th.call

theorem threadKey_of_requested {tid : Nat} {call : Call} (h : c.requested tid call) :
    threadKey c tid = addressKey? call := by
  obtain ⟨born, prog, hth⟩ := h
  rw [threadKey, hth]
  rfl

theorem limited_of_noForwarding (call : Call) (h : noForwarding.admits call) :
    limited call = true := h.1

/-- Without forwarding, runs that differ in headers only count under the same keys. -/
theorem decisions_eq_of_agree {c₁ c₂ : State} {log₁ log₂ : List (NaiveDateTime × Event Res)}
    (hfresh : Fresh env w₀) (h₁ : Chronicle (server env) noForwarding World.now w₀ c₁ log₁)
    (h₂ : Chronicle (server env) noForwarding World.now w₀ c₂ log₂)
    (hagree : Agree env c₁ c₂ log₁ log₂) : decisions env log₁ = decisions env log₂ := by
  have hR := limited_of_noForwarding
  rw [decisions_eq_verdicts hR hfresh h₁ fun _ _ => threadKey_of_requested,
    decisions_eq_verdicts hR hfresh h₂ fun _ _ => threadKey_of_requested, ← hagree.timing]
  refine verdicts_congr fun x hx => ?_
  obtain ⟨call₁, ha₁, hreq₁⟩ := requested_of_decision hR h₁ hx
  obtain ⟨call₂, ha₂, hreq₂⟩ := requested_of_decision hR h₂ (hagree.timing ▸ hx)
  rw [threadKey_of_requested hreq₁, threadKey_of_requested hreq₂,
    ← addressKey?_sansHeaders ha₁.1 ha₁.2, ← addressKey?_sansHeaders ha₂.1 ha₂.2,
    hagree.calls x.2 call₁ call₂ hreq₁ hreq₂]

/-! ## Signups of one peer -/

/-- Without forwarding a request counts under the signup key of a peer just when it is a signup from
there. -/
theorem addressKey?_eq_signup {call : Call} (h : forwarded? call = none) {peer : String}
    (hpeer : peer ≠ "") :
    addressKey? call = some (Keys.rlSignupIp peer) ↔ signupFrom peer call = true := by
  have hkeys : ∀ ip, Keys.rlLoginIp ip ≠ Keys.rlSignupIp peer ∧
      Keys.rlVerifyEmail ip ≠ Keys.rlSignupIp peer := fun ip => by
    simp [Keys.rlLoginIp, Keys.rlVerifyEmail, Keys.rlSignupIp, String.ext_iff]
  cases call with
  | signup req body =>
    have hip : req.clientIp = req.peerAddr := by
      rw [HttpRequest.clientIp, show req.forwarded = none from h]
      rfl
    rw [addressKey?, signupFrom, hip, beq_iff_eq]
    constructor
    · intro heq
      obtain ⟨ip, hip, heq⟩ := Option.map_eq_some_iff.mp heq
      obtain ⟨hip, -⟩ := Option.filter_eq_some_iff.mp hip
      rw [hip, show ip = peer by simpa [Keys.rlSignupIp, String.ext_iff] using heq]
    · intro heq
      rw [heq]
      simp [Option.filter, hpeer]
  | loginJson req body => simp [addressKey?, signupFrom, hkeys]
  | verifyEmail req token => simp [addressKey?, signupFrom, hkeys]
  | _ => simp [addressKey?, signupFrom]

/-- Without forwarding the counted signups of a peer are the increments of its key. -/
theorem signups_eq_hits (h : Chronicle (server env) noForwarding World.now w₀ c log) {peer : String}
    (hpeer : peer ≠ "") : signups env c peer log = hits (Keys.rlSignupIp peer) log := by
  refine List.filterMap_congr fun x hx => ?_
  obtain ⟨t, e⟩ := x
  dsimp only
  split
  · next tid key life n =>
    have hi : increment? key ⟨tid, .redis (.counter (.incrAndExpire key life)),
        (.ok n : Except String Nat)⟩ = some n := increment?_eq_some.mpr ⟨tid, life, rfl⟩
    cases hp : address? env key with
    | none =>
      have hne : key ≠ Keys.rlSignupIp peer := by
        rintro rfl
        rw [address?_signupIp] at hp
        cases hp
      simp [increment?, hne]
    | some p =>
      obtain ⟨th, hth, hadmit, hkey, -⟩ := key_of_increment limited_of_noForwarding h hx hi hp
      have hiff := addressKey?_eq_signup hadmit.2 hpeer
      rw [hkey] at hiff
      have hth : c.threads[tid]? = some th := hth
      by_cases hsign : signupFrom peer th.call = true
      · cases hiff.mpr hsign
        simp [hth, hsign, hi]
      · have hne : key ≠ Keys.rlSignupIp peer := fun heq => hsign (hiff.mp (congrArg some heq))
        simp [hth, hsign, increment?, hne]
  · next hno =>
    cases hi : increment? (Keys.rlSignupIp peer) e with
    | none => rfl
    | some n =>
      obtain ⟨tid, life, rfl⟩ := increment?_eq_some.mp hi
      exact absurd rfl (hno tid _ life n)

end Runs

/-- One signup for each address and window. -/
def onePerAddress : Env := { Scenario.env with ratelimit := { signupIpMax := 1 } }

/-- A signup of the sample peer, with the given value of `X-Forwarded-For`. -/
def peerSignup (forwardedFor : Option String) : Call :=
  .signup { peerAddr := some "203.0.113.5", xForwardedFor := forwardedFor } {}

/-- Two signups up to their limiters. -/
def twoSignups (forwardedFor : Option String) : List (Label Call Choice) :=
  [.spawn (peerSignup none), .step 0 {}, .spawn (peerSignup forwardedFor), .step 1 {}]

/-- All requests are signups of the sample peer with an empty body, and the limiters have decided as
given. -/
def decidedAs (ds : List ((NaiveDateTime × Nat) × Bool)) (c : State)
    (log : List (NaiveDateTime × Event Res)) : Bool :=
  decide (decisions onePerAddress log = ds) && c.threads.all fun th =>
    match th.call with
    | .signup req body => req.peerAddr == some "203.0.113.5" && body == {}
    | _ => false

theorem sansHeaders_of_decidedAs {ds : List ((NaiveDateTime × Nat) × Bool)} {c : State}
    {log : List (NaiveDateTime × Event Res)} (h : decidedAs ds c log = true) {tid : Nat}
    (hreq : c.requested tid call) : sansHeaders call = peerSignup none := by
  obtain ⟨born, prog, hth⟩ := hreq
  have hcall := List.all_eq_true.mp (Bool.and_eq_true_iff.mp h).2 _ (List.mem_of_getElem? hth)
  dsimp only at hcall
  split at hcall
  · next req body =>
    obtain ⟨hpeer, hbody⟩ := Bool.and_eq_true_iff.mp hcall
    rw [sansHeaders, peerSignup, beq_iff_eq.mp hpeer, beq_iff_eq.mp hbody]
  · cases hcall

end AuthServer
