import AuthServer.Client.Lookup
import AuthServer.Oauth.Issuance
import AuthServer.Scenario
import AuthServer.Store.Draws

/-!
# The detour over the consent screen

A request that is asked for consent stores a pending authorization, and the answer to the consent
screen turns it into a code. The code is the one that the request would have stored directly, but
for its value and its times, as long as session and client stay as they are. A pending
authorization is taken by one command, so that it yields at most one code.
-/

namespace AuthServer

open Concurrent Handler Storage AuthorizeFlow

namespace Detour

/-- A session token with its session and user, and a client. -/
structure View where
  token : String
  sessionId : Uuid
  userId : Uuid
  client : ClientRow

/-- Whatever the stores hold for the token and for the id of the client is the given session and
the given client. -/
structure View.Shown (v : View) (env : Env) (w : World) : Prop where
  cachedClient : ∀ e, w.redis.clients.entry v.client.clientId = some e →
    e.value.toClientRow = v.client
  client : ∀ row ∈ w.pg.tables.clients, row.clientId = v.client.clientId → row = v.client
  cachedSession : ∀ e, w.redis.sessions.entry (env.sha256 v.token) = some e →
    e.value.id = v.sessionId ∧ e.value.userId = v.userId
  session : ∀ s ∈ w.pg.tables.sessions, s.sessionToken = v.token →
    s.id = v.sessionId ∧ s.userId = v.userId

/-- An authorization request arrives at `c₀`, and its session and its client stay as they are until
`c`. -/
structure Stretch (env : Env) (R : Rules) (v : View) (req : AuthorizeRequest) (w₀ : World)
    (c₀ c : State) : Prop where
  before : Run (server env) R (Config.start w₀) c₀
  admitted : R.admits (.authorize req)
  since : Run (server env) R (c₀.spawn (server env) (.authorize req)) c
  token : req.sessionToken = some v.token
  clientId : Text.trim (req.clientId.getD "") = v.client.clientId
  shown : ∀ c₁, Run (server env) R c₀ c₁ → Run (server env) R c₁ c →
    v.Shown env c₁.moment.world

/-- The code that has been stored. -/
def stores : Marking Res AuthorizationCode
  | .redis (.authCode (.setnx _ code _)), .ok true => some code
  | _, _ => none

/-- The ids of the pending authorizations that the world starts with have been drawn. -/
def Drawn (w₀ : World) : Prop := ∀ k e, w₀.redis.pending.entry k = some e → k ∈ w₀.tokens

/-- Where a code is sent that was asked for by a request. -/
def location (req : AuthorizeRequest) (code : String) : String :=
  AuthorizeFlow.buildRedirect (req.redirectUri.getD "")
    [("code", code), ("state", req.state.getD "")]

/-- What the detour over the consent screen changes: nothing but the consent. -/
structure ConsentDetour (env : Env) : Prop where
  /-- A request is asked for consent and the consent screen is answered with a code `x`; the same
  request, whatever its prompt, stores a code `y` directly, possibly in another run. The codes differ
  in their value and their times only, and the redirects in the value of the code. -/
  same : ∀ R R' v req prompt w₀ c₀ c w₁ c₁ c' requestId token action i x y, Drawn w₀ →
    Stretch env R v req w₀ c₀ c →
    c.answered c₀.threads.length (.authorize req) (.ok (.consentRequired requestId)) →
    c₀.threads.length < i → c.requested i (.submitConsent token (some requestId) action) →
    c.moment.Marked stores i x →
    Stretch env R' v { req with prompt := prompt } w₁ c₁ c' →
    c'.moment.Marked stores c₁.threads.length y →
    { x with code := y.code, expiresAt := y.expiresAt, createdAt := y.createdAt } = y ∧
    (∀ a, c.answered i (.submitConsent token (some requestId) action) (.ok a) →
      a = .redirect (location req x.code)) ∧
    ∀ a, c'.answered c₁.threads.length (.authorize { req with prompt := prompt }) (.ok a) →
      a = .success (location req y.code)
  /-- However answers to a consent screen interleave, at most one of them stores a code, and it
  stores one. -/
  once : ∀ R w₀ c requestId token token' action action' i j x y, Drawn w₀ →
    Run (server env) R (Config.start w₀) c →
    c.requested i (.submitConsent token (some requestId) action) →
    c.requested j (.submitConsent token' (some requestId) action') →
    c.moment.Marked stores i x → c.moment.Marked stores j y → i = j ∧ x = y

/-! ## What the stores show -/

section Shown

variable {env : Env} {R : Rules} {v : View} {req : AuthorizeRequest} {w₀ : World} {c₀ c : State}
variable {tid : Nat} {es : Replies}

theorem Stretch.later (h : Stretch env R v req w₀ c₀ c) : Run (server env) R c₀ c :=
  Run.trans (.spawn (.refl c₀) h.admitted) h.since

theorem Stretch.run (h : Stretch env R v req w₀ c₀ c) :
    Run (server env) R (Config.start w₀) c := h.before.trans h.later

theorem Stretch.requested (h : Stretch env R v req w₀ c₀ c) :
    c.requested c₀.threads.length (.authorize req) := h.since.requested Config.requested_spawn

/-- What a request that arrived later was told, it was told while session and client were shown. -/
theorem Stretch.told (h : Stretch env R v req w₀ c₀ c) (hle : c₀.threads.length ≤ tid) {op : Op}
    {r : Res op} (hr : (⟨op, r⟩ : Reply Res) ∈ c.moment.own tid) :
    ∃ w w' ch, v.Shown env w ∧ World.exec env tid op ch w = some (r, w') := by
  obtain ⟨c₁, t, k, ch, w', run₁, ht, hp, ha, hexec, run₂⟩ :=
    h.later.executed_since (h.before.numbered (Config.start_numbered w₀)) hle hr
  exact ⟨c₁.moment.world, w', ch, h.shown c₁ run₁ (Run.trans (.step (.refl c₁) ht hp ha hexec) run₂),
    hexec⟩

/-- The client that is found is the one that is shown. -/
theorem Stretch.client (h : Stretch env R v req w₀ c₀ c) (hle : c₀.threads.length ≤ tid)
    {client : Client} (hes : ∀ e ∈ es, e ∈ c.moment.own tid)
    (hfound : ClientFound env v.client.clientId es client) : client.toClientRow = v.client := by
  cases hfound with
  | cached snap =>
    obtain ⟨w, w', ch, hshown, hexec⟩ := h.told hle (hes _ List.mem_cons_self)
    rcases World.exec_redis hexec with ⟨text, -, hr, -⟩ | ⟨-, hr, -⟩
    · cases hr
    · obtain ⟨e, he, -, rfl⟩ := Expiring.get_eq_some.mp (Except.ok.inj hr).symm
      exact hshown.cachedClient e he
  | stored miss row uris ttl filled hmiss =>
    obtain ⟨w, w', ch, hshown, hexec⟩ :=
      h.told hle (hes _ (List.mem_cons_of_mem _ List.mem_cons_self))
    obtain ⟨-, -, ⟨e, hr⟩ | hr⟩ := World.exec_query hexec
    · cases hr
    · obtain ⟨hmem, hid⟩ := Table.mem_of_find? (Except.ok.inj hr).symm
      exact hshown.client row hmem (beq_iff_eq.mp hid)

/-- The session that is found is the one that is shown. -/
theorem Stretch.session (h : Stretch env R v req w₀ c₀ c) (hle : c₀.threads.length ≤ tid)
    {session : SessionWithUser} (hes : ∀ e ∈ es, e ∈ c.moment.own tid)
    (hfound : Returns (SessionService.findActiveSession env v.token).run es (.ok (some session))) :
    session.session.id = v.sessionId ∧ session.session.userId = v.userId := by
  rcases returns_findActiveSession hfound with ⟨snap, rfl, hmem⟩ | hmem
  · obtain ⟨w, w', ch, hshown, hexec⟩ := h.told hle (hes _ hmem)
    rcases World.exec_redis hexec with ⟨text, -, hr, -⟩ | ⟨-, hr, -⟩
    · cases hr
    · obtain ⟨e, he, -, rfl⟩ := Expiring.get_eq_some.mp (Except.ok.inj hr).symm
      exact hshown.cachedSession e he
  · obtain ⟨w, w', ch, hshown, hexec⟩ := h.told hle (hes _ hmem)
    obtain ⟨-, -, ⟨e, hr⟩ | hr⟩ := World.exec_query hexec
    · cases hr
    · obtain ⟨s, hs, hjoin⟩ := Option.bind_eq_some_iff.mp (Except.ok.inj hr).symm
      obtain ⟨u, -, rfl⟩ := Option.map_eq_some_iff.mp hjoin
      obtain ⟨hmem, htoken⟩ := Table.mem_of_find? hs
      exact hshown.session s hmem (beq_iff_eq.mp htoken)

/-- A request that has passed the checks has found the session and the client that are shown. -/
theorem Stretch.passed (h : Stretch env R v req w₀ c₀ c) {session : SessionWithUser}
    {client : Client} {method : Option String}
    (hes : ∀ e ∈ es, e ∈ c.moment.own c₀.threads.length)
    (hp : Passed env req es session client method) :
    (session.session.id = v.sessionId ∧ session.session.userId = v.userId) ∧
      client.toClientRow = v.client := by
  constructor
  · obtain ⟨token, es₁, htoken, hsub, hfound⟩ := hp.loggedIn
    cases htoken.symm.trans h.token
    exact h.session le_rfl (fun e he => hes e (hsub e he)) hfound
  · obtain ⟨es₁, hsub, hfound⟩ := hp.known
    rw [h.clientId] at hfound
    exact h.client le_rfl (fun e he => hes e (hsub e he)) hfound

end Shown

/-! ## Codes that have been stored -/

section Stored

variable {env : Env} {R : Rules} {w₀ : World} {c : State} {tid : Nat}

theorem kind_of_stores {op : Op} {r : Res op} {x : AuthorizationCode}
    (h : stores op r = some x) : op.kind = .storeCode := by
  unfold stores at h
  split at h
  · rfl
  · cases h

theorem eq_of_stores {key : String} {code x : AuthorizationCode} {ttl : Int}
    {r : Res (.redis (.authCode (.setnx key code ttl)))}
    (h : stores (.redis (.authCode (.setnx key code ttl))) r = some x) : x = code := by
  cases r with
  | error text => cases h
  | ok stored =>
    cases stored with
    | false => cases h
    | true => exact (Option.some.inj h).symm

/-- Where the replies of a request have led its program. -/
theorem leads_of_requested (run : Run (server env) R (Config.start w₀) c) {call : Call}
    (h : c.requested tid call) :
    ∃ q, Leads (handler env call).run (c.moment.own tid) q ∧
      ∀ a, c.answered tid call a → q = .pure a := by
  obtain ⟨born, p, ht⟩ := h
  refine ⟨p, (run.replayed (Config.start_replayed w₀)).2 tid _ ht, fun a ⟨born', ha⟩ => ?_⟩
  have heq := Option.some.inj (ht.symm.trans ha)
  injection heq with _ _ hp

/-- A request that stores the code of a grant stores no other one, and answers with it. -/
theorem eq_of_issued {g : AuthorizeFlow.Grant} {es es' : Replies}
    {q : Action (Except Failure AuthorizeResult)} (hr : Reached .storeCode es' q)
    (h : Leads (issueCode env g).run es' q)
    (hes : ∀ e ∈ es, e.1.kind ≠ .storeCode) :
    ∃ code at_ created,
      (∀ e ∈ es ++ es', ∀ x, stores e.1 e.2 = some x → x = g.stored code at_ created) ∧
      ∀ a, q = .pure (.ok a) → a = .success (g.location code) := by
  obtain ⟨code, at_, created, ttl, es₁, rfl, hput, hans⟩ := leads_issueCode hr h
  refine ⟨code, at_, created, fun e he x hx => ?_, hans⟩
  rcases List.mem_append.mp he with he | he
  · exact absurd (kind_of_stores hx) (hes e he)
  · simp only [List.mem_cons] at he
    rcases he with rfl | rfl | rfl | he
    · cases hx
    · cases hx
    · cases hx
    · rcases hput with ⟨rfl, -⟩ | ⟨r, rfl⟩
      · cases he
      · obtain rfl := List.mem_singleton.mp he
        exact eq_of_stores hx

end Stored

/-! ## Pending authorizations -/

section Pending

variable {env : Env} {R : Rules} {w₀ w w' : World} {c : State} {tid : Nat} {op : Op} {ch : Choice}
variable {r : Res op}

/-- The id of the pending authorization that has been taken. -/
def takes : Marking Res String
  | .redis (.pending (.getdel k)), .ok (some _) => some k
  | _, _ => none

/-- Pending authorizations are taken and changed by their own commands only. -/
theorem pending_exec (h : World.exec env tid op ch w = some (r, w')) :
    (takes op r = none ∧ w'.redis.pending = w.redis.pending) ∨
      ∃ (cmd : Kv String PendingAuthorization) (now : Int), (⟨op, r⟩ : Reply Res) =
        ⟨.redis (.pending cmd), (.ok (cmd.exec now w.redis.pending).1 : Except String cmd.Res)⟩ ∧
        w'.redis.pending = (cmd.exec now w.redis.pending).2 := by
  cases op with
  | sql s =>
    rcases World.exec_sql h with ⟨text, -, -, rfl⟩ | ⟨-, pg, -, rfl⟩
    · exact .inl ⟨rfl, rfl⟩
    · exact .inl ⟨rfl, rfl⟩
  | redis cmd =>
    rcases World.exec_redis h with ⟨text, -, rfl, rfl⟩ | ⟨-, rfl, rfl⟩
    · refine .inl ⟨?_, rfl⟩
      cases cmd with
      | pending cmd => cases cmd <;> rfl
      | session | client | authCode | userCode | device | counter => rfl
    · cases cmd with
      | pending cmd => exact .inr ⟨cmd, _, rfl, rfl⟩
      | session | client | authCode | userCode | device | counter => exact .inl ⟨rfl, rfl⟩
  | now | activeKid | salt =>
    cases h
    exact .inl ⟨rfl, rfl⟩
  | newUuid | urlSafe _ | userCode | jitteredTtl _ =>
    simp only [World.exec] at h
    split at h
    all_goals cases h
    all_goals exact .inl ⟨rfl, rfl⟩

/-- A pending authorization has been put by a request. -/
def Put (m : Instant) (j : Nat) (k : String) (p : PendingAuthorization) : Prop :=
  ∃ ttl, (⟨.redis (.pending (.setex k p ttl)), (.ok () : Except String Unit)⟩ : Reply Res) ∈
    m.own j

variable {c' : State} {k : String} {p : PendingAuthorization}

theorem Put.mono (run : Run (server env) R c c') {j : Nat} (h : Put c.moment j k p)
    : Put c'.moment j k p := by
  obtain ⟨ttl, hmem⟩ := h
  exact ⟨ttl, (run.own_mono j).subset hmem⟩

theorem authorize_of_footprint {call : Call} (h : call.footprint.contains .storePending = true) :
    ∃ req, call = .authorize req := by
  cases call with
  | authorize req => exact ⟨req, rfl⟩
  | _ => cases h

/-- A request about to put a pending authorization has passed the checks of an authorization
request, has drawn its id, and has put none before. -/
theorem put_next (run : Run (server env) R (Config.start w₀) c) {t : Thread Res World Ret}
    {ttl : Int} {next : Res (.redis (.pending (.setex k p ttl))) → Action (Ret t.call)}
    (ht : c.threads[tid]? = some t) (hp : t.prog = .call (.redis (.pending (.setex k p ttl))) next)
    :
    (∃ req es session client method at_, t.call = .authorize req ∧
      (∀ e ∈ es, e ∈ c.moment.own tid) ∧ Passed env req es session client method ∧
      p = pendingOf req session client (req.redirectUri.getD "") method k at_) ∧
    (⟨.urlSafe 24, k⟩ : Reply Res) ∈ c.moment.own tid ∧
    ∀ e ∈ c.moment.own tid, e.1.kind ≠ .storePending := by
  obtain ⟨call, born, prog⟩ := t
  obtain ⟨q, hleads⟩ := run.issues ht hp
  have hkind : Within call.footprint (.redis (.pending (.setex k p ttl))) :=
    Issues.uses (uses_program (handler_uses env call)) ⟨q, hleads⟩
  obtain ⟨req, rfl⟩ := authorize_of_footprint hkind
  have hreach : Reached .storePending (c.moment.own tid)
      (.call (.redis (.pending (.setex k p ttl))) q) := .inr ⟨_, _, rfl, rfl⟩
  obtain ⟨es₁, es₂, session, client, method, hown, hpassed, hleads, hreach⟩ :=
    leads_authorize (beyond_reached rfl) hleads hreach
  obtain ⟨es₃, es₄, rfl, hreads, hleads, hreach⟩ := leads_finish_pending hreach hleads
  obtain ⟨requestId, at_, at', ttl', es₅, rfl, ⟨rfl, k', hcall⟩ | ⟨_, _, -, hcall⟩⟩ :=
    leads_askConsent hreach hleads
  · injection hcall with hop
    injection hop with hop
    injection hop with hop
    injection hop with hk hp
    subst hk hp
    rw [hown]
    refine ⟨⟨req, es₁, session, client, method, _, rfl, fun e he => by simp [he], hpassed, rfl⟩,
      by simp, fun e he hstore => ?_⟩
    simp only [List.mem_append, List.mem_cons, List.not_mem_nil, or_false] at he
    rcases he with he | he | rfl | rfl | rfl
    · have hin := hpassed.checks e he
      rw [Within, hstore] at hin
      cases hin
    · have hin := hreads e he
      rw [Within, hstore] at hin
      cases hin
    · cases hstore
    · cases hstore
    · cases hstore
  · cases hcall

/-- A command that writes pending authorizations is a `SETEX`. -/
theorem setex_of_writes {ks : List Kind} (hks : ks.contains .unused = false)
    {cmd : Kv String PendingAuthorization} (h : Within ks (.redis (.pending cmd)))
    (hw : cmd.writes = some p) : ∃ k ttl, cmd = .setex k p ttl := by
  cases cmd with
  | setex k v ttl =>
    cases hw
    exact ⟨k, ttl, rfl⟩
  | setnx k v ttl => exact Bool.noConfusion (Eq.trans h.symm hks)
  | get | del | getdel => cases hw

/-- A stored pending authorization was there at the start or has been put by a request. -/
theorem put_of_entry (run : Run (server env) R (Config.start w₀) c) {e : Entry PendingAuthorization}
    (he : c.moment.world.redis.pending.entry k = some e) :
    (∃ e₀, w₀.redis.pending.entry k = some e₀) ∨ ∃ j, Put c.moment j k e.value := by
  refine run.invariant (J := fun c : State => ∀ k e, c.moment.world.redis.pending.entry k = some e →
    (∃ e₀, w₀.redis.pending.entry k = some e₀) ∨ ∃ j, Put c.moment j k e.value)
    (fun _ _ _ _ ih => ih) ?_ (fun k e he => .inl ⟨e, he⟩) k e he
  intro c₁ tid t op next ch r w run₁ ih ht hp ha hexec k e he
  have hstep : Run (server env) R c₁ (c₁.advance tid t op r w (next r)) :=
    .step (.refl c₁) ht hp ha hexec
  have hold : c₁.moment.world.redis.pending.entry k = some e →
      (∃ e₀, w₀.redis.pending.entry k = some e₀) ∨
        ∃ j, Put (c₁.advance tid t op r w (next r)).moment j k e.value := fun hbefore =>
    (ih k e hbefore).imp id fun ⟨j, hput⟩ => ⟨j, hput.mono hstep⟩
  have he : w.redis.pending.entry k = some e := he
  rcases pending_exec hexec with ⟨-, hsame⟩ | ⟨cmd, now, hreply, hafter⟩
  · rw [hsame] at he
    exact hold he
  · rw [hafter] at he
    rcases Kv.entry_exec he with hbefore | ⟨rfl, hwrites⟩
    · exact hold hbefore
    · have hkind : Within t.call.footprint op :=
        (run₁.issues ht hp).uses (uses_program (handler_uses env t.call))
      obtain rfl : op = .redis (.pending cmd) := congrArg Sigma.fst hreply
      obtain ⟨k, ttl, rfl⟩ := setex_of_writes (footprint_unused t.call) hkind hwrites
      refine .inr ⟨tid, ttl, ?_⟩
      change _ ∈ (c₁.moment.after tid _ r w).own tid
      rw [Moment.own_after_self, hreply]
      exact List.mem_append_right _ List.mem_cons_self

/-- Who has put a pending authorization is an authorization request that has drawn its id. -/
theorem passed_of_put (run : Run (server env) R (Config.start w₀) c) {j : Nat}
    (h : Put c.moment j k p) :
    (∃ req es session client method at_, c.requested j (.authorize req) ∧
      (∀ e ∈ es, e ∈ c.moment.own j) ∧ Passed env req es session client method ∧
      p = pendingOf req session client (req.redirectUri.getD "") method k at_) ∧
    (⟨.urlSafe 24, k⟩ : Reply Res) ∈ c.moment.own j := by
  obtain ⟨ttl, hmem⟩ := h
  obtain ⟨c₁, t, next, ch, w, run₁, ht, hp, ha, hexec, run₂⟩ := run.executed_own hmem
  have hlater : ∀ e ∈ c₁.moment.own j, e ∈ c.moment.own j := fun e he =>
    ((Run.trans (.step (.refl c₁) ht hp ha hexec) run₂).own_mono j).subset he
  obtain ⟨⟨req, es, session, client, method, at_, hcall, hes, hpassed, hpending⟩, hdrawn, -⟩ :=
    put_next run₁ ht hp
  refine ⟨⟨req, es, session, client, method, at_, ?_, fun e he => hlater e (hes e he), hpassed,
    hpending⟩, hlater _ hdrawn⟩
  refine (Run.trans (.step (.refl c₁) ht hp ha hexec) run₂).requested ?_
  obtain ⟨call, born, prog⟩ := t
  subst hcall
  exact ⟨born, prog, ht⟩

/-- An id under which a pending authorization is or was stored. -/
def Used (w₀ : World) (m : Instant) (k : String) : Prop :=
  (∃ e₀, w₀.redis.pending.entry k = some e₀) ∨ ∃ j p, Put m j k p

theorem Used.mono (run : Run (server env) R c c') (h : Used w₀ c.moment k) : Used w₀ c'.moment k :=
  h.imp id fun ⟨j, p, hput⟩ => ⟨j, p, hput.mono run⟩

/-- A pending authorization is put under an id that has not been used. -/
theorem not_used_of_next (hw : Drawn w₀) (run : Run (server env) R (Config.start w₀) c)
    {t : Thread Res World Ret} {ttl : Int}
    {next : Res (.redis (.pending (.setex k p ttl))) → Action (Ret t.call)}
    (ht : c.threads[tid]? = some t) (hp : t.prog = .call (.redis (.pending (.setex k p ttl))) next)
    :
    ¬ Used w₀ c.moment k := by
  obtain ⟨-, hdrawn, hfirst⟩ := put_next run ht hp
  rintro (⟨e₀, he₀⟩ | ⟨j, p', hput⟩)
  · have hmark : c.moment.Marked Draw.texts.mark tid k :=
      Moment.marked_iff_own.mpr ⟨_, hdrawn, rfl⟩
    exact ((Draw.fresh_of_run (d := Draw.texts) run).known tid k hmark).2 (hw k e₀ he₀)
  · obtain ⟨-, hdrawn'⟩ := passed_of_put run hput
    obtain rfl := Draw.text_once run hdrawn hdrawn'
    obtain ⟨ttl', hmem⟩ := hput
    exact hfirst _ hmem rfl

/-- What holds of the taken pending authorizations at every moment of a run. -/
structure Taken (w₀ : World) (m : Instant) : Prop where
  gone : ∀ i k, m.Marked takes i k → m.world.redis.pending.entry k = none ∧ Used w₀ m k
  once : ∀ i j k, m.Marked takes i k → m.Marked takes j k → i = j

/-- A command that takes nothing, and puts nothing back under an id that is in use. -/
theorem Taken.keep {m' : Instant} (h : Taken w₀ c.moment)
    (run : Run (server env) R c c') (hm : c'.moment = m')
    (hmarks : ∀ i k, m'.Marked takes i k → c.moment.Marked takes i k)
    (hentry : ∀ k, Used w₀ c.moment k → c.moment.world.redis.pending.entry k = none →
      m'.world.redis.pending.entry k = none) : Taken w₀ m' := by
  subst hm
  refine ⟨fun i k hi => ?_, fun i j k hi hj => h.once i j k (hmarks i k hi) (hmarks j k hj)⟩
  obtain ⟨hnone, hused⟩ := h.gone i k (hmarks i k hi)
  exact ⟨hentry k hused hnone, hused.mono run⟩

theorem taken_of_run (hw : Drawn w₀) (run : Run (server env) R (Config.start w₀) c) :
    Taken w₀ c.moment := by
  refine run.invariant (J := fun c : State => Taken w₀ c.moment) (fun _ _ _ _ ih => ih) ?_
    ⟨fun i k h => absurd h Moment.not_marked_nil, fun i j k h => absurd h Moment.not_marked_nil⟩
  intro c₁ tid t op next ch r w run₁ ih ht hp ha hexec
  have hstep : Run (server env) R c₁ (c₁.advance tid t op r w (next r)) :=
    .step (.refl c₁) ht hp ha hexec
  have hsilent : takes op r = none → ∀ i k,
      (c₁.moment.after tid op r w).Marked takes i k → c₁.moment.Marked takes i k := by
    intro hnone i k hi
    rwa [Moment.marked_after_of_none hnone] at hi
  rcases pending_exec hexec with ⟨hnone, hsame⟩ | ⟨cmd, now, hreply, hafter⟩
  · refine ih.keep hstep rfl (hsilent hnone) fun k _ hk => ?_
    change w.redis.pending.entry k = none
    rw [hsame]
    exact hk
  · have hkind : Within t.call.footprint op :=
      (run₁.issues ht hp).uses (uses_program (handler_uses env t.call))
    obtain rfl : op = .redis (.pending cmd) := congrArg Sigma.fst hreply
    cases cmd with
    | get k₀ =>
      refine ih.keep hstep rfl (hsilent rfl) fun k _ hk => ?_
      change w.redis.pending.entry k = none
      rw [hafter]
      exact hk
    | setex k₀ p ttl =>
      refine ih.keep hstep rfl (hsilent rfl) fun k hused hk => ?_
      change w.redis.pending.entry k = none
      have hne : k ≠ k₀ := by
        rintro rfl
        exact not_used_of_next hw run₁ ht hp hused
      rw [hafter, Kv.entry_exec_of_ne hne]
      exact hk
    | setnx | del => exact Bool.noConfusion (Eq.trans hkind.symm (footprint_unused t.call))
    | getdel k₀ =>
      have hr : r = .ok (c₁.moment.world.redis.pending.get now k₀) :=
        eq_of_heq (Sigma.mk.inj hreply).2
      have hgone : ∀ k, c₁.moment.world.redis.pending.entry k = none ∨ k = k₀ →
          w.redis.pending.entry k = none := by
        intro k hk
        rw [hafter, show (Kv.getdel k₀).exec now c₁.moment.world.redis.pending = (_, _) from rfl,
          Expiring.entry_erase]
        split
        · rfl
        · exact hk.resolve_right ‹_›
      cases hget : c₁.moment.world.redis.pending.get now k₀ with
      | none =>
        rw [hget] at hr
        exact ih.keep hstep rfl (hsilent (hr ▸ rfl)) fun k _ hk => hgone k (.inl hk)
      | some p =>
        obtain ⟨e, he, -, -⟩ := Expiring.get_eq_some.mp hget
        have hmark : takes (.redis (.pending (.getdel k₀))) r = some k₀ := by
          rw [hr, hget]
          rfl
        -- nobody has taken it before: it is still there
        have hfirst : ∀ i, ¬ c₁.moment.Marked takes i k₀ := by
          intro i hi
          rw [(ih.gone i k₀ hi).1] at he
          cases he
        have hcases : ∀ i k, (c₁.moment.after tid _ r w).Marked takes i k →
            (i = tid ∧ k = k₀) ∨ c₁.moment.Marked takes i k := by
          intro i k hi
          rcases hi.of_after with ⟨rfl, hnew⟩ | hold
          · exact .inl ⟨rfl, Option.some.inj (hnew.symm.trans hmark)⟩
          · exact .inr hold
        refine ⟨fun i k hi => ?_, fun i j k hi hj => ?_⟩
        · rcases hcases i k hi with ⟨-, rfl⟩ | hold
          · refine ⟨hgone k (.inr rfl), Used.mono hstep ?_⟩
            exact (put_of_entry run₁ he).imp id fun ⟨j, hput⟩ => ⟨j, _, hput⟩
          · obtain ⟨hnone, hused⟩ := ih.gone i k hold
            exact ⟨hgone k (.inl hnone), hused.mono hstep⟩
        · rcases hcases i k hi with ⟨rfl, rfl⟩ | hi'
          · rcases hcases j k hj with ⟨rfl, -⟩ | hj'
            · rfl
            · exact absurd hj' (hfirst j)
          · rcases hcases j k hj with ⟨rfl, rfl⟩ | hj'
            · exact absurd hi' (hfirst i)
            · exact ih.once i j k hi' hj'

end Pending

/-! ## Both ways -/

section Ways

variable {env : Env} {R : Rules} {w₀ : World} {c : State} {tid : Nat}

theorem reached_of_stores {x : AuthorizationCode} (h : c.moment.Marked stores tid x) {α : Type}
    {q : Action α} : Reached .storeCode (c.moment.own tid) q := by
  obtain ⟨e, he, hmark⟩ := Moment.marked_iff_own.mp h
  exact .inl ⟨e, he, kind_of_stores hmark⟩

/-- A code stored by the answer to a consent screen is that of the pending authorization which the
answer has taken. -/
theorem completed_of_stores (run : Run (server env) R (Config.start w₀) c)
    {token action : Option String} {requestId : String} {x : AuthorizationCode}
    (hreq : c.requested tid (.submitConsent token (some requestId) action))
    (hx : c.moment.Marked stores tid x) :
    ∃ es pending client code at_ created, (∀ e ∈ es, e ∈ c.moment.own tid) ∧
      Completed env requestId es pending client ∧
      (∀ x, c.moment.Marked stores tid x →
        x = (grantOfPending pending client).stored code at_ created) ∧
      ∀ a, c.answered tid (.submitConsent token (some requestId) action) (.ok a) →
        a = .redirect ((grantOfPending pending client).location code) := by
  obtain ⟨q, hleads, hanswer⟩ := leads_of_requested run hreq
  obtain ⟨es₁, es₂, pending, client, p, hown, hdone, hissue, hreach, hq⟩ :=
    leads_submit (reached_of_stores hx) hleads
  obtain ⟨code, at_, created, hcode, hloc⟩ := eq_of_issued hreach hissue fun e he hkind => by
    have hin := hdone.checks e he
    rw [Within, hkind] at hin
    cases hin
  refine ⟨es₁, pending, client, code, at_, created, fun e he => ?_, hdone, fun y hy => ?_,
    fun a ha => ?_⟩
  · rw [hown]
    exact List.mem_append_left _ he
  · obtain ⟨e, he, hmark⟩ := Moment.marked_iff_own.mp hy
    exact hcode e (hown ▸ he) y hmark
  · obtain ⟨b, hp, hredirect⟩ := hq a (hanswer _ ha)
    exact hredirect _ (hloc b hp)

/-- A code stored by an authorization request is that of the session and the client which it has
found. -/
theorem passed_of_stores (run : Run (server env) R (Config.start w₀) c) {req : AuthorizeRequest}
    {y : AuthorizationCode} (hreq : c.requested tid (.authorize req))
    (hy : c.moment.Marked stores tid y) :
    ∃ es session client method code at_ created, (∀ e ∈ es, e ∈ c.moment.own tid) ∧
      Passed env req es session client method ∧
      y = (grantOf req session client (req.redirectUri.getD "") method).stored code
        at_ created ∧
      ∀ a, c.answered tid (.authorize req) (.ok a) → a = .success (location req code) := by
  obtain ⟨q, hleads, hanswer⟩ := leads_of_requested run hreq
  obtain ⟨es₁, es₂, session, client, method, hown, hpassed, hfinish, hreach⟩ :=
    leads_authorize (beyond_reached rfl) hleads (reached_of_stores hy)
  obtain ⟨-, es₃, es₄, rfl, hconsent, hissue, hreach⟩ := leads_finish_code hreach hfinish
  have hreads :=
    (ConsentService.uses_hasConsent session.session.userId client.id req.scope).uses
  have hquiet : ∀ e ∈ es₁ ++ es₃, e.1.kind ≠ .storeCode := by
    intro e he hkind
    rcases List.mem_append.mp he with he | he
    · have hin := hpassed.checks e he
      rw [Within, hkind] at hin
      cases hin
    · have hin := (hconsent.uses hreads.run).1 e he
      rw [Within, hkind] at hin
      cases hin
  obtain ⟨code, at_, created, hcode, hloc⟩ := eq_of_issued hreach hissue hquiet
  refine ⟨es₁, session, client, method, code, at_, created, fun e he => ?_, hpassed, ?_,
    fun a ha => hloc a (hanswer _ ha)⟩
  · rw [hown]
    exact List.mem_append_left _ he
  · obtain ⟨e, he, hmark⟩ := Moment.marked_iff_own.mp hy
    rw [hown, ← List.append_assoc] at he
    exact hcode e he y hmark

/-- The method to store does not depend on the client, once the request is not refused. -/
theorem resolveMethod_eq {client client' : Client} {challenge m : Option String}
    {method method' : Option String}
    (h : resolveMethod client challenge m = .ok method)
    (h' : resolveMethod client' challenge m = .ok method') : method = method' := by
  unfold resolveMethod at h h'
  split at h
  · next hchallenge =>
    rw [if_pos hchallenge] at h'
    split at h
    · cases h
    · next text hm =>
      rw [hm] at h'
      dsimp only at h'
      split at h
      · cases h
      · next hsupported =>
        rw [if_neg hsupported] at h'
        cases h
        cases h'
        rfl
  · next hchallenge =>
    rw [if_neg hchallenge] at h'
    split at h
    · cases h
    · split at h'
      · cases h'
      · cases h
        cases h'
        rfl

end Ways

/-- The pending authorization of a request that was asked for consent is taken as the request has
put it. -/
theorem pending_of_taken {env : Env} {R : Rules} {w₀ : World} {c : State} {i j : Nat}
    {requestId : String} {req : AuthorizeRequest} {pending : PendingAuthorization} (hw : Drawn w₀)
    (run : Run (server env) R (Config.start w₀) c)
    (hasked : c.answered i (.authorize req) (.ok (.consentRequired requestId)))
    (htaken : (⟨.redis (.pending (.getdel requestId)),
      (.ok (some pending) : Except String (Option PendingAuthorization))⟩ : Reply Res) ∈
        c.moment.own j) :
    ∃ es session client method at_, (∀ e ∈ es, e ∈ c.moment.own i) ∧
      Passed env req es session client method ∧
      pending = pendingOf req session client (req.redirectUri.getD "") method
        requestId at_ := by
  -- the id was drawn by the request that was asked for consent
  have hdrew : (⟨.urlSafe 24, requestId⟩ : Reply Res) ∈ c.moment.own i :=
    announces_authorize req _ requestId ((run.replayed (Config.start_replayed w₀)).returns hasked)
  obtain ⟨c₁, t, next, ch, w, run₁, ht, hp, ha, hexec, run₂⟩ := run.executed_own htaken
  obtain ⟨e, he, rfl⟩ : ∃ e, c₁.moment.world.redis.pending.entry requestId = some e ∧
      e.value = pending := by
    have hexec : World.exec env j (.redis (.pending (.getdel requestId))) ch c₁.moment.world =
      some (.ok (some pending), w) := hexec
    rcases World.exec_redis hexec with ⟨text, -, hr, -⟩ | ⟨-, hr, -⟩
    · cases hr
    · obtain ⟨e, he, -, hvalue⟩ := Expiring.get_eq_some.mp (Except.ok.inj hr).symm
      exact ⟨e, he, hvalue⟩
  rcases put_of_entry run₁ he with ⟨e₀, he₀⟩ | ⟨k, hput⟩
  · have hmark : c.moment.Marked Draw.texts.mark i requestId :=
      Moment.marked_iff_own.mpr ⟨_, hdrew, rfl⟩
    exact absurd (hw _ e₀ he₀) ((Draw.fresh_of_run (d := Draw.texts) run).known i _ hmark).2
  · have hput := hput.mono (Run.trans (.step (.refl c₁) ht hp ha hexec) run₂)
    obtain ⟨⟨req', es, session, client, method, at_, hreq', hes, hpassed, hpending⟩, hdrew'⟩ :=
      passed_of_put run hput
    obtain rfl := Draw.text_once run hdrew hdrew'
    have hsame : Call.authorize req = Call.authorize req' := hreq'.answered hasked
    cases hsame
    exact ⟨es, session, client, method, at_, hes, hpassed, hpending⟩

/-- The detour over the consent screen changes nothing but the consent, in any interleaving of all
requests and whatever fails. -/
theorem consentDetour (env : Env) : ConsentDetour env where
  same R R' v req prompt w₀ c₀ c w₁ c₁ c' requestId token action i x y hw hs hasked hlt hreq hx hs'
      hy := by
    obtain ⟨es, pending, client, code, at_, created, hes, hdone, hcode, hanswer⟩ :=
      completed_of_stores hs.run hreq hx
    obtain rfl := hcode x hx
    obtain ⟨es', session', client', method', code', at', created', hes', hpassed', rfl, hanswer'⟩ :=
      passed_of_stores hs'.run hs'.requested hy
    obtain ⟨es₂, session₂, client₂, method₂, at₂, hes₂, hpassed₂, rfl⟩ :=
      pending_of_taken hw hs.run hasked (hes _ hdone.taken)
    obtain ⟨⟨hsid, huid⟩, hclient₂⟩ := hs.passed hes₂ hpassed₂
    obtain ⟨⟨hsid', huid'⟩, hclient'⟩ := hs'.passed hes' hpassed'
    -- the client is looked up again under its own id
    have hclient : client.toClientRow = v.client := by
      obtain ⟨es₃, hsub, hfound⟩ := hdone.known
      rw [show (pendingOf _ _ _ _ _ _ _).clientId = client₂.clientId from rfl,
        hclient₂] at hfound
      exact hs.client hlt.le (fun e he => hes e (hsub e he)) hfound
    obtain rfl : method₂ = method' := resolveMethod_eq hpassed₂.method hpassed'.method
    refine ⟨?_, hanswer, hanswer'⟩
    simp only [AuthorizeFlow.Grant.stored, AuthorizeFlow.Grant.code, grantOfPending,
      grantOf, pendingOf, hsid, huid, hsid', huid', hclient, hclient']
  once R w₀ c requestId token token' action action' i j x y hw run hi hj hx hy := by
    obtain ⟨es, pending, client, code, at_, created, hes, hdone, hcode, -⟩ :=
      completed_of_stores run hi hx
    obtain ⟨es', pending', client', code', at', created', hes', hdone', -, -⟩ :=
      completed_of_stores run hj hy
    have hij : i = j := (taken_of_run hw run).once i j requestId
      (Moment.marked_iff_own.mpr ⟨_, hes _ hdone.taken, rfl⟩)
      (Moment.marked_iff_own.mpr ⟨_, hes' _ hdone'.taken, rfl⟩)
    subst hij
    exact ⟨rfl, (hcode x hx).trans (hcode y hy).symm⟩

/-- The detour is taken: a request is asked for consent, and the answer to it stores a code. -/
example : ((Config.start (Scenario.world Scenario.tables)).play (server Scenario.env)
    ([.spawn (.authorize { Scenario.authorizeRequest with prompt := some "consent" })] ++
      List.replicate 18 (.step 0 { text := "request", number := 300 }) ++
      [.spawn (.submitConsent (some "session-a") (some "request") (some "allow"))] ++
      List.replicate 15 (.step 1 { text := "code", uuid := 9 }))).any (fun c => c.settled &&
        c.moment.trace.any fun e => e.tid == 1 && (stores e.op e.res).isSome) = true := by
  decide +kernel

end Detour

end AuthServer
