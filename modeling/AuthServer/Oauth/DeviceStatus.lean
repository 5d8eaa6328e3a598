import AuthServer.Oauth.DeviceRedemption
import AuthServer.Oauth.DeviceWrites

/-!
# The status of a device authorization

Decisions and polls read a hash, decide, and later write all its fields, whatever is
stored by then. A late decision overwrites the status another one has stored. The
status moves forward only, and the user of an approved authorization stays the same,
when each write finds the status its request has read.
-/

namespace AuthServer

open Concurrent Handler Storage

namespace DeviceStatus

open DeviceAuthorization DeviceAuthorizationRepository
open DeviceRedemption (family WellKeyed)

/-- The transitions of the status. -/
inductive Edge : String → String → Prop
  | approve : Edge statusPending statusApproved
  | deny : Edge statusPending statusDenied
  | consume : Edge statusApproved statusConsumed

theorem Edge.of_approved {s : String} (h : Edge statusApproved s) : s = statusConsumed := by
  generalize ha : statusApproved = a at h
  cases h with
  | approve => exact absurd ha (by decide)
  | deny => exact absurd ha (by decide)
  | consume => rfl

theorem not_edge_consumed {s : String} : ¬ Edge statusConsumed s := by
  intro h
  generalize ha : statusConsumed = a at h
  cases h with
  | approve => exact absurd ha (by decide)
  | deny => exact absurd ha (by decide)
  | consume => exact absurd ha (by decide)

/-- After an approval the status can only become consumed. -/
theorem consumed_of_transGen {s s' : String} (h : Relation.TransGen Edge s s')
    (hs : s = statusApproved ∨ s = statusConsumed) : s' = statusConsumed := by
  have hstep : ∀ {a b}, Edge a b → a = statusApproved ∨ a = statusConsumed → b = statusConsumed := by
    rintro a b hedge (rfl | rfl)
    · exact hedge.of_approved
    · exact absurd hedge not_edge_consumed
  induction h with
  | single hedge => exact hstep hedge hs
  | tail _ hedge ih => exact hstep hedge (.inr ih)

/-- The visible hash of a device code. -/
def hash (w : World) (deviceCode : String) : Option (Fields String String) :=
  w.redis.devices.get w.now deviceCode

/-- The user and the session that the hash is bound to. -/
def binding (env : Env) (h : Fields String String) : Option Uuid × Option Uuid :=
  ((h.get "userId").bind env.parseUuid, (h.get "sessionId").bind env.parseUuid)

/-- The authorization has been approved. -/
def Bound (h : Fields String String) : Prop :=
  h.get "status" = some statusApproved ∨ h.get "status" = some statusConsumed

/-- The status is the same or has moved along a relation, and what was approved has kept its user
and session. -/
structure Moves (env : Env) (r : String → String → Prop) (h h' : Fields String String) : Prop where
  status : h'.get "status" = h.get "status" ∨
    ∃ s s', h.get "status" = some s ∧ h'.get "status" = some s' ∧ r s s'
  bound : Bound h → binding env h' = binding env h

/-- In the runs of a regime each command moves a hash along one transition at most, and any number
of them along the transitions. -/
def OnlyForward (env : Env) (R : Rules) : Prop :=
  ∀ w, WellKeyed w → ∀ c c', Run (server env) R (Config.start w) c → Run (server env) R c c' →
    ∀ d h h', hash c.moment.world d = some h → hash c'.moment.world d = some h' →
      (c'.moment.trace.length ≤ c.moment.trace.length + 1 → Moves env Edge h h') ∧
        Moves env (Relation.TransGen Edge) h h'

/-- Polls and decisions in any order. -/
def interleaved : Rules where
  admits call := family call = true

/-- The hash that has been read under a device code. -/
def reads : Marking Res (String × Fields String String)
  | .redis (.device (.hgetall d)), .ok fields => some (d, fields)
  | _, _ => none

/-- Polls and decisions whose writes find the hash with the status that they have read. -/
def compared : Rules where
  admits call := family call = true
  allows m tid op ch := ch.fail = none → ∀ d fields, op = .redis (.device (.hset d fields)) →
    ∃ old, m.world.redis.devices.get (m.world.now + ch.elapse) d = some old ∧
      ∀ read, m.Marked reads tid (d, read) → old.get "status" = read.get "status"

section Proof

variable {env : Env}

/-- The authorization a request has read and the one it writes back. -/
structure Rewrites (env : Env) (auth next : DeviceAuthorization) : Prop where
  deviceCode : next.deviceCode = auth.deviceCode
  edge : Edge auth.status next.status
  bound : auth.status = statusApproved →
    ∃ u s, auth.userId = some u ∧ auth.sessionId = some s ∧
      next.userId = some u ∧ next.sessionId = some s

theorem rewrites_resolve {auth : DeviceAuthorization} (h : auth.status = statusPending)
    (session : SessionWithUser) (approve : Bool) :
    Rewrites env auth (DeviceFlow.resolve auth session approve) := by
  refine ⟨resolve_deviceCode auth session approve, ?_, fun h' => ?_⟩
  · rw [h]
    cases approve with
    | true => exact .approve
    | false => exact .deny
  · exact absurd (h.symm.trans h') (by decide)

/-- A write of the family rewrites an authorization that its request has read. -/
theorem rewrites_of_issues {call : Call} (hcall : family call = true) {es : Replies} {key : String}
    {fields : Fields String String}
    (h : Issues ((server env).program call) es (.redis (.device (.hset key fields)))) :
    ∃ (d : String) (read : Fields String String) (auth next : DeviceAuthorization),
      (⟨.redis (.device (.hgetall d)), (.ok read : Except String (Fields String String))⟩ :
        Reply Res) ∈ es ∧ fromFields env read = .ok auth ∧ Rewrites env auth next ∧
      key = auth.deviceCode ∧ fields = toFields env next := by
  cases call with
  | token req =>
    have hprog : handler env (.token req) = TokenFlow.fromDeviceCode env req :=
      DeviceRedemption.handler_token (beq_iff_eq.mp hcall)
    rw [server_program, hprog] at h
    obtain ⟨auth, hr, rfl, rfl⟩ := issues_fromDeviceCode h
    obtain ⟨read, hread, hparsed⟩ := hr.read
    obtain ⟨u, s, hu, hs⟩ := hr.bound
    refine ⟨_, read, auth, { auth with status := statusConsumed }, hread, hparsed,
      ⟨rfl, ?_, fun _ => ⟨u, s, hu, hs, hu, hs⟩⟩, rfl, rfl⟩
    rw [hr.approved]
    exact .consume
  | verifyUserCode code token approve =>
    rw [server_program, handler] at h
    obtain ⟨t, d, -, rfl, hvalid, rfl, rfl⟩ := issues_verifyUserCode h
    refine ⟨d.deviceCode, d.fields, d.auth, DeviceFlow.resolve d.auth d.session approve, ?_,
      hvalid.parsed, rewrites_resolve hvalid.pending d.session approve, rfl, rfl⟩
    simp [Decision.replies]
  | _ => cases hcall

theorem Moves.refl (r : String → String → Prop) (h : Fields String String) : Moves env r h h :=
  ⟨.inl rfl, fun _ => rfl⟩

/-- What is written over a hash with the status that has been read. -/
structure Overwrites (env : Env) (read old new : Fields String String) : Prop where
  moves : Moves env Edge old new
  bound : read.get "status" = some statusApproved → Bound new ∧ binding env new = binding env read
  pending : read.get "status" ≠ some statusApproved → ¬ Bound old

theorem overwrites (hlaw : ∀ u, env.parseUuid (env.showUuid u) = some u)
    {read old : Fields String String} {auth next : DeviceAuthorization}
    (hparsed : fromFields env read = .ok auth) (hr : Rewrites env auth next)
    (hstatus : old.get "status" = read.get "status")
    (hbinding : read.get "status" = some statusApproved → binding env old = binding env read) :
    Overwrites env read old (old.setAll (toFields env next)) := by
  have hread := readsAs_of_fromFields env hparsed
  obtain ⟨-, hnew⟩ := get_setAll_toFields env old next
  obtain ⟨-, huser, hsession⟩ := get_setAll_toFields_optional env old next
  have hold : old.get "status" = some auth.status := hstatus.trans hread.status
  have happroved : auth.status = statusApproved → Bound (old.setAll (toFields env next)) ∧
      binding env (old.setAll (toFields env next)) = binding env read := by
    intro h
    obtain ⟨u, s, hu, hs, hu', hs'⟩ := hr.bound h
    constructor
    · right
      rw [hnew, (h ▸ hr.edge : Edge statusApproved next.status).of_approved]
    · rw [hu'] at huser
      rw [hs'] at hsession
      simp only [binding, huser, hsession, Option.map_some, Option.some_or, Option.bind_some, hlaw,
        hread.userId, hread.sessionId, hu, hs]
  refine ⟨⟨.inr ⟨_, _, hold, hnew, hr.edge⟩, fun hbound => ?_⟩, fun h => ?_, fun h hbound => ?_⟩
  · have hauth : auth.status = statusApproved := by
      rcases hbound with hb | hb
      · exact Option.some.inj (hold.symm.trans hb)
      · exact absurd (Option.some.inj (hold.symm.trans hb) ▸ hr.edge) not_edge_consumed
    rw [(happroved hauth).2, hbinding (hread.status.trans (congrArg some hauth))]
  · exact happroved (Option.some.inj (hread.status.symm.trans h))
  · rcases hbound with hb | hb
    · exact h (hstatus.symm.trans hb)
    · exact absurd (Option.some.inj (hold.symm.trans hb) ▸ hr.edge) not_edge_consumed

/-- What holds at every moment of a compared run: a hash that has been read as approved stays bound
to the same user and session. -/
structure Kept (env : Env) (m : Instant) : Prop where
  keyed : WellKeyed m.world
  named : ∀ i d read, m.Marked reads i (d, read) →
    ∀ d', read.get "deviceCode" = some d' → d' = d
  bound : ∀ i d read, m.Marked reads i (d, read) → read.get "status" = some statusApproved →
    ∀ e, m.world.redis.devices.entry d = some e →
      Bound e.value ∧ binding env e.value = binding env read

variable {m : Instant} {tid : Nat} {op : Op} {ch : Choice} {r : Res op} {w : World}

/-- A write rewrites an authorization that the thread has read. -/
def Rewriting (env : Env) (m : Instant) (tid : Nat) (op : Op) : Prop :=
  ∀ key fields, op = .redis (.device (.hset key fields)) →
    ∃ (d : String) (read : Fields String String) (auth next : DeviceAuthorization),
      m.Marked reads tid (d, read) ∧ fromFields env read = .ok auth ∧ Rewrites env auth next ∧
        key = auth.deviceCode ∧ fields = toFields env next

/-- A command that writes no hash keeps the invariant. -/
theorem Kept.frame (hk : Kept env m)
    (hentry : ∀ k e, w.redis.devices.entry k = some e →
      ∃ e₀, m.world.redis.devices.entry k = some e₀ ∧ e.value = e₀.value)
    (hread : ∀ d read, reads op r = some (d, read) →
      read = [] ∨ ∃ e, m.world.redis.devices.entry d = some e ∧ read = e.value) :
    Kept env (m.after tid op r w) := by
  constructor
  · intro k e he
    obtain ⟨e₀, he₀, hv⟩ := hentry k e he
    rw [hv]
    exact hk.keyed k e₀ he₀
  · intro i d read hmarked d' hd'
    rcases hmarked.of_after with ⟨-, hnew⟩ | hold
    · rcases hread d read hnew with rfl | ⟨e, he, rfl⟩
      · cases hd'
      · exact Option.some.inj (hd'.symm.trans (hk.keyed d e he))
    · exact hk.named i d read hold d' hd'
  · intro i d read hmarked happroved e he
    obtain ⟨e₀, he₀, hv⟩ := hentry d e he
    rw [hv]
    rcases hmarked.of_after with ⟨-, hnew⟩ | hold
    · rcases hread d read hnew with rfl | ⟨e₁, he₁, rfl⟩
      · cases happroved
      · rw [Option.some.inj (he₀.symm.trans he₁)]
        exact ⟨.inl happroved, rfl⟩
    · exact hk.bound i d read hold happroved e₀ he₀

variable {d : String}

/-- A write that has been compared moves the hash along a transition and keeps the invariant. -/
theorem Kept.write (hlaw : ∀ u, env.parseUuid (env.showUuid u) = some u) (hk : Kept env m) {read old : Fields String String} {auth next : DeviceAuthorization} {now : Int}
    {r : Except String Unit} (hread : m.Marked reads tid (d, read))
    (hparsed : fromFields env read = .ok auth) (hr : Rewrites env auth next)
    (hlive : m.world.redis.devices.get now auth.deviceCode = some old)
    (hstatus : m.Marked reads tid (auth.deviceCode, read) → old.get "status" = read.get "status")
    (hw : w.redis.devices = ((HashCmd.hset auth.deviceCode (toFields env next)).exec now
      m.world.redis.devices).2) :
    Moves env Edge old (old.setAll (toFields env next)) ∧
      Kept env (m.after tid (.redis (.device (.hset auth.deviceCode (toFields env next)))) r w) := by
  obtain rfl : auth.deviceCode = d :=
    hk.named tid d read hread _ (readsAs_of_fromFields env hparsed).deviceCode
  obtain ⟨e, he, -, rfl⟩ := Expiring.get_eq_some.mp hlive
  have hover := overwrites hlaw hparsed hr (hstatus hread)
    fun h => (hk.bound tid _ read hread h e he).2
  refine ⟨hover.moves, ?_⟩
  have hentry : ∀ k e', w.redis.devices.entry k = some e' →
      (k = auth.deviceCode ∧ e'.value = e.value.setAll (toFields env next)) ∨
      (k ≠ auth.deviceCode ∧
        ∃ e₀, m.world.redis.devices.entry k = some e₀ ∧ e'.value = e₀.value) := by
    intro k e' he'
    rw [hw] at he'
    rcases HashCmd.entry_exec he' with ⟨fields', hc, hv⟩ | ⟨hne, hold⟩
    · cases hc
      rw [hlive] at hv
      exact .inl ⟨rfl, hv⟩
    · refine .inr ⟨?_, hold⟩
      rintro rfl
      exact hne _ rfl
  have hmarks : ∀ i x, (m.after tid (.redis (.device (.hset auth.deviceCode
      (toFields env next)))) r w).Marked reads i x ↔ m.Marked reads i x := by
    intro i x
    constructor
    · exact fun h => (h.of_after).resolve_left fun hnew => nomatch hnew.2
    · exact Moment.Marked.after
  constructor
  · intro k e' he'
    rcases hentry k e' he' with ⟨rfl, hv⟩ | ⟨-, e₀, he₀, hv⟩
    · rw [hv, (get_setAll_toFields env e.value next).1, hr.deviceCode]
    · rw [hv]
      exact hk.keyed k e₀ he₀
  · intro i d read' hmarked
    rw [hmarks] at hmarked
    exact hk.named i d read' hmarked
  · intro i d read' hmarked happroved e' he'
    rw [hmarks] at hmarked
    rcases hentry d e' he' with ⟨rfl, hv⟩ | ⟨-, e₀, he₀, hv⟩
    · rw [hv]
      -- both have read the hash as approved, so both have read the same user and session
      obtain ⟨hb, hsame⟩ := hk.bound i _ read' hmarked happroved e he
      by_cases hown : read.get "status" = some statusApproved
      · obtain ⟨hb', hsame'⟩ := hover.bound hown
        refine ⟨hb', hsame'.trans ?_⟩
        rw [← hsame, (hk.bound tid _ read hread hown e he).2]
      · exact absurd hb (hover.pending hown)
    · rw [hv]
      exact hk.bound i d read' hmarked happroved e₀ he₀

/-- What a read has found. -/
theorem read_found (he : World.exec env tid op ch m.world = some (r, w))
    {read : Fields String String} (h : reads op r = some (d, read)) :
    read = [] ∨ ∃ e, m.world.redis.devices.entry d = some e ∧ read = e.value := by
  unfold reads at h
  split at h
  · cases h
    rcases World.exec_redis he with ⟨text, -, hr, -⟩ | ⟨-, hr, -⟩
    · cases hr
    · have hread : read = (m.world.redis.devices.get (m.world.now + ch.elapse) d).getD [] :=
        Except.ok.inj hr
      cases hget : m.world.redis.devices.get (m.world.now + ch.elapse) d with
      | none => exact .inl (by rw [hread, hget]; rfl)
      | some found =>
        obtain ⟨e, he, -, rfl⟩ := Expiring.get_eq_some.mp hget
        exact .inr ⟨e, he, by rw [hread, hget]; rfl⟩
  · cases h

/-- Every step of a compared run moves each hash along one transition at most. -/
theorem Kept.step (hlaw : ∀ u, env.parseUuid (env.showUuid u) = some u) (hk : Kept env m)
    (hwrites : Rewriting env m tid op) (ha : compared.allows m tid op ch)
    (he : World.exec env tid op ch m.world = some (r, w)) :
    Kept env (m.after tid op r w) ∧
      ∀ d h', hash w d = some h' → ∃ h, hash m.world d = some h ∧ Moves env Edge h h' := by
  have hnow := World.now_exec he
  have hle : m.world.now ≤ m.world.now + ch.elapse := Int.le_add_of_nonneg_right (Int.natCast_nonneg _)
  by_cases hset : ch.fail = none ∧ ∃ key fields, op = .redis (.device (.hset key fields))
  · obtain ⟨hf, key, fields, rfl⟩ := hset
    obtain ⟨old, hlive, hstatus⟩ := ha hf key fields rfl
    obtain ⟨d, read, auth, next, hread, hparsed, hr, rfl, rfl⟩ := hwrites key fields rfl
    rcases World.exec_redis he with ⟨text, hfail, -, -⟩ | ⟨-, -, hw⟩
    · exact absurd (hf.symm.trans hfail) nofun
    have hdevices : w.redis.devices = ((HashCmd.hset auth.deviceCode (toFields env next)).exec
        (m.world.now + ch.elapse) m.world.redis.devices).2 := by
      rw [hw]
      rfl
    obtain ⟨hmoves, hkept⟩ := hk.write hlaw hread hparsed hr hlive (hstatus read) hdevices
    refine ⟨hkept, fun d' h' hh' => ?_⟩
    rw [hash, hnow, hdevices] at hh'
    rcases HashCmd.get_exec hh' with ⟨extra, hc, hv⟩ | ⟨-, hold⟩
    · cases hc
      rw [hv, hlive]
      exact ⟨old, Expiring.get_of_le hle hlive, hmoves⟩
    · exact ⟨h', Expiring.get_of_le hle hold, Moves.refl Edge h'⟩
  · -- the hashes keep their fields
    have hdevices : w.redis.devices = m.world.redis.devices ∨ ∃ cmd : HashCmd String String String,
        (∀ k extra, cmd ≠ .hset k extra) ∧
          w.redis.devices = (cmd.exec (m.world.now + ch.elapse) m.world.redis.devices).2 := by
      by_cases hop : ∃ cmd, op = .redis (.device cmd)
      · obtain ⟨cmd, rfl⟩ := hop
        rcases World.exec_redis he with ⟨text, -, -, rfl⟩ | ⟨hf, -, rfl⟩
        · exact .inl rfl
        · exact .inr ⟨cmd, fun k extra hc => hset ⟨hf, k, extra, by rw [hc]⟩, rfl⟩
      · exact .inl (World.devices_exec he fun cmd hc => hop ⟨cmd, hc⟩)
    have hsame : ∀ d h', hash w d = some h' →
        m.world.redis.devices.get (m.world.now + ch.elapse) d = some h' := by
      intro d h' hh'
      rw [hash, hnow] at hh'
      rcases hdevices with hd | ⟨cmd, hcmd, hd⟩
      · rwa [hd] at hh'
      · rw [hd] at hh'
        rcases HashCmd.get_exec hh' with ⟨extra, hc, -⟩ | ⟨-, hold⟩
        · exact absurd hc (hcmd d extra)
        · exact hold
    have hentry : ∀ k e, w.redis.devices.entry k = some e →
        ∃ e₀, m.world.redis.devices.entry k = some e₀ ∧ e.value = e₀.value := by
      intro k e hentry
      rcases hdevices with hd | ⟨cmd, hcmd, hd⟩
      · rw [hd] at hentry
        exact ⟨e, hentry, rfl⟩
      · rw [hd] at hentry
        rcases HashCmd.entry_exec hentry with ⟨extra, hc, -⟩ | ⟨-, hold⟩
        · exact absurd hc (hcmd k extra)
        · exact hold
    exact ⟨hk.frame hentry fun d read => read_found he, fun d h' hh' =>
      ⟨h', Expiring.get_of_le hle (hsame d h' hh'), Moves.refl Edge h'⟩⟩

variable {w₀ : World} {c c' : State}

theorem marked_of_own {read : Fields String String}
    (h : (⟨.redis (.device (.hgetall d)), (.ok read : Except String (Fields String String))⟩ :
      Reply Res) ∈ m.own tid) : m.Marked reads tid (d, read) := by
  obtain ⟨x, hx, htid, hreply⟩ := Moment.mem_own.mp h
  refine ⟨x, hx, htid, ?_⟩
  obtain ⟨i, op, r⟩ := x
  cases hreply
  rfl

/-- In a run of the family a thread writes what it has read. -/
theorem rewriting_of_run (run : Run (server env) compared (Config.start w₀) c)
    {t : Thread Res World Ret} {k : Res op → Prog Res (Ret t.call)}
    (ht : c.threads[tid]? = some t) (hp : t.prog = .call op k) :
    Rewriting env c.moment tid op := by
  rintro key fields rfl
  have hlead := (run.replayed (Config.start_replayed w₀)).2 tid t ht
  rw [hp] at hlead
  obtain ⟨d, read, auth, next, hread, hrest⟩ :=
    rewrites_of_issues (run.admitted t (List.mem_of_getElem? ht)) ⟨k, hlead⟩
  exact ⟨d, read, auth, next, marked_of_own hread, hrest⟩

theorem kept_of_run (hlaw : ∀ u, env.parseUuid (env.showUuid u) = some u) (hw : WellKeyed w₀)
    (run : Run (server env) compared (Config.start w₀) c) : Kept env c.moment := by
  refine run.invariant (J := fun c => Kept env c.moment) (fun _ _ _ _ ih => ih) ?_ ⟨hw, ?_, ?_⟩
  · intro c₁ tid t op k ch r w run₁ hk ht hp ha he
    exact (hk.step hlaw (rewriting_of_run run₁ ht hp) ha he).1
  · exact fun i d read h => absurd h Moment.not_marked_nil
  · exact fun i d read h => absurd h Moment.not_marked_nil

theorem Moves.trans {h₁ h₂ h₃ : Fields String String}
    (h₁₂ : Moves env (Relation.TransGen Edge) h₁ h₂) (h₂₃ : Moves env Edge h₂ h₃) :
    Moves env (Relation.TransGen Edge) h₁ h₃ := by
  constructor
  · rcases h₁₂.status with heq | ⟨s, s', hs, hs', hpath⟩
    · rcases h₂₃.status with heq' | ⟨t, t', ht, ht', hedge⟩
      · exact .inl (heq'.trans heq)
      · exact .inr ⟨t, t', heq.symm.trans ht, ht', .single hedge⟩
    · rcases h₂₃.status with heq' | ⟨t, t', ht, ht', hedge⟩
      · exact .inr ⟨s, s', hs, heq'.trans hs', hpath⟩
      · cases hs'.symm.trans ht
        exact .inr ⟨s, t', hs, ht', hpath.tail hedge⟩
  · intro hbound
    have hbound₂ : Bound h₂ := by
      rcases h₁₂.status with heq | ⟨s, s', hs, hs', hpath⟩
      · exact hbound.imp heq.trans heq.trans
      · refine .inr (hs'.trans (congrArg some (consumed_of_transGen hpath ?_)))
        exact hbound.imp (fun h => Option.some.inj (hs.symm.trans h))
          fun h => Option.some.inj (hs.symm.trans h)
    exact (h₂₃.bound hbound₂).trans (h₁₂.bound hbound)

/-- From a moment on, each hash that is visible was visible then, and has moved along the
transitions; while one command has been executed, along one at most. -/
structure Since (env : Env) (c c' : State) : Prop where
  start : c'.moment.trace.length = c.moment.trace.length → c'.moment.world = c.moment.world
  one : c'.moment.trace.length ≤ c.moment.trace.length + 1 → ∀ d h',
    hash c'.moment.world d = some h' → ∃ h, hash c.moment.world d = some h ∧ Moves env Edge h h'
  all : ∀ d h', hash c'.moment.world d = some h' →
    ∃ h, hash c.moment.world d = some h ∧ Moves env (Relation.TransGen Edge) h h'
  later : c.moment.trace.length ≤ c'.moment.trace.length

theorem since_of_run (hlaw : ∀ u, env.parseUuid (env.showUuid u) = some u) (hw : WellKeyed w₀)
    (run : Run (server env) compared (Config.start w₀) c)
    (run' : Run (server env) compared c c') : Since env c c' := by
  refine run'.invariant (J := Since env c) (fun _ _ _ _ ih => ⟨ih.1, ih.2, ih.3, ih.4⟩) ?_
    ⟨fun _ => rfl, fun _ d h' hh' => ⟨h', hh', .refl _ h'⟩, fun d h' hh' => ⟨h', hh', .refl _ h'⟩,
      le_rfl⟩
  intro c₁ tid t op k ch r w run₁ ih ht hp ha he
  have hrun := run.trans run₁
  have hstep := ((kept_of_run hlaw hw hrun).step hlaw (rewriting_of_run hrun ht hp) ha he).2
  have hlen : (c₁.advance tid t op r w (k r)).moment.trace.length =
      c₁.moment.trace.length + 1 := rfl
  have hlater := ih.later
  refine ⟨fun h => ?_, fun h d h' hh' => ?_, fun d h' hh' => ?_, ?_⟩
  · omega
  · have hworld : c₁.moment.world = c.moment.world := ih.start (by omega)
    rw [← hworld]
    exact hstep d h' hh'
  · obtain ⟨h₁, hh₁, hmoves⟩ := hstep d h' hh'
    obtain ⟨h, hh, hpath⟩ := ih.all d h₁ hh₁
    exact ⟨h, hh, hpath.trans hmoves⟩
  · omega

end Proof

section Counterexample

open Scenario

/-- Two decisions have read the pending authorization, and one of them has approved it. -/
def approveFirst : List (Label Call Choice) :=
  [.spawn (decision true), .spawn (decision false)] ++ steps 0 10 ++ steps 1 7 ++ steps 0 2

/-- The stored status of the device authorization. -/
def hasStatus (status : String) (c : State) : Bool :=
  (hash c.moment.world "device-a").any fun h => h.get "status" == some status

/-- The other decision then denies it. -/
theorem not_only_forward : ¬ OnlyForward deviceEnv interleaved := by
  intro hforward
  have hplay : (Config.start deviceWorld : State).reaches (server deviceEnv) family succeeds
      approveFirst (fun c => hasStatus statusApproved c &&
        c.reaches (server deviceEnv) family succeeds (steps 1 2) (hasStatus statusDenied)) =
      true := by
    decide +kernel
  have hrun : ∀ {c : State} {ls test}, c.reaches (server deviceEnv) family succeeds ls test =
      true → ∃ c', Run (server deviceEnv) interleaved c c' ∧ test c' = true :=
    Config.run_of_reaches (fun _ h => h) fun _ _ _ _ _ => trivial
  obtain ⟨c, run, hc⟩ := hrun hplay
  obtain ⟨happroved, hc⟩ := Bool.and_eq_true_iff.mp hc
  obtain ⟨c', run', hdenied⟩ := hrun hc
  obtain ⟨h, hh, hs⟩ := (Option.any_eq_true _ _).mp happroved
  obtain ⟨h', hh', hs'⟩ := (Option.any_eq_true _ _).mp hdenied
  have hmoves := (hforward deviceWorld DeviceRedemption.deviceWorld_wellKeyed c c' run run' _ h h'
    hh hh').2
  rw [beq_iff_eq] at hs hs'
  rcases hmoves.status with heq | ⟨s, s', h₁, h₂, hpath⟩
  · rw [hs, hs'] at heq
    exact absurd heq (by decide)
  · cases hs.symm.trans h₁
    cases hs'.symm.trans h₂
    exact absurd (consumed_of_transGen hpath (.inl rfl)) (by decide)

end Counterexample

/-- When each write finds the status its request has read, the status only moves forward. -/
theorem only_forward_of_compared (env : Env)
    (hlaw : ∀ u, env.parseUuid (env.showUuid u) = some u) : OnlyForward env compared := by
  intro w hw c c' run run' d h h' hh hh'
  have hsince := since_of_run hlaw hw run run'
  constructor
  · intro hlen
    obtain ⟨h₀, hh₀, hmoves⟩ := hsince.one hlen d h' hh'
    cases hh₀.symm.trans hh
    exact hmoves
  · obtain ⟨h₀, hh₀, hmoves⟩ := hsince.all d h' hh'
    cases hh₀.symm.trans hh
    exact hmoves

/-- The law of the texts holds in the environment of the schedules. -/
theorem only_forward_lawfulEnv : OnlyForward Scenario.lawfulEnv compared :=
  only_forward_of_compared Scenario.lawfulEnv Scenario.lawfulEnv_parseUuid

end DeviceStatus

end AuthServer
