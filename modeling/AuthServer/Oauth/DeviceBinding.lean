import AuthServer.Client.Lookup
import AuthServer.Oauth.DeviceStatus
import AuthServer.Store.Draws

/-!
# What a device grant is bound to

The user and the session of a device grant are spread over two optional fields of a
hash, and every write merges its own fields into the stored ones. Along every run the
fields of a hash still go together: those of the request are the ones under which the
device code was stored, and the user and the session are those of one approval.
-/

namespace AuthServer

open Concurrent Handler Storage

namespace DeviceBinding

open DeviceAuthorization DeviceAuthorizationRepository

/-- The requests that create, decide and redeem device authorizations. -/
def family : Call → Bool
  | .requestDeviceAuthorization _ _ | .verifyUserCode _ _ _ => true
  | .token req => req.grantType == some "urn:ietf:params:oauth:grant-type:device_code"
  | _ => false

/-- The requests of the family in any order. -/
def interleaved : Rules where
  admits call := family call = true

/-- A device authorization request has stored an authorization. -/
structure RegisteredBy (env : Env) (c : State) (i : Nat) (clientId : String)
    (scope : Option String) (reg : DeviceAuthorization) : Prop where
  requested : c.requested i (.requestDeviceAuthorization clientId scope)
  stored : ∃ es : Replies, Registration env clientId scope es reg ∧
    es ++ [⟨.redis (.device (.hset reg.deviceCode (toFields env reg))),
      (.ok () : Except String Unit)⟩] <+: c.moment.own i

/-- A user code has been approved, with what the approval has read. -/
structure ApprovedBy (env : Env) (c : State) (i : Nat) (userCode token : String) (d : Decision) :
    Prop where
  requested : c.requested i (.verifyUserCode userCode (some token) true)
  replies : d.replies env userCode <+: c.moment.own i
  valid : d.Valid env token

/-- A successful poll is bound to one registration and one approval of its device code: it goes to
the client that has registered the code, with the scope it has asked for, and to the user and the
session of the approval, which was in time. -/
structure BoundTo (env : Env) (c : State) (req : TokenRequest) (payload : TokenPayload)
    (scope : Option String) (reg : DeviceAuthorization) (d : Decision) : Prop where
  registered : ∃ i, RegisteredBy env c i (req.clientId.getD "") scope reg
  deviceCode : reg.deviceCode = req.deviceCode.getD ""
  approved : ∃ i userCode token, ApprovedBy env c i userCode token d
  pointer : d.deviceCode = reg.deviceCode
  inTime : d.checkedAt ≤ reg.expiresAt
  binds : payload.Binds env d.session.session.userId d.session.session.id (req.clientId.getD "")
    scope none

/-- No device authorization is stored, and clients are cached under their own id. -/
structure Unused (w : World) : Prop where
  devices : ∀ d, w.redis.devices.entry d = none
  clients : ClientsKeyed w

/-- In the runs of a regime every successful poll is bound. -/
def Binding (env : Env) (R : Rules) : Prop :=
  ∀ w, Unused w → ∀ c, Run (server env) R (Config.start w) c →
    ∀ i req payload, req.grantType = some "urn:ietf:params:oauth:grant-type:device_code" →
      c.answered i (.token req) (.ok (.success payload)) →
      ∃ scope reg d, BoundTo env c req payload scope reg d

section Proof

variable {env : Env}

/-! ## What the fields of a hash say -/

/-- The user and the session of a hash are absent or those of one approval. -/
def Paired (env : Env) (c : State) (reg : DeviceAuthorization) (h : Fields String String) : Prop :=
  (h.get "userId" = none ∧ h.get "sessionId" = none) ∨
    ∃ i userCode token d, ApprovedBy env c i userCode token d ∧ d.deviceCode = reg.deviceCode ∧
      d.checkedAt ≤ reg.expiresAt ∧
      h.get "userId" = some (env.showUuid d.session.session.userId) ∧
      h.get "sessionId" = some (env.showUuid d.session.session.id)

/-- The fields of a hash are those of a registration. -/
structure Describes (env : Env) (c : State) (reg : DeviceAuthorization) (h : Fields String String) :
    Prop where
  deviceCode : h.get "deviceCode" = some reg.deviceCode
  clientId : h.get "clientId" = some reg.clientId
  scope : h.get "scope" = reg.scope
  expiresAt : h.get "expiresAt" = some (env.showDateTime reg.expiresAt)
  paired : Paired env c reg h

/-- The hash of a device code goes back to a registration of the code. -/
def Accounted (env : Env) (c : State) (deviceCode : String) (h : Fields String String) : Prop :=
  ∃ i clientId scope reg, RegisteredBy env c i clientId scope reg ∧ reg.deviceCode = deviceCode ∧
    Describes env c reg h

variable {R : Rules} {w₀ : World} {c c' : State} {deviceCode : String} {h : Fields String String}

variable {i : Nat} {clientId : String} {scope : Option String} {reg : DeviceAuthorization}
variable {tid : Nat}

theorem RegisteredBy.later (hr : RegisteredBy env c i clientId scope reg)
    (run : Run (server env) R c c') : RegisteredBy env c' i clientId scope reg := by
  obtain ⟨es, hreg, hes⟩ := hr.stored
  exact ⟨run.requested hr.requested, es, hreg, hes.trans (run.own_mono i)⟩

theorem ApprovedBy.later {userCode token : String} {d : Decision}
    (ha : ApprovedBy env c i userCode token d) (run : Run (server env) R c c') :
    ApprovedBy env c' i userCode token d :=
  ⟨run.requested ha.requested, ha.replies.trans (run.own_mono i), ha.valid⟩

theorem Paired.later (hp : Paired env c reg h) (run : Run (server env) R c c')
    : Paired env c' reg h := by
  rcases hp with hnone | ⟨i, userCode, token, d, ha, hrest⟩
  · exact .inl hnone
  · exact .inr ⟨i, userCode, token, d, ha.later run, hrest⟩

theorem Accounted.later (ha : Accounted env c deviceCode h) (run : Run (server env) R c c') :
    Accounted env c' deviceCode h := by
  obtain ⟨i, clientId, scope, reg, hr, hcode, hd⟩ := ha
  exact ⟨i, clientId, scope, reg, hr.later run, hcode,
    ⟨hd.deviceCode, hd.clientId, hd.scope, hd.expiresAt, hd.paired.later run⟩⟩

/-- A write of a hash is the last reply of one list when another list without such writes goes on with
a write. -/
theorem hset_unique {es es' : Replies} {k k' : String} {f f' : Fields String String}
    (hfirst : ∀ e ∈ es', ∀ key fields, e.1 ≠ .redis (.device (.hset key fields)))
    (hbefore : es ++ [⟨.redis (.device (.hset k f)), (.ok () : Except String Unit)⟩] <+:
      es' ++ [⟨.redis (.device (.hset k' f')), (.ok () : Except String Unit)⟩]) : f = f' := by
  rcases List.prefix_concat_iff.mp hbefore with heq | hshort
  · have hop := (List.append_inj' heq rfl).2
    cases hop
    rfl
  · have hmem := hshort.subset (List.mem_append_right es (List.mem_singleton_self _))
    exact absurd rfl (hfirst _ hmem _ _)

/-- A device code is stored by one request, once. -/
theorem RegisteredBy.unique (run : Run (server env) R (Config.start w₀) c) {i j : Nat}
    {clientId clientId' : String} {scope scope' : Option String} {reg reg' : DeviceAuthorization}
    (hr : RegisteredBy env c i clientId scope reg)
    (hr' : RegisteredBy env c j clientId' scope' reg') (hcode : reg.deviceCode = reg'.deviceCode) :
    toFields env reg = toFields env reg' := by
  obtain ⟨es, hreg, hes⟩ := hr.stored
  obtain ⟨es', hreg', hes'⟩ := hr'.stored
  have hij : i = j := by
    have hi := hes.subset (List.mem_append_left _ hreg.drawn)
    have hj := hes'.subset (List.mem_append_left _ hreg'.drawn)
    rw [← hcode] at hj
    exact Draw.text_once run hi hj
  subst hij
  rcases List.prefix_or_prefix_of_prefix hes hes' with hle | hle
  · exact hset_unique hreg'.first hle
  · exact (hset_unique hreg.first hle).symm

/-- What the fields of a registration determine. -/
theorem fields_inj (hdate : ∀ t, env.parseDateTime (env.showDateTime t) = some t)
    {reg reg' : DeviceAuthorization} (h : toFields env reg = toFields env reg') :
    reg.scope = reg'.scope ∧ reg.expiresAt = reg'.expiresAt := by
  have hscope := (get_setAll_toFields_optional env [] reg).1
  have htime := (get_setAll_toFields_required env [] reg).2
  rw [h, (get_setAll_toFields_optional env [] reg').1] at hscope
  rw [h, (get_setAll_toFields_required env [] reg').2] at htime
  constructor
  · simpa using hscope.symm
  · have hparsed := congrArg env.parseDateTime (Option.some.inj htime)
    rw [hdate, hdate] at hparsed
    exact (Option.some.inj hparsed).symm

/-! ## What is written -/

/-- The pair that a write brings along: the one that has been read, or that of an approval. -/
inductive Carries (env : Env) (c : State) (auth next : DeviceAuthorization) (deviceCode : String) : Prop
  | kept (huser : next.userId = auth.userId) (hsession : next.sessionId = auth.sessionId)
  | approved (i : Nat) (userCode token : String) (d : Decision)
      (happroved : ApprovedBy env c i userCode token d) (hcode : d.deviceCode = deviceCode)
      (hlive : d.checkedAt ≤ auth.expiresAt)
      (huser : next.userId = some d.session.session.userId)
      (hsession : next.sessionId = some d.session.session.id)

/-- What a decision or a poll writes back, compared with what it has read. -/
structure WritesBack (env : Env) (c : State) (auth next : DeviceAuthorization) (key : String) :
    Prop where
  deviceCode : next.deviceCode = auth.deviceCode
  clientId : next.clientId = auth.clientId
  scope : next.scope = auth.scope
  expiresAt : next.expiresAt = auth.expiresAt
  carries : Carries env c auth next key

/-- A pair that has been written over another pair. -/
theorem Paired.setAll (huuid : ∀ u, env.parseUuid (env.showUuid u) = some u)
    {reg auth next : DeviceAuthorization} {read old : Fields String String}
    (hparsed : ReadsAs env read auth) (hexpires : auth.expiresAt = reg.expiresAt)
    (hc : Carries env c auth next reg.deviceCode) (hread : Paired env c reg read)
    (hold : Paired env c reg old) : Paired env c reg (old.setAll (toFields env next)) := by
  obtain ⟨-, huser, hsession⟩ := get_setAll_toFields_optional env old next
  cases hc with
  | approved i userCode token d happroved hcode hlive hu hs =>
    rw [hu, Option.map_some, Option.some_or] at huser
    rw [hs, Option.map_some, Option.some_or] at hsession
    exact .inr ⟨i, userCode, token, d, happroved, hcode, hexpires ▸ hlive, huser, hsession⟩
  | kept hu hs =>
    rw [hu, ← hparsed.userId] at huser
    rw [hs, ← hparsed.sessionId] at hsession
    rcases hread with ⟨hu', hs'⟩ | ⟨i, userCode, token, d, happroved, hcode, hlive, hu', hs'⟩
    · -- nothing has been read, so the stored pair stays
      rw [hu', Option.bind_none, Option.map_none, Option.none_or] at huser
      rw [hs', Option.bind_none, Option.map_none, Option.none_or] at hsession
      unfold Paired
      rwa [huser, hsession]
    · rw [hu', Option.bind_some, huuid, Option.map_some, Option.some_or] at huser
      rw [hs', Option.bind_some, huuid, Option.map_some, Option.some_or] at hsession
      exact .inr ⟨i, userCode, token, d, happroved, hcode, hlive, huser, hsession⟩

/-- An expiry that has been read back is that of the registration. -/
theorem Describes.expiresAt_eq (hdate : ∀ t, env.parseDateTime (env.showDateTime t) = some t)
    {reg auth : DeviceAuthorization} (hd : Describes env c reg h) (hparsed : ReadsAs env h auth) :
    auth.expiresAt = reg.expiresAt := by
  have hread := hparsed.expiresAt
  rw [hd.expiresAt, Option.bind_some, hdate] at hread
  exact (Option.some.inj hread).symm

/-- A write over a hash of the same registration, or over none. -/
theorem Accounted.setAll (huuid : ∀ u, env.parseUuid (env.showUuid u) = some u)
    (hdate : ∀ t, env.parseDateTime (env.showDateTime t) = some t)
    (run : Run (server env) R (Config.start w₀) c) {auth next : DeviceAuthorization}
    {read old : Fields String String} (hread : Accounted env c deviceCode read)
    (hparsed : ReadsAs env read auth) (hnext : WritesBack env c auth next deviceCode)
    (hold : old = [] ∨ Accounted env c deviceCode old) :
    Accounted env c deviceCode (old.setAll (toFields env next)) := by
  obtain ⟨i, clientId, scope, reg, hr, rfl, hd⟩ := hread
  have hexpires := hd.expiresAt_eq hdate hparsed
  -- what is stored describes the same registration
  have hold' : (old.get "scope" = none ∨ old.get "scope" = reg.scope) ∧ Paired env c reg old := by
    rcases hold with rfl | ⟨j, clientId', scope', reg', hr', hcode, hd'⟩
    · exact ⟨.inl rfl, .inl ⟨rfl, rfl⟩⟩
    · obtain ⟨hscope, htime⟩ := fields_inj hdate (hr'.unique run hr hcode)
      refine ⟨.inr (hd'.scope.trans hscope), ?_⟩
      have hpaired := hd'.paired
      unfold Paired at hpaired
      rwa [hcode, htime] at hpaired
  obtain ⟨hscope, -, -⟩ := get_setAll_toFields_optional env old next
  obtain ⟨hclient, htime⟩ := get_setAll_toFields_required env old next
  have hsame : ∀ {a b : String} {o : Option String}, o = some a → o = some b → b = a :=
    fun h h' => Option.some.inj (h'.symm.trans h)
  refine ⟨i, clientId, scope, reg, hr, rfl, ⟨?_, ?_, ?_, ?_, ?_⟩⟩
  · rw [(get_setAll_toFields env old next).1, hnext.deviceCode]
    exact congrArg some (hsame hd.deviceCode hparsed.deviceCode)
  · rw [hclient, hnext.clientId]
    exact congrArg some (hsame hd.clientId hparsed.clientId)
  · rw [hscope, hnext.scope, ← hparsed.scope, hd.scope]
    rcases hold'.1 with hnone | hsome
    · rw [hnone, Option.or_none]
    · rw [hsome, Option.or_self]
  · rw [htime, hnext.expiresAt, hexpires]
  · exact hd.paired.setAll huuid hparsed hexpires hnext.carries hold'.2

/-- What a request of the family has done before it writes a hash. -/
inductive Writing (env : Env) (c : State) (tid : Nat) (key : String) (fields : Fields String String) :
    Prop
  | registration (clientId : String) (scope : Option String) (reg : DeviceAuthorization)
      (hrequested : c.requested tid (.requestDeviceAuthorization clientId scope))
      (hreg : Registration env clientId scope (c.moment.own tid) reg)
      (hkey : key = reg.deviceCode) (hfields : fields = toFields env reg)
  | update (d : String) (read : Fields String String) (auth next : DeviceAuthorization)
      (hread : c.moment.Marked DeviceStatus.reads tid (d, read))
      (hparsed : fromFields env read = .ok auth) (hnext : WritesBack env c auth next d)
      (hkey : key = auth.deviceCode) (hfields : fields = toFields env next)

theorem writesBack_resolve {userCode token : String} {approve : Bool} {d : Decision}
    (hrequested : c.requested tid (.verifyUserCode userCode (some token) approve))
    (hown : c.moment.own tid = d.replies env userCode) (hvalid : d.Valid env token) :
    WritesBack env c d.auth (DeviceFlow.resolve d.auth d.session approve) d.deviceCode := by
  cases approve with
  | false => exact ⟨rfl, rfl, rfl, rfl, .kept rfl rfl⟩
  | true =>
    refine ⟨rfl, rfl, rfl, rfl, .approved tid userCode token d ⟨hrequested, ?_, hvalid⟩ rfl
      hvalid.live rfl rfl⟩
    rw [hown]

theorem writing_of_issues {call : Call} {key : String} {fields : Fields String String}
    (hcall : family call = true) (hrequested : c.requested tid call)
    (hissues : Issues ((server env).program call) (c.moment.own tid)
      (.redis (.device (.hset key fields)))) : Writing env c tid key fields := by
  cases call with
  | requestDeviceAuthorization clientId scope =>
    rw [server_program, handler] at hissues
    obtain ⟨reg, hreg, hkey, hfields⟩ := issues_requestDeviceAuthorization hissues
    exact .registration clientId scope reg hrequested hreg hkey hfields
  | verifyUserCode userCode token approve =>
    rw [server_program, handler] at hissues
    obtain ⟨t, d, rfl, hown, hvalid, hkey, hfields⟩ := issues_verifyUserCode hissues
    refine .update d.deviceCode d.fields d.auth _ (DeviceStatus.marked_of_own ?_) hvalid.parsed
      (writesBack_resolve hrequested hown hvalid) hkey hfields
    rw [hown]
    simp [Decision.replies]
  | token req =>
    rw [server_program, DeviceRedemption.handler_token (beq_iff_eq.mp hcall)] at hissues
    obtain ⟨auth, hr, hkey, hfields⟩ := issues_fromDeviceCode hissues
    obtain ⟨read, hread, hparsed⟩ := hr.read
    exact .update _ read auth { auth with status := statusConsumed }
      (DeviceStatus.marked_of_own hread) hparsed ⟨rfl, rfl, rfl, rfl, .kept rfl rfl⟩ hkey hfields
  | _ => cases hcall

/-! ## Every hash goes back to a registration -/

/-- What holds in every state of a run: each hash that is stored or has been read goes back to a
registration. -/
structure Accounts (env : Env) (c : State) : Prop where
  stored : ∀ d e, c.moment.world.redis.devices.entry d = some e → Accounted env c d e.value
  read : ∀ i d read, c.moment.Marked DeviceStatus.reads i (d, read) →
    read = [] ∨ Accounted env c d read

/-- The hash of a code under which a request is about to store its authorization is not there. -/
theorem Accounts.unused (ha : Accounts env c) (run : Run (server env) R (Config.start w₀) c)
    (hreg : Registration env clientId scope (c.moment.own tid) reg) :
    c.moment.world.redis.devices.entry reg.deviceCode = none := by
  by_contra hne
  obtain ⟨e, he⟩ := Option.ne_none_iff_exists'.mp hne
  obtain ⟨i, clientId', scope', reg', hr, hcode, -⟩ := ha.stored _ e he
  obtain ⟨es, hreg', hes⟩ := hr.stored
  -- both requests have drawn the code, so they are the same, which has not written yet
  have hdrawn := hes.subset (List.mem_append_left _ hreg'.drawn)
  rw [hcode] at hdrawn
  obtain rfl := Draw.text_once run hdrawn hreg.drawn
  have hmem := hes.subset (List.mem_append_right es (List.mem_singleton_self _))
  exact hreg.first _ hmem _ _ rfl

/-- A new hash is that of its registration. -/
theorem describes_setAll (reg : DeviceAuthorization) (hunbound : reg.userId = none ∧
    reg.sessionId = none) : Describes env c reg (Fields.setAll [] (toFields env reg)) := by
  obtain ⟨hscope, huser, hsession⟩ := get_setAll_toFields_optional env [] reg
  obtain ⟨hclient, htime⟩ := get_setAll_toFields_required env [] reg
  refine ⟨(get_setAll_toFields env [] reg).1, hclient, ?_, htime, .inl ⟨?_, ?_⟩⟩
  · rw [hscope, Fields.get_nil, Option.or_none]
  · rw [huser, hunbound.1]
    rfl
  · rw [hsession, hunbound.2]
    rfl

/-- What is stored after a write goes back to a registration. -/
theorem Accounts.write (huuid : ∀ u, env.parseUuid (env.showUuid u) = some u)
    (hdate : ∀ t, env.parseDateTime (env.showDateTime t) = some t) (ha : Accounts env c)
    (run : Run (server env) R (Config.start w₀) c) (run' : Run (server env) R c c')
    {now : NaiveDateTime} {fields : Fields String String} (hw : Writing env c tid deviceCode fields)
    (hown : c'.moment.own tid = c.moment.own tid ++ [⟨.redis (.device (.hset deviceCode fields)),
      (.ok () : Except String Unit)⟩]) :
    Accounted env c' deviceCode
      (((c.moment.world.redis.devices.get now deviceCode).getD []).setAll fields) := by
  cases hw with
  | registration clientId scope reg hrequested hreg hkey hfields =>
    subst hkey hfields
    rw [Expiring.get_of_entry_none (ha.unused run hreg)]
    refine ⟨tid, clientId, scope, reg, ⟨run'.requested hrequested, c.moment.own tid, hreg, ?_⟩,
      rfl, describes_setAll reg hreg.unbound⟩
    rw [hown]
  | update d read auth next hread hparsed hnext hkey hfields =>
    have hparsed := readsAs_of_fromFields env hparsed
    rcases ha.read tid d read hread with rfl | haccounted
    · cases hparsed.deviceCode
    · obtain rfl : d = deviceCode := by
        obtain ⟨i, clientId, scope, reg, -, hcode, hd⟩ := haccounted
        rw [hkey, ← hcode]
        exact Option.some.inj (hd.deviceCode.symm.trans hparsed.deviceCode)
      subst hfields
      refine (haccounted.setAll huuid hdate run hparsed hnext ?_).later run'
      cases hget : c.moment.world.redis.devices.get now d with
      | none => exact .inl rfl
      | some old =>
        obtain ⟨e, he, -, rfl⟩ := Expiring.get_eq_some.mp hget
        exact .inr (ha.stored d e he)

theorem accounts_of_run (huuid : ∀ u, env.parseUuid (env.showUuid u) = some u)
    (hdate : ∀ t, env.parseDateTime (env.showDateTime t) = some t) (hw : Unused w₀)
    (run : Run (server env) interleaved (Config.start w₀) c) : Accounts env c := by
  refine run.invariant (J := Accounts env) ?_ ?_ ⟨fun d e he => ?_, fun i d read h => ?_⟩
  · intro c₁ call _ hcall ih
    have run₁ : Run (server env) interleaved c₁ (c₁.spawn (server env) call) := .spawn (.refl _) hcall
    exact ⟨fun d e he => (ih.stored d e he).later run₁,
      fun i d read h => (ih.read i d read h).imp_right fun hacc => hacc.later run₁⟩
  · intro c₁ tid t op k ch r w run₁ ih ht hp hallows he
    have run₂ : Run (server env) interleaved c₁ (c₁.advance tid t op r w (k r)) :=
      .step (.refl _) ht hp hallows he
    have hexec : World.exec env tid op ch c₁.moment.world = some (r, w) := he
    constructor
    · intro d e hentry
      rcases World.device_entry_exec hexec hentry with ⟨fields, hreply, hv⟩ | ⟨e₀, he₀, hv⟩
      · rw [hv]
        cases hreply
        have hlead := (run₁.replayed (Config.start_replayed w₀)).2 tid t ht
        rw [hp] at hlead
        have hwriting := writing_of_issues (run₁.admitted t (List.mem_of_getElem? ht))
          ⟨t.born, t.prog, ht⟩ ⟨k, hlead⟩
        exact ih.write huuid hdate run₁ run₂ hwriting Moment.own_after_self
      · rw [hv]
        exact (ih.stored d e₀ he₀).later run₂
    · intro i d read hmarked
      rcases hmarked.of_after with ⟨-, hnew⟩ | hold
      · rcases DeviceStatus.read_found hexec hnew with rfl | ⟨e, hentry, rfl⟩
        · exact .inl rfl
        · exact .inr ((ih.stored d e hentry).later run₂)
      · exact (ih.read i d read hold).imp_right fun hacc => hacc.later run₂
  · exact absurd (he.symm.trans (hw.devices d)) nofun
  · exact absurd h Moment.not_marked_nil

/-! ## Successful polls -/

/-- The user and the session that a poll has found are those it has looked for. -/
theorem ids_of_grant (run : Run (server env) R (Config.start w₀) c) {req : TokenRequest}
    {g : DeviceGrant} (hown : c.moment.own tid = g.replies env req) :
    g.user.id = g.userId ∧ g.session.id = g.sessionId := by
  have huser : selected (.userById g.userId) (some g.user) ∈ c.moment.own tid := by
    rw [hown]
    simp [DeviceGrant.replies]
  have hsession : selected (.sessionById g.sessionId) (some g.session) ∈ c.moment.own tid := by
    rw [hown]
    simp [DeviceGrant.replies]
  obtain ⟨c₁, -, hfind⟩ := query_reply run huser
  obtain ⟨c₂, -, hfind'⟩ := query_reply run hsession
  exact ⟨beq_iff_eq.mp (Table.mem_of_find? hfind.symm).2,
    beq_iff_eq.mp (Table.mem_of_find? hfind'.symm).2⟩

/-- What a poll has read as approved has the pair of one approval. -/
theorem Describes.approval (huuid : ∀ u, env.parseUuid (env.showUuid u) = some u)
    {reg auth : DeviceAuthorization} (hd : Describes env c reg h) (hparsed : ReadsAs env h auth)
    {userId sessionId : Uuid} (huser : auth.userId = some userId)
    (hsession : auth.sessionId = some sessionId) :
    ∃ i userCode token d, ApprovedBy env c i userCode token d ∧ d.deviceCode = reg.deviceCode ∧
      d.checkedAt ≤ reg.expiresAt ∧ d.session.session.userId = userId ∧
      d.session.session.id = sessionId := by
  have huser' := hparsed.userId.trans huser
  have hsession' := hparsed.sessionId.trans hsession
  rcases hd.paired with ⟨hnone, -⟩ | ⟨i, userCode, token, d, happroved, hcode, hlive, hu, hs⟩
  · rw [hnone] at huser'
    cases huser'
  · rw [hu, Option.bind_some, huuid] at huser'
    rw [hs, Option.bind_some, huuid] at hsession'
    exact ⟨i, userCode, token, d, happroved, hcode, hlive, Option.some.inj huser',
      Option.some.inj hsession'⟩

/-- A registration is one of the client that has asked for it. -/
theorem RegisteredBy.clientId_eq (hw : ClientsKeyed w₀)
    (run : Run (server env) R (Config.start w₀) c) (hr : RegisteredBy env c i clientId scope reg)
    : reg.clientId = clientId := by
  obtain ⟨es, hreg, hes⟩ := hr.stored
  obtain ⟨client, lookup, hfound, hlookup, -, -, hclient⟩ := hreg.client
  rw [hclient]
  exact clientId_of_found hw run hfound fun e he =>
    hes.subset (List.mem_append_left _ (hlookup e he))

end Proof

/-- Every successful poll is bound to one registration and one approval. -/
theorem bound_of_interleaved (env : Env) (huuid : ∀ u, env.parseUuid (env.showUuid u) = some u)
    (hdate : ∀ t, env.parseDateTime (env.showDateTime t) = some t) : Binding env interleaved := by
  intro w hw c run tid req payload hgrant hanswered
  have hret := (run.replayed (Config.start_replayed w)).returns hanswered
  rw [server_program, DeviceRedemption.handler_token hgrant] at hret
  obtain ⟨g, hown, hvalid⟩ := returns_fromDeviceCode hret
  have hmem : (⟨.redis (.device (.hgetall (req.deviceCode.getD ""))),
      (.ok g.fields : Except String (Fields String String))⟩ : Reply Res) ∈ c.moment.own tid := by
    rw [hown]
    simp [DeviceGrant.replies]
  have hparsed := readsAs_of_fromFields env hvalid.parsed
  rcases (accounts_of_run huuid hdate hw run).read tid _ _ (DeviceStatus.marked_of_own hmem) with
    hnil | ⟨i, clientId, scope, reg, hr, hcode, hd⟩
  · rw [hnil] at hparsed
    cases hparsed.deviceCode
  · obtain ⟨j, userCode, token, d, happroved, hpointer, hlive, hu, hs⟩ :=
      hd.approval huuid hparsed hvalid.bound.1 hvalid.bound.2
    obtain ⟨es, hreg, -⟩ := hr.stored
    have hscope : g.auth.scope = scope := (hparsed.scope.symm.trans hd.scope).trans hreg.scope
    -- the poll, the hash and the registration name the same client
    have hregistered : clientId = req.clientId.getD "" := by
      rw [← hvalid.clientId, ← hr.clientId_eq hw.clients run]
      exact Option.some.inj (hd.clientId.symm.trans hparsed.clientId)
    have hclient : g.client.clientId = req.clientId.getD "" :=
      clientId_of_found hw.clients run hvalid.client.found fun e he => by
        rw [hown]
        simp [DeviceGrant.replies, he]
    have hbinds := (returns_issue hvalid.issued).1
    obtain ⟨huserId, hsessionId⟩ := ids_of_grant run hown
    rw [huserId, hsessionId, hclient, hscope, ← hu, ← hs] at hbinds
    subst hregistered
    exact ⟨scope, reg, d, ⟨i, hr⟩, hcode, ⟨j, userCode, token, happroved⟩, hpointer, hlive, hbinds⟩

section Witness

open Scenario

/-- A device asks for a code, the user approves it, and the device polls. -/
def deviceGrant : List (Label Call Choice) :=
  [.spawn (.requestDeviceAuthorization "web-app" (some "openid"))] ++ lookupClient 0 ++ steps 0 1 ++
    [drawUuid 0 7, drawText 0 "device-a", drawText 0 "BCDF-GHJK"] ++ steps 0 4 ++
    [.spawn (decision true)] ++ steps 1 12 ++
    [.spawn (.token pollRequest)] ++ steps 2 8 ++ issueTokens 2 10 11 12 "refresh-a"

/-- The poll of that run is answered with tokens, and it is bound. -/
theorem bound_of_interleaved_deviceGrant :
    ∃ c req payload, Run (server lawfulEnv) interleaved (Config.start (world tables)) c ∧
      c.answered 2 (.token req) (.ok (.success payload)) ∧
      ∃ scope reg d, BoundTo lawfulEnv c req payload scope reg d := by
  have hplay : (Config.start (world tables) : State).reaches (server lawfulEnv) family succeeds
      deviceGrant (fun c => (issued? c 2).any DeviceRedemption.redeems) = true := by
    decide +kernel
  obtain ⟨c, run, hc⟩ := Config.run_of_reaches (R := interleaved) (fun _ hcall => hcall)
    (fun _ _ _ _ _ => trivial) hplay
  obtain ⟨⟨req, payload⟩, hissued, hreq⟩ := (Option.any_eq_true _ _).mp hc
  rw [DeviceRedemption.redeems, Bool.and_eq_true, beq_iff_eq] at hreq
  have hanswered := answered_of_issued? hissued
  have hunused : Unused (world tables) := ⟨fun _ => rfl, fun _ _ h => by cases h⟩
  exact ⟨c, req, payload, run, hanswered, bound_of_interleaved lawfulEnv lawfulEnv_parseUuid
    lawfulEnv_parseDateTime (world tables) hunused c run 2 req payload hreq.1 hanswered⟩

end Witness

end DeviceBinding

end AuthServer
