import AuthServer.Logic
import AuthServer.Oauth.Token.Exchange
import AuthServer.Scenario

/-!
# Redeeming a device code

A poll reads the hash of its device code, and writes the status back with separate
commands after it has found the status to be approved. Two polls that have both read
the approved hash both issue tokens. The code is redeemed once when each write finds
the hash present and not yet consumed, which is what a conditional write would check.
-/

namespace AuthServer

open Concurrent Handler Storage DeviceAuthorizationRepository

namespace DeviceRedemption

/-- The requests that read or write a device authorization. -/
def family : Call → Bool
  | .token req => req.grantType == some "urn:ietf:params:oauth:grant-type:device_code"
  | .verifyUserCode _ _ _ => true
  | _ => false

/-- A poll has been answered with tokens for a device code. -/
def Redeemed (c : State) (tid : Nat) (deviceCode : String) : Prop :=
  ∃ req payload, req.grantType = some "urn:ietf:params:oauth:grant-type:device_code" ∧
    req.deviceCode = some deviceCode ∧ c.answered tid (.token req) (.ok (.success payload))

/-- Each hash is stored under the device code that it holds. -/
def WellKeyed (w : World) : Prop :=
  ∀ k e, w.redis.devices.entry k = some e → e.value.get "deviceCode" = some k

/-- In the runs of a regime each device code is redeemed at most once. -/
def AtMostOnce (env : Env) (R : Rules) : Prop :=
  ∀ w, WellKeyed w → ∀ c, Run (server env) R (Config.start w) c →
    ∀ d i j, Redeemed c i d → Redeemed c j d → i = j

/-- Polls and decisions in any order. -/
def interleaved : Rules where
  admits call := family call = true

/-- The hash of a device code is there when it is looked for, and when it is written its status is
not consumed. -/
def guards (now : NaiveDateTime) (devices : Expiring String (Fields String String)) : Op → Prop
  | .redis (.device (.exists d)) => (devices.peek now d).isSome = true
  | .redis (.device (.hset d _)) => ∃ fields, devices.get now d = some fields ∧
      fields.get "status" ≠ some DeviceAuthorization.statusConsumed
  | _ => True

/-- Polls and decisions whose writes are guarded. -/
def guarded : Rules where
  admits call := family call = true
  allows m _ op ch := ch.fail = none → guards (m.world.now + ch.elapse) m.world.redis.devices op

section Proof

variable {env : Env}

/-- The device code that a command marks as consumed. -/
def consumes : Marking Res String
  | .redis (.device (.hset d fields)), .ok _ =>
    if (Fields.setAll [] fields).get "status" = some DeviceAuthorization.statusConsumed then some d
    else none
  | _, _ => none

/-- Hashes are written as a whole, under their own code. -/
def WritesWhole (env : Env) (op : Op) : Prop :=
  ∀ k fields, op = .redis (.device (.hset k fields)) → ∃ auth : DeviceAuthorization,
    k = auth.deviceCode ∧ fields = DeviceAuthorizationRepository.toFields env auth

theorem writesWhole_of_within {ks : List Kind} (hks : ks.contains .device = false) {op : Op}
    (h : Within ks op) : WritesWhole env op := by
  rintro k fields rfl
  exact absurd (h.symm.trans hks) (by decide)

theorem uses_update (auth : DeviceAuthorization) :
    (update env auth).Uses (WritesWhole env) := by
  have hexists : WritesWhole env (.redis (.device (.exists auth.deviceCode))) :=
    fun _ _ h => nomatch h
  have hset : WritesWhole env (.redis (.device (.hset auth.deviceCode
      (toFields env auth)))) := by
    intro k fields h
    cases h
    exact ⟨auth, rfl, rfl⟩
  unfold update
  refine uses_bind (uses_redis hexists) fun present => ?_
  cases present with
  | false => exact uses_pure _
  | true => exact uses_redis hset

theorem handler_token {req : TokenRequest}
    (h : req.grantType = some "urn:ietf:params:oauth:grant-type:device_code") :
    handler env (.token req) = TokenFlow.fromDeviceCode env req := by
  simp only [handler, TokenFlow.token, h, Option.getD_some]
  rfl

theorem uses_family {call : Call} (h : family call = true) :
    ((server env).program call).Uses (WritesWhole env) := by
  apply uses_program
  cases call with
  | token req =>
    rw [handler_token (beq_iff_eq.mp h)]
    exact TokenFlow.uses_poll env (fun _ => writesWhole_of_within rfl) uses_update req
  | verifyUserCode code token approve =>
    exact DeviceFlow.uses_verification env (fun _ => writesWhole_of_within rfl) uses_update
      code token approve
  | _ => cases h

/-- What holds at every moment: a consumed hash keeps its status, and only one thread has marked
it. -/
structure Kept (m : Instant) : Prop where
  keyed : WellKeyed m.world
  spent : ∀ i d, m.Marked consumes i d → ∀ e, m.world.redis.devices.entry d = some e →
    e.value.get "status" = some DeviceAuthorization.statusConsumed
  once : ∀ i j d, m.Marked consumes i d → m.Marked consumes j d → i = j

variable {m : Instant} {tid : Nat} {op : Op} {ch : Choice} {r : Res op} {w : World}

/-- A command that writes no hash keeps the invariant. -/
theorem Kept.frame (hk : Kept m) (hmark : consumes op r = none)
    (hentry : ∀ k e, w.redis.devices.entry k = some e →
      ∃ e₀, m.world.redis.devices.entry k = some e₀ ∧ e.value = e₀.value) :
    Kept (m.after tid op r w) := by
  constructor
  · intro k e he
    obtain ⟨e₀, he₀, hv⟩ := hentry k e he
    rw [hv]
    exact hk.keyed k e₀ he₀
  · intro i d hd e he
    rw [Moment.marked_after_of_none hmark] at hd
    obtain ⟨e₀, he₀, hv⟩ := hentry d e he
    rw [hv]
    exact hk.spent i d hd e₀ he₀
  · intro i j d hi hj
    rw [Moment.marked_after_of_none hmark] at hi hj
    exact hk.once i j d hi hj

/-- A guarded write keeps the invariant. -/
theorem Kept.write (hk : Kept m) {auth : DeviceAuthorization} {fields : Fields String String}
    {now : NaiveDateTime} {r : Except String Unit}
    (hlive : m.world.redis.devices.get now auth.deviceCode = some fields)
    (hstatus : fields.get "status" ≠ some DeviceAuthorization.statusConsumed)
    (hw : w.redis.devices = ((HashCmd.hset auth.deviceCode
      (toFields env auth)).exec now m.world.redis.devices).2) :
    Kept (m.after tid (.redis (.device (.hset auth.deviceCode
      (toFields env auth)))) r w) := by
  -- no thread has marked the code so far, since its hash is not consumed
  have hfresh : ∀ i, ¬ m.Marked consumes i auth.deviceCode := by
    intro i hi
    obtain ⟨e, he, -, rfl⟩ := Expiring.get_eq_some.mp hlive
    exact hstatus (hk.spent i _ hi e he)
  have hread := get_setAll_toFields env fields auth
  have hentry : ∀ k e, w.redis.devices.entry k = some e →
      (k = auth.deviceCode ∧
        e.value = fields.setAll (toFields env auth)) ∨
      (k ≠ auth.deviceCode ∧
        ∃ e₀, m.world.redis.devices.entry k = some e₀ ∧ e.value = e₀.value) := by
    intro k e he
    rw [hw] at he
    rcases HashCmd.entry_exec he with ⟨fields', hc, hv⟩ | ⟨hne, hold⟩
    · cases hc
      rw [hlive] at hv
      exact .inl ⟨rfl, hv⟩
    · refine .inr ⟨?_, hold⟩
      rintro rfl
      exact hne _ rfl
  have hmark : ∀ d, consumes (.redis (.device (.hset auth.deviceCode
      (toFields env auth)))) r = some d →
      d = auth.deviceCode ∧ auth.status = DeviceAuthorization.statusConsumed := by
    intro d hd
    cases r with
    | error text => cases hd
    | ok x =>
      simp only [consumes, (get_setAll_toFields env [] auth).2,
        Option.some.injEq, Option.ite_none_right_eq_some] at hd
      exact ⟨hd.2.symm, hd.1⟩
  constructor
  · intro k e he
    rcases hentry k e he with ⟨rfl, hv⟩ | ⟨-, e₀, he₀, hv⟩
    · rw [hv]
      exact hread.1
    · rw [hv]
      exact hk.keyed k e₀ he₀
  · intro i d hd e he
    rcases hd.of_after with ⟨-, hnew⟩ | hold
    · obtain ⟨rfl, hconsumed⟩ := hmark d hnew
      rcases hentry _ e he with ⟨-, hv⟩ | ⟨hne, -⟩
      · rw [hv, hread.2, hconsumed]
      · exact absurd rfl hne
    · rcases hentry d e he with ⟨rfl, -⟩ | ⟨-, e₀, he₀, hv⟩
      · exact absurd hold (hfresh i)
      · rw [hv]
        exact hk.spent i d hold e₀ he₀
  · intro i j d hi hj
    rcases hi.of_after with ⟨rfl, hnew⟩ | hi'
    · obtain ⟨rfl, -⟩ := hmark d hnew
      rcases hj.of_after with ⟨rfl, -⟩ | hj'
      · rfl
      · exact absurd hj' (hfresh j)
    · rcases hj.of_after with ⟨rfl, hnew⟩ | hj'
      · obtain ⟨rfl, -⟩ := hmark d hnew
        exact absurd hi' (hfresh i)
      · exact hk.once i j d hi' hj'

/-- Only a successful write leaves a mark. -/
theorem consumes_eq_none (hop : ∀ k fields, op ≠ .redis (.device (.hset k fields))) :
    consumes op r = none := by
  unfold consumes
  split
  · next d fields _ => exact absurd rfl (hop d fields)
  · rfl

/-- Every step of a guarded run keeps the invariant. -/
theorem Kept.step (hk : Kept m) (hwhole : WritesWhole env op)
    (ha : guarded.allows m tid op ch) (he : World.exec env tid op ch m.world = some (r, w)) :
    Kept (m.after tid op r w) := by
  by_cases hdevice : ∃ c, op = .redis (.device c)
  · obtain ⟨c, rfl⟩ := hdevice
    rcases World.exec_redis he with ⟨text, -, rfl, rfl⟩ | ⟨hf, rfl, rfl⟩
    · exact hk.frame (by cases c <;> rfl) fun k e hentry => ⟨e, hentry, rfl⟩
    · have hguard := ha hf
      by_cases hset : ∃ k fields, c = .hset k fields
      · obtain ⟨k, fields, rfl⟩ := hset
        obtain ⟨auth, rfl, rfl⟩ := hwhole k fields rfl
        obtain ⟨old, hlive, hstatus⟩ := hguard
        exact hk.write hlive hstatus rfl
      · -- the other commands keep the fields of every hash
        have hne : ∀ k fields, c ≠ .hset k fields := fun k fields h => hset ⟨k, fields, h⟩
        refine hk.frame (consumes_eq_none fun k fields h => ?_) fun k e hentry => ?_
        · cases h
          exact hne k fields rfl
        · rcases HashCmd.entry_exec hentry with ⟨fields, rfl, -⟩ | ⟨-, hold⟩
          · exact absurd rfl (hne k fields)
          · exact hold
  · have hop : ∀ c, op ≠ .redis (.device c) := fun c h => hdevice ⟨c, h⟩
    refine hk.frame (consumes_eq_none fun k fields => hop _) fun k e hentry => ⟨e, ?_, rfl⟩
    rw [← World.devices_exec he hop]
    exact hentry

variable {w₀ : World} {c : State} {d : String}

theorem kept_of_run (hw : WellKeyed w₀) (run : Run (server env) guarded (Config.start w₀) c)
    : Kept c.moment := by
  refine run.keeps (fun call hcall => uses_family hcall)
    (fun m tid op ch r w hk hwhole ha he => hk.step hwhole ha he) ⟨hw, ?_, ?_⟩
  · intro i d hd
    exact absurd hd Moment.not_marked_nil
  · intro i j d hi
    exact absurd hi Moment.not_marked_nil

/-- What a poll has read in a guarded run is the hash of its own device code. -/
theorem deviceCode_of_read (hw : WellKeyed w₀)
    (run : Run (server env) guarded (Config.start w₀) c)
    {fields : Fields String String} {auth : DeviceAuthorization} {tid : Nat}
    (hread : (⟨.redis (.device (.hgetall d)),
      (.ok fields : Except String (Fields String String))⟩ : Reply Res) ∈ c.moment.own tid)
    (hparsed : fromFields env fields = .ok auth) :
    auth.deviceCode = d := by
  have hcode := (readsAs_of_fromFields env hparsed).deviceCode
  obtain ⟨c₁, ch, run₁, -, -, hfields⟩ := redis_reply run hread
  have hfields : fields = (c₁.moment.world.redis.devices.get
    (c₁.moment.world.now + ch.elapse) d).getD [] := hfields
  cases hget : c₁.moment.world.redis.devices.get (c₁.moment.world.now + ch.elapse) d with
  | none =>
    rw [hfields, hget] at hcode
    cases hcode
  | some found =>
    rw [hfields, hget] at hcode
    obtain ⟨e, he, -, rfl⟩ := Expiring.get_eq_some.mp hget
    exact Option.some.inj (hcode.symm.trans ((kept_of_run hw run₁).keyed d e he))

/-- In a guarded run the hash is found whenever it is looked for. -/
theorem present_of_exists
    (run : Run (server env) guarded (Config.start w₀) c) {present : Bool} {tid : Nat}
    (hread : (⟨.redis (.device (.exists d)), (.ok present : Except String Bool)⟩ : Reply Res) ∈
      c.moment.own tid) : present = true := by
  obtain ⟨c₁, ch, -, hallows, hf, hfound⟩ := redis_reply run hread
  exact hfound.trans (hallows hf)

/-- A poll that succeeds in a guarded run has marked its device code. -/
theorem marked_of_redeemed (hw : WellKeyed w₀) (run : Run (server env) guarded (Config.start w₀) c)
    {tid : Nat} (h : Redeemed c tid d) : c.moment.Marked consumes tid d := by
  obtain ⟨req, payload, hgrant, hcode, ha⟩ := h
  cases returns_token ((run.replayed (Config.start_replayed w₀)).returns ha) with
  | code g hother => exact absurd (hother.symm.trans hgrant) (by decide)
  | refresh g hother => exact absurd (hother.symm.trans hgrant) (by decide)
  | credentials hother => exact absurd (hother.symm.trans hgrant) (by decide)
  | device g _ hes hv =>
    have hmem : ∀ e ∈ g.replies env req, e ∈ c.moment.own tid := fun e he => hes ▸ he
    have hd : g.auth.deviceCode = d := by
      refine deviceCode_of_read hw run (hmem _ ?_) hv.parsed
      rw [DeviceGrant.replies, hcode]
      simp
    have hpresent : g.present = true := by
      refine present_of_exists run (d := g.auth.deviceCode) (hmem _ ?_)
      cases hp : g.present with
      | false => simp [DeviceGrant.replies, consumedReplies, hp]
      | true => simp [DeviceGrant.replies, consumedReplies, hp]
    let auth := { g.auth with status := DeviceAuthorization.statusConsumed }
    have hset : (⟨.redis (.device (.hset auth.deviceCode
        (toFields env auth))), (.ok () : Except String Unit)⟩ :
        Reply Res) ∈ c.moment.own tid := by
      refine hmem _ ?_
      simp [DeviceGrant.replies, consumedReplies, hpresent, auth]
    obtain ⟨x, hx, htid, hreply⟩ := Moment.mem_own.mp hset
    refine ⟨x, hx, htid, ?_⟩
    obtain ⟨i, op, r⟩ := x
    cases hreply
    have hstatus := (get_setAll_toFields env [] auth).2
    exact (if_pos hstatus).trans (congrArg some hd)

end Proof

section Counterexample

open Scenario

/-- The device authorization is approved, and two polls read it before either of them writes it
back. -/
def pollTwice : List (Label Call Choice) :=
  [.spawn (decision true)] ++ steps 0 12 ++
    [.spawn (.token pollRequest), .spawn (.token pollRequest)] ++
    lookupClient 1 ++ steps 2 1 ++ steps 1 4 ++ steps 2 4 ++
    steps 1 3 ++ issueTokens 1 10 11 12 "refresh-a" ++
    steps 2 3 ++ issueTokens 2 13 14 15 "refresh-b"

/-- The tokens were issued to a poll for the device code. -/
def redeems (x : TokenRequest × TokenPayload) : Bool :=
  x.1.grantType == some "urn:ietf:params:oauth:grant-type:device_code" &&
    x.1.deviceCode == some "device-a"

theorem redeemed_of_redeems {c : State} {tid : Nat}
    (h : (issued? c tid).any redeems = true) : Redeemed c tid "device-a" := by
  obtain ⟨⟨req, payload⟩, hissued, hreq⟩ := (Option.any_eq_true _ _).mp h
  rw [redeems, Bool.and_eq_true, beq_iff_eq, beq_iff_eq] at hreq
  exact ⟨req, payload, hreq.1, hreq.2, answered_of_issued? hissued⟩

theorem deviceWorld_wellKeyed : WellKeyed deviceWorld := by
  intro k e he
  have hentry : (if k = "device-a" then some (⟨toFields deviceEnv
      deviceAuth, some (seconds 300)⟩ : Entry (Fields String String)) else none) = some e :=
    Expiring.entry_set.symm.trans he
  split at hentry
  · next hk =>
    cases hentry
    rw [hk]
    rfl
  · cases hentry

/-- Both polls are answered with tokens. -/
theorem not_at_most_once : ¬ AtMostOnce deviceEnv interleaved := by
  intro h
  have hplay : (Config.start deviceWorld : State).reaches (server deviceEnv) family succeeds
      pollTwice (fun c => (issued? c 1).any redeems && (issued? c 2).any redeems) = true := by
    decide +kernel
  obtain ⟨c, run, hc⟩ := Config.run_of_reaches (R := interleaved) (fun _ hcall => hcall)
    (fun _ _ _ _ _ => trivial) hplay
  rw [Bool.and_eq_true] at hc
  have heq := h deviceWorld deviceWorld_wellKeyed c run "device-a" 1 2
    (redeemed_of_redeems hc.1) (redeemed_of_redeems hc.2)
  exact absurd heq (by decide)

end Counterexample

/-- Guarded writes redeem a device code at most once. -/
theorem at_most_once_of_guarded (env : Env) : AtMostOnce env guarded := by
  intro w hw c run d i j hi hj
  have hkept := kept_of_run hw run
  exact hkept.once i j d (marked_of_redeemed hw run hi) (marked_of_redeemed hw run hj)

end DeviceRedemption

end AuthServer
