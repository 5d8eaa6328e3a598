import AuthServer.Oauth.Token.Exchange

/-!
# What a device request has read before it writes

Every `HSET` of a device authorization writes the fields of a whole authorization. It
is the one the request has read before, with a decision or a redemption entered into
it, or the new one of a device authorization request.
-/

namespace AuthServer

open Concurrent Handler Storage DeviceAuthorizationRepository Issues

section Writes

variable {env : Env} {es : Replies} {key : String} {fields : Fields String String}

/-- What a decision on a user code has read. -/
structure Decision where
  session : SessionWithUser
  deviceCode : String
  fields : Fields String String
  auth : DeviceAuthorization
  checkedAt : NaiveDateTime
  lookup : Replies

namespace Decision

def replies (d : Decision) (env : Env) (userCode : String) : Replies :=
  d.lookup ++
    [⟨.redis (.userCode (.get
        (DeviceAuthorizationRepository.normalizeUserCode env (Text.trim userCode)))),
        (.ok (some d.deviceCode) : Except String (Option String))⟩,
      ⟨.redis (.device (.hgetall d.deviceCode)),
        (.ok d.fields : Except String (Fields String String))⟩,
      ⟨.now, d.checkedAt⟩,
      ⟨.redis (.device (.exists d.auth.deviceCode)), (.ok true : Except String Bool)⟩]

/-- The checks of a decision: the session is active, and the authorization is pending and has not
expired. -/
structure Valid (d : Decision) (env : Env) (token : String) : Prop where
  active : Returns (SessionService.findActiveSession env token).run d.lookup (.ok (some d.session))
  parsed : DeviceAuthorizationRepository.fromFields env d.fields = .ok d.auth
  live : d.checkedAt ≤ d.auth.expiresAt
  pending : d.auth.status = DeviceAuthorization.statusPending

end Decision

theorem resolve_deviceCode (auth : DeviceAuthorization) (session : SessionWithUser) (approve : Bool) :
    (DeviceFlow.resolve auth session approve).deviceCode = auth.deviceCode := by
  cases approve <;> rfl

variable {auth : DeviceAuthorization}

theorem issues_update
    (h : Issues (update env auth).run es
      (.redis (.device (.hset key fields)))) :
    es = [⟨.redis (.device (.exists auth.deviceCode)), (.ok true : Except String Bool)⟩] ∧
      key = auth.deviceCode ∧ fields = toFields env auth := by
  unfold update at h
  obtain ⟨es₁, es₂, present, rfl, hexists, h₁⟩ :=
    (uses_redis rfl : (redis (.device (.exists auth.deviceCode))).Uses (Within [.read])).skip rfl h
  rw [returns_redis hexists]
  cases present with
  | false => exact absurd h₁ not_pure
  | true =>
    obtain ⟨k, hlead⟩ := h₁
    cases hlead with
    | refl => exact ⟨rfl, rfl, rfl⟩
    | @call _ _ r _ _ tail =>
      cases r with
      | error e => cases tail
      | ok x => cases tail

theorem returns_findByUserCode {userCode : String}
    (h : Returns (findByUserCode env userCode).run es
      (.ok (some auth))) :
    ∃ (deviceCode : String) (fields : Fields String String),
      es = [⟨.redis (.userCode (.get (normalizeUserCode env userCode))),
          (.ok (some deviceCode) : Except String (Option String))⟩,
        ⟨.redis (.device (.hgetall deviceCode)),
          (.ok fields : Except String (Fields String String))⟩] ∧
      fromFields env fields = .ok auth := by
  unfold findByUserCode at h
  split at h
  · cases h.ret.2
  obtain ⟨es₁, es₂, ptr, rfl, hget, h₁⟩ := h.seq
  rw [returns_redis hget]
  split at h₁
  · cases h₁.ret.2
  next deviceCode hptr =>
    obtain ⟨fields, rfl, hparsed⟩ := returns_findByDeviceCode h₁
    obtain rfl := (Option.filter_eq_some_iff.mp hptr).1
    exact ⟨deviceCode, fields, rfl, hparsed⟩

/-- A decision writes back the pending authorization it has read. -/
theorem issues_verifyUserCode {userCode : String} {token : Option String} {approve : Bool}
    (h : Issues (DeviceFlow.verifyUserCode env userCode token approve).run es
      (.redis (.device (.hset key fields)))) :
    ∃ (t : String) (d : Decision), token = some t ∧ es = d.replies env userCode ∧ d.Valid env t ∧
      key = d.auth.deviceCode ∧ fields = toFields env
        (DeviceFlow.resolve d.auth d.session approve) := by
  unfold DeviceFlow.verifyUserCode at h
  split at h
  · exact absurd h not_pure
  cases token with
  | none => exact absurd h not_pure
  | some t =>
    dsimp only at h
    obtain ⟨lookup, es₂, found, rfl, hfound, h₁⟩ :=
      (SessionService.uses_findActiveSession env t).uses.skip rfl h
    split at h₁
    · exact absurd h₁ not_pure
    next session =>
      obtain ⟨es₃, es₄, found, rfl, hauth, h₂⟩ :=
        (uses_findByUserCode env _).uses.skip rfl h₁
      split at h₂
      · exact absurd h₂ not_pure
      next auth =>
        obtain ⟨deviceCode, read, rfl, hparsed⟩ := returns_findByUserCode hauth
        obtain ⟨es₅, es₆, checkedAt, rfl, hnow, h₃⟩ :=
          (uses_now rfl : now.Uses (Within [.read])).skip rfl h₂
        rw [returns_perform.mp hnow]
        split at h₃
        · exact absurd h₃ not_pure
        next hlive =>
          split at h₃
          · exact absurd h₃ not_pure
          next hpending =>
            rcases of_bindE h₃ with h₄ | ⟨es₇, es₈, x, -, -, h₄⟩
            · obtain ⟨rfl, rfl, rfl⟩ := issues_update h₄
              refine ⟨t, ⟨session, deviceCode, read, auth, checkedAt, lookup⟩, rfl, ?_,
                ⟨hfound, hparsed, not_lt.mp hlive, not_not.mp hpending⟩,
                resolve_deviceCode auth session approve, rfl⟩
              rw [resolve_deviceCode]
              rfl
            · exact absurd h₄ not_pure

/-- What a poll has read before it marks the authorization as consumed. -/
structure Redemption (env : Env) (req : TokenRequest) (es : Replies) (auth : DeviceAuthorization) :
    Prop where
  read : ∃ fields : Fields String String,
    (⟨.redis (.device (.hgetall (req.deviceCode.getD ""))),
      (.ok fields : Except String (Fields String String))⟩ : Reply Res) ∈ es ∧
    DeviceAuthorizationRepository.fromFields env fields = .ok auth
  approved : auth.status = DeviceAuthorization.statusApproved
  bound : ∃ userId sessionId, auth.userId = some userId ∧ auth.sessionId = some sessionId

/-- The transaction of a grant writes no hash. -/
theorem not_issues_grant {user : User} {client : Client} {session : UserSession}
    {scope nonce request : Option String} :
    ¬ Issues (transaction do
      let payload ← TokenIssuer.issue env user client session scope nonce request
      return .commit (TokenResult.success payload)).run es (.redis (.device (.hset key fields))) := by
  intro h
  have hbody := uses_bind (TokenIssuer.uses_issue env user client session scope nonce request).uses
    fun payload => uses_pure (TxEnd.commit (TokenResult.success payload))
  exact absurd (uses (uses_transaction (fun _ => rfl) hbody).run h) nofun

/-- A poll writes back the approved authorization it has read. -/
theorem issues_fromDeviceCode {req : TokenRequest}
    (h : Issues (TokenFlow.fromDeviceCode env req).run es (.redis (.device (.hset key fields)))) :
    ∃ auth, Redemption env req es auth ∧ key = auth.deviceCode ∧
      fields = toFields env
        { auth with status := DeviceAuthorization.statusConsumed } := by
  unfold TokenFlow.fromDeviceCode at h
  dsimp only at h
  split at h
  · exact absurd h not_pure
  obtain ⟨lookup, es₂, found, rfl, -, h₁⟩ := (TokenFlow.uses_requireClient env _ _).uses.skip rfl h
  split at h₁
  · exact absurd h₁ not_pure
  next client =>
    obtain ⟨es₃, es₄, found, rfl, hauth, h₂⟩ :=
      (uses_findByDeviceCode env _).uses.skip rfl h₁
    split at h₂
    · exact absurd h₂ not_pure
    next auth =>
      obtain ⟨read, rfl, hparsed⟩ := returns_findByDeviceCode hauth
      split at h₂
      · exact absurd h₂ not_pure
      obtain ⟨es₅, es₆, checkedAt, rfl, -, h₃⟩ :=
        (uses_now rfl : now.Uses (Within [.read])).skip rfl h₂
      split at h₃
      · exact absurd h₃ not_pure
      split at h₃
      · exact absurd h₃ not_pure
      next hstatus =>
        split at h₃
        · next userId sessionId huserId hsessionId =>
          obtain ⟨es₇, es₈, user, rfl, -, h₄⟩ :=
            (uses_query rfl : (query (.userById userId)).Uses (Within [.read])).skip rfl h₃
          obtain ⟨es₉, es₁₀, session, rfl, -, h₅⟩ :=
            (uses_query rfl : (query (.sessionById sessionId)).Uses (Within [.read])).skip rfl h₄
          split at h₅
          · rcases of_bindE h₅ with h₆ | ⟨es₁₁, es₁₂, x, -, -, h₆⟩
            · obtain ⟨rfl, rfl, rfl⟩ := issues_update h₆
              refine ⟨auth, ⟨⟨read, ?_, hparsed⟩, approved_of_deviceStatusError hstatus,
                userId, sessionId, huserId, hsessionId⟩, rfl, rfl⟩
              simp
            · exact absurd h₆ not_issues_grant
          · exact absurd h₅ not_pure
        · exact absurd h₃ not_pure

/-- What a device authorization request has read before it stores the authorization. -/
structure Registration (env : Env) (clientId : String) (scope : Option String) (es : Replies)
    (auth : DeviceAuthorization) : Prop where
  client : ∃ (client : Client) (lookup : Replies), ClientFound env clientId lookup client ∧
    (∀ e ∈ lookup, e ∈ es) ∧ client.enabled = true ∧
    Scopes.isSubsetOf scope client.scopes = true ∧ auth.clientId = client.clientId
  drawn : (⟨.urlSafe 32, auth.deviceCode⟩ : Reply Res) ∈ es
  scope : auth.scope = scope
  expiry : ∃ at_ : NaiveDateTime, (⟨.now, at_⟩ : Reply Res) ∈ es ∧
    auth.expiresAt = at_ + seconds DeviceFlow.deviceCodeTtlSeconds
  pending : auth.status = DeviceAuthorization.statusPending
  unbound : auth.userId = none ∧ auth.sessionId = none
  first : ∀ e ∈ es, ∀ key fields, e.1 ≠ .redis (.device (.hset key fields))

/-- The replies of a footprint that writes no hash. -/
theorem no_hset_of_returns {α : Type} {h : Handler α} {ks : List Kind} {x : α}
    (hu : h.Uses (Within ks)) (hks : ks.contains .device = false) (hr : Returns h.run es (.ok x)) :
    ∀ e ∈ es, ∀ key fields, e.1 ≠ .redis (.device (.hset key fields)) := by
  intro e he key fields heq
  have hw := (Leads.uses hu.run hr).1 e he
  rw [heq] at hw
  exact absurd (hw.symm.trans hks) (by decide)

theorem issues_persist
    (h : Issues (persist env auth).run es
      (.redis (.device (.hset key fields)))) :
    key = auth.deviceCode ∧ fields = toFields env auth ∧
      ∀ e ∈ es, ∀ key fields, e.1 ≠ .redis (.device (.hset key fields)) := by
  unfold persist at h
  obtain ⟨es₁, es₂, at_, rfl, hnow, h₁⟩ := (uses_now rfl : now.Uses (Within [.read])).skip rfl h
  rw [returns_perform.mp hnow]
  dsimp only at h₁
  split at h₁
  · exact absurd h₁ not_pure
  rcases of_bindE h₁ with h₂ | ⟨es₃, es₄, claimed, rfl, hclaim, h₂⟩
  · obtain ⟨k, hlead⟩ := h₂
    cases hlead with
    | @call _ _ r _ _ tail =>
      cases r with
      | error e => cases tail
      | ok x => cases tail
  rw [returns_redis hclaim]
  cases claimed with
  | false => exact absurd h₂ not_pure
  | true =>
    obtain ⟨k, hlead⟩ := h₂
    cases hlead with
    | refl =>
      refine ⟨rfl, rfl, fun e he => ?_⟩
      simp only [List.singleton_append, List.append_nil, List.mem_cons, List.not_mem_nil,
        or_false] at he
      rcases he with rfl | rfl
      · exact fun _ _ => nofun
      · exact fun _ _ => nofun
    | @call _ _ r _ _ tail =>
      cases r with
      | error e => cases tail
      | ok x =>
        cases tail with
        | @call _ _ r _ _ tail =>
          cases r with
          | error e => cases tail
          | ok y => cases tail

/-- A collision is reported before the hash is written. -/
theorem returns_persist_false
    (h : Returns (persist env auth).run es (.ok false)) :
    ∀ e ∈ es, ∀ key fields, e.1 ≠ .redis (.device (.hset key fields)) := by
  unfold persist at h
  obtain ⟨es₁, es₂, at_, rfl, hnow, h₁⟩ := h.seq
  rw [returns_perform.mp hnow]
  dsimp only at h₁
  split at h₁
  · obtain ⟨rfl, -⟩ := h₁.ret
    intro e he
    rw [List.append_nil, List.mem_singleton] at he
    subst he
    exact fun _ _ => nofun
  obtain ⟨es₃, es₄, claimed, rfl, hclaim, h₂⟩ := h₁.seq
  rw [returns_redis hclaim]
  cases claimed with
  | false =>
    obtain ⟨rfl, -⟩ := h₂.ret
    intro e he
    simp only [List.singleton_append, List.append_nil, List.mem_cons, List.not_mem_nil,
      or_false] at he
    rcases he with rfl | rfl
    · exact fun _ _ => nofun
    · exact fun _ _ => nofun
  | true =>
    obtain ⟨es₅, es₆, _, rfl, -, h₃⟩ := h₂.seq
    obtain ⟨es₇, es₈, _, rfl, -, h₄⟩ := h₃.seq
    cases h₄.ret.2

theorem issues_allocate {retries : Nat}
    (h : Issues (DeviceFlow.allocate env auth retries).run es (.redis (.device (.hset key fields))))
    :
    ∃ userCode, key = auth.deviceCode ∧
      fields = toFields env { auth with userCode } ∧
      ∀ e ∈ es, ∀ key fields, e.1 ≠ .redis (.device (.hset key fields)) := by
  induction retries generalizing auth es with
  | zero => exact absurd h not_pure
  | succ retries ih =>
    unfold DeviceFlow.allocate at h
    have hdraw : (perform .userCode).Uses (Within [.read]) := uses_perform rfl
    obtain ⟨es₁, es₂, userCode, rfl, hcode, h₁⟩ := hdraw.skip rfl h
    have hfirst := no_hset_of_returns hdraw rfl hcode
    dsimp only at h₁
    rcases of_bindE h₁ with h₂ | ⟨es₃, es₄, stored, rfl, hstored, h₂⟩
    · obtain ⟨rfl, rfl, hrest⟩ := issues_persist h₂
      exact ⟨userCode, rfl, rfl, fun e he => (List.mem_append.mp he).elim (hfirst e) (hrest e)⟩
    · split at h₂
      · exact absurd h₂ not_pure
      · next hfalse =>
        obtain ⟨userCode', rfl, rfl, hrest⟩ := ih h₂
        obtain rfl := Bool.eq_false_iff.mpr hfalse
        have hclaim := returns_persist_false hstored
        refine ⟨userCode', rfl, rfl, fun e he => ?_⟩
        rcases List.mem_append.mp he with he | he
        · exact hfirst e he
        · exact (List.mem_append.mp he).elim (hclaim e) (hrest e)

/-- A device authorization request stores the authorization of its client and its scope. -/
theorem issues_requestDeviceAuthorization {clientId : String} {scope : Option String}
    (h : Issues (DeviceFlow.requestDeviceAuthorization env clientId scope).run es
      (.redis (.device (.hset key fields)))) :
    ∃ auth, Registration env clientId scope es auth ∧ key = auth.deviceCode ∧
      fields = toFields env auth := by
  unfold DeviceFlow.requestDeviceAuthorization at h
  split at h
  · exact absurd h not_pure
  obtain ⟨lookup, es₂, found, rfl, hfound, h₁⟩ :=
    (ClientRepository.uses_findByClientId env clientId).uses.skip rfl h
  split at h₁
  · exact absurd h₁ not_pure
  next client hclient =>
    obtain ⟨rfl, henabled⟩ := Option.filter_eq_some_iff.mp hclient
    split at h₁
    · exact absurd h₁ not_pure
    next hscope =>
      obtain ⟨es₃, es₄, at_, rfl, hnow, h₂⟩ :=
        (uses_now rfl : now.Uses (Within [.read])).skip rfl h₁
      obtain ⟨es₅, es₆, id, rfl, hid, h₃⟩ :=
        (uses_newUuid rfl : newUuid.Uses (Within [.read])).skip rfl h₂
      obtain ⟨es₇, es₈, deviceCode, rfl, hdraw, h₄⟩ :=
        (uses_perform rfl : (urlSafe 32).Uses (Within [.read])).skip rfl h₃
      dsimp only at h₄
      rcases of_bindE h₄ with h₅ | ⟨es₉, es₁₀, stored, -, -, h₅⟩
      · obtain ⟨userCode, rfl, rfl, hrest⟩ := issues_allocate h₅
        have hfirst := no_hset_of_returns (ClientRepository.uses_findByClientId env clientId).uses rfl
          hfound
        rw [returns_perform.mp hnow, returns_perform.mp hid, returns_perform.mp hdraw]
        refine ⟨_, ⟨⟨client, lookup, returns_findByClientId hfound, ?_, henabled, ?_, rfl⟩, ?_, rfl,
          ⟨at_, ?_, rfl⟩, rfl, ⟨rfl, rfl⟩, ?_⟩, rfl, rfl⟩
        · exact fun e he => List.mem_append_left _ he
        · simpa using hscope
        · simp
        · simp
        · intro e he
          simp only [List.mem_append, List.mem_singleton] at he
          rcases he with he | rfl | rfl | rfl | he
          · exact hfirst e he
          · exact fun _ _ => by rintro ⟨⟩
          · exact fun _ _ => by rintro ⟨⟩
          · exact fun _ _ => by rintro ⟨⟩
          · exact hrest e he
      · split at h₅
        · exact absurd h₅ not_pure
        · exact absurd h₅ not_pure

end Writes

end AuthServer
