import AuthServer.Alone
import AuthServer.Concurrent.Serial
import AuthServer.Replies

/-!
# How codes and pending authorizations come about

What a request has been told by the stores when it stores a pending authorization or a code. An
authorization request has passed the checks of the session, the client, the redirect URI, the
scope and PKCE; the answer to a consent screen has taken a pending authorization and looked the
client up again. Both then store the code of a grant.
-/

namespace AuthServer

open Concurrent Handler AuthorizeFlow ClientRepository PendingAuthorizationStore

namespace AuthorizeFlow

/-- The record that is stored for a grant. -/
def Grant.stored (g : Grant) (code : String) (at_ created : NaiveDateTime) : AuthorizationCode :=
  { g.code code (at_ + seconds (authCodeTtlMinutes * 60)) with createdAt := some created }

/-- Where the code of a grant is sent to. -/
def Grant.location (g : Grant) (code : String) : String :=
  buildRedirect g.redirectUri [("code", code), ("state", g.state.getD "")]

/-- The pending authorization of a request. -/
def pendingOf (req : AuthorizeRequest) (session : SessionWithUser) (client : Client)
    (uri : String) (method : Option String) (requestId : String) (expiresAt : NaiveDateTime) :
    PendingAuthorization where
  requestId := requestId
  sessionId := session.session.id
  userId := session.session.userId
  clientId := client.clientId
  redirectUri := uri
  responseType := "code"
  scope := req.scope
  state := req.state
  nonce := req.nonce
  prompt := req.prompt
  maxAge := req.maxAge
  codeChallenge := req.codeChallenge
  codeChallengeMethod := method
  claimsRequested := req.claimsJson
  expiresAt := expiresAt

/-- The end of a request whose user has to be asked for consent. -/
def askConsent (env : Env) (req : AuthorizeRequest) (session : SessionWithUser)
    (client : Client) (redirectUri : String) (resolvedMethod : Option String) :
    Handler AuthorizeResult := do
  if (parsePrompt req.prompt).contains "none" then
    return errorRedirect redirectUri req.state "consent_required"
      "Consent is required but prompt=none was specified"
  let requestId ← urlSafe 24
  let at_ ← now
  PendingAuthorizationStore.put env (pendingOf req session client redirectUri resolvedMethod requestId
    (at_ + seconds (consentRequestTtlMinutes * 60)))
  return .consentRequired requestId

/-- The grant of a request whose user has consented before. -/
def grantOf (req : AuthorizeRequest) (session : SessionWithUser)
    (client : Client) (redirectUri : String) (resolvedMethod : Option String) : Grant :=
  { sessionId := session.session.id, userId := session.session.userId
    clientId := client.clientId, redirectUri, scope := req.scope, state := req.state
    nonce := req.nonce, codeChallenge := req.codeChallenge
    codeChallengeMethod := resolvedMethod, claimsRequested := req.claimsJson }

/-- The grant of a pending authorization. -/
def grantOfPending (pending : PendingAuthorization) (client : Client) : Grant :=
  { sessionId := pending.sessionId, userId := pending.userId
    clientId := client.clientId, redirectUri := pending.redirectUri
    scope := pending.scope, state := pending.state, nonce := pending.nonce
    codeChallenge := pending.codeChallenge
    codeChallengeMethod := pending.codeChallengeMethod
    claimsRequested := pending.claimsRequested }

end AuthorizeFlow

section Issuance

variable {env : Env} {es : Replies} {kind : Kind}

theorem finish_eq (req : AuthorizeRequest) (session : SessionWithUser) (client : Client)
    (redirectUri : String) (method : Option String) :
    finish env req session client redirectUri method =
      if (parsePrompt req.prompt).contains "consent" then
        askConsent env req session client redirectUri method
      else ConsentService.hasConsent session.session.userId client.id req.scope >>= fun consented =>
        if consented then
          issueCode env
            (grantOf req session client redirectUri method)
        else askConsent env req session client redirectUri method := by
  unfold finish
  dsimp only
  split
  · rfl
  · congr 1
    funext consented
    cases consented with
    | true => rfl
    | false => rfl

/-- The kinds of commands that the checks of an authorization request issue. -/
def checkingKinds : List Kind := [.read, .fill, .touch]

/-- What an authorization request was told before it asked for consent: a session, an enabled
client, and that the redirect URI is registered for the client. -/
structure Passed (env : Env) (req : AuthorizeRequest) (es : Replies) (session : SessionWithUser)
    (client : Client) (method : Option String) : Prop where
  loggedIn : ∃ token es₁, req.sessionToken = some token ∧ (∀ e ∈ es₁, e ∈ es) ∧
    Returns (SessionService.findActiveSession env token).run es₁ (.ok (some session))
  known : ∃ es₁, (∀ e ∈ es₁, e ∈ es) ∧
    ClientFound env (Text.trim (req.clientId.getD "")) es₁ client
  enabled : client.enabled = true
  registered : ∃ count, 0 < count ∧ (⟨.sql (.query (.redirectUriCount client.id
    (req.redirectUri.getD ""))), (.ok count : Except DbError Nat)⟩ : Reply Res) ∈ es
  scopes : Scopes.isSubsetOf req.scope client.scopes = true
  method : AuthorizeFlow.resolveMethod client req.codeChallenge req.codeChallengeMethod = .ok method
  checks : ∀ e ∈ es, Within checkingKinds e.1

theorem returns_isRedirectUriAllowed {id : Uuid} {uri : String}
    (h : Returns (isRedirectUriAllowed id uri).run es (.ok true)) :
    ∃ count : Nat, 0 < count ∧ es = [⟨.sql (.query (.redirectUriCount id uri)),
      (.ok count : Except DbError Nat)⟩] := by
  unfold isRedirectUriAllowed at h
  obtain ⟨es₁, es₂, count, rfl, hquery, hret⟩ := h.seq
  obtain ⟨rfl, hpos⟩ := hret.ret
  refine ⟨count, of_decide_eq_true hpos.symm, ?_⟩
  rw [returns_sql hquery]
  rfl

section Authorize

variable {req : AuthorizeRequest} {session : SessionWithUser} {client : Client} {uri : String}
variable {method : Option String} {q : Action (Except Failure AuthorizeResult)}

/-- The answers of the checks: to a request that is not usable, to one without a usable session, and
to one that its client may not make. -/
inductive Refused (req : AuthorizeRequest) : AuthorizeResult → Prop
  | request (e desc : String) (he : e ≠ "invalid_session") : Refused req (.error e desc)
  | login (desc : String) :
      Refused req (AuthorizeFlow.loginError (AuthorizeFlow.parsePrompt req.prompt) desc)
  | client (e desc : String) (he : e ≠ "invalid_session") :
      Refused req (AuthorizeFlow.errorRedirect (req.redirectUri.getD "") req.state e desc)

/-- A stage of an authorization request that lies behind its checks: it is neither inside them nor
at one of their answers. -/
structure Beyond (req : AuthorizeRequest)
    (P : Replies → Action (Except Failure AuthorizeResult) → Prop) : Prop where
  call : ∀ {es op k}, (∀ e ∈ es, Within checkingKinds e.1) → Within checkingKinds op →
    ¬ P es (.call op k)
  failed : ∀ {es e}, (∀ e ∈ es, Within checkingKinds e.1) → ¬ P es (.pure (.error e))
  refused : ∀ {r}, Refused req r → ¬ P [] (.pure (.ok r))
  tail : ∀ {es es' q}, (∀ e ∈ es, Within checkingKinds e.1) → P (es ++ es') q → P es' q

/-- A kind of command that none of the checks issues lies behind them. -/
theorem beyond_reached (hk : checkingKinds.contains kind = false) : Beyond req (Reached kind) where
  call hes hop := by
    rintro (⟨e, he, rfl⟩ | ⟨op, k, hq, rfl⟩)
    · exact Bool.noConfusion ((hes e he).symm.trans hk)
    · cases hq
      exact Bool.noConfusion (hop.symm.trans hk)
  failed hes := by
    rintro (⟨e, he, rfl⟩ | ⟨op, k, hq, -⟩)
    · exact Bool.noConfusion ((hes e he).symm.trans hk)
    · cases hq
  refused _ := by
    rintro (⟨e, he, -⟩ | ⟨op, k, hq, -⟩)
    · cases he
    · cases hq
  tail hes hr := by
    refine hr.imp_left ?_
    rintro ⟨e, he, rfl⟩
    refine ⟨e, (List.mem_append.mp he).resolve_left fun he => ?_, rfl⟩
    exact Bool.noConfusion ((hes e he).symm.trans hk)

/-- So does every answer that is not a refusal. -/
theorem beyond_answered :
    Beyond req fun _ q => ∃ r, q = .pure (.ok r) ∧ ¬ Refused req r where
  call _ _ h := by
    obtain ⟨r, hq, -⟩ := h
    cases hq
  failed _ h := by
    obtain ⟨r, hq, -⟩ := h
    cases hq
  refused hr h := by
    obtain ⟨r, hq, hnot⟩ := h
    cases hq
    exact hnot hr
  tail _ h := h

section Beyond

variable {P : Replies → Action (Except Failure AuthorizeResult) → Prop}

theorem Beyond.pass {β : Type} {h : Handler β} {f : β → Handler AuthorizeResult}
    (hP : Beyond req P) (hu : h.Uses (Within checkingKinds)) (hl : Leads (h >>= f).run es q)
    (hq : P es q) :
    ∃ es₁ es₂ a, es = es₁ ++ es₂ ∧ Returns h.run es₁ (.ok a) ∧ Leads (f a).run es₂ q ∧ P es₂ q := by
  rcases hl.of_bindE with ⟨op, k, hp, k', rfl⟩ | ⟨e, hp, rfl⟩ | ⟨es₁, es₂, a, rfl, hp, hl⟩
  · exact absurd hq (hP.call (hp.uses hu.run).1 (hp.uses hu.run).2.1)
  · exact absurd hq (hP.failed (hp.uses hu.run).1)
  · exact ⟨es₁, es₂, a, rfl, hp, hl, hP.tail (hp.uses hu.run).1 hq⟩

theorem Beyond.not_refused {r : AuthorizeResult} (hP : Beyond req P) (hr : Refused req r)
    (hl : Leads (pure r : Handler AuthorizeResult).run es q) : ¬ P es q := by
  obtain ⟨rfl, rfl⟩ := Leads.pure_iff.mp hl
  exact hP.refused hr

theorem resolveMethod_error {e desc : String} {challenge challengeMethod : Option String}
    (h : resolveMethod client challenge challengeMethod = .error (e, desc)) :
    e = "invalid_request" := by
  unfold resolveMethod at h
  repeat' split at h
  all_goals cases h <;> rfl

/-- A stage behind the checks is reached after all of them have passed. -/
theorem leads_authorize (hP : Beyond req P)
    (h : Leads (authorize env req).run es q) (hr : P es q) :
    ∃ es₁ es₂ session client method, es = es₁ ++ es₂ ∧ Passed env req es₁ session client method ∧
      Leads (finish env req session client (req.redirectUri.getD "") method).run es₂
        q ∧ P es₂ q := by
  have hclock : now.Uses (Within checkingKinds) := uses_now rfl
  have hsession : ∀ token, (SessionService.findActiveSession env token).Uses (Within checkingKinds) :=
    fun token => (SessionService.uses_findActiveSession env token).sub rfl
  have hclient : ∀ id, (findByClientId env id).Uses (Within checkingKinds) :=
    fun id => (uses_findByClientId env id).sub rfl
  have huri : ∀ id uri, (isRedirectUriAllowed id uri).Uses (Within checkingKinds) :=
    fun id uri => (uses_isRedirectUriAllowed id uri).sub rfl
  unfold authorize at h
  split at h
  · exact absurd hr (hP.not_refused (.request _ _ (by decide)) h)
  dsimp only at h
  split at h
  · exact absurd hr (hP.not_refused (.request _ _ (by decide)) h)
  split at h
  · next token htoken =>
    obtain ⟨es₁, es₂, found, rfl, hfound, h, hr⟩ := hP.pass (hsession token) h hr
    obtain ⟨es₃, es₄, at_, rfl, hnow, h, hr⟩ := hP.pass hclock h hr
    rcases found with _ | session
    · exact absurd hr (hP.not_refused (.login _) h)
    dsimp only at h
    split at h
    · exact absurd hr (hP.not_refused (.login _) h)
    split at h
    · exact absurd hr (hP.not_refused (.login _) h)
    obtain ⟨es₅, es₆, looked, rfl, hlooked, h, hr⟩ := hP.pass (hclient _) h hr
    split at h
    · exact absurd hr (hP.not_refused (.request _ _ (by decide)) h)
    next client hfilter =>
    obtain ⟨rfl, henabled⟩ := Option.filter_eq_some_iff.mp hfilter
    obtain ⟨es₇, es₈, allowed, rfl, hallowed, h, hr⟩ := hP.pass (huri _ _) h hr
    split at h
    · exact absurd hr (hP.not_refused (.request _ _ (by decide)) h)
    next hallow =>
    obtain rfl : allowed = true := by simpa using hallow
    split at h
    · exact absurd hr (hP.not_refused (.client _ _ (by decide)) h)
    next hscope =>
    split at h
    · next e desc hmethod =>
      obtain rfl := resolveMethod_error hmethod
      exact absurd hr (hP.not_refused (.client _ _ (by decide)) h)
    next method hmethod =>
    obtain ⟨count, hcount, hes⟩ := returns_isRedirectUriAllowed hallowed
    refine ⟨es₁ ++ (es₃ ++ (es₅ ++ es₇)), es₈, session, client, method, by simp, ⟨⟨token, es₁,
      htoken, fun e he => ?_, hfound⟩, ⟨es₅, fun e he => ?_, returns_findByClientId hlooked⟩,
      henabled, ⟨count, hcount, ?_⟩, by simpa using hscope, hmethod, fun e he => ?_⟩, h, hr⟩
    · simp [he]
    · simp [he]
    · simp [hes]
    · simp only [List.mem_append] at he
      rcases he with he | he | he | he
      · exact (hfound.uses (hsession _).run).1 e he
      · exact (hnow.uses hclock.run).1 e he
      · exact (hlooked.uses (hclient _).run).1 e he
      · exact (hallowed.uses (huri _ _).run).1 e he
  · rw [pure_bind] at h
    obtain ⟨es₃, es₄, at_, rfl, hnow, h, hr⟩ := hP.pass hclock h hr
    exact absurd hr (hP.not_refused (.login _) h)

end Beyond

theorem uses_askConsent (req : AuthorizeRequest) (session : SessionWithUser) (client : Client)
    (uri : String) (method : Option String) :
    (askConsent env req session client uri method).Uses
      (Within [.read, .storePending]) := by
  refine uses_ite (uses_pure _) ?_
  refine uses_bind (uses_urlSafe rfl) fun _ => uses_bind (uses_now rfl) fun _ => ?_
  exact uses_bind (uses_put env _).uses fun _ => uses_pure _

/-- A code is stored directly when consent was not asked for and has been given before. -/
theorem leads_finish_code (hr : Reached .storeCode es q)
    (h : Leads (finish env req session client uri method).run es q) :
    (parsePrompt req.prompt).contains "consent" = false ∧
      ∃ es₁ es₂, es = es₁ ++ es₂ ∧
        Returns (ConsentService.hasConsent session.session.userId client.id req.scope).run es₁
          (.ok true) ∧
        Leads (issueCode env
          (grantOf req session client uri method)).run es₂ q ∧
        Reached .storeCode es₂ q := by
  rw [finish_eq] at h
  split at h
  · exact absurd hr ((uses_askConsent req session client uri method).not_reached rfl h)
  next hprompt =>
  refine ⟨by simpa using hprompt, ?_⟩
  obtain ⟨es₁, es₂, consented, rfl, hconsent, h, hr⟩ :=
    (ConsentService.uses_hasConsent session.session.userId client.id req.scope).uses.pass rfl h hr
  cases consented with
  | true => exact ⟨es₁, es₂, rfl, hconsent, h, hr⟩
  | false => exact absurd hr ((uses_askConsent req session client uri method).not_reached rfl h)

/-- A pending authorization is stored when consent is to be asked for. -/
theorem leads_finish_pending (hr : Reached .storePending es q)
    (h : Leads (finish env req session client uri method).run es q) :
    ∃ es₁ es₂, es = es₁ ++ es₂ ∧ (∀ e ∈ es₁, Within [.read] e.1) ∧
      Leads (askConsent env req session client uri method).run es₂ q ∧
      Reached .storePending es₂ q := by
  rw [finish_eq] at h
  split at h
  · exact ⟨[], es, rfl, fun _ he => (by cases he), h, hr⟩
  have hreads :=
    (ConsentService.uses_hasConsent session.session.userId client.id req.scope).uses
  obtain ⟨es₁, es₂, consented, rfl, hconsent, h, hr⟩ := hreads.pass rfl h hr
  refine ⟨es₁, es₂, rfl, (hconsent.uses hreads.run).1, ?_⟩
  cases consented with
  | true => exact absurd hr ((uses_issueCode env _).uses.not_reached rfl h)
  | false => exact ⟨h, hr⟩

/-- What a step of a sequence has reached, its first part had reached. -/
theorem Reached.of_call {α β : Type} {op : Op} {k : Res op → Action α} {k' : Res op → Action β}
    (h : Reached kind es (.call op k')) : Reached kind es (.call op k) := by
  refine h.imp id ?_
  rintro ⟨op', _, hq, hkind⟩
  obtain ⟨rfl, -⟩ := Prog.call.inj hq
  exact ⟨op, k, rfl, hkind⟩

theorem Reached.of_pure {α β : Type} {x : α} {y : β} (h : Reached kind es (.pure y : Action β)) :
    Reached kind es (.pure x : Action α) := by
  refine h.imp id ?_
  rintro ⟨op, k, hq, -⟩
  cases hq

theorem leads_putCode {code : AuthorizationCode} {q : Action (Except Failure Unit)}
    (hr : Reached .storeCode es q) (h : Leads (AuthCodeStore.put env code).run es q) :
    ∃ (created : NaiveDateTime) (ttl : Int) (es₁ : Replies), es = ⟨.now, created⟩ :: es₁ ∧
      ((es₁ = [] ∧ ∃ k, q = .call (.redis (.authCode (.setnx (env.sha256 code.code)
          { code with createdAt := some created } ttl))) k) ∨
        ∃ r, es₁ = [⟨.redis (.authCode (.setnx (env.sha256 code.code)
          { code with createdAt := some created } ttl)), r⟩]) := by
  have hclock : now.Uses (Within [.read]) := uses_now rfl
  unfold AuthCodeStore.put at h
  obtain ⟨es₁, es₂, created, rfl, hnow, h, hr⟩ := hclock.pass rfl h hr
  dsimp only at h
  split at h
  · exact absurd hr (not_reached_pure h)
  refine ⟨created, seconds (numSeconds (code.expiresAt - created)), es₂,
    by rw [returns_perform.mp hnow]; rfl, ?_⟩
  rcases leads_redis h with hwait | ⟨text, hes, -⟩ | ⟨x, es₃, hes, h⟩
  · exact .inl hwait
  · exact .inr ⟨_, hes⟩
  · obtain ⟨rfl, -⟩ := Leads.pure_iff.mp h
    exact .inr ⟨_, hes⟩

/-- The code of a grant is stored under its hash, after it was drawn, and sent to the client. -/
theorem leads_issueCode {g : AuthorizeFlow.Grant} (hr : Reached .storeCode es q)
    (h : Leads (issueCode env g).run es q) :
    ∃ (code : String) (at_ created : NaiveDateTime) (ttl : Int) (es₁ : Replies),
      es = ⟨.urlSafe authCodeBytes, code⟩ :: ⟨.now, at_⟩ :: ⟨.now, created⟩ :: es₁ ∧
      ((es₁ = [] ∧ ∃ k, q = .call (.redis (.authCode (.setnx (env.sha256 code)
          (g.stored code at_ created) ttl))) k) ∨
        ∃ r, es₁ = [⟨.redis (.authCode (.setnx (env.sha256 code) (g.stored code at_ created) ttl)),
          r⟩]) ∧
      ∀ a, q = .pure (.ok a) → a = .success (g.location code) := by
  have hdraw : (urlSafe authCodeBytes).Uses (Within [.read]) := uses_urlSafe rfl
  have hclock : now.Uses (Within [.read]) := uses_now rfl
  unfold issueCode at h
  obtain ⟨es₁, es₂, code, rfl, hcode, h, hr⟩ := hdraw.pass rfl h hr
  obtain ⟨es₃, es₄, at_, rfl, hnow, h, hr⟩ := hclock.pass rfl h hr
  rw [returns_perform.mp hcode, returns_perform.mp hnow]
  rcases h.of_bindE with ⟨op, k, hl, k', rfl⟩ | ⟨e, hl, rfl⟩ | ⟨es₅, es₆, _, rfl, hl, h⟩
  · obtain ⟨created, ttl, es₅, rfl, hput⟩ := leads_putCode hr.of_call hl
    refine ⟨code, at_, created, ttl, es₅, rfl, hput.imp_left ?_, fun a ha => by cases ha⟩
    rintro ⟨rfl, k, hcall⟩
    obtain ⟨rfl, -⟩ := Prog.call.inj hcall
    exact ⟨rfl, k', rfl⟩
  · obtain ⟨created, ttl, es₅, rfl, hput⟩ := leads_putCode hr.of_pure hl
    refine ⟨code, at_, created, ttl, es₅, rfl, hput.imp_left ?_, fun a ha => by cases ha⟩
    rintro ⟨rfl, k, hcall⟩
    cases hcall
  · obtain ⟨rfl, rfl⟩ := Leads.pure_iff.mp h
    rw [List.append_nil] at hr ⊢
    obtain ⟨created, ttl, es₅, rfl, hput⟩ := leads_putCode hr.of_pure hl
    refine ⟨code, at_, created, ttl, es₅, rfl, hput.imp_left ?_, fun a ha => by cases ha; rfl⟩
    rintro ⟨rfl, k, hcall⟩
    cases hcall

/-! ## Pending authorizations -/

/-- A pending authorization is put under its request id after a look at the clock. -/
theorem leads_putPending {pending : PendingAuthorization} {q : Action (Except Failure Unit)}
    (hr : Reached .storePending es q)
    (h : Leads (put env pending).run es q) :
    ∃ (at_ : NaiveDateTime) (ttl : Int) (es₁ : Replies), es = ⟨.now, at_⟩ :: es₁ ∧
      ((es₁ = [] ∧ ∃ k, q = .call (.redis (.pending (.setex pending.requestId pending ttl))) k) ∨
        ∃ r y, es₁ = [⟨.redis (.pending (.setex pending.requestId pending ttl)), r⟩] ∧
          q = .pure y) := by
  have hclock : now.Uses (Within [.read]) := uses_now rfl
  have hset : ∀ {ttl : Int} {es : Replies},
      Leads (redis (.pending (.setex pending.requestId pending ttl))).run es q →
      (es = [] ∧ ∃ k, q = .call (.redis (.pending (.setex pending.requestId pending ttl))) k) ∨
        ∃ r y, es = [⟨.redis (.pending (.setex pending.requestId pending ttl)), r⟩] ∧
          q = .pure y := by
    intro ttl es h
    rw [← bind_pure (redis _)] at h
    rcases leads_redis h with hwait | ⟨text, hes, hq⟩ | ⟨x, es₃, hes, h⟩
    · exact .inl hwait
    · exact .inr ⟨_, _, hes, hq⟩
    · obtain ⟨rfl, hq⟩ := Leads.pure_iff.mp h
      exact .inr ⟨_, _, hes, hq⟩
  unfold put at h
  by_cases hid : pending.requestId = ""
  · rw [if_pos hid] at h
    exact absurd hr ((uses_throw _ : (throw _ : Handler Unit).Uses (Within [])).not_reached rfl h)
  rw [if_neg hid] at h
  obtain ⟨es₁, es₂, at_, rfl, hnow, h, hr⟩ := hclock.pass rfl h hr
  rw [returns_perform.mp hnow]
  rcases leads_ite h with h | h
  · exact ⟨at_, _, es₂, rfl, hset h⟩
  rcases leads_ite h with h | h
  · exact ⟨at_, _, es₂, rfl, hset h⟩
  · exact absurd hr (not_reached_pure h)

/-- A pending authorization is stored under the id that was drawn for it, and once. -/
theorem leads_askConsent (hr : Reached .storePending es q)
    (h : Leads (askConsent env req session client uri method).run es q) :
    ∃ (requestId : String) (at_ at' : NaiveDateTime) (ttl : Int) (es₁ : Replies),
      es = ⟨.urlSafe 24, requestId⟩ :: ⟨.now, at_⟩ :: ⟨.now, at'⟩ :: es₁ ∧
      ((es₁ = [] ∧ ∃ k, q = .call (.redis (.pending (.setex requestId
          (pendingOf req session client uri method requestId
            (at_ + seconds (consentRequestTtlMinutes * 60))) ttl))) k) ∨
        ∃ r y, es₁ = [⟨.redis (.pending (.setex requestId
          (pendingOf req session client uri method requestId
            (at_ + seconds (consentRequestTtlMinutes * 60))) ttl)), r⟩] ∧
          q = .pure y) := by
  have hdraw : (urlSafe 24).Uses (Within [.read]) := uses_urlSafe rfl
  have hclock : now.Uses (Within [.read]) := uses_now rfl
  unfold askConsent at h
  split at h
  · exact absurd hr (not_reached_pure h)
  obtain ⟨es₁, es₂, requestId, rfl, hid, h, hr⟩ := hdraw.pass rfl h hr
  obtain ⟨es₃, es₄, at_, rfl, hnow, h, hr⟩ := hclock.pass rfl h hr
  rw [returns_perform.mp hid, returns_perform.mp hnow]
  rcases h.of_bindE with ⟨op, k, hl, k', rfl⟩ | ⟨e, hl, rfl⟩ | ⟨es₅, es₆, _, rfl, hl, h⟩
  · obtain ⟨at', ttl, es₅, rfl, ⟨rfl, k, hcall⟩ | ⟨r, y, -, hcall⟩⟩ := leads_putPending hr.of_call hl
    · obtain ⟨rfl, -⟩ := Prog.call.inj hcall
      exact ⟨requestId, at_, at', ttl, [], rfl, .inl ⟨rfl, k', rfl⟩⟩
    · cases hcall
  · obtain ⟨at', ttl, es₅, rfl, ⟨-, k, hcall⟩ | ⟨r, y, hes, -⟩⟩ := leads_putPending hr.of_pure hl
    · cases hcall
    · exact ⟨requestId, at_, at', ttl, es₅, rfl, .inr ⟨r, _, hes, rfl⟩⟩
  · obtain ⟨rfl, rfl⟩ := Leads.pure_iff.mp h
    rw [List.append_nil] at hr ⊢
    obtain ⟨at', ttl, es₅, rfl, ⟨-, k, hcall⟩ | ⟨r, y, hes, -⟩⟩ := leads_putPending hr.of_pure hl
    · cases hcall
    · exact ⟨requestId, at_, at', ttl, es₅, rfl, .inr ⟨r, _, hes, rfl⟩⟩

/-- The id of a consent screen that a handler announces has been drawn by it. -/
def Announces (h : Handler AuthorizeResult) : Prop :=
  ∀ es requestId, Returns h.run es (.ok (.consentRequired requestId)) →
    (⟨.urlSafe 24, requestId⟩ : Reply Res) ∈ es

theorem announces_pure {a : AuthorizeResult} (ha : ∀ id, a ≠ .consentRequired id) :
    Announces (pure a) :=
  fun _ id h => absurd h.ret.2.symm (ha id)

theorem announces_bind {α : Type} {h : Handler α} {f : α → Handler AuthorizeResult}
    (hf : ∀ a, Announces (f a)) : Announces (h >>= f) := by
  intro es id hret
  obtain ⟨es₁, es₂, a, rfl, -, hret⟩ := hret.seq
  exact List.mem_append_right _ (hf a es₂ id hret)

theorem announces_issueCode (g : AuthorizeFlow.Grant) :
    Announces (issueCode env g) :=
  announces_bind fun _ => announces_bind fun _ => announces_bind fun _ =>
    announces_pure fun _ => nofun

theorem announces_askConsent (req : AuthorizeRequest) (session : SessionWithUser) (client : Client)
    (uri : String) (method : Option String) :
    Announces (askConsent env req session client uri method) := by
  unfold askConsent
  split
  · exact announces_pure fun _ => nofun
  · intro es id hret
    obtain ⟨es₁, es₂, drawn, rfl, hdraw, hret⟩ := hret.seq
    obtain ⟨es₃, es₄, at_, rfl, -, hret⟩ := hret.seq
    obtain ⟨es₅, es₆, _, rfl, -, hret⟩ := hret.seq
    obtain ⟨-, hid⟩ := hret.ret
    cases hid
    rw [returns_perform.mp hdraw]
    exact List.mem_cons_self

theorem announces_finish (req : AuthorizeRequest) (session : SessionWithUser) (client : Client)
    (uri : String) (method : Option String) :
    Announces (finish env req session client uri method) := by
  rw [finish_eq]
  split
  · exact announces_askConsent _ _ _ _ _
  · refine announces_bind fun consented => ?_
    split
    · exact announces_issueCode _
    · exact announces_askConsent _ _ _ _ _

theorem announces_authorize (req : AuthorizeRequest) :
    Announces (authorize env req) := by
  intro es id h
  have hasked : ¬ Refused req (.consentRequired id) := fun hr => by cases hr
  obtain ⟨es₁, es₂, session, client, method, rfl, -, hfinish, -⟩ :=
    leads_authorize beyond_answered h ⟨_, rfl, hasked⟩
  exact List.mem_append_right _ (announces_finish req session client _ method es₂ id hfinish)

end Authorize

/-! ## Answers to the consent screen -/

section Submit

variable {q : Action (Except Failure AuthorizeResult)}

/-- A pending authorization is taken by one command. -/
theorem returns_take {requestId : String} {pending : PendingAuthorization}
    (h : Returns (take requestId).run es (.ok (some pending))) :
    ∃ at_ : NaiveDateTime, es = [⟨.redis (.pending (.getdel requestId)),
      (.ok (some pending) : Except String (Option PendingAuthorization))⟩, ⟨.now, at_⟩] := by
  unfold take at h
  by_cases hid : requestId = ""
  · rw [if_pos hid] at h
    cases h.ret.2
  rw [if_neg hid] at h
  obtain ⟨es₁, es₂, raw, rfl, hget, h⟩ := h.seq
  unfold decode at h
  rcases raw with _ | p
  · cases h.ret.2
  obtain ⟨es₃, es₄, at_, rfl, hnow, h⟩ := h.seq
  by_cases hexp : p.expiresAt < at_
  · rw [if_pos hexp] at h
    cases h.ret.2
  · rw [if_neg hexp] at h
    obtain ⟨rfl, hp⟩ := h.ret
    cases hp
    refine ⟨at_, ?_⟩
    rw [returns_redis hget, returns_perform.mp hnow]
    rfl

/-- The kinds of commands that the answer to a consent screen issues before it stores a code. -/
def completing : List Kind := [.read, .fill, .touch, .takePending, .consent]

/-- What an answer to a consent screen was told before it stored a code: the pending authorization
it has taken, and the client. -/
structure Completed (env : Env) (requestId : String) (es : Replies)
    (pending : PendingAuthorization) (client : Client) : Prop where
  taken : (⟨.redis (.pending (.getdel requestId)),
    (.ok (some pending) : Except String (Option PendingAuthorization))⟩ : Reply Res) ∈ es
  known : ∃ es₁, (∀ e ∈ es₁, e ∈ es) ∧ ClientFound env pending.clientId es₁ client
  checks : ∀ e ∈ es, Within completing e.1

theorem leads_completeAfterConsent {pending : PendingAuthorization} (hr : Reached .storeCode es q)
    (h : Leads (completeAfterConsent env pending).run es q) :
    ∃ es₁ es₂ client, es = es₁ ++ es₂ ∧ (∀ e ∈ es₁, Within completing e.1) ∧
      (∃ es₃, (∀ e ∈ es₃, e ∈ es₁) ∧ ClientFound env pending.clientId es₃ client) ∧
      Leads (issueCode env (grantOfPending pending client)).run es₂ q ∧
      Reached .storeCode es₂ q := by
  have hclient : (findByClientId env pending.clientId).Uses (Within completing) :=
    (uses_findByClientId env _).sub rfl
  unfold completeAfterConsent at h
  obtain ⟨es₁, es₂, looked, rfl, hlooked, h, hr⟩ := hclient.pass rfl h hr
  rcases looked with _ | client
  · exact absurd hr (not_reached_pure h)
  dsimp only at h
  split at h
  · exact absurd hr (not_reached_pure h)
  have huri : (isRedirectUriAllowed client.id pending.redirectUri).Uses
      (Within completing) := (uses_isRedirectUriAllowed _ _).sub rfl
  obtain ⟨es₃, es₄, allowed, rfl, hallowed, h, hr⟩ := huri.pass rfl h hr
  split at h
  · exact absurd hr (not_reached_pure h)
  have hgrant : (ConsentService.grant pending.userId client.id pending.scope).Uses
      (Within completing) := (ConsentService.uses_grant _ _ _).sub rfl
  obtain ⟨es₅, es₆, _, rfl, hgranted, h, hr⟩ := hgrant.pass rfl h hr
  refine ⟨es₁ ++ (es₃ ++ es₅), es₆, client, by simp, fun e he => ?_, ⟨es₁, fun e he => ?_,
    returns_findByClientId hlooked⟩, h, hr⟩
  · simp only [List.mem_append] at he
    rcases he with he | he | he
    · exact (hlooked.uses hclient.run).1 e he
    · exact (hallowed.uses huri.run).1 e he
    · exact (hgranted.uses hgrant.run).1 e he
  · exact List.mem_append_left _ he

/-- The answer to a consent screen stores the code of the pending authorization it has taken, and
sends the user where the code is sent. -/
theorem leads_submit {token requestId action : Option String}
    {q : Action (Except Failure ConsentResult)} (hr : Reached .storeCode es q)
    (h : Leads (ConsentResource.submit env token requestId action).run es q) :
    ∃ es₁ es₂ pending client p, es = es₁ ++ es₂ ∧
      Completed env (requestId.getD "") es₁ pending client ∧
      Leads (issueCode env (grantOfPending pending client)).run es₂ p ∧
      Reached .storeCode es₂ p ∧
      ∀ a, q = .pure (.ok a) → ∃ b, p = .pure (.ok b) ∧ ∀ location, b = .success location →
        a = .redirect location := by
  unfold ConsentResource.submit at h
  rcases token with _ | token
  · dsimp only at h
    rw [pure_bind] at h
    exact absurd hr (not_reached_pure h)
  have hsession : (SessionService.findActiveSession env token).Uses (Within completing) :=
    (SessionService.uses_findActiveSession env token).sub rfl
  have htake : (take (requestId.getD "")).Uses (Within completing) :=
    (uses_take _).sub rfl
  obtain ⟨es₁, es₂, found, rfl, hfound, h, hr⟩ := hsession.pass rfl h hr
  rcases found with _ | session
  · exact absurd hr (not_reached_pure h)
  obtain ⟨es₃, es₄, taken, rfl, htaken, h, hr⟩ := htake.pass rfl h hr
  rcases taken with _ | pending
  · exact absurd hr (not_reached_pure h)
  dsimp only at h
  split at h
  · exact absurd hr (not_reached_pure h)
  split at h
  · exact absurd hr (not_reached_pure h)
  -- how far the completion has come, and what the answer makes of its result
  obtain ⟨p, hp, hr, hq⟩ : ∃ p, Leads (completeAfterConsent env pending).run es₄ p ∧
      Reached .storeCode es₄ p ∧ ∀ a, q = .pure (.ok a) → ∃ b, p = .pure (.ok b) ∧
        ∀ location, b = .success location →
        a = .redirect location := by
    rcases h.of_bindE with ⟨op, k, hl, k', rfl⟩ | ⟨e, hl, rfl⟩ | ⟨es₅, es₆, result, rfl, hl, h⟩
    · exact ⟨_, hl, hr.of_call, fun a ha => by cases ha⟩
    · exact ⟨_, hl, hr.of_pure, fun a ha => by cases ha⟩
    · cases result with
      | success location =>
        obtain ⟨rfl, rfl⟩ := Leads.pure_iff.mp h
        rw [List.append_nil] at hr ⊢
        refine ⟨_, hl, hr.of_pure, fun a ha => ⟨_, rfl, fun location' hb => ?_⟩⟩
        cases ha
        cases hb
        rfl
      | error | errorRedirect | consentRequired =>
        obtain ⟨rfl, rfl⟩ := Leads.pure_iff.mp h
        rw [List.append_nil] at hr ⊢
        exact ⟨_, hl, hr.of_pure, fun a _ => ⟨_, rfl, fun location' hb => by cases hb⟩⟩
  obtain ⟨es₅, es₆, client, rfl, hwithin, ⟨es₇, hsub, hclient⟩, hp, hr⟩ :=
    leads_completeAfterConsent hr hp
  refine ⟨es₁ ++ (es₃ ++ es₅), es₆, pending, client, p, by simp, ⟨?_, ⟨es₇, fun e he => ?_, hclient⟩,
    fun e he => ?_⟩, hp, hr, hq⟩
  · obtain ⟨at_, rfl⟩ := returns_take htaken
    simp
  · have hmem := hsub e he
    simp [hmem]
  · simp only [List.mem_append] at he
    rcases he with he | he | he
    · exact (hfound.uses hsession.run).1 e he
    · exact (htaken.uses htake.run).1 e he
    · exact hwithin e he

end Submit

end Issuance

end AuthServer
