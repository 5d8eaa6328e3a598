import AuthServer.Oauth.Issuance
import AuthServer.Scenario

/-!
# Silent authorization requests

The authorize endpoint sorts the results of the flow by their error codes. A request with
`prompt=none` never leads to the login page or to the consent screen, although the code
`consent_required` stands for the consent screen as well as for the refusal to show it.
-/

namespace AuthServer

open Concurrent Handler AuthorizeFlow

namespace AuthorizeResource

/-- The responses of `/oauth/authorize`. -/
inductive Response where
  /-- To `/login`, and from there back to the request. -/
  | login (location : String)
  /-- To `/consent` with the id of the pending authorization. -/
  | consent (location : String)
  /-- Back to the client. -/
  | redirect (location : String)
  | badRequest (error description : String)

/-- The response to a result, for a request with a path and a query. -/
def respond (path query : String) : AuthorizeResult → Response
  | .success redirect => .redirect redirect
  | .consentRequired requestId => .consent ("/consent?req=" ++ Text.urlEncode requestId)
  | .errorRedirect redirect error _ =>
    if error = "invalid_session" then .login (loginLocation path query) else .redirect redirect
  | .error error description =>
    if error = "invalid_session" then .login (loginLocation path query)
    else .badRequest error description
where
  /-- The login page with the request to return to. -/
  loginLocation (path query : String) : String :=
    "/login?return_to=" ++ Text.urlEncode (if query = "" then path else path ++ "?" ++ query)

/-- What a silent request can lead to: a code for a session and a client that have passed every
check and whose user has consented before, or an error, at the client or here. -/
inductive Settled (env : Env) (req : AuthorizeRequest) (es : Replies) : Response → Prop
  | code {es₁ es₂ es₃ : Replies} {session : SessionWithUser} {client : Client}
      {method : Option String} (code : String) (hes : es = es₁ ++ (es₂ ++ es₃))
      (passed : Passed env req es₁ session client method)
      (consented : Returns (ConsentService.hasConsent session.session.userId client.id
        req.scope).run es₂ (.ok true)) :
      Settled env req es (.redirect ((AuthorizeFlow.grantOf req session client
        (req.redirectUri.getD "") method).location code))
  | refused {location error description : String}
      (h : AuthorizeFlow.errorRedirect (req.redirectUri.getD "") req.state error description =
        .errorRedirect location error description) :
      Settled env req es (.redirect location)
  | badRequest (error description : String) : Settled env req es (.badRequest error description)

/-- The request is not interactive: whatever the stores answer, it stores no pending authorization
and does not lead to a page of this server. -/
structure Silent (env : Env) (req : AuthorizeRequest) : Prop where
  storesNothing : ∀ es q, Leads (AuthorizeFlow.authorize env req).run es q →
    ¬ Reached .storePending es q
  settled : ∀ es r, Returns (AuthorizeFlow.authorize env req).run es (.ok r) →
    ∀ path query, Settled env req es (respond path query r)

variable {env : Env} {req : AuthorizeRequest} {es : Replies}

/-- Without a consent screen the missing consent is an error. -/
theorem askConsent_none (hnone : "none" ∈ parsePrompt req.prompt)
    (session : SessionWithUser) (client : Client) (uri : String) (method : Option String) :
    askConsent env req session client uri method =
      pure (errorRedirect uri req.state "consent_required"
        "Consent is required but prompt=none was specified") :=
  if_pos (List.contains_iff_mem.mpr hnone)

/-- The answers of the checks are errors; the login page is asked for by an interactive request
only. -/
theorem Settled.of_refused {r : AuthorizeResult}
    (hnone : "none" ∈ parsePrompt req.prompt) (hr : Refused req r)
    (path query : String) : Settled env req es (respond path query r) := by
  cases hr with
  | request e desc he =>
    rw [respond, if_neg he]
    exact .badRequest e desc
  | login desc =>
    rw [loginError, if_pos (List.contains_iff_mem.mpr hnone), respond,
      if_neg (by decide)]
    exact .badRequest _ desc
  | client e desc he =>
    rw [errorRedirect, respond, if_neg he]
    exact .refused rfl

theorem settled_of_askConsent {es' : Replies} {session : SessionWithUser} {client : Client}
    {method : Option String} {r : AuthorizeResult}
    (hnone : "none" ∈ parsePrompt req.prompt)
    (h : Returns (askConsent env req session client (req.redirectUri.getD "")
      method).run es' (.ok r)) (path query : String) :
    Settled env req es (respond path query r) := by
  rw [askConsent_none hnone] at h
  obtain ⟨-, rfl⟩ := h.ret
  exact .of_refused hnone (.client _ _ (by decide)) path query

theorem success_of_issueCode {g : AuthorizeFlow.Grant} {r : AuthorizeResult}
    (h : Returns (issueCode env g).run es (.ok r)) :
    ∃ code, r = .success (g.location code) := by
  unfold issueCode at h
  obtain ⟨_, _, code, -, -, h⟩ := h.seq
  obtain ⟨_, _, at_, -, -, h⟩ := h.seq
  obtain ⟨_, _, _, -, -, h⟩ := h.seq
  exact ⟨code, h.ret.2⟩

/-- A request with `prompt=none`, alone or among other values, is never interactive. -/
theorem silent_of_none (env : Env) (req : AuthorizeRequest)
    (hnone : "none" ∈ AuthorizeFlow.parsePrompt req.prompt) : Silent env req where
  storesNothing es q h hr := by
    obtain ⟨es₁, es₂, session, client, method, rfl, -, h, hr⟩ :=
      leads_authorize (beyond_reached rfl) h hr
    obtain ⟨es₃, es₄, -, -, h, hr⟩ := leads_finish_pending hr h
    rw [askConsent_none hnone] at h
    exact not_reached_pure h hr
  settled es r h path query := by
    by_cases hrefused : Refused req r
    · exact .of_refused hnone hrefused path query
    obtain ⟨es₁, es₂, session, client, method, rfl, hpassed, h, -⟩ :=
      leads_authorize beyond_answered h ⟨r, rfl, hrefused⟩
    rw [finish_eq] at h
    split at h
    · exact settled_of_askConsent hnone h path query
    obtain ⟨es₃, es₄, consented, rfl, hconsent, h⟩ := Returns.seq h
    cases consented with
    | true =>
      obtain ⟨code, rfl⟩ := success_of_issueCode h
      exact .code code rfl hpassed hconsent
    | false => exact settled_of_askConsent hnone h path query

/-- The value may stand among others. -/
theorem silent_loginNone :
    Silent Scenario.env { Scenario.authorizeRequest with prompt := some "login none" } :=
  silent_of_none _ _ (by decide +kernel)

end AuthorizeResource

end AuthServer
