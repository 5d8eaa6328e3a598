import AuthServer.Oauth.Token.Exchange
import AuthServer.Scenario

/-!
# The grant types of a client

A client row has a list of grant types. It is stored, cached and shown to
administrators, but the token endpoint does not read it: what a client can obtain is
decided by the grant itself, and by the client's type for `client_credentials`.
-/

namespace AuthServer

open Concurrent

namespace GrantTypes

/-- The values of a `grant_types` field. -/
def registered (grantTypes : Option String) : List String :=
  Text.pieces Text.isWhitespace (grantTypes.getD "")

/-- A client whose `grant_types` field is not empty uses the grants in it only. -/
def Registered (client : Client) (req : TokenRequest) (_ : TokenPayload) : Prop :=
  client.grantTypes.getD "" = "" ∨ req.grantType.getD "" ∈ registered client.grantTypes

/-- The grants of the token endpoint. -/
def supported : List String :=
  ["authorization_code", "refresh_token", "client_credentials",
    "urn:ietf:params:oauth:grant-type:device_code"]

/-- The grant is one that the server knows; `client_credentials` is for confidential clients and
gives no tokens of a user. -/
structure Supported (client : Client) (req : TokenRequest) (payload : TokenPayload) : Prop where
  grant : req.grantType.getD "" ∈ supported
  machine : req.grantType = some "client_credentials" →
    Text.toAsciiLowercase (client.clientType.getD "") = "confidential" ∧
      payload.refreshToken = none ∧ payload.idToken = none

/-- Every successful answer of the token endpoint, in every interleaving, goes to a client that has
been found under the given name, is enabled and authenticated, and meets a condition. -/
def Enforces (env : Env) (P : Client → TokenRequest → TokenPayload → Prop) : Prop :=
  ∀ (w : World) (c : State) (tid : Nat) (req : TokenRequest) (payload : TokenPayload),
    Run (server env) {} (Config.start w) c →
    c.answered tid (.token req) (.ok (.success payload)) →
      ∃ lookup client, lookup <+: c.moment.own tid ∧
        ClientAuthenticated env req lookup client ∧ P client req payload

variable {env : Env} {es : Replies} {req : TokenRequest} {payload : TokenPayload}

theorem supported_of_granted (h : Granted env req es payload) :
    ∃ lookup client, lookup <+: es ∧ ClientAuthenticated env req lookup client ∧
      Supported client req payload := by
  have hother : ∀ {g : String}, req.grantType = some g → g ≠ "client_credentials" →
      g ∈ supported → ∀ client, Supported client req payload := by
    intro g hg hne hmem client
    refine ⟨by rw [hg]; exact hmem, fun hmachine => ?_⟩
    exact absurd (Option.some.inj (hg.symm.trans hmachine)) hne
  cases h with
  | code g hg hes hvalid =>
    refine ⟨g.lookup, g.client, ?_, hvalid.client, hother hg (by decide) (by simp [supported]) _⟩
    rw [hes, CodeGrant.replies, List.append_assoc, List.append_assoc]
    exact List.prefix_append _ _
  | refresh g hg hes hvalid =>
    refine ⟨g.lookup, g.client, ?_, hvalid.client, hother hg (by decide) (by simp [supported]) _⟩
    rw [hes, RefreshGrant.replies, List.append_assoc, List.append_assoc]
    exact List.prefix_append _ _
  | device g hg hes hvalid =>
    refine ⟨g.lookup, g.client, ?_, hvalid.client, hother hg (by decide) (by simp [supported]) _⟩
    simp only [hes, DeviceGrant.replies, List.append_assoc]
    exact List.prefix_append _ _
  | credentials hg hret =>
    obtain ⟨client, lookup, issuing, hes, hgranted⟩ := returns_fromClientCredentials hret
    obtain ⟨hrefresh, hid, -⟩ := returns_issueForClient hgranted.issued
    refine ⟨lookup, client, hes ▸ List.prefix_append _ _, hgranted.authenticated, ?_, fun _ =>
      ⟨hgranted.confidential, hrefresh, hid⟩⟩
    rw [hg]
    simp [supported]

/-- What the token endpoint enforces. -/
theorem supported_grants (env : Env) : Enforces env Supported := by
  intro w c tid req payload run ha
  have hret := (run.replayed (Config.start_replayed w)).returns ha
  exact supported_of_granted (returns_token hret)

section Counterexample

open Scenario

/-- The grant types of a client, when it is read from the cache or the table. -/
def readTypes : Marking Res (Option String)
  | .redis (.client (.get _)), .ok (some snap) => some snap.grantTypes
  | .sql (.query (.clientByClientId _)), .ok (some row) => some row.grantTypes
  | _, _ => none

theorem readTypes_of_found {clientId : String} {client : Client}
    (h : ClientFound env clientId es client) : ∃ e ∈ es, readTypes e.1 e.2 = some client.grantTypes := by
  cases h with
  | cached snap => exact ⟨_, List.mem_singleton_self _, rfl⟩
  | stored => exact ⟨_, List.mem_cons_of_mem _ List.mem_cons_self, rfl⟩

/-- A client that is registered for `client_credentials` only. -/
def machineClient : ClientRow := { Scenario.client with grantTypes := some "client_credentials" }

/-- The client exchanges a code for the tokens of the user. -/
def exchange : List (Label Call Choice) :=
  [.spawn (.authorize authorizeRequest)] ++ issueCode 0 "code-a" ++
    [.spawn (.token (codeRequest "code-a"))] ++ steps 1 7 ++ issueTokens 1 10 11 12 "refresh-a"

/-- The exchange succeeds, and every client that was read has these grant types. -/
theorem played_exchange : ∃ (c : State) (req : TokenRequest) (payload : TokenPayload),
    Run (server Scenario.env) {} (Config.start (world { tables with clients := one machineClient })) c ∧
      c.answered 1 (.token req) (.ok (.success payload)) ∧
      req.grantType = some "authorization_code" ∧ payload.refreshToken = some "refresh-a" ∧
      ∀ e ∈ c.moment.trace, ∀ g, readTypes e.op e.res = some g → g = some "client_credentials" := by
  have hplay : (Config.start (world { tables with clients := one machineClient }) : State).reaches
      (server Scenario.env) (fun _ => true) succeeds exchange (fun c =>
        (issued? c 1).any (fun x => x.1.grantType == some "authorization_code" &&
          x.2.refreshToken == some "refresh-a") &&
        c.moment.trace.all fun e => (readTypes e.op e.res).all fun g =>
          g == some "client_credentials") = true := by
    decide +kernel
  obtain ⟨c, run, hc⟩ := Config.run_of_reaches (R := {}) (fun _ _ => trivial)
    (fun _ _ _ _ _ => trivial) hplay
  simp only [Bool.and_eq_true, Option.any_eq_true, beq_iff_eq, List.all_eq_true,
    Option.all_eq_true] at hc
  obtain ⟨⟨⟨req, payload⟩, hissued, hgrant, hraw⟩, hread⟩ := hc
  exact ⟨c, req, payload, run, answered_of_issued? hissued, hgrant, hraw, hread⟩

/-- A client that is registered for `client_credentials` only obtains the tokens of a user. -/
theorem not_registered_grants : ¬ Enforces Scenario.env Registered := by
  intro h
  obtain ⟨c, req, payload, run, ha, hgrant, -, hread⟩ := played_exchange
  obtain ⟨lookup, client, hfirst, hclient, hregistered⟩ := h _ c 1 req payload run ha
  obtain ⟨e, he, hmark⟩ := readTypes_of_found hclient.found
  obtain ⟨y, hy, -, rfl⟩ := Moment.mem_own.mp (hfirst.subset he)
  have htypes := hread y hy _ hmark
  rw [Registered, htypes, hgrant] at hregistered
  revert hregistered
  decide

/-- The exchange of the schedule is one of the supported grants. -/
theorem supported_grants_exchange : ∃ (client : Client) (req : TokenRequest) (payload : TokenPayload),
    payload.refreshToken = some "refresh-a" ∧ Supported client req payload := by
  obtain ⟨c, req, payload, run, ha, -, hraw, -⟩ := played_exchange
  obtain ⟨-, client, -, -, hsupported⟩ := supported_grants Scenario.env _ c 1 req payload run ha
  exact ⟨client, req, payload, hraw, hsupported⟩

end Counterexample

end GrantTypes

end AuthServer
