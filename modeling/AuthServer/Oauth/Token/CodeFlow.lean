import AuthServer.Oauth.Detour
import AuthServer.Oauth.Token.Exchange

/-!
# Codes from the authorization request to the exchange

Every successful exchange of an authorization code goes back to an authorization request that has
passed its checks, whether the code was stored at once or after the consent screen. The tokens are
for the user, the session, the client, the scope and the nonce of that request, and the exchange
has shown the verifier of its PKCE challenge.
-/

namespace AuthServer

open Concurrent Handler Storage AuthorizeFlow Detour

namespace CodeFlow

/-- Redis holds no codes and no pending authorizations, and cached clients have the ids they are
cached under. -/
structure Started (w : World) : Prop where
  codes : ∀ k, w.redis.authCodes.entry k = none
  pending : ∀ k, w.redis.pending.entry k = none
  clients : ClientsKeyed w

/-- A code is the one that an authorization request of the run has asked for, with all it has
asked for, after it has passed its checks. -/
def AskedFor (env : Env) (c : State) (x : AuthorizationCode) : Prop :=
  ∃ i asked es session client method code at_ created, c.requested i (.authorize asked) ∧
    (∀ e ∈ es, e ∈ c.moment.own i) ∧ Passed env asked es session client method ∧
    x = (grantOf asked session client (asked.redirectUri.getD "") method).stored code at_ created

/-- The reply with which an exchange takes a code. -/
def taking (env : Env) (req : TokenRequest) (x : AuthorizationCode) : Reply Res :=
  ⟨.redis (.authCode (.getdel (env.sha256 (req.code.getD "")))),
    (.ok (some x) : Except String (Option AuthorizationCode))⟩

/-- What a successful exchange has taken and what it is bound to. -/
structure Exchanged (env : Env) (es : Replies) (req : TokenRequest) (payload : TokenPayload)
    (x : AuthorizationCode) : Prop where
  taken : taking env req x ∈ es
  clientId : x.clientId = req.clientId.getD ""
  redirectUri : x.redirectUri = req.redirectUri.getD ""
  binds : payload.Binds env x.userId x.sessionId x.clientId x.scope x.nonce
  pkce : ∀ challenge, x.codeChallenge = some challenge → challenge ≠ "" →
    req.codeVerifier.getD "" ≠ "" ∧ env.sha256 (req.codeVerifier.getD "") = challenge

/-- Every successful exchange of a code is one of a code that was asked for. -/
def OnlyAskedFor (env : Env) (R : Rules) : Prop :=
  ∀ w c j req payload, Started w → Run (server env) R (Config.start w) c →
    req.grantType = some "authorization_code" →
    c.answered j (.token req) (.ok (.success payload)) →
    ∃ x, AskedFor env c x ∧ Exchanged env (c.moment.own j) req payload x

section Runs

variable {env : Env} {R : Rules} {w₀ w w' : World} {c : State} {tid : Nat} {op : Op} {ch : Choice}
variable {r : Res op} {k : String} {e : Entry AuthorizationCode} {x : AuthorizationCode}

/-- A code that is found after a command was there before or has just been stored. -/
theorem stores_of_exec (h : World.exec env tid op ch w = some (r, w')) (hop : op.kind ≠ .unused)
    (he : w'.redis.authCodes.entry k = some e) :
    w.redis.authCodes.entry k = some e ∨ stores op r = some e.value := by
  rcases World.redis_exec h with hr | ⟨cmd, rfl, hf, hr⟩
  · exact .inl (hr ▸ he)
  rcases World.exec_redis h with ⟨text, hfail, -⟩ | ⟨-, rfl, -⟩
  · cases hf.symm.trans hfail
  rw [hr] at he
  cases cmd with
  | authCode cmd =>
    cases cmd with
    | setnx k₀ x ttl =>
      simp only [RedisCmd.exec, Kv.exec] at he ⊢
      split at he
      · exact .inl he
      simp only [Expiring.entry_set] at he
      split at he
      · cases he
        exact .inr rfl
      · exact .inl he
    | getdel k₀ =>
      simp only [RedisCmd.exec, Kv.exec, Expiring.entry_erase] at he
      split at he
      · cases he
      · exact .inl he
    | get => exact .inl he
    | setex | del => exact absurd rfl hop
  | session | client | pending | userCode | device | counter => exact .inl he

variable (hw : Started w₀) (run : Run (server env) R (Config.start w₀) c)

include hw run

/-- Every stored code has been stored by a request. -/
theorem stored_of_entry (he : c.moment.world.redis.authCodes.entry k = some e) :
    ∃ j, c.moment.Marked stores j e.value := by
  refine run.invariant (J := fun c : State => ∀ k e,
    c.moment.world.redis.authCodes.entry k = some e → ∃ j, c.moment.Marked stores j e.value)
    (fun _ _ _ _ ih => ih) ?_ ?_ k e he
  · intro c₁ tid t op next ch r w run₁ ih ht hp _ hexec k e he
    rcases stores_of_exec hexec (used_of_run run₁ ht hp) he with hold | hnew
    · obtain ⟨j, hj⟩ := ih k e hold
      exact ⟨j, hj.after⟩
    · exact ⟨tid, Moment.marked_after.mpr (.inl ⟨rfl, hnew⟩)⟩
  · intro k e he
    cases (hw.codes k).symm.trans he

/-- A stored code was asked for, also after the consent screen. -/
theorem askedFor_of_stores (hx : c.moment.Marked stores tid x) : AskedFor env c x := by
  obtain ⟨⟨op, r⟩, hmem, hmark⟩ := Moment.marked_iff_own.mp hx
  obtain ⟨c₁, t, next, ch, w, run₁, ht, hp, ha, hexec, run₂⟩ := run.executed_own hmem
  have hkind : Within t.call.footprint op :=
    (run₁.issues ht hp).uses (uses_program (handler_uses env t.call))
  rw [Within, kind_of_stores hmark] at hkind
  have hreq : c.requested tid t.call :=
    ((Run.step (.refl c₁) ht hp ha hexec).trans run₂).requested ⟨t.born, t.prog, ht⟩
  obtain ⟨call, born, prog⟩ := t
  cases call with
  | authorize asked =>
    obtain ⟨es, _, _, _, _, _, _, hes, hpassed, hx, -⟩ := passed_of_stores run hreq hx
    exact ⟨_, _, es, _, _, _, _, _, _, hreq, hes, hpassed, hx⟩
  | submitConsent token requestId action =>
    obtain ⟨q, hleads, -⟩ := leads_of_requested run hreq
    obtain ⟨es₁, es₂, pending, client', p, hown, hdone, hissue, hreach, -⟩ :=
      leads_submit (reached_of_stores hx) hleads
    obtain ⟨code, at_, created, hcode, -⟩ := eq_of_issued hreach hissue fun e he hkind => by
      have hin := hdone.checks e he
      rw [Within, hkind] at hin
      cases hin
    obtain rfl := hcode _ (hown ▸ hmem) x hmark
    have hes : ∀ e ∈ es₁, e ∈ c.moment.own tid := fun e he => hown ▸ List.mem_append_left _ he
    -- the pending authorization has been put by the request that was asked for consent
    obtain ⟨c₂, c₃, ch, run₃, step, run₄, -, hexec⟩ := executed_later run rfl (hes _ hdone.taken)
    obtain ⟨text, -, hr, -⟩ | ⟨-, hr, -⟩ := World.exec_redis hexec
    · cases hr
    obtain ⟨e, he, -, rfl⟩ := Expiring.get_eq_some.mp (Except.ok.inj hr).symm
    obtain ⟨e₀, he₀⟩ | ⟨i, hput⟩ := put_of_entry run₃ he
    · cases (hw.pending _).symm.trans he₀
    obtain ⟨⟨asked, es, session, client, method, at', hasked, hes', hpassed, hpending⟩, -⟩ :=
      passed_of_put run (hput.mono (step.trans run₄))
    obtain ⟨es₃, hsub, hfound⟩ := hdone.known
    have hclient := clientId_of_found hw.clients run hfound fun e he => hes e (hsub e he)
    refine ⟨i, asked, es, session, client, method, code, at_, created, hasked, hes', hpassed, ?_⟩
    rw [hpending] at hclient ⊢
    simp only [Grant.stored, Grant.code, grantOfPending, grantOf, pendingOf] at hclient ⊢
    rw [hclient]
  | _ => cases hkind

end Runs

/-- The check of an exchange passes with the verifier of the challenge only. -/
theorem verified_of_pkceStep {env : Env} {client : Client} {challenge : String}
    {x : AuthorizationCode} {verifier : Option String}
    (h : TokenFlow.pkceStep env client x verifier = none)
    (hc : x.codeChallenge = some challenge) (hne : challenge ≠ "") :
    verifier.getD "" ≠ "" ∧ env.sha256 (verifier.getD "") = challenge := by
  unfold TokenFlow.pkceStep at h
  dsimp only at h
  rw [hc, if_pos (by simp [hne])] at h
  split at h
  · cases h
  split at h
  · cases h
  next hverify =>
  obtain ⟨hempty, -, -, hhash⟩ := Pkce.verify_eq_true_iff.mp (by simpa using hverify)
  exact ⟨hempty, hhash⟩

/-- Codes that were not asked for are never exchanged, in any interleaving of all requests and
whatever fails. -/
theorem only_asked_for (env : Env) (R : Rules) : OnlyAskedFor env R := by
  intro w c j req payload hw run hgrant hanswered
  have hret := (run.replayed (Config.start_replayed w)).returns hanswered
  rw [server_program, handler] at hret
  obtain ⟨g, hown, hvalid⟩ : ∃ g : CodeGrant, c.moment.own j = g.replies env req ∧
      g.Valid env req payload := by
    cases returns_token hret with
    | code g _ hown hvalid => exact ⟨g, hown, hvalid⟩
    | refresh _ h | device _ h | credentials h =>
      exact absurd (hgrant.symm.trans h) (by decide)
  have htaken : taking env req g.authCode ∈ c.moment.own j := by
    simp [hown, CodeGrant.replies, taking]
  have huser : selected (.userById g.authCode.userId) (some g.user) ∈ c.moment.own j := by
    simp [hown, CodeGrant.replies]
  have hsession : selected (.sessionById g.authCode.sessionId) (some g.session) ∈
      c.moment.own j := by
    simp [hown, CodeGrant.replies]
  obtain ⟨c₁, c₂, ch, run₁, step, run₂, -, hexec⟩ := executed_later run rfl htaken
  obtain ⟨text, -, hr, -⟩ | ⟨-, hr, -⟩ := World.exec_redis hexec
  · cases hr
  obtain ⟨e, he, -, hvalue⟩ := Expiring.get_eq_some.mp (Except.ok.inj hr).symm
  obtain ⟨i, x, hx, htid, hmark⟩ := stored_of_entry hw run₁ he
  have hasked := askedFor_of_stores hw run
    ⟨x, (step.trans run₂).trace_suffix.subset hx, htid, hmark⟩
  have hlookup : ∀ e ∈ g.lookup, e ∈ c.moment.own j := fun e he => by
    simp [hown, CodeGrant.replies, he]
  have hclient := clientId_of_found hw.clients run hvalid.client.found hlookup
  obtain ⟨_, -, hfind⟩ := query_reply run huser
  obtain ⟨_, -, hfind'⟩ := query_reply run hsession
  have hbinds := (returns_issue hvalid.issued).1
  rw [beq_iff_eq.mp (Table.mem_of_find? hfind.symm).2,
    beq_iff_eq.mp (Table.mem_of_find? hfind'.symm).2, hclient, ← hvalid.clientId] at hbinds
  exact ⟨g.authCode, hvalue ▸ hasked, htaken, hvalid.clientId, hvalid.redirectUri, hbinds,
    fun challenge => verified_of_pkceStep hvalid.pkce⟩

end CodeFlow

end AuthServer
