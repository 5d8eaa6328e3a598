import AuthServer.Oauth.Token.Exchange
import AuthServer.Scenario
import AuthServer.Store.Frames

/-!
# Refresh tokens and their session rows

A grant reads the session of its tokens outside the transaction in which it inserts the
refresh token, so the session may be gone by then. The foreign key is what the grants
rest on: an insertion needs the row of the session, and from then on the transaction
holds back the deletion of the row until it has ended.
-/

namespace AuthServer

open Concurrent Handler Storage

namespace Cascade

/-- All requests but those that open sessions. -/
def family (call : Call) : Bool := !call.footprint.contains .openSession

/-- The requests of the family in any order. -/
def interleaved : Rules where
  admits call := family call = true

/-- The grants that issue tokens for a session. -/
def userGrants : List String :=
  ["authorization_code", "urn:ietf:params:oauth:grant-type:device_code", "refresh_token"]

/-- A database at rest: each refresh token belongs to a session, and no transaction is open. -/
structure AtRest (w : World) : Prop where
  rows : ∀ r ∈ w.pg.tables.refreshTokens, w.pg.tables.hasSession r.sessionId = true
  idle : ∀ i, w.pg.tx? i = none

/-- In the runs of a regime, from a state without the row of a session on, no refresh token of the
session exists, and tokens for it are only returned by grants that had committed by then. -/
def NeverOutlive (env : Env) (R : Rules) : Prop :=
  ∀ w, AtRest w → ∀ c c', Run (server env) R (Config.start w) c → Run (server env) R c c' →
    ∀ s, c.moment.world.pg.tables.hasSession s = false →
      (∀ r ∈ c'.moment.world.pg.tables.refreshTokens, r.sessionId ≠ s) ∧
      ∀ i req payload, (∃ g ∈ userGrants, req.grantType = some g) →
        c'.answered i (.token req) (.ok (.success payload)) →
        payload.accessToken.claims.get "sid" = some (.str (env.showUuid s)) →
        commitReply ∈ c.moment.own i

section Proof

variable {env : Env} {tid i : Nat} {op : Op} {ch : Choice} {w w' : World} {r : Res op}

/-! ## What the foreign key keeps -/

/-- Every refresh token has its session: the committed ones, and those that an open transaction has
inserted. -/
structure Parented (pg : Postgres) : Prop where
  rows : ∀ r ∈ pg.tables.refreshTokens, pg.tables.hasSession r.sessionId = true
  inserted : ∀ i row, pg.HasInserted i row → pg.tables.hasSession row.sessionId = true

variable {t : Tables} {pg : Postgres} {s : Uuid}

theorem hasSession_iff {id : Uuid} :
    t.hasSession id = true ↔ ∃ s ∈ t.sessions, s.id = id := by
  simp [Tables.hasSession, Table.mem_rows]

/-- A deletion of sessions that is not blocked leaves the parents of what is left. -/
theorem Parented.delete (hp : Parented pg) {p : UserSession → Bool}
    {doomed : RefreshToken → Bool}
    (hsub : ∀ r, ((pg.tables.sessions.select p).map UserSession.id).contains r.sessionId = true →
      doomed r = true)
    (hfree : pg.inserting doomed = false) (hsessions : t.sessions = pg.tables.sessions.delete p)
    (hrows : t.refreshTokens = pg.tables.refreshTokens.delete doomed) :
    Parented { pg with tables := t } := by
  have hstays : ∀ id, pg.tables.hasSession id = true →
      ((pg.tables.sessions.select p).map UserSession.id).contains id = false →
      t.hasSession id = true := by
    intro id hid hnot
    obtain ⟨s, hs, rfl⟩ := hasSession_iff.mp hid
    refine hasSession_iff.mpr ⟨s, ?_, rfl⟩
    rw [hsessions]
    refine Table.mem_delete.mpr ⟨hs, Bool.eq_false_iff.mpr fun hps => ?_⟩
    have hmem : s.id ∈ (pg.tables.sessions.select p).map UserSession.id :=
      List.mem_map_of_mem (Table.mem_select.mpr ⟨hs, hps⟩)
    rw [List.contains_iff_mem.mpr hmem] at hnot
    cases hnot
  have hnot : ∀ r : RefreshToken, doomed r = false →
      ((pg.tables.sessions.select p).map UserSession.id).contains r.sessionId = false := by
    intro r hr
    refine Bool.eq_false_iff.mpr fun hc => ?_
    rw [hsub r hc] at hr
    cases hr
  constructor
  · intro r hr
    change r ∈ t.refreshTokens at hr
    rw [hrows] at hr
    obtain ⟨hold, hdoomed⟩ := Table.mem_delete.mp hr
    exact hstays _ (hp.rows r hold) (hnot r hdoomed)
  · rintro i row ⟨x, hx, hmem⟩
    refine hstays _ (hp.inserted i row ⟨x, hx, hmem⟩) (hnot row ?_)
    simp only [Postgres.inserting, List.any_eq_false] at hfree
    have hins : row ∈ x.inserted := List.mem_filterMap.mpr ⟨.insert row, hmem, rfl⟩
    exact Bool.eq_false_iff.mpr fun hd =>
      hfree x (Table.mem_of_find? hx).1 (List.any_eq_true.mpr ⟨row, hins, hd⟩)

/-- A change that keeps the sessions and adds no refresh token of another session. -/
theorem Parented.grow (hp : Parented pg)
    (hrows : ∀ r' ∈ t.refreshTokens, ∃ r ∈ pg.tables.refreshTokens, r'.sessionId = r.sessionId)
    (hsessions : ∀ s ∈ pg.tables.sessions, ∃ s' ∈ t.sessions, s'.id = s.id) :
    Parented { pg with tables := t } := by
  have hstays : ∀ id, pg.tables.hasSession id = true → t.hasSession id = true := by
    intro id hid
    obtain ⟨s, hs, rfl⟩ := hasSession_iff.mp hid
    exact hasSession_iff.mpr (hsessions s hs)
  constructor
  · intro r' hr'
    obtain ⟨r, hr, hsame⟩ := hrows r' hr'
    rw [hsame]
    exact hstays _ (hp.rows r hr)
  · exact fun i row hrow => hstays _ (hp.inserted i row hrow)

/-- The rows of a table after some of them have been changed or deleted. -/
theorem old_of_update {t : Table RefreshToken} {p : RefreshToken → Bool} {b : Bool} :
    ∀ r' ∈ t.update p (RefreshToken.setRevoked b), ∃ r ∈ t, r'.sessionId = r.sessionId := by
  intro r' hr'
  obtain ⟨r, hr, rfl⟩ := Table.mem_update.mp hr'
  refine ⟨r, hr, ?_⟩
  split
  · rfl
  · rfl

theorem old_of_delete {t : Table RefreshToken} {p : RefreshToken → Bool} :
    ∀ r' ∈ t.delete p, ∃ r ∈ t, r'.sessionId = r.sessionId :=
  fun r' hr' => ⟨r', (Table.mem_delete.mp hr').1, rfl⟩

/-- Statements on the pool keep the foreign key. -/
theorem Parented.stmt {st : Stmt} {now : NaiveDateTime} {pg pg' : Postgres}
    {r : Except DbError st.Res} (hp : Parented pg) (h : st.exec now pg = some (r, pg')) :
    Parented pg' := by
  have hsame : ∀ r' ∈ pg.tables.refreshTokens, ∃ r ∈ pg.tables.refreshTokens,
      r'.sessionId = r.sessionId := fun r hr => ⟨r, hr, rfl⟩
  have hkept : ∀ s ∈ pg.tables.sessions, ∃ s' ∈ pg.tables.sessions, s'.id = s.id :=
    fun s hs => ⟨s, hs, rfl⟩
  cases st with
  | deleteSession | deleteSessionsByUser | deleteSessionsByUserExcept =>
    obtain ⟨-, hb, rfl⟩ := Postgres.deleteSessions_cases h
    exact hp.delete (fun _ hc => hc) (Postgres.cascadeBlocked_eq_false hb).2 rfl rfl
  | deleteUser id =>
    simp only [Stmt.exec, Postgres.deleteUser] at h
    split at h
    · cases h
    · next hb =>
      cases h
      refine hp.delete (fun r hc => ?_)
        (Postgres.cascadeBlocked_eq_false (Bool.eq_false_iff.mpr hb)).2 rfl rfl
      rw [Bool.or_eq_true]
      exact .inr hc
  | insertSession s =>
    obtain ⟨-, rfl⟩ | ⟨-, -, t, ht, rfl⟩ := Postgres.insertRow_cases h
    · exact hp
    · exact hp.grow hsame fun s hs => ⟨s, (Table.mem_insert ht).mpr (.inl hs), rfl⟩
  | updateLastAccessed id at_ =>
    cases h
    refine hp.grow hsame fun s hs => ⟨_, Table.mem_update.mpr ⟨s, hs, rfl⟩, ?_⟩
    split
    · rfl
    · rfl
  | revokeBySession | revokeByUser | revokeByUserExcept =>
    obtain ⟨-, -, rfl⟩ := Postgres.revokeWhere_cases h
    exact hp.grow old_of_update hkept
  | updateRevoked =>
    rcases Stmt.exec_effect h with ⟨-, rfl⟩ | ⟨-, rfl⟩
    · exact hp
    · exact hp.grow old_of_update hkept
  | sweepRefreshTokens | deleteClient =>
    rcases Stmt.exec_effect h with ⟨-, rfl⟩ | ⟨-, rfl⟩
    · exact hp
    · exact hp.grow old_of_delete hkept
  | updateCredential c =>
    rcases Stmt.exec_effect h with ⟨-, rfl⟩ | ⟨-, rfl⟩
    · exact hp
    · rw [Stmt.effect]
      split
      · exact hp.grow hsame hkept
      · exact hp
  | _ =>
    rcases Stmt.exec_effect h with ⟨-, rfl⟩ | ⟨-, rfl⟩
    · exact hp
    · exact hp.grow hsame hkept

/-- What a transaction sees has its session. -/
theorem Parented.view {x : OpenTx} (hp : Parented pg) (hx : pg.tx? tid = some x) :
    ∀ r ∈ x.view pg.tables.refreshTokens, pg.tables.hasSession r.sessionId = true := by
  intro r hr
  rcases OpenTx.owner_of_mem_foldl hr with ⟨r₀, hr₀, how⟩ | ⟨c, hc, how⟩
  · rw [show r.sessionId = r₀.sessionId from congrArg (·.2.2) how]
    exact hp.rows r₀ hr₀
  · rw [show r.sessionId = c.sessionId from congrArg (·.2.2) how]
    exact hp.inserted tid c ⟨x, hx, hc⟩

/-- Statements of transactions keep the foreign key. -/
theorem Parented.tx {s : TxStmt} {r : Except DbError s.Res} (hp : Parented w.pg)
    (h : World.exec env tid (.sql (.tx s)) ch w = some (r, w')) : Parented w'.pg := by
  -- the sessions are the same, and the rows are visible ones
  have htables : w'.pg.tables.hasSession = w.pg.tables.hasSession ∧
      ∀ r ∈ w'.pg.tables.refreshTokens, w.pg.tables.hasSession r.sessionId = true := by
    obtain ⟨-, -, ⟨e, -, hpg⟩ | hst⟩ := World.exec_tx h
    · rw [hpg, (TxStmt.fail_frame s).2]
      exact ⟨rfl, hp.rows⟩
    · by_cases hs : s = .commit
      · subst hs
        obtain ⟨x, hx, -, -, ht⟩ := TxStmt.exec_commit hst
        split at ht
        · rw [ht]
          exact ⟨rfl, hp.rows⟩
        · rw [ht]
          exact ⟨rfl, hp.view hx⟩
      · rw [(TxStmt.exec_frame hst).2 hs]
        exact ⟨rfl, hp.rows⟩
  constructor
  · rw [htables.1]
    exact htables.2
  · intro i row hrow
    rw [htables.1]
    rcases World.hasInserted_of_exec h hrow with hold | ⟨-, hparents⟩
    · exact hp.inserted i row hold
    · exact hparents.session

/-- Every command keeps the foreign key. -/
theorem Parented.exec (hp : Parented w.pg) (h : World.exec env tid op ch w = some (r, w')) :
    Parented w'.pg := by
  by_cases hread : op.reading = true
  · rw [(World.exec_reading hread h).1]
    exact hp
  cases op with
  | sql s =>
    cases s with
    | query q => exact absurd rfl hread
    | stmt st =>
      obtain ⟨-, ⟨-, hpg⟩ | hst⟩ := World.exec_stmt h
      · rw [hpg]
        exact hp
      · exact hp.stmt hst
    | tx s => exact hp.tx h
  | redis c =>
    rcases World.exec_redis h with ⟨text, -, -, rfl⟩ | ⟨-, -, rfl⟩
    · exact hp
    · exact hp
  | _ => exact absurd rfl hread

/-! ## Sessions do not come back -/

/-- Commands other than the opening of a session add no session. -/
theorem hasSession_of_exec (hop : op.kind ≠ .openSession)
    (h : World.exec env tid op ch w = some (r, w')) (hs : w'.pg.tables.hasSession s = true)
    : w.pg.tables.hasSession s = true := by
  rcases World.exec_tables h with hsame | ⟨st, x, hreply, htables⟩ | ⟨-, tokens, htables⟩
  · rwa [hsame] at hs
  · cases hreply
    rw [htables] at hs
    obtain ⟨row, hrow, rfl⟩ := hasSession_iff.mp hs
    have hdeleted : ∀ {p : UserSession → Bool}, row ∈ w.pg.tables.sessions.delete p →
        w.pg.tables.hasSession row.id = true :=
      fun hmem => hasSession_iff.mpr ⟨row, (Table.mem_delete.mp hmem).1, rfl⟩
    cases st with
    | insertSession s => exact absurd rfl hop
    | updateLastAccessed id at_ =>
      obtain ⟨old, hold, rfl⟩ := Table.mem_update.mp hrow
      refine hasSession_iff.mpr ⟨old, hold, ?_⟩
      split
      · rfl
      · rfl
    | deleteSession | deleteSessionsByUser | deleteSessionsByUserExcept | deleteUser =>
      exact hdeleted hrow
    | updateCredential c =>
      rw [Stmt.effect] at hs
      split at hs
      · exact hs
      · exact hs
    | _ => exact hs
  · rwa [htables] at hs

variable {R : Rules} {w₀ : World} {c c' : State}

theorem parented_of_run (hw : AtRest w₀) (run : Run (server env) R (Config.start w₀) c) :
    Parented c.moment.world.pg := by
  refine run.invariant (J := fun c : State => Parented c.moment.world.pg) (fun _ _ _ _ ih => ih)
    (fun _ _ _ _ _ _ _ _ _ ih _ _ _ he => ih.exec he) ⟨hw.rows, ?_⟩
  rintro i row ⟨x, hx, -⟩
  exact absurd (hx.symm.trans (hw.idle i)) nofun

theorem gone_of_run (run : Run (server env) interleaved (Config.start w₀) c)
    (run' : Run (server env) interleaved c c') (hs : c.moment.world.pg.tables.hasSession s = false)
    :
    c'.moment.world.pg.tables.hasSession s = false := by
  have huses : ∀ call, interleaved.admits call →
      ((server env).program call).Uses fun op => op.kind ≠ .openSession := by
    intro call hcall
    refine Prog.Uses.mono (uses_program (handler_uses env call)) fun op hop hkind => ?_
    have hnot : call.footprint.contains .openSession = false := (Bool.not_eq_true' _).mp hcall
    rw [Within, hkind, hnot] at hop
    cases hop
  refine run'.invariant (J := fun c : State => c.moment.world.pg.tables.hasSession s = false)
    (fun _ _ _ _ ih => ih) ?_ hs
  intro c₁ tid t op k ch r w run₁ ih ht hp _ he
  have hop := (run.trans run₁).uses huses (fun _ h => nomatch h) t (List.mem_of_getElem? ht)
  rw [hp] at hop
  refine Bool.eq_false_iff.mpr fun hback => ?_
  rw [hasSession_of_exec hop.1 he hback] at ih
  cases ih

/-! ## Grants insert before they commit -/

/-- The statements that end a transaction. -/
def ending : Op → Bool
  | .sql (.tx .commit) | .sql (.tx .rollback) => true
  | _ => false

/-- What a request has inserted is in its open transaction until it ends the transaction. -/
theorem hasInserted_of_run (run : Run (server env) R (Config.start w₀) c) {row : RefreshToken}
    (hrow : (⟨.sql (.tx (.insertRefreshToken row)), (.ok () : Except DbError Unit)⟩ : Reply Res) ∈
      c.moment.own i)
    (hopen : ∀ e ∈ c.moment.own i, ending e.1 = false) : c.moment.world.pg.HasInserted i row := by
  refine run.invariant (J := fun c : State =>
    (⟨.sql (.tx (.insertRefreshToken row)), (.ok () : Except DbError Unit)⟩ : Reply Res) ∈
        c.moment.own i → (∀ e ∈ c.moment.own i, ending e.1 = false) →
      c.moment.world.pg.HasInserted i row) (fun _ _ _ _ ih => ih) ?_ nofun hrow hopen
  intro c₁ tid t op k ch r w run₁ ih ht hp _ he
  change _ ∈ (c₁.moment.after tid op r w).own i → (∀ e ∈ (c₁.moment.after tid op r w).own i, _) → _
  by_cases hi : i = tid
  · subst hi
    rw [Moment.own_after_self]
    intro hmem hend
    rcases List.mem_append.mp hmem with hold | hnew
    · refine World.hasInserted_exec he
        (ih hold fun e h => hend e (List.mem_append_left _ h)) fun _ => ?_
      have hop := hend _ (List.mem_append_right _ (List.mem_singleton_self _))
      constructor
      · rintro rfl
        cases hop
      · rintro rfl
        cases hop
    · cases List.mem_singleton.mp hnew
      exact World.hasInserted_insert he
  · rw [Moment.own_after_of_ne hi]
    intro hmem hend
    exact World.hasInserted_exec he (ih hmem hend) fun h => absurd h hi

/-- A grant has inserted the refresh token of a session, and ends with a commit. -/
def Grants (es : Replies) (sessionId : Uuid) : Prop :=
  ∃ (before : Replies) (row : RefreshToken), es = before ++ [commitReply] ∧
    row.sessionId = sessionId ∧
    (⟨.sql (.tx (.insertRefreshToken row)), (.ok () : Except DbError Unit)⟩ : Reply Res) ∈ before ∧
    ∀ e ∈ before, ending e.1 = false

theorem not_ending_of_found {clientId : String} {es : Replies} {client : Client}
    (h : ClientFound env clientId es client) : ∀ e ∈ es, ending e.1 = false := by
  cases h with
  | cached snap => simp [ending]
  | stored miss row uris ttl filled hmiss => simp [ending]

theorem not_ending_of_issuing {op : Op} (h : op.issuing = true) : ending op = false := by
  unfold ending
  split
  · cases h
  · cases h
  · rfl

theorem grants_of_issue {user : User} {client : Client} {session : UserSession}
    {scope nonce request : Option String} {before issuing : Replies} {payload : TokenPayload}
    (hissued : Returns (TokenIssuer.issue env user client session scope nonce request).run issuing
      (.ok payload)) (hbefore : ∀ e ∈ before, ending e.1 = false) :
    Grants (before ++ issuing ++ [commitReply]) session.id ∧
      payload.accessToken.claims.get "sid" = some (.str (env.showUuid session.id)) := by
  obtain ⟨hbinds, ⟨raw, row, -, -, howner, -, -, hinsert⟩, hissuing⟩ := returns_issue hissued
  refine ⟨⟨_, row, rfl, congrArg (·.2.2) howner, List.mem_append_right _ hinsert, ?_⟩, hbinds.sid⟩
  intro e he
  rcases List.mem_append.mp he with he | he
  · exact hbefore e he
  · exact not_ending_of_issuing (hissuing e he)

/-- The tokens of a user grant are for a session, whose refresh token it has inserted. -/
theorem grants_of_granted {req : TokenRequest} {es : Replies} {payload : TokenPayload}
    (h : Granted env req es payload) (hgrant : ∃ g ∈ userGrants, req.grantType = some g) :
    ∃ s, Grants es s ∧
      payload.accessToken.claims.get "sid" = some (.str (env.showUuid s)) := by
  cases h with
  | code g _ hes hv =>
    rw [hes]
    refine ⟨g.session.id, grants_of_issue hv.issued (List.forall_mem_append.mpr
      ⟨not_ending_of_found hv.client.found, ?_⟩)⟩
    simp [ending, selected, beginReply]
  | refresh g _ hes hv =>
    rw [hes]
    refine ⟨g.session.id, grants_of_issue hv.issued (List.forall_mem_append.mpr
      ⟨not_ending_of_found hv.client.found, ?_⟩)⟩
    simp [ending, selected, beginReply]
  | device g _ hes hv =>
    rw [hes]
    refine ⟨g.session.id, grants_of_issue hv.issued ?_⟩
    rw [List.append_assoc, List.append_assoc]
    refine List.forall_mem_append.mpr ⟨not_ending_of_found hv.client.found, ?_⟩
    cases g.present with
    | true => simp [ending, selected, beginReply, consumedReplies]
    | false => simp [ending, selected, beginReply, consumedReplies]
  | credentials hother =>
    obtain ⟨g, hg, hreq⟩ := hgrant
    rw [Option.some.inj (hreq.symm.trans hother)] at hg
    exact absurd hg (by decide)

/-- A grant that commits later than a state has the row of its session in that state. -/
theorem hasSession_of_grants (hw : AtRest w₀)
    (run : Run (server env) interleaved (Config.start w₀) c)
    (run' : Run (server env) interleaved c c') (h : Grants (c'.moment.own i) s)
    (hlate : commitReply ∉ c.moment.own i) : c.moment.world.pg.tables.hasSession s = true := by
  obtain ⟨before, row, hown, rfl, hinsert, hopen⟩ := h
  have hmem : commitReply ∈ c'.moment.own i := by
    rw [hown]
    exact List.mem_append_right _ (List.mem_singleton_self _)
  obtain ⟨⟨j, op, r⟩, hx, rfl, hreply⟩ := Moment.mem_own.mp hmem
  rcases run'.executed hx with hearly | ⟨c₁, t, k, ch, w, run₁, ht, hp, -, he, run₂⟩
  · exact absurd (Moment.mem_own.mpr ⟨_, hearly, rfl, hreply⟩) hlate
  · -- at the commit the thread has received all replies but the last
    have hlast : c₁.moment.own j = before := by
      have hbefore : (c₁.moment.after j op r w).own j <+: c'.moment.own j := run₂.own_mono j
      dsimp only at hreply
      rw [Moment.own_after_self, hown, hreply] at hbefore
      rcases List.prefix_concat_iff.mp hbefore with heq | hshort
      · exact (List.append_inj' heq rfl).1
      · have hmem := hshort.subset (List.mem_append_right _ (List.mem_singleton_self _))
        exact absurd (hopen _ hmem) nofun
    have hrun := run.trans run₁
    rw [← hlast] at hinsert hopen
    have hparent := (parented_of_run hw hrun).inserted j row (hasInserted_of_run hrun hinsert hopen)
    by_contra hgone
    rw [gone_of_run run run₁ (Bool.eq_false_iff.mpr hgone)] at hparent
    cases hparent

end Proof

/-- Tokens never outlive the row of their session, whatever is deleted while they are issued. -/
theorem never_outlive (env : Env) (hinj : Function.Injective env.showUuid) :
    NeverOutlive env interleaved := by
  intro w hw c c' run run' s hgone
  constructor
  · rintro r hr rfl
    have hparent := (parented_of_run hw (run.trans run')).rows r hr
    rw [gone_of_run run run' hgone] at hparent
    cases hparent
  · intro i req payload hgrant hanswered hsid
    have hret := ((run.trans run').replayed (Config.start_replayed w)).returns hanswered
    rw [server_program, handler] at hret
    obtain ⟨s', hgrants, hsid'⟩ := grants_of_granted (returns_token hret) hgrant
    obtain rfl : s = s' := by
      have heq := Option.some.inj (hsid.symm.trans hsid')
      exact hinj (Json.str.inj heq)
    by_contra hlate
    rw [hasSession_of_grants hw run run' hgrants hlate] at hgone
    cases hgone

section Witness

open Scenario

/-- A refresh that has committed, and a deletion of its session. -/
def refreshThenDelete : List (Label Call Choice) :=
  [.spawn (.token (refreshRequest "refresh-a"))] ++ lookupClient 0 ++ steps 0 6 ++
    issueTokens 0 10 11 12 "refresh-b" ++ [.spawn (.deleteSession 2)] ++ steps 1 4

/-- The refresh token that was issued before the deletion is gone with the session. -/
theorem never_outlive_refreshThenDelete :
    ∃ c req payload, Run (server lawfulEnv) interleaved (Config.start refreshWorld) c ∧
      c.answered 0 (.token req) (.ok (.success payload)) ∧
      c.moment.world.pg.tables.hasSession 2 = false ∧ commitReply ∈ c.moment.own 0 ∧
      ∀ r ∈ c.moment.world.pg.tables.refreshTokens, r.sessionId ≠ 2 := by
  have hplay : (Config.start refreshWorld : State).reaches (server lawfulEnv) family succeeds
      refreshThenDelete (fun c => !c.moment.world.pg.tables.hasSession 2 &&
        (issued? c 0).any fun x => userGrants.any (fun g => x.1.grantType == some g) &&
          hasText (x.2.accessToken.claims.get "sid") (lawfulEnv.showUuid 2)) = true := by
    decide +kernel
  obtain ⟨c, run, hc⟩ := Config.run_of_reaches (R := interleaved) (fun _ hcall => hcall)
    (fun _ _ _ _ _ => trivial) hplay
  rw [Bool.and_eq_true, Bool.not_eq_true'] at hc
  obtain ⟨hgone, hissued⟩ := hc
  obtain ⟨⟨req, payload⟩, hissued, hx⟩ := (Option.any_eq_true _ _).mp hissued
  rw [Bool.and_eq_true, List.any_eq_true] at hx
  obtain ⟨⟨g, hg, hgrant⟩, hsid⟩ := hx
  have hanswered := answered_of_issued? hissued
  have hrest : AtRest refreshWorld := by
    refine ⟨fun r hr => ?_, fun _ => rfl⟩
    obtain rfl : r = refreshToken := List.mem_singleton.mp hr
    rfl
  have hinj : Function.Injective lawfulEnv.showUuid := fun u v h =>
    Option.some.inj ((lawfulEnv_parseUuid u).symm.trans
      ((congrArg lawfulEnv.parseUuid h).trans (lawfulEnv_parseUuid v)))
  obtain ⟨hrows, hcommitted⟩ := never_outlive lawfulEnv hinj refreshWorld hrest c c run (.refl c) 2
    hgone
  exact ⟨c, req, payload, run, hanswered, hgone,
    hcommitted 0 req payload ⟨g, hg, beq_iff_eq.mp hgrant⟩ hanswered (eq_of_hasText hsid), hrows⟩

end Witness

end Cascade

end AuthServer
