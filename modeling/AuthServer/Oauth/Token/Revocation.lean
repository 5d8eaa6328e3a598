import AuthServer.Oauth.Token.Evidence
import AuthServer.Store.Draws

/-!
# Revocation is final and touches one row

A client revokes a refresh token by its text: the row is looked up by its digest
and updated by its id, in two statements without a lock. Rows are never stored
twice under one id or one digest, so whatever comes between the two, the row that
is updated is the one that was found, and a row that has been revoked stays revoked
or is deleted: no later request refreshes with its token.
-/

namespace AuthServer

open Concurrent Discipline Handler Storage Evidence Ledger LogoutFlow RevokeFlow TokenFlow

namespace Revocation

/-- No transaction is open, and the ids and the tokens in use have been drawn before. -/
structure Started (env : Env) (w : World) : Prop extends Settled w where
  hashed : ∀ r ∈ w.pg.tables.refreshTokens, ∃ raw ∈ w.tokens, r.tokenHash = env.hmac raw

section Hashes

variable {α β : Type} {env : Env} {h : Handler α}

/-- The refresh tokens that a handler inserts have the digest of a text it has drawn. -/
def Hashes (env : Env) (h : Handler α) : Prop :=
  ∀ es row, Issues h.run es (.sql (.tx (.insertRefreshToken row))) →
    ∃ raw, (⟨.urlSafe 48, raw⟩ : Reply Res) ∈ es ∧ row.tokenHash = env.hmac raw

namespace Hashes

theorem of_uses (hu : h.Uses fun op => ∀ row, op ≠ .sql (.tx (.insertRefreshToken row))) :
    Hashes env h := fun _ row hi => absurd rfl (hi.uses hu.run row)

theorem pooled {ks : List Kind} (hf : Footprint h ks) (hks : ks.contains .tx = false) :
    Hashes env h := by
  refine of_uses (hf.uses.of_within ?_)
  rintro op hop row rfl
  rw [Within, show Op.kind _ = Kind.tx from rfl, hks] at hop
  cases hop

theorem pure (x : α) : Hashes env (pure x : Handler α) := of_uses (uses_pure x)

theorem query {q : Query} : Hashes env (query q) := of_uses (uses_query fun _ => nofun)

theorem tx {s : TxStmt} (hs : ∀ row, s ≠ .insertRefreshToken row) : Hashes env (tx s) :=
  of_uses (uses_tx fun row heq => hs row (by injection heq with heq; injection heq))

theorem bind {f : α → Handler β} (hh : Hashes env h) (hf : ∀ x, Hashes env (f x)) :
    Hashes env (h >>= f) := by
  intro es row hi
  rcases hi.of_bindE with hi | ⟨es₁, es₂, x, rfl, -, hi⟩
  · exact hh es row hi
  · obtain ⟨raw, hraw, hhash⟩ := hf x es₂ row hi
    exact ⟨raw, List.mem_append_right _ hraw, hhash⟩

theorem transaction {body : Handler (TxEnd α)} (hb : Hashes env body) :
    Hashes env (transaction body) := by
  unfold Handler.transaction
  refine bind (tx nofun) fun _ => bind (fun es row hi => ?_) fun r => ?_
  · rcases hi.of_bind with hi | ⟨es₁, es₂, x, rfl, -, hi⟩
    · exact hb es row hi
    · exact absurd hi Issues.not_pure
  · refine of_uses ?_
    split
    · exact uses_bind (uses_tx fun _ => nofun) fun _ => uses_pure _
    · exact uses_bind (uses_trySql fun _ => nofun) fun _ => uses_pure _
    · exact uses_bind (uses_trySql fun _ => nofun) fun _ => uses_throw _

end Hashes

variable {client : Client} {req : TokenRequest} {sessionId : Uuid}

theorem uses_family_hashes : (RefreshTokenRepository.revokeBySessionIdInTx sessionId).Uses fun op =>
    ∀ row, op ≠ .sql (.tx (.insertRefreshToken row)) :=
  RefreshTokenRepository.uses_family (fun _ => nofun) fun _ _ => nofun

theorem hashes_issue {user : User} {session : UserSession} {scope nonce request : Option String} :
    Hashes env (TokenIssuer.issue env user client session scope nonce request) := by
  unfold TokenIssuer.issue
  refine .bind (.pooled inferInstance rfl) fun roles => ?_
  refine .bind (.pooled inferInstance rfl) fun token => ?_
  intro es row hi
  obtain ⟨es₁, es₂, raw, rfl, hraw, hi⟩ := Footprint.uses.skip rfl hi
  obtain ⟨es₃, es₄, at_, rfl, -, hi⟩ := Footprint.uses.skip rfl hi
  obtain ⟨es₅, es₆, id, rfl, -, hi⟩ := Footprint.uses.skip rfl hi
  rcases hi.of_bindE with hi | ⟨es₇, es₈, x, rfl, -, hi⟩
  · have hrow := hi.uses (uses_tx rfl : (tx (.insertRefreshToken _)).Uses fun op => op = _).run
    cases hrow
    refine ⟨raw, List.mem_append_left _ ?_, rfl⟩
    rw [returns_perform.mp hraw]
    exact List.mem_singleton_self _
  · refine absurd (Issues.uses ?_ hi : Within [.read] _) nofun
    exact (Footprint.built : Footprint _ [.read]).uses.run

theorem hashes_token : Hashes env (token env req) := by
  unfold token fromAuthorizationCode fromDeviceCode
    fromRefreshToken rotate
  repeat' first
    | with_reducible first
      | exact .query | exact .pure _ | exact hashes_issue
      | exact .of_uses (uses_ignore uses_family_hashes) | exact .pooled inferInstance rfl
      | refine .bind ?_ fun _ => ?_ | refine .transaction ?_
    | exact .tx (by rintro _ ⟨⟩) | split | refine .bind ?_ fun _ => ?_ | dsimp only

theorem hashes_terminate : Hashes env (terminate env sessionId) := by
  unfold terminate
  refine .bind (.transaction (.bind (.of_uses uses_family_hashes) fun _ => .pure _)) fun _ => ?_
  exact .pooled ⟨uses_ignore (SessionRepository.uses_delete env _).uses⟩ rfl

theorem hashes_handler (call : Call) : Hashes env (handler env call) := by
  cases call with
  | token => exact hashes_token
  | logout =>
    unfold handler logout SessionRepository.findById
    refine .bind (.pooled inferInstance rfl) fun _ => .bind (.pooled inferInstance rfl) fun _ => ?_
    split
    · exact .pure _
    · refine .bind .query fun _ => .bind .query fun ids => ?_
      refine .bind (.pooled (uses_involvedClients ids) rfl) fun _ => ?_
      exact .bind hashes_terminate fun _ => .pure _
  | revokeSession =>
    unfold handler AdminResource.revokeSession
    refine .bind (.pooled inferInstance rfl) fun _ => ?_
    split
    · exact .pure _
    split
    · exact .pure _
    · exact .bind hashes_terminate fun _ => .pure _
  | _ => exact .pooled ⟨handler_uses env _⟩ rfl

end Hashes

/-! ## Rows and what they stem from -/

section Stems

variable {env : Env} {R : Rules} {w₀ : World} {c c' : State}
variable {a b r r' : RefreshToken} {i : Nat}
variable (hw : Started env w₀) (run : Run (server env) R (Config.start w₀) c)

theorem keys_of_revocation (h : a.revocation = b.revocation) :
    a.id = b.id ∧ a.tokenHash = b.tokenHash ∧ a.clientId = b.clientId := by
  simp only [RefreshToken.revocation, RefreshToken.mk.injEq] at h
  exact ⟨h.1, h.2.2.2.2.1, h.2.2.1⟩

/-- A row as it was when it was stored: at the start, or by a request. -/
def Stem (w₀ : World) (m : Instant) (a : RefreshToken) : Prop :=
  a ∈ w₀.pg.tables.refreshTokens ∨ ∃ i, m.Marked TxMark.of i (.inserted a)

theorem Stem.of_run (run : Run (server env) R c c') (h : Stem w₀ c.moment a) :
    Stem w₀ c'.moment a :=
  h.imp id fun ⟨i, e, he, hmark⟩ => ⟨i, e, run.trace_suffix.subset he, hmark⟩

/-- Every row after a command is one from before, up to its revocation, or one that the committed
transaction has inserted. -/
theorem rows_of_exec {tid : Nat} {op : Op} {ch : Choice} {w w' : World} {x : Res op}
    (he : World.exec env tid op ch w = some (x, w')) (hop : op.kind ≠ .unused)
    (htx : ∀ y, w.pg.tx? tid = some y → OpenTx.Revoking y.writes)
    (hr : r' ∈ w'.pg.tables.refreshTokens) :
    (∃ r ∈ w.pg.tables.refreshTokens, r.revocation = r'.revocation) ∨
      ∃ a, w.pg.HasInserted tid a ∧ a.revocation = r'.revocation := by
  by_cases hpool : op.kind = .tx
  · rcases World.exec_tables he with hsame | ⟨st, y, hreply, -⟩ | ⟨rfl, -⟩
    · exact .inl ⟨r', hsame ▸ hr, rfl⟩
    · cases hreply
      cases st with
      | updateRevoked id revoked => cases revoked <;> cases hpool
      | _ => cases hpool
    · obtain ⟨-, -, ⟨e, -, hpg⟩ | hst⟩ := World.exec_tx he
      · rw [hpg, (TxStmt.fail_frame TxStmt.commit).2] at hr
        exact .inl ⟨r', hr, rfl⟩
      · obtain ⟨y, hy, -, -, htables⟩ := TxStmt.exec_commit hst
        rw [htables] at hr
        split at hr
        · exact .inl ⟨r', hr, rfl⟩
        rcases OpenTx.mem_foldl_writes (htx y hy) hr with
          ⟨r, hr, heq | ⟨heq, -⟩⟩ | ⟨a, ha, heq | heq⟩
        · exact .inl ⟨r, hr, heq ▸ rfl⟩
        · exact .inl ⟨r, hr, heq ▸ rfl⟩
        · exact .inr ⟨a, ⟨y, hy, ha⟩, heq ▸ rfl⟩
        · exact .inr ⟨a, ⟨y, hy, ha⟩, heq ▸ rfl⟩
  · obtain ⟨-, -, hrec, -⟩ := exec_pooled ⟨hpool, hop⟩ he
    obtain ⟨r, hr, heq | heq⟩ := hrec.old r' hr
    · exact .inl ⟨r, hr, heq ▸ rfl⟩
    · exact .inl ⟨r, hr, heq ▸ rfl⟩

theorem insert_of_marked {op : Op} {x : Res op} (h : TxMark.of op x = some (.inserted a)) :
    op = .sql (.tx (.insertRefreshToken a)) := by
  unfold TxMark.of at h
  split at h
  all_goals cases h
  rfl

include run

/-- An inserted row has the digest of a token that its request has drawn. -/
theorem drawn_of_inserted (h : c.moment.Marked TxMark.of i (.inserted a)) :
    ∃ raw, c.moment.Marked Draw.texts.mark i raw ∧ a.tokenHash = env.hmac raw := by
  obtain ⟨⟨op, x⟩, he, hmark⟩ := Moment.marked_iff_own.mp h
  obtain rfl := insert_of_marked hmark
  obtain ⟨c₁, t, k, ch, w, run₁, ht, hp, -, -, run₂⟩ := run.executed_own he
  obtain ⟨raw, hraw, hhash⟩ := hashes_handler t.call _ _ (run₁.issues ht hp)
  refine ⟨raw, Moment.marked_iff_own.mpr ⟨⟨.urlSafe 48, raw⟩, ?_, rfl⟩, hhash⟩
  refine (run₂.own_mono i).subset (?_ : _ ∈ (c₁.moment.after i _ x w).own i)
  rw [Moment.own_after_self]
  exact List.mem_append_left _ hraw

include hw

theorem inv_of_run : (Ledger.of c.moment).Inv := (sound_of_settled hw.toSettled run).2.1

/-- Every row of a run has a stem. -/
theorem stem_of_run (hr : r ∈ rowsOf c) :
    ∃ a, Stem w₀ c.moment a ∧ a.revocation = r.revocation := by
  refine run.invariant (J := fun c : State => ∀ r ∈ rowsOf c, ∃ a, Stem w₀ c.moment a ∧
    a.revocation = r.revocation) (fun _ _ _ _ ih => ih) ?_ (fun r hr => ⟨r, .inl hr, rfl⟩) r hr
  intro c tid t op k ch x w run ih ht hp hal he r' hr'
  have step := Run.step (.refl c) ht hp hal he
  have hi := inv_of_run hw run
  rcases rows_of_exec he (used_of_run run ht hp) (fun y hy => (hi.writes tid y hy).1) hr' with
    ⟨r, hr, heq⟩ | ⟨a, ⟨y, hy, ha⟩, heq⟩
  · obtain ⟨a, ha, hsame⟩ := ih r hr
    exact ⟨a, ha.of_run step, hsame.trans heq⟩
  · exact ⟨a, Stem.of_run step (.inr ⟨tid, (hi.writes tid y hy).2.2 a ha⟩), heq⟩

/-- Stems that share their id or their digest are one, if digests keep texts apart. -/
theorem Stem.eq (ha : Stem w₀ c.moment a) (hb : Stem w₀ c.moment b)
    (h : a.id = b.id ∨ Function.Injective env.hmac ∧ a.tokenHash = b.tokenHash) : a = b := by
  have hi := inv_of_run hw run
  have hids := Draw.ids.fresh_of_run run
  have htexts := Draw.texts.fresh_of_run run
  -- a stored row has been drawn before the run, an inserted one in it
  have hnew : ∀ {a b : RefreshToken} {i}, a ∈ w₀.pg.tables.refreshTokens →
      c.moment.Marked TxMark.of i (.inserted b) →
      ¬ (a.id = b.id ∨ Function.Injective env.hmac ∧ a.tokenHash = b.tokenHash) := by
    rintro a b i ha hb (heq | ⟨hinj, heq⟩)
    · exact (hids.known i _ (hi.inserted_drawn i b hb)).2 (heq ▸ hw.known a ha)
    · obtain ⟨raw, hraw, hhash⟩ := drawn_of_inserted run hb
      obtain ⟨raw₀, hraw₀, hhash₀⟩ := hw.hashed a ha
      exact (htexts.known i _ hraw).2 (hinj (hhash.symm.trans (heq.symm.trans hhash₀)) ▸ hraw₀)
  rcases ha with ha | ⟨i, ha⟩
  · rcases hb with hb | ⟨j, hb⟩
    · exact Table.eq_of_clash ha hb (decide_eq_true (h.imp_right And.right))
    · exact absurd h (hnew ha hb)
  · rcases hb with hb | ⟨j, hb⟩
    · exact absurd (h.imp Eq.symm (And.imp_right Eq.symm)) (hnew hb ha)
    · obtain rfl : i = j := by
        rcases h with h | ⟨hinj, h⟩
        · exact hi.drawn_once i j _ (hi.inserted_drawn i a ha) (h ▸ hi.inserted_drawn j b hb)
        · obtain ⟨raw, hraw, hhash⟩ := drawn_of_inserted run ha
          obtain ⟨raw', hraw', hhash'⟩ := drawn_of_inserted run hb
          obtain rfl := hinj (hhash.symm.trans (h.trans hhash'))
          exact htexts.once i j _ hraw hraw'
      exact hi.inserted_one i a b ha hb

/-- Rows of different moments that share their id or their digest are one row, up to its
revocation. -/
theorem same_row (run' : Run (server env) R c c') (hr : r ∈ rowsOf c) (hr' : r' ∈ rowsOf c')
    (h : r.id = r'.id ∨ Function.Injective env.hmac ∧ r.tokenHash = r'.tokenHash) :
    r.revocation = r'.revocation := by
  obtain ⟨a, ha, heq⟩ := stem_of_run hw run hr
  obtain ⟨b, hb, heq'⟩ := stem_of_run hw (run.trans run') hr'
  have hsame : a = b := by
    refine Stem.eq hw (run.trans run') (ha.of_run run') hb
      (h.imp (fun h => ?_) (And.imp_right fun h => ?_))
    · exact (keys_of_revocation heq).1.trans (h.trans (keys_of_revocation heq').1.symm)
    · exact (keys_of_revocation heq).2.1.trans (h.trans (keys_of_revocation heq').2.1.symm)
  rw [← heq, ← heq', hsame]

end Stems

/-! ## The request -/

section Request

variable {env : Env} {es : Replies} {token clientId : String} {secret : Option String}

/-- The client that a request has found and authenticated. -/
def Authenticated (env : Env) (clientId : String) (secret : Option String) (es : Replies)
    (client : Client) : Prop :=
  ∃ lookup rest, es = lookup ++ rest ∧ ClientFound env clientId lookup client ∧
    client.enabled = true ∧ authenticateClient env client secret = true

/-- The reply to the lookup of a token. -/
def lookedUp (env : Env) (token : String) (row : Option RefreshToken) : Reply Res :=
  selected (.refreshTokenByHash (env.hmac token)) row

/-- A revocation that has succeeded has looked the token up, and has revoked it if it was an
unrevoked one of the client. -/
theorem returns_revoke
    (h : Returns (revoke env token clientId secret).run es (.ok .success)) :
    ∃ client row, Authenticated env clientId secret es client ∧ lookedUp env token row ∈ es ∧
      ∀ stored, row = some stored → stored.clientId = client.id → stored.revoked = false →
        (⟨.sql (.stmt (.updateRevoked stored.id true)), (.ok () : Except DbError Unit)⟩ :
          Reply Res) ∈ es := by
  unfold revoke at h
  obtain ⟨-, h₁⟩ := h.guard nofun
  obtain ⟨lookup, es₂, found, rfl, hfound, h₂⟩ := h₁.seq
  rcases found with _ | client
  · cases h₂.ret.2
  obtain ⟨henabled, h₃⟩ := h₂.guard nofun
  obtain ⟨hauth, h₄⟩ := h₃.guard nofun
  obtain ⟨es₃, es₄, row, rfl, hrow, h₅⟩ := h₄.seq
  rw [returns_sql hrow]
  refine ⟨client, row, ⟨lookup, _, rfl, returns_findByClientId hfound, by simpa using henabled,
    by simpa using hauth⟩, List.mem_append_right _ List.mem_cons_self, ?_⟩
  rintro stored rfl hclient hrev
  dsimp only at h₅
  rw [if_neg (not_not.mpr hclient), if_pos (by simp [hrev])] at h₅
  obtain ⟨es₅, es₆, _, rfl, hupdate, -⟩ := h₅.seq
  rw [returns_sql hupdate]
  exact List.mem_append_right _ (List.mem_cons_of_mem _ List.mem_cons_self)

theorem skip_reading {α β : Type} {p : Handler α} {f : α → Handler β} {op : Op}
    (hop : op.reading = false) (hu : p.Uses (Within [.read])) (hi : Issues (p >>= f).run es op) :
    ∃ es₁ es₂ a, es = es₁ ++ es₂ ∧ Returns p.run es₁ (.ok a) ∧ Issues (f a).run es₂ op :=
  Issues.skip hu.run (fun hw => Bool.noConfusion (hop.symm.trans (reading_of_within hw))) hi

/-- Apart from its lookups, a revocation only revokes the row it has found for its client. -/
theorem issues_revoke {op : Op} (hop : op.reading = false)
    (h : Issues (revoke env token clientId secret).run es op) :
    ∃ client stored, Authenticated env clientId secret es client ∧
      lookedUp env token (some stored) ∈ es ∧ stored.clientId = client.id ∧
      op = .sql (.stmt (.updateRevoked stored.id true)) := by
  unfold revoke at h
  split at h
  · exact absurd h Issues.not_pure
  obtain ⟨lookup, es₂, found, rfl, hfound, h₁⟩ := skip_reading hop Footprint.uses h
  rcases found with _ | client
  · exact absurd h₁ Issues.not_pure
  dsimp only at h₁
  split at h₁
  · exact absurd h₁ Issues.not_pure
  next henabled =>
  split at h₁
  · exact absurd h₁ Issues.not_pure
  next hauth =>
  obtain ⟨es₃, es₄, row, rfl, hrow, h₂⟩ := skip_reading hop (uses_query rfl) h₁
  rcases row with _ | stored
  · exact absurd h₂ Issues.not_pure
  dsimp only at h₂
  split at h₂
  · exact absurd h₂ Issues.not_pure
  next hclient =>
  split at h₂
  · rcases h₂.of_bindE with h₃ | ⟨es₅, es₆, x, -, -, h₃⟩
    · refine ⟨client, stored, ⟨lookup, _, rfl, returns_findByClientId hfound,
        by simpa using henabled, by simpa using hauth⟩, ?_, not_not.mp hclient, ?_⟩
      · rw [returns_sql hrow]
        exact List.mem_append_right _ List.mem_cons_self
      · have hsame :=
          h₃.uses (uses_stmt rfl : (stmt (.updateRevoked _ _)).Uses fun op => op = _).run
        exact hsame
    · exact absurd h₃ Issues.not_pure
  · exact absurd h₂ Issues.not_pure

end Request

/-! ## Whole runs -/

section Runs

variable {env : Env} {R : Rules} {w₀ : World} {c₁ c c' : State} {r : RefreshToken}
variable {token clientId : String} {secret : Option String} {i : Nat}

/-- What the lookup of a token returns is the row with its digest. -/
theorem row_of_lookedUp {ch : Choice} {w w' : World} {row : Option RefreshToken}
    (h : World.exec env i (lookedUp env token row).1 ch w = some ((lookedUp env token row).2, w')) :
    row = w.pg.tables.refreshTokens.find? fun r => r.tokenHash == env.hmac token := by
  obtain ⟨-, -, ⟨e, hr⟩ | hr⟩ := World.exec_query h
  · cases hr
  · exact Except.ok.inj hr

/-- The database with one refresh token revoked. -/
def revokeRow (pg : Postgres) (r : RefreshToken) : Postgres :=
  { pg with
    tables := { pg.tables with
      refreshTokens := pg.tables.refreshTokens.update (fun q => q.id == r.id)
        (RefreshToken.setRevoked true) } }

/-- Between two configurations Redis has not changed but for the cached clients, and Postgres not
but for the row with the digest of the token: if it belongs to the client that the request has
authenticated and was not revoked, it has been revoked. -/
def Framed (env : Env) (i : Nat) (token clientId : String) (secret : Option String) (c c' : State) :
    Prop :=
  c'.moment.world.redis = { c.moment.world.redis with clients := c'.moment.world.redis.clients } ∧
    (c'.moment.world.pg = c.moment.world.pg ∨
      ∃ client r, Authenticated env clientId secret (c.moment.own i) client ∧
        r ∈ rowsOf c ∧ r.tokenHash = env.hmac token ∧ r.clientId = client.id ∧
        r.revoked = false ∧ c'.moment.world.pg = revokeRow c.moment.world.pg r)

theorem find_of_marked {op : Op} {x : Res op} {p : RefreshToken}
    (h : TxMark.of op x = some (.found p)) : ∃ hash, (⟨op, x⟩ : Reply Res) =
      ⟨lookup hash, (.ok (some p) : Except DbError (Option RefreshToken))⟩ := by
  unfold TxMark.of at h
  split at h
  all_goals cases h
  exact ⟨_, rfl⟩

/-- The row that `FOR UPDATE` returns is stored. -/
theorem mem_of_found {c : State} {tid : Nat} {hash : String} {p : RefreshToken} {ch : Choice}
    {w : World}
    (hi : (Ledger.of (c.moment.after tid (lookup hash)
      (.ok (some p) : Except DbError (Option RefreshToken)) w)).Inv)
    (he : World.exec env tid (lookup hash) ch c.moment.world =
      some ((.ok (some p) : Except DbError (Option RefreshToken)), w)) :
    p ∈ w.pg.tables.refreshTokens := by
  obtain ⟨-, -, ⟨e, hr, -⟩ | hst⟩ := World.exec_tx he
  · cases hr
  obtain ⟨y, hy, ⟨-, hr, -⟩ | ⟨-, hfind⟩⟩ := Postgres.inTx_cases hst
  · cases hr
  obtain ⟨hr, -⟩ | ⟨row, -, -, -, hr, hpg⟩ := Postgres.findForUpdate_cases hfind
  · cases hr
  · cases hr
    refine (hi.held tid ((OpenTx.record [p.id] []).apply y) p ?_
      (Moment.marked_after.mpr (.inl ⟨rfl, rfl⟩))).1
    change w.pg.tx? tid = _
    rw [hpg, Postgres.tx?_record, if_pos rfl, hy]
    rfl

variable (hw : Started env w₀)

include hw

theorem frame_of_run (run : Run (server env) R (Config.start w₀) c) {op : Op}
    (hreq : c.requested i (.revoke token clientId secret)) (he : Executes env i op c c') :
    Framed env i token clientId secret c c' := by
  obtain ⟨t, k, ch, x, w, ht, hp, hexec, rfl⟩ := he
  obtain ⟨born, p, hthread⟩ := hreq
  obtain rfl := Option.some.inj (ht.symm.trans hthread)
  have hissues := run.issues ht hp
  rw [server_program, handler] at hissues
  by_cases hread : op.reading = true
  · obtain ⟨hpg, hredis⟩ := World.exec_reading hread hexec
    exact ⟨hredis, .inl hpg⟩
  obtain ⟨client, stored, hauth, hlooked, hclient, rfl⟩ :=
    issues_revoke (Bool.eq_false_iff.mpr hread) hissues
  obtain ⟨hredis, hst⟩ := World.exec_stmt hexec
  refine ⟨by rw [show (c.advance i _ _ x w (k x)).moment.world = w from rfl, hredis], ?_⟩
  change w.pg = _ ∨ _
  rcases hst with ⟨-, hpg⟩ | hst
  · exact .inl hpg
  rcases Stmt.exec_effect hst with ⟨-, hpg⟩ | ⟨-, hpg⟩
  · exact .inl hpg
  -- the row was found at an earlier moment; if it is still there, it is the same row
  obtain ⟨c₁, c₂, ch₁, run₁, step, run₂, -, hexec₁⟩ := executed_later run rfl hlooked
  obtain ⟨hstored, hhash⟩ := Table.mem_of_find? (row_of_lookedUp hexec₁).symm
  by_cases hlive : ∃ r ∈ rowsOf c, r.id = stored.id ∧ r.revoked = false
  · obtain ⟨r, hr, hid, hrev⟩ := hlive
    obtain ⟨-, hsame, howner⟩ :=
      keys_of_revocation (same_row hw run₁ (step.trans run₂) hstored hr (.inl hid.symm))
    refine .inr ⟨client, r, hauth, hr, ?_, howner.symm.trans hclient, hrev, ?_⟩
    · exact hsame.symm.trans (beq_iff_eq.mp hhash)
    · rw [revokeRow, hid]
      exact hpg
  · rw [hpg, Stmt.effect, Table.update_eq_self]
    · exact .inl rfl
    · intro r hr hid
      have hrev : r.revoked = true := by
        by_contra hrev
        exact hlive ⟨r, hr, beq_iff_eq.mp hid, Bool.eq_false_iff.mpr hrev⟩
      exact RefreshToken.revocation_of_revoked hrev

variable (run₁ : Run (server env) R (Config.start w₀) c₁) (run : Run (server env) R c₁ c)

include run₁ run

/-- A dead row stays dead. -/
theorem dead_of_run {id : Uuid} (h : Dead id (Ledger.of c₁.moment)) :
    Dead id (Ledger.of c.moment) := by
  refine (sound_of_settled hw.toSettled run₁).preserves meets run ?_ h
  rintro _ _ ⟨_, _, _, hg⟩ hdead
  exact hg.dead hdead

/-- A row that was there before a revocation that has succeeded is dead afterwards, if it has the
digest of the token and belongs to the client. -/
theorem dead_of_answered (hfresh : c₁.moment.own i = []) (hr : r ∈ rowsOf c₁)
    (hhash : r.tokenHash = env.hmac token)
    (ha : c.answered i (.revoke token clientId secret) (.ok .success))
    (hclient : ∀ client, Authenticated env clientId secret (c.moment.own i) client →
      r.clientId = client.id) : Dead r.id (Ledger.of c.moment) := by
  have hs := sound_of_settled hw.toSettled run₁
  have hret := ((run₁.trans run).replayed (Config.start_replayed w₀)).returns ha
  rw [server_program, handler] at hret
  obtain ⟨client, row, hauth, hlooked, hupdate⟩ := returns_revoke hret
  -- from a moment at which every row with the id is revoked
  have hdead : ∀ {c₂ : State}, Run (server env) R c₁ c₂ → Run (server env) R c₂ c →
      (∀ q ∈ rowsOf c₂, q.id = r.id → q.revoked = true) → Dead r.id (Ledger.of c.moment) := by
    intro c₂ run₂ run₃ hrev
    have hspent : Spent r.id (Ledger.of c₂.moment) := by
      refine hs.preserves meets run₂ ?_ (hs.2.1.row_known r hr)
      rintro _ _ ⟨_, _, _, hg⟩ h
      exact hg.spent h
    exact dead_of_run hw (run₁.trans run₂) run₃ ⟨hspent.1, hspent.2, hrev⟩
  obtain ⟨c₂, c₃, ch, run₂, step, run₃, -, hexec⟩ := executed_later run hfresh hlooked
  have hfind := row_of_lookedUp hexec
  by_cases hall : ∀ q ∈ rowsOf c₂, q.id = r.id → q.revoked = true
  · exact hdead run₂ (step.trans run₃) hall
  · -- the lookup has found the row, unrevoked
    push Not at hall
    obtain ⟨q, hq, hid, hrev⟩ := hall
    obtain ⟨-, hqhash, howner⟩ :=
      keys_of_revocation (same_row hw run₁ run₂ hr hq (.inl hid.symm))
    have hrow : row = some q := by
      rw [hfind, ← hhash, hqhash]
      exact find?_hash hq
    have hmem := hupdate q hrow (howner.symm.trans (hclient client hauth))
      (Bool.eq_false_iff.mpr hrev)
    obtain ⟨c₄, c₅, ch', run₄, step', run₅, -, hexec'⟩ := executed_later run hfresh hmem
    refine hdead (run₄.trans step') run₅ fun p hp hpid => ?_
    have htables := congrArg Tables.refreshTokens (World.exec_stmt_ok hexec')
    rw [rowsOf, htables] at hp
    obtain ⟨p₀, -, rfl⟩ := Table.mem_update.mp hp
    split at hpid
    · next hp₀ => rw [if_pos hp₀]; rfl
    · next hp₀ => exact absurd (beq_iff_eq.mpr (hpid.trans hid.symm)) hp₀

/-- A request that comes after a row has died does not refresh with its token. -/
theorem not_refreshed (hinj : Function.Injective env.hmac) (run' : Run (server env) R c c')
    (hr : r ∈ rowsOf c₁) (hhash : r.tokenHash = env.hmac token)
    (hdead : Dead r.id (Ledger.of c.moment))
    {j : Nat} (hj : c.threads.length ≤ j) {req : TokenRequest}
    (hgrant : req.grantType = some "refresh_token") (htoken : req.refreshToken = some token)
    (payload : TokenPayload) :
    ¬ c'.answered j (.token req) (.ok (.success payload)) := by
  intro ha
  have run₂ := run₁.trans run
  have hs := sound_of_settled hw.toSettled run₂
  have hs' := sound_of_settled hw.toSettled (run₂.trans run')
  obtain ⟨p, d, ⟨-, hfound⟩, ⟨hp, hd, -⟩, hphash⟩ :=
    (noFork_of_sound hs').redeems j req payload ha hgrant
  have hlive : p.revoked = false := (hs'.2.1.passed_on j p d hp hd).1
  obtain ⟨⟨op, x⟩, he, hmark⟩ := Moment.marked_iff_own.mp hfound
  obtain ⟨hash, hreply⟩ := find_of_marked hmark
  cases hreply
  -- the lookup came after the row had died
  have hfresh : c.moment.own j = [] := Moment.own_of_lt fun e he => (hs.1 e he).trans_le hj
  obtain ⟨c₂, c₃, ch, run₃, step, -, hmoment, hexec⟩ := executed_later run' hfresh he
  have hi := inv_of_run hw (run₂.trans (run₃.trans step))
  rw [hmoment] at hi
  have hmem : p ∈ rowsOf c₃ := mem_of_found hi hexec
  have hid := (keys_of_revocation (same_row hw run₁ (run.trans (run₃.trans step)) hr hmem
    (.inr ⟨hinj, hhash.trans (by rw [hphash, htoken]; rfl)⟩))).1
  have hgone := dead_of_run hw run₂ (run₃.trans step) hdead
  rw [hgone.2.2 p hmem hid.symm] at hlive
  cases hlive

end Runs

/-- A revocation touches one row, and it is final. -/
structure RevocationFinal (env : Env) (R : Rules) : Prop where
  /-- Each step of a revocation changes at most the row of its token and its client. -/
  frame : ∀ w c c' i op token clientId secret, Started env w →
    Run (server env) R (Config.start w) c → c.requested i (.revoke token clientId secret) →
    Executes env i op c c' → Framed env i token clientId secret c c'
  /-- Once it has answered success for a token of its client that was there when it began, no
  request that arrives later refreshes with that token, unless digests collide. -/
  final : ∀ w c₁ c c' i j token clientId secret r req payload, Function.Injective env.hmac →
    Started env w → Run (server env) R (Config.start w) c₁ → Run (server env) R c₁ c →
    Run (server env) R c c' → c₁.moment.own i = [] → r ∈ rowsOf c₁ →
    r.tokenHash = env.hmac token →
    c.answered i (.revoke token clientId secret) (.ok .success) →
    (∀ client, Authenticated env clientId secret (c.moment.own i) client → r.clientId = client.id) →
    c.threads.length ≤ j → req.grantType = some "refresh_token" → req.refreshToken = some token →
    ¬ c'.answered j (.token req) (.ok (.success payload))

/-- Revocation is final and touches nothing else, in any interleaving of all requests and whatever
fails. -/
theorem revocation_final (env : Env) (R : Rules) : RevocationFinal env R where
  frame _ _ _ _ _ _ _ _ hw run hreq he := frame_of_run hw run hreq he
  final _ _ _ _ _ _ _ _ _ _ _ payload hinj hw run₁ run run' hfresh hr hhash ha hclient hj hgrant
      htoken :=
    not_refreshed hw run₁ run hinj run' hr hhash
      (dead_of_answered hw run₁ run hfresh hr hhash ha hclient) hj hgrant htoken payload

end Revocation

end AuthServer
