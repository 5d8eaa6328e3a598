import AuthServer.Client.Lookup
import AuthServer.Oauth.Token.Cascade
import AuthServer.Oauth.Token.Lineage

/-!
# Revoked refresh tokens as evidence

A replayed refresh token is recognised by its row. No statement takes a revocation back, the
cascades delete a row only together with a row it refers to, and the sweep deletes what had expired
before it began.
-/

namespace AuthServer

open Concurrent Discipline Handler Storage TxStmt Ledger

namespace Evidence

/-- No transaction is open, and the ids in use have been drawn before. -/
structure Settled (w : World) : Prop where
  idle : ∀ i, w.pg.tx? i = none
  known : ∀ r ∈ w.pg.tables.refreshTokens, r.id ∈ w.uuids

/-- The `expires_at` of a refresh token has not passed. -/
def Unexpired (r : RefreshToken) (c : State) : Prop :=
  ∀ e, r.expiresAt = some e → c.moment.world.now ≤ e

/-- The row of the refresh token as the grants look it up. -/
def lookup (hash : String) : Op := .sql (.tx (.findForUpdate hash))

variable (env : Env) (R : Rules)

/-- The session, the user and the client of a refresh token are there from one configuration to
another one. -/
def Rooted (c c' : State) (r : RefreshToken) : Prop :=
  ∀ c₁, Run (server env) R c c₁ → Run (server env) R c₁ c' → Parents c₁.moment.world.pg.tables r

/-- A request executes a command. -/
def Executes (tid : Nat) (op : Op) (c c' : State) : Prop :=
  ∃ t k ch r w, c.threads[tid]? = some t ∧ t.prog = .call op k ∧
    World.exec env tid op ch c.moment.world = some (r, w) ∧ c' = c.advance tid t op r w (k r)

/-- The client of a request has not been authenticated. -/
def ClientRefused (req : TokenRequest) (es : Replies) : Prop :=
  ∃ es₁ es₂ a, es = es₁ ++ es₂ ∧
    Returns (TokenFlow.requireClient env (req.clientId.getD "") req.clientSecret).run es₁
      (.ok (.error a))

/-- The answer to a replayed refresh token. -/
def reuseDetected : TokenResult :=
  .error "invalid_grant" "Refresh token revoked — session terminated"

/-- What is kept of a refresh token that has been revoked. -/
structure EvidenceKept : Prop where
  /-- A revoked row stays until it expires or loses its session, its user or its client. -/
  kept : ∀ w c c' r, Settled w → Run (server env) R (Config.start w) c → Run (server env) R c c' →
    r ∈ Ledger.rowsOf c → r.revoked = true → Unexpired r c' → Rooted env R c c' r →
    r ∈ Ledger.rowsOf c'
  /-- A row that has been rotated is revoked and stays as long. -/
  rotated : ∀ w c i p d, Settled w → Run (server env) R (Config.start w) c →
    (Ledger.of c.moment).Rotated i p d → Unexpired p c →
    (∀ c₁, Run (server env) R (Config.start w) c₁ → Run (server env) R c₁ c →
      (Ledger.of c₁.moment).Rotated i p d → Parents c₁.moment.world.pg.tables p) →
    { p with revoked := true } ∈ Ledger.rowsOf c
  /-- Whoever presents its token until then, with valid client authentication, is told that the
  session has been terminated. -/
  replayed : ∀ w c c' r tid req a, Settled w → Run (server env) R (Config.start w) c →
    Run (server env) R c c' → r ∈ Ledger.rowsOf c → r.revoked = true →
    req.grantType = some "refresh_token" → req.refreshToken.getD "" ≠ "" →
    req.clientId.getD "" ≠ "" → env.hmac (req.refreshToken.getD "") = r.tokenHash →
    (∀ e ∈ c.moment.own tid, e.1 ≠ lookup r.tokenHash) →
    (∀ c₁ c₂, Run (server env) R c c₁ → Executes env tid (lookup r.tokenHash) c₁ c₂ →
      Run (server env) R c₂ c' → Unexpired r c₁ ∧ Rooted env R c c₁ r) →
    c'.answered tid (.token req) (.ok a) → ¬ ClientRefused env req (c'.moment.own tid) →
    a = reuseDetected

end Evidence

open Evidence

variable {env : Env} {R : Rules}

/-! ## One command -/

/-- The row as it is after it has been revoked. -/
def RefreshToken.revocation (r : RefreshToken) : RefreshToken := { r with revoked := true }

variable {r : RefreshToken} {t : Table RefreshToken}

theorem RefreshToken.revocation_of_revoked (h : r.revoked = true) :
    r.revocation = r := (congrArg (fun b => { r with revoked := b }) h).symm

/-- A row stays in the table, as it is or revoked. -/
def Stays (r : RefreshToken) (t : Table RefreshToken) : Prop := r ∈ t ∨ r.revocation ∈ t

theorem Stays.mem (h : Stays r t) (hrev : r.revoked = true) : r ∈ t := by
  rcases h with h | h
  · exact h
  · rwa [RefreshToken.revocation_of_revoked hrev] at h

theorem Stays.update (h : Stays r t) (p : RefreshToken → Bool)
    : Stays r (t.update p (RefreshToken.setRevoked true)) := by
  rcases h with h | h
  · by_cases hp : p r = true
    · exact .inr (Table.mem_update.mpr ⟨r, h, if_pos hp⟩)
    · exact .inl (Table.mem_update.mpr ⟨r, h, if_neg hp⟩)
  · refine .inr (Table.mem_update.mpr ⟨_, h, ?_⟩)
    split
    · rfl
    · rfl

theorem Stays.delete {p : RefreshToken → Bool} (h : Stays r t) (hp : p r = false)
    (hp' : p r.revocation = false) : Stays r (t.delete p) := by
  rcases h with h | h
  · exact .inl (Table.mem_delete.mpr ⟨h, hp⟩)
  · exact .inr (Table.mem_delete.mpr ⟨h, hp'⟩)

/-- What a transaction that only revokes and inserts does to a row. -/
theorem Stays.writes {ws : List Write} (h : Stays r t) (hw : OpenTx.Revoking ws)
    : Stays r (ws.foldl Write.apply t) := by
  induction ws generalizing t with
  | nil => exact h
  | cons w ws ih =>
    refine ih ?_ fun id hid => hw id (List.mem_cons_of_mem _ hid)
    cases w with
    | insert c =>
      rw [Write.apply]
      cases hins : t.insert c with
      | none => exact h
      | some t' =>
        exact h.imp (fun h => (Table.mem_insert hins).mpr (.inl h))
          fun h => (Table.mem_insert hins).mpr (.inl h)
    | setRevoked id revoked =>
      cases revoked with
      | false => exact absurd List.mem_cons_self (hw id)
      | true => exact h.update _

section Steps

variable {r : RefreshToken} {t : Tables}

/-- A refresh token whose session stays is not among those that go with the deleted sessions. -/
theorem kept_with_session {p : UserSession → Bool} {t' : Tables}
    (hs : t'.hasSession r.sessionId = true) (ht : t'.sessions = t.sessions.delete p) :
    ((t.sessions.select p).map UserSession.id).contains r.sessionId = false := by
  obtain ⟨s, hs, hid⟩ := Cascade.hasSession_iff.mp hs
  rw [ht] at hs
  obtain ⟨hmem, hp⟩ := Table.mem_delete.mp hs
  refine Bool.eq_false_iff.mpr fun hc => ?_
  obtain ⟨s', hs', hid'⟩ := List.mem_map.mp (List.contains_iff_mem.mp hc)
  obtain ⟨hmem', hp'⟩ := Table.mem_select.mp hs'
  have heq : s = s' := Table.eq_of_clash hmem hmem' (by simp [Keyed.clash, hid, hid'])
  rw [heq, hp'] at hp
  cases hp

/-- A parent that is still there is not the deleted one. -/
theorem kept_with_parent {α : Type} [Storage.Keyed α] {parents : Table α} {key : α → Uuid} {id id' : Uuid}
    (h : ((parents.delete fun x => key x == id).rows.any fun x => key x == id') = true) :
    (id' == id) = false := by
  obtain ⟨x, hx, hid⟩ := List.any_eq_true.mp h
  rw [← beq_iff_eq.mp hid]
  exact (Table.mem_delete.mp hx).2

/-- What keeps a row from the cascades: its session and its client, and its user or a session of
the user. -/
structure Anchored (t : Tables) (r : RefreshToken) : Prop where
  session : t.hasSession r.sessionId = true
  client : t.hasClient r.clientId = true
  user : t.hasUser r.userId = true ∨ ∃ s ∈ t.sessions, s.userId = r.userId

theorem Anchored.of_parents (h : Parents t r) : Anchored t r := ⟨h.session, h.client, .inl h.user⟩

/-- A statement on the pool leaves a row that is anchored, unless it expired before a sweep. -/
theorem Stays.effect {st : Stmt} {now : NaiveDateTime} (h : Stays r t.refreshTokens)
    (hst : st.kind ≠ .unused) (hp : Anchored (st.effect now t) r)
    (hsweep : ∀ cutoff, st = .sweepRefreshTokens cutoff → ∀ e, r.expiresAt = some e → cutoff ≤ e) :
    Stays r (st.effect now t).refreshTokens := by
  have hends : ∀ p : UserSession → Bool, (Stmt.effect.endSessions t p).hasSession r.sessionId = true →
      Stays r (Stmt.effect.endSessions t p).refreshTokens := fun p hs =>
    h.delete (kept_with_session hs rfl) (kept_with_session hs rfl)
  cases st with
  | revokeBySession | revokeByUser | revokeByUserExcept => exact h.update _
  | updateRevoked id revoked =>
    cases revoked with
    | false => exact absurd rfl hst
    | true => exact h.update _
  | deleteSession | deleteSessionsByUser | deleteSessionsByUserExcept => exact hends _ hp.session
  | deleteUser id =>
    have hdoomed : (r.userId == id || ((t.sessions.select fun s => s.userId == id).map
        UserSession.id).contains r.sessionId) = false := by
      rw [kept_with_session hp.session rfl, Bool.or_false]
      rcases hp.user with huser | ⟨s, hs, hown⟩
      · exact kept_with_parent huser
      · rw [← hown]
        exact (Table.mem_delete.mp hs).2
    exact h.delete hdoomed hdoomed
  | deleteClient id =>
    have hclient : (r.clientId == id) = false := kept_with_parent hp.client
    exact h.delete hclient hclient
  | sweepRefreshTokens cutoff =>
    have hlive : (r.expiresAt.any fun e => decide (e < cutoff)) = false := by
      cases he : r.expiresAt with
      | none => rfl
      | some e => exact decide_eq_false (not_lt.mpr (hsweep cutoff rfl e he))
    exact h.delete hlive hlive
  | updateCredential c =>
    rw [Stmt.effect]
    split
    · exact h
    · exact h
  | _ => exact h

/-- A commit of a transaction that only revokes and inserts leaves every row. -/
theorem Stays.commit {tid : Nat} {ch : Choice} {w w' : World} {x : Except DbError Unit}
    (h : Stays r w.pg.tables.refreshTokens)
    (he : World.exec env tid (.sql (.tx .commit)) ch w = some (x, w'))
    (htx : ∀ y, w.pg.tx? tid = some y → OpenTx.Revoking y.writes) :
    Stays r w'.pg.tables.refreshTokens := by
  obtain ⟨-, -, ⟨e, -, hpg⟩ | hst⟩ := World.exec_tx he
  · rw [hpg, (TxStmt.fail_frame TxStmt.commit).2]
    exact h
  · obtain ⟨y, hy, -, -, htables⟩ := TxStmt.exec_commit hst
    rw [htables]
    split
    · exact h
    · exact h.writes (htx y hy)

/-- Every command leaves such a row. -/
theorem Stays.exec {tid : Nat} {op : Op} {ch : Choice} {w w' : World} {x : Res op}
    (h : Stays r w.pg.tables.refreshTokens) (he : World.exec env tid op ch w = some (x, w'))
    (hop : op.kind ≠ .unused) (htx : ∀ y, w.pg.tx? tid = some y → OpenTx.Revoking y.writes)
    (hp : Anchored w'.pg.tables r)
    (hsweep : ∀ cutoff, op = .sql (.stmt (.sweepRefreshTokens cutoff)) →
      ∀ e, r.expiresAt = some e → cutoff ≤ e) : Stays r w'.pg.tables.refreshTokens := by
  rcases World.exec_tables he with hsame | ⟨st, y, hreply, htables⟩ | ⟨rfl, -⟩
  · rwa [hsame]
  · cases hreply
    rw [htables] at hp ⊢
    exact h.effect hop hp fun cutoff hst => hsweep cutoff (hst ▸ rfl)
  · exact h.commit he htx

end Steps

/-! ## Runs -/

section Runs

variable {w₀ : World} {c c' : State} {r : RefreshToken}

/-- The clock does not go back. -/
theorem World.now_mono (run : Run (server env) R c c') :
    c.moment.world.now ≤ c'.moment.world.now := by
  refine run.invariant (J := fun c₁ : State => c.moment.world.now ≤ c₁.moment.world.now)
    (fun _ _ _ _ h => h) ?_ le_rfl
  intro c₁ tid t op k ch r w _ h _ _ _ hexec
  refine Int.le_trans h ?_
  change c₁.moment.world.now ≤ w.now
  rw [World.now_exec hexec]
  exact Int.le_add_of_nonneg_right (Int.natCast_nonneg _)

theorem sound_of_settled (hw : Settled w₀) (run : Run (server env) R (Config.start w₀) c) :
    Sound discipline (server env) R (spec env) c :=
  ((Sound.start (inv_start hw.idle hw.known)).run meets run).1

theorem sweep_of_footprint {call : Call} (h : call.footprint.contains .sweep = true) :
    call = .sweep := by
  cases call with
  | sweep => rfl
  | _ => cases h

variable {tid : Nat} {ch : Choice} {op : Op} {p d : RefreshToken}

/-- A sweep deletes what had expired when it began. -/
theorem cutoff_le_now (run : Run (server env) R (Config.start w₀) c) {t : Thread Res World Ret}
    {cutoff : NaiveDateTime} {k} (ht : c.threads[tid]? = some t)
    (hp : t.prog = .call (.sql (.stmt (.sweepRefreshTokens cutoff))) k) :
    cutoff ≤ c.moment.world.now := by
  have hissues := run.issues ht hp
  have hkind : Within t.call.footprint _ := hissues.uses (uses_program (handler_uses env t.call))
  rw [sweep_of_footprint hkind, server_program, handler, sweepOnce] at hissues
  have hclock : now.Uses fun op => op = .now := uses_perform rfl
  have hother : Op.sql (.stmt (.sweepRefreshTokens cutoff)) ≠ .now := by
    rintro ⟨⟩
  obtain ⟨es₁, es₂, at_, hown, hnow, hissues⟩ := Issues.skip hclock.run hother hissues
  obtain rfl : cutoff = at_ := by
    have hstmt : (stmt (.sweepRefreshTokens at_)).Uses fun op =>
        op = .sql (.stmt (.sweepRefreshTokens at_)) := uses_stmt rfl
    have hsame := hissues.uses hstmt.run
    injection hsame with hsame
    injection hsame with hsame
    injection hsame
  have hread : (⟨.now, cutoff⟩ : Reply Res) ∈ c.moment.own tid := by
    rw [hown, returns_perform.mp hnow]
    exact List.mem_cons_self
  obtain ⟨c₁, t₁, k₁, ch, w, -, -, -, -, hexec, run₁⟩ := run.executed_own hread
  obtain ⟨hcutoff, hworld⟩ := Prod.mk.inj (Option.some.inj hexec)
  have hlater : w.now ≤ c.moment.world.now := World.now_mono run₁
  rw [← hworld] at hlater
  rwa [← hcutoff]

/-- A revoked row stays until it expires or loses a parent. -/
theorem mem_rows_of_run (hw : Settled w₀) (run₀ : Run (server env) R (Config.start w₀) c)
    (run : Run (server env) R c c') (hr : r ∈ rowsOf c) (hrev : r.revoked = true)
    (hlive : Unexpired r c') (hroot : Rooted env R c c' r) : r ∈ rowsOf c' := by
  refine run.invariant (J := fun c₁ : State => Unexpired r c₁ → Rooted env R c c₁ r →
    r ∈ rowsOf c₁) (fun c₁ call run₁ ha ih hlive hroot => ?_) ?_ (fun _ _ => hr) hlive hroot
  · exact ih hlive fun c₂ run₂ run₃ => hroot c₂ run₂ (.spawn run₃ ha)
  · intro c₁ tid t op k ch x w run₁ ih ht hp ha he hlive hroot
    have hstep : Run (server env) R c₁ (c₁.advance tid t op x w (k x)) := .step (.refl c₁) ht hp ha he
    have hnow := World.now_mono hstep
    have hold : r ∈ rowsOf c₁ := ih (fun e hexp => Int.le_trans hnow (hlive e hexp))
      fun c₂ run₂ run₃ => hroot c₂ run₂ (run₃.trans hstep)
    have hkind : op.kind ≠ .unused := fun hkind => by
      have hwithin : Within t.call.footprint op :=
        ((run₀.trans run₁).issues ht hp).uses (uses_program (handler_uses env t.call))
      rw [Within, hkind, footprint_unused] at hwithin
      cases hwithin
    refine Stays.mem (Stays.exec (.inl hold) he hkind
      (fun y hy => ((sound_of_settled hw (run₀.trans run₁)).2.1.writes tid y hy).1)
      (.of_parents (hroot _ (run₁.trans hstep) (.refl _))) fun cutoff hop e hexp => ?_) hrev
    subst hop
    exact Int.le_trans (cutoff_le_now (run₀.trans run₁) ht hp) (Int.le_trans hnow (hlive e hexp))

/-- A row is found by its digest. -/
theorem find?_hash (hr : r ∈ t) : (t.find? fun q => q.tokenHash == r.tokenHash) = some r := by
  refine (Table.find?_eq_some fun a b ha hb => ?_).mpr ⟨hr, beq_self_eq_true r.tokenHash⟩
  simp only [beq_iff_eq] at ha hb
  simp [Keyed.clash, ha, hb]

/-- The lookup of a revoked row finds it, whatever the transaction has written. -/
theorem lookup_revoked {w w' : World} {row : Option RefreshToken}
    (h : World.exec env tid (lookup r.tokenHash) ch w =
      some ((.ok row : Except DbError (Option RefreshToken)), w'))
    (htx : ∀ y, w.pg.tx? tid = some y → OpenTx.Revoking y.writes)
    (hr : r ∈ w.pg.tables.refreshTokens) (hrev : r.revoked = true) : row = some r := by
  obtain ⟨-, -, ⟨e, he, -⟩ | hst⟩ := World.exec_tx h
  · cases he
  · obtain ⟨y, hy, ⟨-, he, -⟩ | ⟨-, hfind⟩⟩ := Postgres.inTx_cases hst
    · cases he
    · have hseen : r ∈ y.view w.pg.tables.refreshTokens := (Stays.writes (.inl hr) (htx y hy)).mem hrev
      rw [Postgres.findForUpdate, find?_hash hseen] at hfind
      dsimp only at hfind
      split at hfind
      · cases hfind
      · obtain ⟨hrow, -⟩ := Prod.mk.inj (Option.some.inj hfind)
        exact (Except.ok.inj hrow).symm

/-- The body of a transaction has ended with its value. -/
theorem returns_body {α : Type} {body : Handler (TxEnd α)} {es : Replies} {a : α}
    (h : Returns (transaction body).run es (.ok a)) :
    ∃ es' x, (∀ e ∈ es', e ∈ es) ∧ Returns body.run es' (.ok x) ∧ (x = .commit a ∨ x = .drop a) := by
  obtain ⟨es', ⟨rfl, hbody⟩ | ⟨r, rfl, hbody⟩⟩ := returns_transaction h
  · exact ⟨es', _, fun e he => by simp [he], hbody, .inl rfl⟩
  · exact ⟨es', _, fun e he => by simp [he], hbody, .inr rfl⟩

/-- A refresh that names a token and a client is refused for the client, or it has looked the token
up; a revoked row is then answered as a replay. -/
theorem returns_lookup {req : TokenRequest} {es : Replies} {a : TokenResult}
    (hraw : req.refreshToken.getD "" ≠ "") (hclient : req.clientId.getD "" ≠ "")
    (h : Returns (TokenFlow.fromRefreshToken env req).run es (.ok a)) :
    ClientRefused env req es ∨ ∃ row, (⟨lookup (env.hmac (req.refreshToken.getD "")),
      (.ok row : Except DbError (Option RefreshToken))⟩ : Reply Res) ∈ es ∧
        ∀ stored, row = some stored → stored.revoked = true → a = reuseDetected := by
  unfold TokenFlow.fromRefreshToken at h
  dsimp only at h
  rw [if_neg (by simp [hraw, hclient])] at h
  obtain ⟨es₁, es₂, found, rfl, hfound, h⟩ := h.seq
  split at h
  · next e => exact .inl ⟨es₁, es₂, e, rfl, hfound⟩
  · next client =>
    refine .inr ?_
    obtain ⟨es₃, x, hes, hbody, hx⟩ := returns_body h
    obtain ⟨es₄, es₅, row, rfl, hfind, hrest⟩ := hbody.seq
    refine ⟨row, List.mem_append_right _ (hes _ (List.mem_append_left _ ?_)), ?_⟩
    · rw [returns_sql hfind]
      exact List.mem_singleton_self _
    · rintro stored rfl hrev
      dsimp only at hrest
      rw [if_pos hrev] at hrest
      obtain ⟨es₆, es₇, u, rfl, -, hret⟩ := hrest.seq
      obtain ⟨-, rfl⟩ := hret.ret
      rcases hx with hx | hx
      · cases hx
        rfl
      · cases hx

/-- Marks other than that of `BEGIN` are made while the transaction is open. -/
theorem open_of_marked {w w' : World} {x : Res op} {mk : TxMark} (hmark : TxMark.of op x = some mk)
    (hmk : mk ≠ .begun) (h : World.exec env tid op ch w = some (x, w'))
    : ∃ y, w.pg.tx? tid = some y := by
  unfold TxMark.of at hmark
  split at hmark
  · cases hmark
    exact absurd rfl hmk
  · obtain ⟨-, -, ⟨e, he, -⟩ | hst⟩ := World.exec_tx h
    · cases he
    · obtain ⟨y, hy, -⟩ := Postgres.inTx_cases hst
      exact ⟨y, hy⟩
  · obtain ⟨-, -, ⟨e, he, -⟩ | hst⟩ := World.exec_tx h
    · cases he
    · obtain ⟨y, hy, -⟩ := Postgres.inTx_cases hst
      exact ⟨y, hy⟩
  · obtain ⟨-, -, ⟨e, he, -⟩ | hst⟩ := World.exec_tx h
    · cases he
    · obtain ⟨y, hy, -⟩ := TxStmt.exec_commit hst
      exact ⟨y, hy⟩
  · cases hmark

theorem commit_of_marked {x : Res op} (h : TxMark.of op x = some .committed) :
    op = .sql (.tx .commit) := by
  unfold TxMark.of at h
  split at h
  all_goals cases h
  rfl

/-- A rotation is completed by the commit of its transaction, which still holds the row. -/
theorem committed_of_rotated {m : Instant} (hi : (Ledger.of m).Inv) {tid i : Nat} {x : Res op}
    {w : World} (hexec : World.exec env tid op ch m.world = some (x, w))
    (hafter : (Ledger.of (m.after tid op x w)).Rotated i p d)
    (hbefore : ¬ (Ledger.of m).Rotated i p d) :
    op = .sql (.tx .commit) ∧ p ∈ m.world.pg.tables.refreshTokens := by
  obtain ⟨hfound, hinserted, hcommitted⟩ := hafter
  have hlive : ∀ mk, mk ≠ .begun → TxMark.of op x = some mk → ¬ m.Marked TxMark.of tid .committed := by
    intro mk hmk hmark
    obtain ⟨y, hy⟩ := open_of_marked hmark hmk hexec
    exact (hi.live tid y hy).2
  rcases hcommitted.of_after with ⟨rfl, hmark⟩ | hdone
  · refine ⟨commit_of_marked hmark, ?_⟩
    obtain ⟨y, hy⟩ := open_of_marked hmark nofun hexec
    rcases hfound.of_after with ⟨-, hother⟩ | hheld
    · rw [hmark] at hother
      cases hother
    · exact (hi.held i y p hy hheld).1
  · rcases hfound.of_after with ⟨rfl, hmark⟩ | hfound
    · exact absurd hdone (hlive (.found p) nofun hmark)
    rcases hinserted.of_after with ⟨rfl, hmark⟩ | hinserted
    · exact absurd hdone (hlive (.inserted d) nofun hmark)
    exact absurd ⟨hfound, hinserted, hdone⟩ hbefore

/-- A rotated row was revoked in some configuration of the run. -/
theorem revoked_of_rotated (hw : Settled w₀) (run : Run (server env) R (Config.start w₀) c)
    {i : Nat} (hrot : (Ledger.of c.moment).Rotated i p d) :
    ∃ c₁, Run (server env) R (Config.start w₀) c₁ ∧ Run (server env) R c₁ c ∧
      (Ledger.of c₁.moment).Rotated i p d ∧ p.revocation ∈ rowsOf c₁ := by
  refine run.invariant (J := fun c : State => (Ledger.of c.moment).Rotated i p d →
    ∃ c₁, Run (server env) R (Config.start w₀) c₁ ∧ Run (server env) R c₁ c ∧
      (Ledger.of c₁.moment).Rotated i p d ∧ p.revocation ∈ rowsOf c₁) ?_ ?_
    (fun h => absurd h.1 Moment.not_marked_nil) hrot
  · intro c call _ ha ih hrot
    obtain ⟨c₁, run₁, run₂, hfound⟩ := ih hrot
    exact ⟨c₁, run₁, .spawn run₂ ha, hfound⟩
  · intro c tid t op k ch x w run ih ht hp ha he hrot
    have hstep : Run (server env) R c (c.advance tid t op x w (k x)) := .step (.refl c) ht hp ha he
    by_cases hbefore : (Ledger.of c.moment).Rotated i p d
    · obtain ⟨c₁, run₁, run₂, hfound⟩ := ih hbefore
      exact ⟨c₁, run₁, run₂.trans hstep, hfound⟩
    · have hi : (Ledger.of c.moment).Inv := (sound_of_settled hw run).2.1
      obtain ⟨rfl, hmem⟩ := committed_of_rotated hi he hrot hbefore
      refine ⟨_, run.trans hstep, .refl _, hrot, ?_⟩
      have hstays := Stays.commit (.inl hmem) he fun y hy => (hi.writes tid y hy).1
      rcases hstays with hsame | hrevoked
      · have hafter : (Ledger.of (c.advance tid t _ x w (k x)).moment).Inv :=
          (sound_of_settled hw (run.trans hstep)).2.1
        rw [RefreshToken.revocation_of_revoked (hafter.parent_revoked i p d hrot p hsame rfl)]
        exact hsame
      · exact hrevoked

theorem rotated_of_run (run : Run (server env) R c c') {i : Nat}
    (h : (Ledger.of c.moment).Rotated i p d) : (Ledger.of c'.moment).Rotated i p d := by
  have hlater : ∀ mk, c.moment.Marked TxMark.of i mk → c'.moment.Marked TxMark.of i mk := by
    rintro mk ⟨e, he, hmark⟩
    exact ⟨e, run.trace_suffix.subset he, hmark⟩
  exact ⟨hlater _ h.1, hlater _ h.2.1, hlater _ h.2.2⟩

/-- A refresh with a revoked token that it looks up in time is answered as a replay. -/
theorem replay_detected (hw : Settled w₀) (run₀ : Run (server env) R (Config.start w₀) c)
    (run : Run (server env) R c c') (hr : r ∈ rowsOf c) (hrev : r.revoked = true)
    {req : TokenRequest} {a : TokenResult} (hgrant : req.grantType = some "refresh_token")
    (hraw : req.refreshToken.getD "" ≠ "") (hclient : req.clientId.getD "" ≠ "")
    (hhash : env.hmac (req.refreshToken.getD "") = r.tokenHash)
    (hlate : ∀ e ∈ c.moment.own tid, e.1 ≠ lookup r.tokenHash)
    (htime : ∀ c₁ c₂, Run (server env) R c c₁ → Executes env tid (lookup r.tokenHash) c₁ c₂ →
      Run (server env) R c₂ c' → Unexpired r c₁ ∧ Rooted env R c c₁ r)
    (ha : c'.answered tid (.token req) (.ok a)) (hauth : ¬ ClientRefused env req (c'.moment.own tid)) :
    a = reuseDetected := by
  have hret := ((run₀.trans run).replayed (Config.start_replayed w₀)).returns ha
  rw [server_program, handler, TokenFlow.token, hgrant] at hret
  obtain ⟨row, hmem, hreuse⟩ := (returns_lookup hraw hclient hret).resolve_left hauth
  rw [hhash] at hmem
  obtain ⟨⟨i, op, x⟩, hevent, rfl, hreply⟩ := Moment.mem_own.mp hmem
  cases hreply
  rcases run.executed hevent with hearly | ⟨c₁, t, k, ch, w, run₁, ht, hp, hallow, hexec, run₂⟩
  · exact absurd rfl (hlate _ (Moment.mem_own.mpr ⟨_, hearly, rfl, rfl⟩))
  · obtain ⟨hlive, hroot⟩ := htime c₁ _ run₁ ⟨t, k, ch, _, w, ht, hp, hexec, rfl⟩ run₂
    have hstored := mem_rows_of_run hw run₀ run₁ hr hrev hlive hroot
    have hwrites := (sound_of_settled hw (run₀.trans run₁)).2.1.writes i
    exact hreuse r (lookup_revoked hexec (fun y hy => (hwrites y hy).1) hstored hrev) hrev

end Runs

/-- Revoked refresh tokens are kept as evidence for their whole lifetime, in any interleaving of all
requests and whatever fails. -/
theorem evidence_kept (env : Env) (R : Rules) : EvidenceKept env R where
  kept w c c' r hw run run' hr hrev hlive hroot := mem_rows_of_run hw run run' hr hrev hlive hroot
  rotated w c i p d hw run hrot hlive hparents := by
    obtain ⟨c₁, run₁, run₂, hrot₁, hrow⟩ := revoked_of_rotated hw run hrot
    refine mem_rows_of_run hw run₁ run₂ hrow rfl hlive fun c₂ run₃ run₄ => ?_
    have hparent := hparents c₂ (run₁.trans run₃) run₄ (rotated_of_run run₃ hrot₁)
    exact ⟨hparent.user, hparent.client, hparent.session⟩
  replayed w c c' r tid req a hw run run' hr hrev hgrant hraw hclient hhash hlate htime ha hauth :=
    replay_detected hw run run' hr hrev hgrant hraw hclient hhash hlate htime ha hauth

end AuthServer
