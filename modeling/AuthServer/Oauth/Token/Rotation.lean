import AuthServer.Oauth.Token.Ledger

/-!
# Rotation never forks a family

Every request of the server keeps the ledger of refresh tokens in order, in any
interleaving and whatever fails. Only the refresh grant finds a row and inserts
another in one transaction; it revokes the row it has found under the lock it has
taken, so that no second request can exchange the same row.
-/

namespace AuthServer

open Concurrent Discipline Handler Storage

namespace Ledger

/-! ## Commands on the ledger -/

/-- The command is neither a statement of a transaction nor one that no handler issues. -/
def Pooled (op : Op) : Prop := op.kind ≠ .tx ∧ op.kind ≠ .unused

variable {op : Op} {ch : Choice} {m : Instant} {id : Uuid} {client : Client} {req : TokenRequest}

theorem pooled_of_within {ks : List Kind} (hk : (ks.contains .tx || ks.contains .unused) = false)
    (h : Within ks op) : Pooled op := by
  rw [Bool.or_eq_false_iff] at hk
  constructor
  · intro hop
    rw [Within, hop, hk.1] at h
    cases h
  · intro hop
    rw [Within, hop, hk.2] at h
    cases h

/-- A command outside transactions revokes or deletes unlocked rows, or draws a new id. -/
theorem exec_pooled {env : Env} {tid : Nat} {w w' : World} {r : Res op} (ho : Pooled op)
    (h : World.exec env tid op ch w = some (r, w')) :
    TxMark.of op r = none ∧ w'.pg.txs = w.pg.txs ∧
      Recedes w.pg.locked w.pg.tables.refreshTokens w'.pg.tables.refreshTokens ∧
      ((drawn op r = none ∧ w'.uuids = w.uuids) ∨
        ∃ id, drawn op r = some id ∧ id ∉ w.uuids ∧ w'.uuids = id :: w.uuids ∧ w'.pg = w.pg) := by
  cases op with
  | sql s =>
    cases s with
    | query q =>
      rcases World.exec_sql h with ⟨text, -, -, rfl⟩ | ⟨-, pg, he, rfl⟩
      · exact ⟨rfl, rfl, .refl, .inl ⟨rfl, rfl⟩⟩
      · cases he
        exact ⟨rfl, rfl, .refl, .inl ⟨rfl, rfl⟩⟩
    | stmt st =>
      rcases World.exec_sql h with ⟨text, -, -, rfl⟩ | ⟨-, pg, he, rfl⟩
      · exact ⟨rfl, rfl, .refl, .inl ⟨rfl, rfl⟩⟩
      · have hst : ∀ id, st ≠ .updateRevoked id false := by
          rintro id rfl
          exact ho.2 rfl
        obtain ⟨htx, hrec⟩ := Stmt.exec_recedes hst he
        exact ⟨rfl, htx, hrec, .inl ⟨rfl, rfl⟩⟩
    | tx s => exact absurd rfl ho.1
  | redis c =>
    rcases World.exec_redis h with ⟨text, -, -, rfl⟩ | ⟨-, -, rfl⟩
    · exact ⟨rfl, rfl, .refl, .inl ⟨rfl, rfl⟩⟩
    · exact ⟨rfl, rfl, .refl, .inl ⟨rfl, rfl⟩⟩
  | newUuid =>
    simp only [World.exec] at h
    split at h
    · cases h
    · next hnew =>
      cases h
      have hnew' : ch.uuid ∉ w.uuids := by simpa [World.elapse] using hnew
      exact ⟨rfl, rfl, .refl, .inr ⟨_, rfl, hnew', rfl, rfl⟩⟩
  | now | activeKid | salt =>
    cases h
    exact ⟨rfl, rfl, .refl, .inl ⟨rfl, rfl⟩⟩
  | urlSafe _ | userCode | jitteredTtl _ =>
    simp only [World.exec] at h
    split at h
    all_goals cases h
    all_goals exact ⟨rfl, rfl, .refl, .inl ⟨rfl, rfl⟩⟩

theorem respects_locked (m : Instant) : (Ledger.of m).Respects m.world.pg.locked := by
  intro i x id hx hid
  by_contra hl
  exact Postgres.locked_eq_false.mp (Bool.eq_false_iff.mpr hl) i x hx hid

/-- A command outside transactions keeps the ledger in order and leaves transactions and marks
alone. -/
theorem pooled_step {env : Env} {tid : Nat} {w : World} {r : Res op} (ho : Pooled op)
    (hi : (Ledger.of m).Inv) (h : World.exec env tid op ch m.world = some (r, w)) :
    (Ledger.of (m.after tid op r w)).Inv ∧
      Guar tid (Ledger.of m) (Ledger.of (m.after tid op r w)) ∧
      (Ledger.of (m.after tid op r w)).txs = (Ledger.of m).txs ∧
      (Ledger.of (m.after tid op r w)).marks = (Ledger.of m).marks := by
  obtain ⟨hmark, htx, hrec, hdraw⟩ := exec_pooled ho h
  have htxs : w.pg.tx? = m.world.pg.tx? := by
    funext i
    simp only [Postgres.tx?, htx]
  have hmarks : (m.after tid op r w).Marked TxMark.of = m.Marked TxMark.of :=
    Moment.marked_after_of_none hmark
  rcases hdraw with ⟨hnone, huuids⟩ | ⟨id, hsome, hnew, huuids, hpg⟩
  · have heq : Ledger.of (m.after tid op r w) =
        { Ledger.of m with rows := w.pg.tables.refreshTokens } :=
      Ledger.ext rfl htxs hmarks (Moment.marked_after_of_none hnone) huuids
    rw [heq]
    exact ⟨hi.recede (respects_locked m) hrec, .recede hrec, rfl, rfl⟩
  · have hdraws : (m.after tid op r w).Marked drawn = ((Ledger.of m).draw tid id).draws := by
      funext i u
      refine propext (Moment.marked_after.trans ?_)
      rw [hsome, Option.some.injEq, eq_comm (a := id)]
      rfl
    have heq : Ledger.of (m.after tid op r w) = (Ledger.of m).draw tid id :=
      Ledger.ext (congrArg (·.tables.refreshTokens) hpg) htxs hmarks hdraws huuids
    rw [heq]
    exact ⟨hi.draw hnew, .draw hnew, rfl, rfl⟩

section Statement

variable {tid : Nat} {m : Instant} {w : World} {s : TxStmt} {r : Except DbError s.Res}

theorem update_txs (hothers : ∀ i ≠ tid, w.pg.tx? i = m.world.pg.tx? i) :
    w.pg.tx? = Function.update m.world.pg.tx? tid (w.pg.tx? tid) := by
  funext i
  by_cases hi : i = tid
  · subst hi
    simp
  · simp [hi, hothers i hi]

/-- The ledger after a statement of a transaction that leaves rows and marks alone. -/
theorem of_after_unmarked (hrows : w.pg.tables = m.world.pg.tables)
    (huuids : w.uuids = m.world.uuids) (hothers : ∀ i ≠ tid, w.pg.tx? i = m.world.pg.tx? i)
    (hmark : TxMark.of (.sql (.tx s)) r = none) :
    Ledger.of (m.after tid (.sql (.tx s)) r w) = (Ledger.of m).setTx tid (w.pg.tx? tid) :=
  Ledger.ext (congrArg Tables.refreshTokens hrows) (update_txs hothers)
    (Moment.marked_after_of_none hmark) (Moment.marked_after_of_none rfl) huuids

theorem marked_after_some {op : Op} {r : Res op} {mk : TxMark} (hmark : TxMark.of op r = some mk) :
    (m.after tid op r w).Marked TxMark.of = ((Ledger.of m).addMark tid mk).marks := by
  funext i x
  refine propext (Moment.marked_after.trans ?_)
  rw [hmark, Option.some.injEq, eq_comm (a := mk)]
  rfl

/-- The ledger after a statement of a transaction that leaves a mark. -/
theorem of_after_marked (hrows : w.pg.tables = m.world.pg.tables)
    (huuids : w.uuids = m.world.uuids) (hothers : ∀ i ≠ tid, w.pg.tx? i = m.world.pg.tx? i)
    {mk : TxMark} (hmark : TxMark.of (.sql (.tx s)) r = some mk) :
    Ledger.of (m.after tid (.sql (.tx s)) r w) =
      ((Ledger.of m).setTx tid (w.pg.tx? tid)).addMark tid mk :=
  Ledger.ext (congrArg Tables.refreshTokens hrows) (update_txs hothers)
    (marked_after_some hmark) (Moment.marked_after_of_none rfl) huuids

end Statement

/-- A statement of a transaction touches the rows only when it commits, and never the
transactions of others. -/
theorem exec_tx_frame {env : Env} {tid : Nat} {w w' : World} {s : TxStmt} {r : Except DbError s.Res}
    (h : World.exec env tid (.sql (.tx s)) ch w = some (r, w'))
    (hs : s ≠ .commit ∨ ∃ e, r = .error e) :
    w'.pg.tables = w.pg.tables ∧ w'.uuids = w.uuids ∧ ∀ i ≠ tid, w'.pg.tx? i = w.pg.tx? i := by
  obtain ⟨-, huuids, ⟨e, -, hpg⟩ | he⟩ := World.exec_tx h
  · rw [hpg]
    exact ⟨s.fail_frame.2, huuids, s.fail_frame.1⟩
  · obtain ⟨hothers, htables⟩ := TxStmt.exec_frame he
    refine ⟨htables ?_, huuids, hothers⟩
    rcases hs with hs | ⟨e, rfl⟩
    · exact hs
    · rintro rfl
      obtain ⟨x, -, hr, -⟩ := TxStmt.exec_commit he
      cases hr

/-! ## Assertions of one request -/

/-- The ledger with its invariant and its guarantees. -/
def discipline : Discipline Res World Ledger := ⟨Ledger.of, Inv, Guar, fun tid a _ => .refl tid a⟩

/-- An assertion about the request's own transaction and marks. -/
def Own (tid : Nat) (φ : Option OpenTx → (TxMark → Prop) → Prop) (v : Ledger) : Prop :=
  φ (v.txs tid) (v.marks tid)

/-- The transaction of the request and everything it has done. -/
def At (tid : Nat) (y : Option OpenTx) (done : List TxMark) : Ledger → Prop :=
  Own tid fun z M => z = y ∧ ∀ mk, M mk ↔ mk ∈ done

variable {env : Env} {R : Rules} {tid : Nat} {φ : Option OpenTx → (TxMark → Prop) → Prop}

theorem stable_own : discipline.Stable tid (Own tid φ) := by
  intro i hi a b _ _ hg hp
  obtain ⟨htx, hmarks, -⟩ := hg.others tid (Ne.symm hi)
  rw [Own, htx, hmarks]
  exact hp

theorem stable_draws : discipline.Stable tid fun v => v.draws tid id := by
  intro i hi a b _ _ hg hp
  obtain ⟨-, -, hdraws⟩ := hg.others tid (Ne.symm hi)
  rw [hdraws]
  exact hp

theorem stable_true : discipline.Stable tid fun _ => True := .const True

/-- Commands outside transactions keep every assertion about the own transaction. -/
theorem keeps_pooled (ho : Pooled op) :
    Keeps discipline (server env) R tid (Own tid φ) op := by
  intro m ch r w hi hp _ he
  obtain ⟨hi', hg, htx, hmarks⟩ := pooled_step ho hi he
  refine ⟨hi', hg, ?_⟩
  change φ ((Ledger.of (m.after tid op r w)).txs tid) ((Ledger.of (m.after tid op r w)).marks tid)
  rw [htx, hmarks]
  exact hp

variable {α : Type}

/-- The outcome of a handler whose failures need no assertion. -/
abbrev Ends (Q : α → Ledger → Prop) : Except Failure α → Ledger → Prop := post Q fun _ _ => True

/-- A handler without statements of transactions keeps every assertion about the own
transaction. -/
theorem sat_pooled (ks : List Kind) {h : Handler α} (hu : h.Uses (Within ks))
    (hk : (ks.contains .tx || ks.contains .unused) = false) :
    discipline.Sat (server env) R tid h.run (Own tid φ) (Ends fun _ => Own tid φ) := by
  have huses : h.run.Uses (Keeps discipline (server env) R tid (Own tid φ)) :=
    hu.run.mono fun op ho => keeps_pooled (pooled_of_within hk ho)
  refine (Sat.of_keeps huses stable_own).weaken fun x v _ hp => ?_
  cases x with
  | ok x => exact hp
  | error e => trivial

/-! ## Statements of transactions -/

section Statements

variable {m : Instant} {w : World} {ch : Choice} {s : TxStmt} {r : Except DbError s.Res}

/-- A statement that changes the own transaction and leaves no mark. -/
theorem step_unmarked (hi : (Ledger.of m).Inv)
    (h : World.exec env tid (.sql (.tx s)) ch m.world = some (r, w))
    (hs : s ≠ .commit ∨ ∃ e, r = .error e) (hmark : TxMark.of (.sql (.tx s)) r = none)
    (hfits : ∀ y, w.pg.tx? tid = some y → (Ledger.of m).Fits tid y) :
    (Ledger.of (m.after tid (.sql (.tx s)) r w)).Inv ∧
      Guar tid (Ledger.of m) (Ledger.of (m.after tid (.sql (.tx s)) r w)) ∧
      (Ledger.of (m.after tid (.sql (.tx s)) r w)).txs tid = w.pg.tx? tid ∧
      (Ledger.of (m.after tid (.sql (.tx s)) r w)).marks tid = (Ledger.of m).marks tid := by
  obtain ⟨hrows, huuids, hothers⟩ := exec_tx_frame h hs
  rw [of_after_unmarked hrows huuids hothers hmark]
  refine ⟨?_, ?_, setTx_same, rfl⟩
  · cases hy : w.pg.tx? tid with
    | none => exact hi.closeTx
    | some y => exact hi.setTx (hfits y hy)
  · exact .of_own rfl rfl rfl (fun i hne => ⟨setTx_other hne, rfl⟩) fun _ hx => hx

/-- A statement of a transaction that ends with an error keeps the ledger in order. -/
theorem step_error (hi : (Ledger.of m).Inv) {e : DbError}
    (h : World.exec env tid (.sql (.tx s)) ch m.world =
      some ((.error e : Except DbError s.Res), w)) :
    (Ledger.of (m.after tid (.sql (.tx s)) (.error e : Except DbError s.Res) w)).Inv ∧
      Guar tid (Ledger.of m)
        (Ledger.of (m.after tid (.sql (.tx s)) (.error e : Except DbError s.Res) w)) := by
  have hpg : w.pg = m.world.pg ∨ w.pg = m.world.pg.abort tid ∨ w.pg = m.world.pg.close tid := by
    obtain ⟨-, -, ⟨-, -, hpg⟩ | he⟩ := World.exec_tx h
    · rw [hpg]
      exact s.fail_cases
    · rcases TxStmt.exec_error he with hpg | hpg
      · exact .inl hpg
      · exact .inr (.inl hpg)
  have hmark : TxMark.of (.sql (.tx s)) (.error e : Except DbError s.Res) = none := by
    cases s <;> rfl
  refine (step_unmarked hi h (.inr ⟨e, rfl⟩) hmark fun y hy => ?_).imp_right And.left
  rcases hpg with hpg | hpg | hpg <;> rw [hpg] at hy
  · exact hi.fits hy
  · rw [Postgres.tx?_abort, if_pos rfl] at hy
    obtain ⟨x, hx, rfl⟩ := Option.map_eq_some_iff.mp hy
    exact (hi.fits hx).abort
  · rw [Postgres.tx?_close, if_pos rfl] at hy
    cases hy

/-- A statement that changes the own transaction and leaves a mark. -/
theorem step_marked (h : World.exec env tid (.sql (.tx s)) ch m.world = some (r, w))
    (hs : s ≠ .commit) (mk : TxMark) (hmark : TxMark.of (.sql (.tx s)) r = some mk)
    (hi : (((Ledger.of m).setTx tid (w.pg.tx? tid)).addMark tid mk).Inv) :
    (Ledger.of (m.after tid (.sql (.tx s)) r w)).Inv ∧
      Guar tid (Ledger.of m) (Ledger.of (m.after tid (.sql (.tx s)) r w)) ∧
      (Ledger.of (m.after tid (.sql (.tx s)) r w)).txs tid = w.pg.tx? tid ∧
      ∀ x, (Ledger.of (m.after tid (.sql (.tx s)) r w)).marks tid x ↔
        x = mk ∨ (Ledger.of m).marks tid x := by
  obtain ⟨hrows, huuids, hothers⟩ := exec_tx_frame h (.inl hs)
  rw [of_after_marked hrows huuids hothers hmark]
  refine ⟨hi, ?_, setTx_same, fun x => ?_⟩
  · refine .of_own rfl rfl rfl (fun i hne => ⟨setTx_other hne, ?_⟩) fun _ hx => .inr hx
    funext x
    simp [addMark, setTx, hne]
  · simp [addMark, setTx]

/-- A statement of a transaction that has succeeded was executed. -/
theorem exec_of_ok {x : s.Res}
    (h : World.exec env tid (.sql (.tx s)) ch m.world = some ((.ok x : Except DbError s.Res), w)) :
    s.exec tid m.world.pg = some ((.ok x : Except DbError s.Res), w.pg) := by
  obtain ⟨-, -, ⟨e, hr, -⟩ | he⟩ := World.exec_tx h
  · cases hr
  · exact he

/-- The rule for a statement of a transaction: only its success has to be looked at. -/
theorem sat_tx {P : Ledger → Prop} {Q : s.Res → Ledger → Prop} (hs : discipline.Stable tid P)
    (hq : ∀ x, discipline.Stable tid (Q x))
    (h : ∀ m ch x w, (Ledger.of m).Inv → P (Ledger.of m) →
      World.exec env tid (.sql (.tx s)) ch m.world = some ((.ok x : Except DbError s.Res), w) →
      (Ledger.of (m.after tid (.sql (.tx s)) (.ok x : Except DbError s.Res) w)).Inv ∧
        Guar tid (Ledger.of m)
          (Ledger.of (m.after tid (.sql (.tx s)) (.ok x : Except DbError s.Res) w)) ∧
        Q x (Ledger.of (m.after tid (.sql (.tx s)) (.ok x : Except DbError s.Res) w))) :
    discipline.Sat (server env) R tid (tx s).run P (Ends Q) := by
  refine Sat.sql hs hq (fun _ => stable_true) fun m ch r w hi hp _ he => ?_
  cases r with
  | ok x => exact h m ch x w hi hp he
  | error e =>
    obtain ⟨hi', hg⟩ := step_error hi he
    exact ⟨hi', hg, trivial⟩

theorem sat_begin : discipline.Sat (server env) R tid (tx .begin).run (At tid none [])
    (Ends fun _ => At tid (some ⟨tid, [], [], false⟩) [.begun]) := by
  refine sat_tx stable_own (fun _ => stable_own) fun m ch x w hi hp he => ?_
  obtain ⟨-, hnone⟩ := hp
  obtain ⟨-, -, htx⟩ := TxStmt.exec_begin (exec_of_ok he)
  have hopen : w.pg.tx? tid = some ⟨tid, [], [], false⟩ := (htx tid).trans (if_pos rfl)
  have hno : ∀ mk, ¬ (Ledger.of m).marks tid mk := fun mk h => nomatch (hnone mk).mp h
  have hmarked : ((Ledger.of m).addMark tid .begun).Inv :=
    hi.addMark ⟨⟨nofun, hno _⟩, nofun, nofun⟩
  have hfits : ((Ledger.of m).addMark tid .begun).Fits tid ⟨tid, [], [], false⟩ :=
    { exclusive := by simp
      locked_known := by simp
      held := fun p hp => absurd (hp.resolve_left nofun) (hno _)
      writes := by simp [OpenTx.Revoking]
      live := ⟨.inl ⟨rfl, rfl⟩, fun h => hno _ (h.resolve_left nofun)⟩ }
  obtain ⟨hi', hg, htxs, hmarks⟩ := step_marked he nofun .begun rfl
    (by rw [hopen]; exact hmarked.setTx hfits)
  refine ⟨hi', hg, htxs.trans hopen, fun mk => ?_⟩
  rw [hmarks mk, hnone mk]
  simp

/-- The row that `FOR UPDATE` returns is locked, and is the committed one. -/
theorem sat_find {hash : String} :
    discipline.Sat (server env) R tid (tx (.findForUpdate hash)).run
      (At tid (some ⟨tid, [], [], false⟩) [.begun])
      (Ends fun row => match (row : Option RefreshToken) with
        | none => fun _ => True
        | some p => fun v => At tid (some ⟨tid, [], [p.id], false⟩) [.found p, .begun] v ∧
            p.tokenHash = hash) := by
  refine sat_tx stable_own (fun row => ?_) fun m ch row w hi hp he => ?_
  · cases (row : Option RefreshToken) with
    | none => exact stable_true
    | some p => exact stable_own.and (.const _)
  · obtain ⟨hopen, hmarks⟩ := hp
    obtain ⟨x, hx, ⟨-, hr, -⟩ | ⟨-, hf⟩⟩ := Postgres.inTx_cases (exec_of_ok he)
    · cases hr
    obtain rfl : x = ⟨tid, [], [], false⟩ := Option.some.inj (hx.symm.trans hopen)
    obtain ⟨hr, hpg⟩ | ⟨p, hp, hhash, hlock, hr, hpg⟩ := Postgres.findForUpdate_cases hf
    · cases hr
      obtain ⟨hi', hg, -⟩ := step_unmarked hi he (.inl nofun) rfl
        fun y hy => hi.fits (show (Ledger.of m).txs tid = some y by rw [hpg] at hy; exact hy)
      exact ⟨hi', hg, trivial⟩
    · cases hr
      have hrow : p ∈ (Ledger.of m).rows := hp
      have hy : w.pg.tx? tid = some ⟨tid, [], [p.id], false⟩ := by
        rw [hpg, Postgres.tx?_record, if_pos rfl, hx]
        rfl
      have hfree := Postgres.lockedByOther_eq_false.mp hlock
      have hfits : (Ledger.of m).Fits tid ⟨tid, [], [p.id], false⟩ :=
        { exclusive := by
            intro i z hne hz id hid
            rw [List.mem_singleton.mp hid]
            exact hfree i z hne hz
          locked_known := by
            intro id hid
            exact .inl ⟨p, hrow, (List.mem_singleton.mp hid).symm⟩
          held := fun q hq => by simp [hmarks] at hq
          writes := by simp [OpenTx.Revoking]
          live := by simp [hmarks] }
      have hmarked : (((Ledger.of m).setTx tid (some ⟨tid, [], [p.id], false⟩)).addMark tid
          (.found p)).Inv := by
        refine (hi.setTx hfits).addMark ⟨⟨nofun, by simp [hmarks]⟩, fun q hq => ?_, nofun⟩
        cases hq
        refine ⟨hrow, fun z hz => ?_, by simp [hmarks], by simp [hmarks]⟩
        rw [setTx_same] at hz
        cases hz
        simp
      obtain ⟨hi', hg, htxs, hmarks'⟩ := step_marked he nofun (.found p) rfl
        (by rw [hy]; exact hmarked)
      refine ⟨hi', hg, ⟨htxs.trans hy, fun mk => ?_⟩, hhash⟩
      rw [hmarks' mk, hmarks mk]
      simp

/-- The row that was found is still there when it is revoked. -/
theorem sat_revoke {p : RefreshToken} :
    discipline.Sat (server env) R tid (tx (.updateRevoked p.id true)).run
      (At tid (some ⟨tid, [], [p.id], false⟩) [.found p, .begun])
      (Ends fun _ => At tid (some ⟨tid, [.setRevoked p.id true], [p.id, p.id], false⟩)
        [.found p, .begun]) := by
  refine sat_tx stable_own (fun _ => stable_own) fun m ch r w hi hp he => ?_
  obtain ⟨hopen, hmarks⟩ := hp
  obtain ⟨⟨y, pg⟩, hy, hmap⟩ := Option.map_eq_some_iff.mp (exec_of_ok he)
  obtain ⟨hr, rfl⟩ := Prod.mk.inj hmap
  obtain ⟨x, hx, ⟨-, hyr, -⟩ | ⟨-, hf⟩⟩ := Postgres.inTx_cases hy
  · rw [hyr] at hr
    cases hr
  obtain rfl : x = ⟨tid, [], [p.id], false⟩ := Option.some.inj (hx.symm.trans hopen)
  have hrow : p ∈ m.world.pg.tables.refreshTokens :=
    (hi.held tid _ p hopen ((hmarks _).mpr (by simp))).1
  obtain ⟨-, -, hnone⟩ | ⟨row, -, -, -, hlock, -, hpg⟩ := Postgres.updateRow_cases hf
  · cases hnone p hrow rfl
  have hafter : w.pg.tx? tid = some ⟨tid, [.setRevoked p.id true], [p.id, p.id], false⟩ := by
    rw [hpg, Postgres.tx?_record, if_pos rfl, hx]
    rfl
  have hfits : (Ledger.of m).Fits tid ⟨tid, [.setRevoked p.id true], [p.id, p.id], false⟩ :=
    (hi.fits hopen).revoke (Postgres.lockedByOther_eq_false.mp hlock) (.inl ⟨p, hrow, rfl⟩)
  obtain ⟨hi', hg, htxs, hmarks'⟩ := step_unmarked hi he (.inl nofun) rfl fun z hz => by
    rw [← Option.some.inj (hafter.symm.trans hz)]
    exact hfits
  refine ⟨hi', hg, htxs.trans hafter, fun mk => ?_⟩
  rw [hmarks']
  exact hmarks mk

/-- An inserted row has an id that is not in use anywhere. -/
theorem sat_insert {x : OpenTx} {done : List TxMark} {c : RefreshToken} (ha : x.aborted = false)
    (hbegun : .begun ∈ done) (hopen : .committed ∉ done) (hfirst : ∀ d, .inserted d ∉ done)
    (hpass : ∀ p, .found p ∈ done → p.revoked = false ∧ c.owner = p.owner) :
    discipline.Sat (server env) R tid (tx (.insertRefreshToken c)).run
      (fun v => At tid (some x) done v ∧ v.draws tid c.id)
      (Ends fun _ => At tid (some ((OpenTx.record [c.id] [.insert c]).apply x))
        (.inserted c :: done)) := by
  refine sat_tx (stable_own.and stable_draws) (fun _ => stable_own) fun m ch r w hi hp he => ?_
  obtain ⟨⟨htx, hmarks⟩, hdraw⟩ := hp
  obtain ⟨x', hx, ⟨ha', -⟩ | ⟨-, hf⟩⟩ := Postgres.inTx_cases (exec_of_ok he)
  · obtain rfl := Option.some.inj (hx.symm.trans htx)
    rw [ha] at ha'
    cases ha'
  obtain rfl := Option.some.inj (hx.symm.trans htx)
  obtain ⟨e, hr, -⟩ | ⟨-, hpg, -⟩ := Postgres.insertRefreshToken_cases hf
  · cases hr
  have hafter : w.pg.tx? tid = some ((OpenTx.record [c.id] [.insert c]).apply x') := by
    rw [hpg, Postgres.tx?_record, if_pos rfl, hx]
    rfl
  have hcom : ¬ (Ledger.of m).marks tid .committed := fun h => hopen ((hmarks _).mp h)
  have hold := hi.fits htx
  have hmarked : ((Ledger.of m).addMark tid (.inserted c)).Inv := by
    refine hi.addMark ⟨⟨nofun, hcom⟩, nofun, fun d hd => ?_⟩
    cases hd
    exact ⟨hdraw, fun d hd => hfirst d ((hmarks _).mp hd), fun p hp => hpass p ((hmarks _).mp hp)⟩
  have hfits : ((Ledger.of m).addMark tid (.inserted c)).Fits tid
      ((OpenTx.record [c.id] [.insert c]).apply x') := by
    constructor
    · intro i z hne hz id hid hid'
      rcases List.mem_cons.mp hid with rfl | hid
      · -- another lock on the id would be on a row, or by its drawer
        rcases hi.locked_known i z c.id hz hid' with ⟨r, hr, hrid⟩ | hother
        · exact hcom ((hi.row_known r hr).2 tid (hrid ▸ hdraw))
        · exact hne (hi.drawn_once i tid c.id hother hdraw)
      · exact hold.exclusive i z hne hz id hid hid'
    · intro id hid
      rcases List.mem_cons.mp hid with rfl | hid
      · exact .inr hdraw
      · exact hold.locked_known id hid
    · intro p hp
      obtain ⟨hrow, hlock⟩ := hold.held p (hp.resolve_left nofun)
      exact ⟨hrow, List.mem_cons_of_mem _ hlock⟩
    · obtain ⟨hw, hset, hins⟩ := hold.writes
      refine ⟨fun id h => ?_, fun id h => ?_, fun d h => ?_⟩
      · rcases List.mem_append.mp h with h | h
        · exact hw id h
        · simp at h
      · rcases List.mem_append.mp h with h | h
        · exact List.mem_cons_of_mem _ (hset id h)
        · simp at h
      · rcases List.mem_append.mp h with h | h
        · exact .inr (hins d h)
        · obtain rfl : d = c := by simpa using h
          exact .inl ⟨rfl, rfl⟩
    · exact ⟨.inr ((hmarks _).mpr hbegun), fun h => hcom (h.resolve_left nofun)⟩
  obtain ⟨hi', hg, htxs, hmarks'⟩ := step_marked he nofun (.inserted c) rfl
    (by rw [hafter]; exact hmarked.setTx hfits)
  refine ⟨hi', hg, htxs.trans hafter, fun mk => ?_⟩
  rw [hmarks' mk, hmarks mk]
  simp

/-- When a transaction may commit: if it exchanges a row, it has revoked it. -/
def Ready (y : Option OpenTx) (M : TxMark → Prop) : Prop :=
  ∃ x, y = some x ∧ ∀ p c, M (.found p) → M (.inserted c) →
    x.aborted = false ∧ Write.setRevoked p.id true ∈ x.writes

theorem sat_commit (hready : ∀ y M, φ y M → Ready y M) :
    discipline.Sat (server env) R tid (tx .commit).run (Own tid φ)
      (Ends fun _ => Own tid fun _ M' => ∃ y M, φ y M ∧ ∀ mk, M' mk ↔ mk = .committed ∨ M mk) := by
  refine sat_tx stable_own (fun _ => stable_own) fun m ch r w hi hp he => ?_
  obtain ⟨x, hx, hrot⟩ := hready _ _ hp
  obtain ⟨-, huuids, -⟩ := World.exec_tx he
  obtain ⟨x', hx', -, htx, htables⟩ := TxStmt.exec_commit (exec_of_ok he)
  obtain rfl : x' = x := Option.some.inj (hx'.symm.trans hx)
  have hrows : w.pg.tables.refreshTokens = ((Ledger.of m).commitTx tid x').rows := by
    rw [htables]
    simp only [commitTx]
    split <;> rfl
  have htxs : w.pg.tx? = ((Ledger.of m).commitTx tid x').txs := by
    funext i
    rw [htx i]
    by_cases hne : i = tid
    · subst hne
      rw [if_pos rfl]
      exact setTx_same.symm
    · rw [if_neg hne]
      change (Ledger.of m).txs i = ((Ledger.of m).setTx tid none).txs i
      exact (setTx_other hne).symm
  have heq : Ledger.of (m.after tid (.sql (.tx .commit))
      (.ok r : Except DbError TxStmt.commit.Res) w) = (Ledger.of m).commitTx tid x' :=
    Ledger.ext hrows htxs (marked_after_some rfl) (Moment.marked_after_of_none rfl) huuids
  rw [heq]
  refine ⟨hi.commitTx hx hrot, .commitTx hi hx, _, _, hp, fun mk => ?_⟩
  simp [commitTx, addMark]

/-- Leaving a transaction without committing it needs no assertion. -/
theorem sat_rollback {p : Prop} :
    discipline.Sat (server env) R tid (trySql (.tx .rollback)).run (fun _ => p)
      (Ends fun _ _ => p) := by
  refine Sat.perform (.const p) (fun _ => .const p) fun m ch r w hi hp _ he => ?_
  have hclosed : w.pg.tx? tid = none := by
    obtain ⟨-, -, ⟨e, -, hpg⟩ | hx⟩ := World.exec_tx he
    · rw [hpg]
      exact Postgres.tx?_close.trans (if_pos rfl)
    · rw [← (Prod.mk.inj (Option.some.inj hx)).2]
      exact Postgres.tx?_close.trans (if_pos rfl)
  have hmark : TxMark.of (.sql (.tx .rollback)) r = none := rfl
  obtain ⟨hi', hg, -⟩ := step_unmarked hi he (.inl nofun) hmark fun y hy => by
    rw [hclosed] at hy
    cases hy
  exact ⟨hi', hg, hp⟩

/-- A family revocation that is under way: the transaction is open. -/
def Killing (tid : Nat) (done : List TxMark) : Ledger → Prop :=
  Own tid fun y M => (∃ x, y = some x) ∧ ∀ mk, M mk ↔ mk ∈ done

/-- The statements of a family revocation, whatever their outcome, keep the transaction open. -/
theorem keeps_family {done : List TxMark} (hs : (∃ sid, s = .familyScan sid) ∨
    ∃ sid id, s = .familyRow sid id) :
    Keeps discipline (server env) R tid (Killing tid done) (.sql (.tx s)) := by
  intro m ch r w hi hp _ he
  obtain ⟨⟨x, hx⟩, hmarks⟩ := hp
  have hne : s ≠ .commit := by
    rintro rfl
    rcases hs with ⟨_, h⟩ | ⟨_, _, h⟩ <;> cases h
  have hmark : TxMark.of (.sql (.tx s)) r = none := by
    rcases hs with ⟨_, rfl⟩ | ⟨_, _, rfl⟩ <;> rfl
  have hafter : ∃ y, w.pg.tx? tid = some y ∧ (Ledger.of m).Fits tid y := by
    obtain ⟨-, -, ⟨e, -, hpg⟩ | hexec⟩ := World.exec_tx he
    · refine ⟨OpenTx.abort.apply x, ?_, (hi.fits hx).abort⟩
      have hfail : s.fail tid m.world.pg = m.world.pg.abort tid := by
        rcases hs with ⟨_, rfl⟩ | ⟨_, _, rfl⟩ <;> rfl
      rw [hpg, hfail, Postgres.tx?_abort, if_pos rfl]
      exact congrArg (Option.map OpenTx.abort.apply) hx
    · rcases hs with ⟨sid, rfl⟩ | ⟨sid, id, rfl⟩
      · obtain ⟨x', -, ⟨-, -, hpg⟩ | ⟨-, hf⟩⟩ := Postgres.inTx_cases hexec
        · exact ⟨x, by rw [hpg]; exact hx, hi.fits hx⟩
        · rw [← (Prod.mk.inj (Option.some.inj hf)).2]
          exact ⟨x, hx, hi.fits hx⟩
      · obtain ⟨x', hx', ⟨-, -, hpg⟩ | ⟨-, hf⟩⟩ := Postgres.inTx_cases hexec
        · exact ⟨x, by rw [hpg]; exact hx, hi.fits hx⟩
        · obtain rfl : x' = x := Option.some.inj (hx'.symm.trans hx)
          obtain ⟨-, hpg, -⟩ | ⟨row, hrow, rfl, -, hlock, -, hpg⟩ := Postgres.updateRow_cases hf
          · exact ⟨x', by rw [hpg]; exact hx, hi.fits hx⟩
          · refine ⟨_, ?_, (hi.fits hx).revoke (Postgres.lockedByOther_eq_false.mp hlock) ?_⟩
            · rw [hpg, Postgres.tx?_record, if_pos rfl, hx']
              rfl
            · exact hi.visible_known hx hrow
  obtain ⟨y, hy, hfits⟩ := hafter
  obtain ⟨hi', hg, htxs, hmarks'⟩ := step_unmarked hi he (.inl hne) hmark fun z hz => by
    rw [← Option.some.inj (hy.symm.trans hz)]
    exact hfits
  refine ⟨hi', hg, ⟨y, htxs.trans hy⟩, fun mk => ?_⟩
  rw [show discipline.view _ = Ledger.of _ from rfl, hmarks']
  exact hmarks mk

end Statements

/-! ## Handlers -/

theorem sat_newUuid : discipline.Sat (server env) R tid newUuid.run (Own tid φ)
    (Ends fun id v => Own tid φ v ∧ v.draws tid id) := by
  refine Sat.perform stable_own (fun id => stable_own.and stable_draws) fun m ch r w hi hp ha he => ?_
  have ho : Pooled .newUuid := ⟨nofun, nofun⟩
  have hkeep : Keeps discipline (server env) R tid (Own tid φ) .newUuid := keeps_pooled ho
  obtain ⟨hi', hg, hp'⟩ := hkeep m ch r w hi hp ha he
  exact ⟨hi', hg, hp', Moment.marked_after.mpr (.inl ⟨rfl, rfl⟩)⟩

theorem sat_ret {P : Ledger → Prop} {Q : α → Ledger → Prop} {a : α}
    (hs : discipline.Stable tid P) (h : ∀ v, P v → Q a v) :
    discipline.Sat (server env) R tid (pure a : Handler α).run P (Ends Q) :=
  Sat.ret hs fun v _ hp => h v hp

/-- Issuing tokens inserts one row, for the given user, client and session. -/
theorem sat_issue {x : OpenTx} {done : List TxMark} {user : User} {session : UserSession}
    {scope nonce request : Option String} (ha : x.aborted = false) (hbegun : .begun ∈ done)
    (hopen : .committed ∉ done) (hfirst : ∀ d, .inserted d ∉ done)
    (hpass : ∀ p, .found p ∈ done → p.revoked = false ∧ (user.id, client.id, session.id) = p.owner)
    :
    discipline.Sat (server env) R tid
      (TokenIssuer.issue env user client session scope nonce request).run (At tid (some x) done)
      (Ends fun _ => Own tid fun y M => ∃ c, y = some ((OpenTx.record [c.id] [.insert c]).apply x) ∧
        ∀ mk, M mk ↔ mk ∈ .inserted c :: done) := by
  unfold TokenIssuer.issue
  refine Sat.seqE (sat_pooled [.read] (RoleRepository.uses_findEffectiveNamesByUserId _).uses rfl)
    fun roles => ?_
  refine Sat.seqE (sat_pooled [.read] (JwtSigner.uses_signAccessToken env _ _ _).uses rfl)
    fun accessToken => ?_
  refine Sat.seqE (sat_pooled [.read] (uses_urlSafe rfl) rfl) fun raw => ?_
  refine Sat.seqE (sat_pooled [.read] (uses_now rfl) rfl) fun at_ => ?_
  refine Sat.seqE sat_newUuid fun id => ?_
  refine Sat.seqE (sat_insert ha hbegun hopen hfirst hpass) fun _ => ?_
  split
  · refine Sat.seqE (sat_pooled [.read] (JwtSigner.uses_signIdToken env _ _ _ _ _).uses rfl) fun _ => ?_
    exact sat_ret stable_own fun v hv => ⟨_, hv.1, hv.2⟩
  · exact sat_ret stable_own fun v hv => ⟨_, hv.1, hv.2⟩

/-- A row has been inserted, and the row to be exchanged has been found, if one was presented. -/
def Bought (hash : Option String) (M : TxMark → Prop) : Prop :=
  (∃ c, M (.inserted c)) ∧ ∀ h, hash = some h → ∃ p, M (.found p) ∧ p.tokenHash = h

theorem Bought.mono {hash : Option String} {M M' : TxMark → Prop} (h : Bought hash M)
    (hM : ∀ mk, M mk → M' mk) : Bought hash M' := by
  obtain ⟨⟨c, hc⟩, hfound⟩ := h
  refine ⟨⟨c, hM _ hc⟩, fun t ht => ?_⟩
  obtain ⟨p, hp, hhash⟩ := hfound t ht
  exact ⟨p, hM _ hp, hhash⟩

/-- A successful answer has been paid for with a committed row. -/
def Paid (tid : Nat) (hash : Option String) (a : TokenResult) : Ledger → Prop :=
  Own tid fun _ M => ∀ payload, a = .success payload → M .committed ∧ Bought hash M

/-- How the transaction of a grant is left. -/
def Leaving (tid : Nat) (hash : Option String) : TxEnd TokenResult → Ledger → Prop
  | .commit a => Own tid fun y M => Ready y M ∧ ∀ payload, a = .success payload → Bought hash M
  | .drop a => fun _ => ∀ payload, a ≠ .success payload

variable {hash : Option String}

theorem sat_leave {body : Handler (TxEnd TokenResult)}
    (hbody : discipline.Sat (server env) R tid body.run
      (At tid (some ⟨tid, [], [], false⟩) [.begun]) (Ends (Leaving tid hash))) :
    discipline.Sat (server env) R tid (transaction body).run (At tid none []) (Ends (Paid tid hash)) := by
  refine Sat.transaction sat_begin hbody (fun a => ?_) (fun a => ?_) fun e => sat_rollback
  · have hcommit := @sat_commit env R tid
      (fun y M => Ready y M ∧ ∀ payload, a = .success payload → Bought hash M)
      fun y M h => h.1
    refine hcommit.weaken fun x v _ hx => ?_
    cases x with
    | error e => trivial
    | ok _ =>
      obtain ⟨y, M, ⟨-, hpaid⟩, hM⟩ := hx
      intro payload ha
      exact ⟨(hM _).mpr (.inl rfl), (hpaid payload ha).mono fun mk hmk => (hM mk).mpr (.inr hmk)⟩
  · refine Sat.weaken (sat_rollback (p := ∀ payload, a ≠ .success payload)) fun x v _ hx => ?_
    cases x with
    | error e => trivial
    | ok _ => exact fun payload ha => absurd ha (hx payload)

/-- A grant that does not exchange a row. -/
theorem sat_grant {user : User} {session : UserSession} {scope nonce request : Option String} :
    discipline.Sat (server env) R tid
      (transaction do
        let payload ← TokenIssuer.issue env user client session scope nonce request
        return .commit (.success payload)).run (At tid none []) (Ends (Paid tid none)) := by
  refine sat_leave (Sat.seqE (sat_issue rfl ?_ ?_ ?_ ?_) fun payload => ?_)
  · simp
  · simp
  · simp
  · simp
  · refine sat_ret stable_own ?_
    rintro v ⟨c, hy, hM⟩
    refine ⟨⟨_, hy, fun p d hp _ => ?_⟩, fun _ _ => ⟨⟨c, (hM _).mpr (by simp)⟩, nofun⟩⟩
    simp [hM] at hp

/-- A `SELECT` keeps every assertion about the own transaction, and its reply is one that some
tables give. -/
theorem sat_query {q : Query} {fact : q.Res → Prop} (h : ∀ t, fact (q.exec env t)) :
    discipline.Sat (server env) R tid (query q).run (Own tid φ)
      (Ends fun x v => Own tid φ v ∧ fact x) := by
  refine Sat.sql stable_own (fun x => stable_own.and (.const _)) (fun _ => stable_true)
    fun m ch r w hi hp ha he => ?_
  have ho : Pooled (.sql (.query q)) := ⟨nofun, nofun⟩
  have hkeep : Keeps discipline (server env) R tid (Own tid φ) (.sql (.query q)) := keeps_pooled ho
  obtain ⟨hi', hg, hp'⟩ := hkeep m ch r w hi hp ha he
  refine ⟨hi', hg, ?_⟩
  obtain ⟨-, -, ⟨e, rfl⟩ | rfl⟩ := World.exec_query he
  · trivial
  · exact ⟨hp', h _⟩

theorem sat_userById : discipline.Sat (server env) R tid (query (.userById id)).run
    (Own tid φ) (Ends fun x v => Own tid φ v ∧ ∀ u : User, x = some u → u.id = id) := by
  refine sat_query fun t u hu => ?_
  have hfound := (Table.mem_of_find? (show t.users.find? _ = some u from hu)).2
  simpa using hfound

theorem sat_sessionById :
    discipline.Sat (server env) R tid (query (.sessionById id)).run (Own tid φ)
      (Ends fun x v => Own tid φ v ∧ ∀ s : UserSession, x = some s → s.id = id) := by
  refine sat_query fun t s hs => ?_
  have hfound := (Table.mem_of_find? (show t.sessions.find? _ = some s from hs)).2
  simpa using hfound

/-- The exchange of a row. -/
theorem sat_rotate {stored : RefreshToken} (hr : stored.revoked = false) :
    discipline.Sat (server env) R tid (TokenFlow.rotate env client stored).run
      (At tid (some ⟨tid, [], [stored.id], false⟩) [.found stored, .begun])
      (Ends (Leaving tid (some stored.tokenHash))) := by
  unfold TokenFlow.rotate
  have hdrop : ∀ description, discipline.Sat (server env) R tid
      (pure (.drop (.error "invalid_grant" description)) : Handler (TxEnd TokenResult)).run
      (At tid (some ⟨tid, [], [stored.id], false⟩) [.found stored, .begun]) (Ends (Leaving tid (some stored.tokenHash))) :=
    fun _ => sat_ret stable_own fun _ _ => nofun
  refine Sat.seqE (sat_pooled [.read] (uses_now rfl) rfl) fun at_ => ?_
  split
  · exact hdrop _
  split
  · exact hdrop _
  next hclient =>
    refine Sat.seqE sat_userById fun user => Sat.assume stable_own fun huser => ?_
    refine Sat.seqE sat_sessionById fun session => Sat.assume stable_own fun hsession => ?_
    split
    · next user session =>
      split
      · exact hdrop _
      refine Sat.seqE sat_revoke fun _ => ?_
      refine Sat.seqE (sat_issue rfl (by simp) (by simp) (by simp) fun p hp => ?_) fun payload => ?_
      · obtain rfl : p = stored := by simpa using hp
        refine ⟨hr, ?_⟩
        rw [huser user rfl, hsession session rfl, ← not_not.mp hclient]
        rfl
      · refine sat_ret stable_own ?_
        rintro v ⟨c, hy, hM⟩
        refine ⟨⟨_, hy, fun p d hp _ => ⟨rfl, ?_⟩⟩, fun _ _ => ⟨⟨c, (hM _).mpr (by simp)⟩, ?_⟩⟩
        · obtain rfl : p = stored := by simpa [hM] using hp
          simp [OpenTx.record]
        · rintro h ⟨⟩
          exact ⟨stored, (hM _).mpr (by simp), rfl⟩
    · exact hdrop _

/-- An answer that is not a success needs no row. -/
theorem sat_refuse {a : TokenResult} (ha : ∀ payload, a ≠ .success payload) :
    discipline.Sat (server env) R tid (pure a : Handler TokenResult).run (At tid none [])
      (Ends (Paid tid hash)) :=
  sat_ret stable_own fun _ _ payload h => absurd h (ha payload)

theorem sat_error {error description : String} :
    discipline.Sat (server env) R tid (pure (.error error description) : Handler TokenResult).run
      (At tid none []) (Ends (Paid tid hash)) :=
  sat_refuse (by rintro _ ⟨⟩)

/-- The client of a request is looked up outside the transaction, and refused with an error. -/
theorem sat_requireClient {clientId : String} {secret : Option String} :
    discipline.Sat (server env) R tid (TokenFlow.requireClient env clientId secret).run
      (At tid none []) (Ends fun x v => At tid none [] v ∧
        ∀ a, x = .error a → ∀ payload, a ≠ .success payload) := by
  unfold TokenFlow.requireClient
  refine Sat.seqE (sat_pooled [.read] (ClientRepository.uses_findByClientId env _).uses rfl)
    fun client => ?_
  split
  · exact sat_ret stable_own fun v hv => ⟨hv, by rintro a ⟨⟩ payload ⟨⟩⟩
  · split
    · exact sat_ret stable_own fun v hv => ⟨hv, by rintro a ⟨⟩ payload ⟨⟩⟩
    split
    · exact sat_ret stable_own fun v hv => ⟨hv, by rintro a ⟨⟩ payload ⟨⟩⟩
    · exact sat_ret stable_own fun v hv => ⟨hv, by rintro a ⟨⟩⟩

/-- A family revocation keeps the transaction open, even if it fails on the way. -/
theorem sat_family {sessionId : Uuid} (done : List TxMark) :
    discipline.Sat (server env) R tid
      (RefreshTokenRepository.revokeBySessionIdInTx sessionId).run (Killing tid done)
      fun _ => Killing tid done := by
  have hscan := @keeps_family env R tid (.familyScan sessionId) done (.inl ⟨_, rfl⟩)
  have hrow := fun id => @keeps_family env R tid (.familyRow sessionId id) done (.inr ⟨_, id, rfl⟩)
  exact Sat.of_keeps (RefreshTokenRepository.uses_family hscan hrow).run stable_own

/-- A transaction that has inserted nothing may commit. -/
theorem ready_of_killing {done : List TxMark} {v : Ledger} (h : Killing tid done v)
    (hno : ∀ c, .inserted c ∉ done) : Ready (v.txs tid) (v.marks tid) := by
  obtain ⟨⟨x, hx⟩, hmarks⟩ := h
  exact ⟨x, hx, fun p c _ hc => absurd ((hmarks _).mp hc) (hno c)⟩

theorem sat_fromRefreshToken :
    discipline.Sat (server env) R tid (TokenFlow.fromRefreshToken env req).run (At tid none [])
      (Ends (Paid tid (some (env.hmac (req.refreshToken.getD ""))))) := by
  unfold TokenFlow.fromRefreshToken
  dsimp only
  split
  · exact sat_error
  refine Sat.seqE sat_requireClient fun found => Sat.assume stable_own fun hfound => ?_
  split
  · next a => exact sat_refuse (hfound a rfl)
  refine sat_leave (Sat.seqE sat_find fun row => ?_)
  split
  · exact sat_ret stable_true fun _ _ => by rintro _ ⟨⟩
  · next stored =>
    refine Sat.assume stable_own fun hhash => ?_
    rw [← hhash]
    split
    · -- the replay: the family revocation may fail at any statement
      refine Sat.seqE (Sat.ignore (Q := fun _ => Killing tid [.found stored, .begun]) ?_)
        fun _ => ?_
      · refine (sat_family _).strengthen stable_own fun v _ hv => ?_
        exact ⟨⟨_, hv.1⟩, hv.2⟩
      · refine sat_ret stable_own fun v hv => ⟨ready_of_killing hv (by simp), ?_⟩
        rintro _ ⟨⟩
    · next hr => exact sat_rotate (Bool.eq_false_iff.mpr hr)

theorem sat_fromAuthorizationCode :
    discipline.Sat (server env) R tid (TokenFlow.fromAuthorizationCode env req).run (At tid none [])
      (Ends (Paid tid none)) := by
  unfold TokenFlow.fromAuthorizationCode
  dsimp only
  split
  · exact sat_error
  refine Sat.seqE sat_requireClient fun found => Sat.assume stable_own fun hfound => ?_
  split
  · next a => exact sat_refuse (hfound a rfl)
  refine Sat.seqE (sat_pooled [.read, .takeCode] (AuthCodeStore.uses_consume env _).uses rfl) fun authCode => ?_
  split
  · exact sat_error
  refine Sat.seqE (sat_pooled [.read] (uses_now rfl) rfl) fun at_ => ?_
  split
  · exact sat_error
  split
  · exact sat_error
  split
  · next h => exact sat_refuse (TokenFlow.pkceStep_ne_success env h)
  refine Sat.seqE (sat_pooled [.read] (uses_query rfl) rfl) fun user => ?_
  refine Sat.seqE (sat_pooled [.read] (uses_query rfl) rfl) fun session => ?_
  split
  · exact sat_grant
  · exact sat_error

theorem sat_fromDeviceCode :
    discipline.Sat (server env) R tid (TokenFlow.fromDeviceCode env req).run (At tid none [])
      (Ends (Paid tid none)) := by
  unfold TokenFlow.fromDeviceCode
  dsimp only
  split
  · exact sat_error
  refine Sat.seqE sat_requireClient fun found => Sat.assume stable_own fun hfound => ?_
  split
  · next a => exact sat_refuse (hfound a rfl)
  refine Sat.seqE (sat_pooled [.read] (DeviceAuthorizationRepository.uses_findByDeviceCode env _).uses rfl)
    fun auth => ?_
  split
  · exact sat_error
  split
  · exact sat_error
  refine Sat.seqE (sat_pooled [.read] (uses_now rfl) rfl) fun at_ => ?_
  split
  · exact sat_error
  split
  · next h => exact sat_refuse (TokenFlow.deviceStatusError_ne_success h)
  split
  · refine Sat.seqE (sat_pooled [.read] (uses_query rfl) rfl) fun user => ?_
    refine Sat.seqE (sat_pooled [.read] (uses_query rfl) rfl) fun session => ?_
    split
    · refine Sat.seqE (sat_pooled [.read, .device]
        (DeviceAuthorizationRepository.uses_update env _).uses rfl) fun _ => ?_
      exact sat_grant
    · exact sat_error
  · exact sat_error

/-- A successful answer comes with an exchange for every row that was found, and a successful
refresh has found the row it was asked for. -/
def Redeems (env : Env) (tid : Nat) (req : TokenRequest) (a : TokenResult) : Ledger → Prop :=
  Own tid fun _ M => ∀ payload, a = .success payload →
    (∀ p, M (.found p) → M .committed ∧ ∃ c, M (.inserted c)) ∧
    (req.grantType = some "refresh_token" →
      M .committed ∧ Bought (some (env.hmac (req.refreshToken.getD ""))) M)

theorem sat_token :
    discipline.Sat (server env) R tid (TokenFlow.token env req).run (At tid none [])
      (Ends (Redeems env tid req)) := by
  have hpaid : ∀ {h : Handler TokenResult}, req.grantType ≠ some "refresh_token" →
      discipline.Sat (server env) R tid h.run (At tid none []) (Ends (Paid tid none)) →
      discipline.Sat (server env) R tid h.run (At tid none []) (Ends (Redeems env tid req)) := by
    intro h hg hsat
    refine hsat.weaken fun x v _ hx => ?_
    cases x with
    | error e => trivial
    | ok a =>
      intro payload ha
      obtain ⟨hcom, hins, -⟩ := hx payload ha
      exact ⟨fun _ _ => ⟨hcom, hins⟩, fun h => absurd h hg⟩
  have hne : ∀ {g : String}, req.grantType.getD "" = g → g ≠ "refresh_token" →
      req.grantType ≠ some "refresh_token" := by
    rintro g hg hne h
    rw [h] at hg
    exact hne hg.symm
  unfold TokenFlow.token
  split
  · next hg => exact hpaid (hne hg (by decide)) sat_fromAuthorizationCode
  · refine sat_fromRefreshToken.weaken fun x v _ hx => ?_
    cases x with
    | error e => trivial
    | ok a =>
      intro payload ha
      obtain ⟨hcom, hbought⟩ := hx payload ha
      exact ⟨fun _ _ => ⟨hcom, hbought.1⟩, fun _ => ⟨hcom, hbought⟩⟩
  · next hg =>
    -- no transaction is opened, so no row is found
    have hkeep := @sat_pooled env R tid (fun y M => y = none ∧ ∀ mk, M mk ↔ mk ∈ []) _ _ _
      (TokenFlow.uses_fromClientCredentials env req).uses rfl
    refine hkeep.weaken fun x v _ hx => ?_
    cases x with
    | error e => trivial
    | ok a =>
      intro payload ha
      refine ⟨fun p hp => ?_, fun h => absurd h (hne hg (by decide))⟩
      simp [hx.2] at hp
  · next hg => exact hpaid (hne hg (by decide)) sat_fromDeviceCode
  · refine sat_ret stable_own fun _ _ => by rintro _ ⟨⟩

/-- How the transaction of a logout is left. -/
def Closing (tid : Nat) : TxEnd Unit → Ledger → Prop
  | .commit _ => Killing tid [.begun]
  | .drop _ => fun _ => True

/-- Ending a session revokes its rows in a transaction that finds and inserts none. -/
theorem sat_terminate {sessionId : Uuid} :
    discipline.Sat (server env) R tid (LogoutFlow.terminate env sessionId).run (At tid none [])
      (Ends fun _ => Own tid fun _ _ => True) := by
  have hbody : discipline.Sat (server env) R tid
      (RefreshTokenRepository.revokeBySessionIdInTx sessionId >>= fun _ =>
        pure (TxEnd.commit ()) : Handler (TxEnd Unit)).run
      (At tid (some ⟨tid, [], [], false⟩) [.begun]) (Ends (Closing tid)) := by
    refine Sat.seqE (M := fun _ => Killing tid [.begun]) ?_ fun _ => ?_
    · refine ((sat_family [.begun]).strengthen stable_own ?_).weaken fun x v _ hv => ?_
      · exact fun v _ hv => ⟨⟨_, hv.1⟩, hv.2⟩
      · cases x with
        | error e => trivial
        | ok _ => exact hv
    · exact sat_ret stable_own fun _ hv => hv
  unfold LogoutFlow.terminate
  refine Sat.seqE (M := fun _ => Own tid fun _ _ => True) ?_ fun _ => ?_
  · refine Sat.transaction sat_begin hbody (fun a => ?_) (fun a => sat_rollback)
      fun e => sat_rollback
    refine (@sat_commit env R tid (fun y M => (∃ x, y = some x) ∧ ∀ mk, M mk ↔ mk ∈ [.begun])
      fun y M h => ?_).weaken fun x v _ _ => ?_
    · obtain ⟨⟨x, hx⟩, hM⟩ := h
      exact ⟨x, hx, fun p c hp => by simp [hM] at hp⟩
    · cases x <;> trivial
  · exact sat_pooled _ (uses_ignore (SessionRepository.uses_delete env _).uses) rfl

theorem sat_logout {hint token uri : Option String} :
    discipline.Sat (server env) R tid (LogoutFlow.logout env hint token uri).run (At tid none [])
      (Ends fun _ _ => True) := by
  unfold LogoutFlow.logout SessionRepository.findById
  refine Sat.seqE (sat_pooled _ (LogoutFlow.uses_validatePostLogout env _ _).uses rfl) fun _ => ?_
  refine Sat.seqE (sat_pooled _ (LogoutFlow.uses_resolveSessionId env _ _).uses rfl) fun found => ?_
  split
  · exact sat_ret stable_own fun _ _ => trivial
  refine Sat.seqE (sat_pooled [.read] (uses_query rfl) rfl) fun _ => ?_
  refine Sat.seqE (sat_pooled [.read] (uses_query rfl) rfl) fun _ => ?_
  refine Sat.seqE (sat_pooled _ (LogoutFlow.uses_involvedClients _).uses rfl) fun _ => ?_
  exact Sat.seqE sat_terminate fun _ => sat_ret stable_own fun _ _ => trivial

theorem sat_revokeSession {token : Option String} {path : String} :
    discipline.Sat (server env) R tid (AdminResource.revokeSession env token path).run
      (At tid none []) (Ends fun _ _ => True) := by
  unfold AdminResource.revokeSession
  refine Sat.seqE (sat_pooled _ (AdminResource.uses_requireAdmin env _).uses rfl) fun _ => ?_
  split
  · exact sat_ret stable_own fun _ _ => trivial
  split
  · exact sat_ret stable_own fun _ _ => trivial
  exact Sat.seqE sat_terminate fun _ => sat_ret stable_own fun _ _ => trivial

/-! ## Whole runs -/

/-- The specifications of the requests: only the token endpoint owes anything. -/
def spec (env : Env) : (call : Call) → Nat → Instant → Ret call → Ledger → Prop
  | .token req, tid, _, .ok a => Redeems env tid req a
  | _, _, _, _ => fun _ => True

theorem spec_of_ne {call : Call} {x : Ret call} {v : Ledger} (h : ∀ req, call ≠ .token req)
    : spec env call tid m x v := by
  unfold spec
  split
  · next req _ => exact absurd rfl (h req)
  · trivial

/-- A request that has not started has no transaction and has left no mark. -/
theorem at_start (hi : (Ledger.of m).Inv) (hfresh : ∀ e ∈ m.trace, e.tid < tid) :
    At tid none [] (Ledger.of m) := by
  have hno : ∀ mk, ¬ (Ledger.of m).marks tid mk := fun _ => Moment.not_marked_of_lt hfresh
  refine ⟨?_, fun mk => ⟨fun h => absurd h (hno mk), nofun⟩⟩
  cases hx : (Ledger.of m).txs tid with
  | none => rfl
  | some x => exact absurd (hi.live tid x hx).1 (hno _)

/-- Every request keeps to the discipline. -/
theorem sat_handler (call : Call) : discipline.Sat (server env) R tid (handler env call).run
    (At tid none []) fun _ _ => True := by
  have hpooled := fun h => @sat_pooled env R tid (fun y M => y = none ∧ ∀ mk, M mk ↔ mk ∈ []) _
    call.footprint _ (handler_uses env call) h
  cases call with
  | token => exact sat_token.weaken fun _ _ _ _ => trivial
  | logout => exact sat_logout.weaken fun _ _ _ _ => trivial
  | revokeSession => exact sat_revokeSession.weaken fun _ _ _ _ => trivial
  | _ => exact (hpooled rfl).weaken fun _ _ _ _ => trivial

theorem meets : Meets discipline (server env) R (spec env) := by
  intro call _ tid m hi hfresh
  refine ⟨At tid none [], at_start hi hfresh, ?_⟩
  rw [server_program]
  by_cases hcall : ∃ req, call = .token req
  · obtain ⟨req, rfl⟩ := hcall
    refine sat_token.weaken fun x v _ hx => ?_
    cases x with
    | error e => trivial
    | ok a => exact hx
  · exact (sat_handler call).weaken fun _ _ _ _ => spec_of_ne fun req h => hcall ⟨req, h⟩

end Ledger

end AuthServer
