import AuthServer.Oauth.ScopeText
import AuthServer.Replies
import AuthServer.Scenario
import AuthServer.Store.Draws
import AuthServer.Store.Frames

/-!
# Grants of one consent at the same time

A grant reads the consent of a user to a client, adds its scopes in memory and writes the row back
with a second statement. Two grants that have both read the row before either of them writes lose
the scopes of one of them, and two grants that have found no row cannot both insert one. Nothing is
lost when the row a grant writes is still the one it has read.
-/

namespace AuthServer

open Concurrent Handler Storage

namespace ConsentRace

/-- The consent of a user to a client. -/
def consentOf (t : Tables) (userId clientId : Uuid) : Option UserConsent :=
  t.consents.find? fun c => c.userId == userId && c.clientId == clientId

/-- The scopes that a user has granted to a client. -/
def granted (t : Tables) (userId clientId : Uuid) : List String :=
  Scopes.parse ((consentOf t userId clientId).map UserConsent.scopes)

/-- The user and the client exist, and the ids of consents have been drawn. -/
structure Ready (w : World) (userId clientId : Uuid) : Prop where
  user : w.pg.tables.hasUser userId = true
  client : w.pg.tables.hasClient clientId = true
  known : ∀ c ∈ w.pg.tables.consents, c.id ∈ w.uuids

/-- In the runs of a regime grants succeed, and what was granted before and what they grant is
stored. -/
def NothingLost (env : Env) (R : Uuid → Uuid → Rules) : Prop :=
  ∀ userId clientId w c, Ready w userId clientId →
    Run (server env) (R userId clientId) (Config.start w) c →
    (∀ s ∈ granted w.pg.tables userId clientId, s ∈ granted c.moment.world.pg.tables userId clientId) ∧
      ∀ tid scope y, c.answered tid (.grantConsent userId clientId scope) y →
        y = .ok () ∧ ∀ s ∈ Scopes.parse scope, s ∈ granted c.moment.world.pg.tables userId clientId

variable (userId clientId : Uuid)

/-- Grants of a user to a client in any order, while the database is available. -/
def interleaved : Rules where
  admits call := ∃ scope, call = .grantConsent userId clientId scope
  allows _ _ _ ch := ch.fail = none

/-- The consent that a grant has read. -/
def readReply (found : Option UserConsent) : Reply Res :=
  ⟨.sql (.query (.consent userId clientId)), (.ok found : Except DbError (Option UserConsent))⟩

/-- A grant writes only while the consent is the one it has read. -/
def unchanged : Rules where
  admits call := ∃ scope, call = .grantConsent userId clientId scope
  allows m tid op ch := ch.fail = none ∧ ∀ st found, op = .sql (.stmt st) →
    readReply userId clientId found ∈ m.own tid →
    consentOf m.world.pg.tables userId clientId = found

section Proof

variable {env : Env} {userId clientId : Uuid} {scope : Option String} {es : Replies}

/-! ## What a grant writes -/

/-- The row of a statement that writes consents. -/
def written : Op → Option UserConsent
  | .sql (.stmt (.insertConsent c)) | .sql (.stmt (.updateConsent c)) => some c
  | _ => none

/-- The statement with which a grant answers what it has read. -/
inductive Writes (userId clientId : Uuid) (scope : Option String) (es : Replies) :
    Option UserConsent → Stmt → Prop
  | first (id : Uuid) (at_ : NaiveDateTime) (hid : (⟨.newUuid, id⟩ : Reply Res) ∈ es) :
      Writes userId clientId scope es none (.insertConsent
        { id, userId, clientId, scopes := ConsentService.joinScopes (Scopes.parse scope)
          grantedAt := at_, updatedAt := at_ })
  | again (existing : UserConsent) (at_ : NaiveDateTime) :
      Writes userId clientId scope es (some existing) (.updateConsent
        { existing with
          scopes := ConsentService.joinScopes
            (Scopes.parse (some existing.scopes) ++ Scopes.parse scope).dedup
          updatedAt := at_ })

variable {st : Stmt} {op : Op} {w : World} {row : UserConsent} {ch : Choice}

/-- The written scopes are those that were found and those of the request. -/
theorem Writes.scopes {found : Option UserConsent} (h : Writes userId clientId scope es found st) :
    ∃ row, written (.sql (.stmt st)) = some row ∧ ∀ s, s ∈ Scopes.parse (some row.scopes) ↔
      s ∈ Scopes.parse (found.map UserConsent.scopes) ∨ s ∈ Scopes.parse scope := by
  cases h with
  | first id at_ =>
    refine ⟨_, rfl, fun s => ?_⟩
    rw [ConsentService.mem_parse_joinScopes fun s hs => Scopes.isScope_of_mem_parse hs]
    exact ⟨.inr, fun h => h.resolve_left nofun⟩
  | again existing at_ =>
    refine ⟨_, rfl, fun s => ?_⟩
    rw [ConsentService.mem_parse_joinScopes fun s hs => ?_]
    · simp
    · rcases List.mem_append.mp (List.mem_dedup.mp hs) with hs | hs
      · exact Scopes.isScope_of_mem_parse hs
      · exact Scopes.isScope_of_mem_parse hs

/-- A grant writes what follows from the consent it has read. -/
theorem issues_grant
    (h : Issues (ConsentService.grant userId clientId scope).run es (.sql (.stmt st))) :
    ∃ found, readReply userId clientId found ∈ es ∧ Writes userId clientId scope es found st := by
  have hclock : now.Uses fun op => op.reading = true := uses_now rfl
  have hquery : (query (.consent userId clientId)).Uses fun op => op.reading = true := uses_query rfl
  have hdraw : newUuid.Uses fun op => op.reading = true := uses_newUuid rfl
  have hwrite : ¬ (Op.sql (.stmt st)).reading = true := Bool.false_ne_true
  unfold ConsentService.grant at h
  dsimp only at h
  obtain ⟨es₁, es₂, at_, rfl, -, h⟩ := Issues.skip hclock.run hwrite h
  obtain ⟨es₃, es₄, found, rfl, hread, h⟩ := Issues.skip hquery.run hwrite h
  have hmem : readReply userId clientId found ∈ es₁ ++ (es₃ ++ es₄) := by
    rw [returns_sql hread]
    exact List.mem_append_right _ List.mem_cons_self
  refine ⟨found, hmem, ?_⟩
  split at h
  · obtain ⟨es₅, es₆, id, rfl, hid, h⟩ := Issues.skip hdraw.run hwrite h
    rw [issues_stmt h]
    refine .first id at_ ?_
    rw [returns_perform.mp hid]
    simp
  · next existing =>
    rw [issues_stmt h]
    exact .again existing at_

/-- A grant none of whose statements has failed has succeeded, and has written. -/
theorem returns_grant {y : Except Failure Unit}
    (h : Returns (ConsentService.grant userId clientId scope).run es y)
    (hok : ∀ e ∈ es, sqlFailed e.1 e.2 = none) :
    y = .ok () ∧ ∃ found st, Writes userId clientId scope es found st ∧
      ∃ r, (⟨.sql (.stmt st), r⟩ : Reply Res) ∈ es := by
  have hperform : ∀ {op : Op} {es : Replies} {e : Failure}, ¬ Returns (perform op).run es (.error e) := by
    intro op es e h
    cases h with
    | call tail => cases tail
  unfold ConsentService.grant at h
  dsimp only at h
  rcases Returns.bindE h with ⟨e, -, hnow⟩ | ⟨es₁, es₂, at_, rfl, -, h⟩
  · exact absurd hnow hperform
  rcases Returns.bindE h with ⟨e, -, hread⟩ | ⟨es₃, es₄, found, rfl, hread, h⟩
  · obtain ⟨x, hx, -⟩ := returns_sql_unfailed hread fun e he => hok e (List.mem_append_right _ he)
    cases hx
  have hok : ∀ e ∈ es₄, sqlFailed e.1 e.2 = none := fun e he => hok e (by simp [he])
  split at h
  · rcases Returns.bindE h with ⟨e, -, hdraw⟩ | ⟨es₅, es₆, id, rfl, hdraw, h⟩
    · exact absurd hdraw hperform
    obtain ⟨x, rfl, rfl⟩ := returns_sql_unfailed h fun e he => hok e (List.mem_append_right _ he)
    refine ⟨rfl, none, _, .first id at_ ?_, Except.ok x, ?_⟩
    · rw [returns_perform.mp hdraw]
      simp
    · simp
  · next existing =>
    obtain ⟨x, rfl, rfl⟩ := returns_sql_unfailed h hok
    refine ⟨rfl, some existing, _, .again existing at_, Except.ok x, ?_⟩
    simp

/-! ## Runs in which nothing has changed in between -/

/-- What holds along such a run. -/
structure Inv (w₀ : World) (userId clientId : Uuid) (m : Instant) : Prop where
  user : m.world.pg.tables.hasUser userId = true
  client : m.world.pg.tables.hasClient clientId = true
  /-- Only the consent in question is new. -/
  rows : ∀ c ∈ m.world.pg.tables.consents,
    (∃ c₀ ∈ w₀.pg.tables.consents, c₀.id = c.id) ∨ (c.userId = userId ∧ c.clientId = clientId)
  unfailed : ∀ e ∈ m.trace, sqlFailed e.op e.res = none
  before : ∀ s ∈ granted w₀.pg.tables userId clientId, s ∈ granted m.world.pg.tables userId clientId
  /-- What has been written is still granted. -/
  kept : ∀ e ∈ m.trace, ∀ row, written e.op = some row →
    ∀ s ∈ Scopes.parse (some row.scopes), s ∈ granted m.world.pg.tables userId clientId

variable {w₀ : World} {m : Instant} {tid : Nat}

theorem Inv.start (h : Ready w₀ userId clientId) : Inv w₀ userId clientId ⟨w₀, []⟩ where
  user := h.user
  client := h.client
  rows c hc := .inl ⟨c, hc, rfl⟩
  unfailed _ he := absurd he List.not_mem_nil
  before _ hs := hs
  kept _ he := absurd he List.not_mem_nil

/-- A command that reads or draws keeps the invariant. -/
theorem Inv.read {r : Res op} (hi : Inv w₀ userId clientId m)
    (htables : w.pg.tables = m.world.pg.tables) (hfail : sqlFailed op r = none)
    (hop : written op = none) : Inv w₀ userId clientId (m.after tid op r w) := by
  constructor
  all_goals simp only [Moment.after, htables]
  · exact hi.user
  · exact hi.client
  · exact hi.rows
  · intro e he
    rcases List.mem_cons.mp he with rfl | he
    · exact hfail
    · exact hi.unfailed e he
  · exact hi.before
  · intro e he row hrow
    rcases List.mem_cons.mp he with rfl | he
    · rw [hop] at hrow
      cases hrow
    · exact hi.kept e he row hrow

/-- A write that keeps what was granted keeps the invariant. -/
theorem Inv.write {r : Res op} {cs : Table UserConsent}
    (hi : Inv w₀ userId clientId m)
    (htables : w.pg.tables = { m.world.pg.tables with consents := cs })
    (hfail : sqlFailed op r = none) (hop : written op = some row)
    (hrows : ∀ c ∈ cs, (∃ c₀ ∈ m.world.pg.tables.consents, c₀.id = c.id ∧ c₀.userId = c.userId ∧
      c₀.clientId = c.clientId) ∨ (c.userId = userId ∧ c.clientId = clientId))
    (hnow : (consentOf w.pg.tables userId clientId).map UserConsent.scopes = some row.scopes)
    (hmore : ∀ s ∈ granted m.world.pg.tables userId clientId, s ∈ Scopes.parse (some row.scopes)) :
    Inv w₀ userId clientId (m.after tid op r w) := by
  constructor
  · change w.pg.tables.hasUser userId = true
    rw [htables]
    exact hi.user
  · change w.pg.tables.hasClient clientId = true
    rw [htables]
    exact hi.client
  · intro c hc
    change c ∈ w.pg.tables.consents at hc
    rw [htables] at hc
    rcases hrows c hc with ⟨c₀, hc₀, hid, hu, hcl⟩ | hown
    · rw [← hid, ← hu, ← hcl]
      exact hi.rows c₀ hc₀
    · exact .inr hown
  · intro e he
    rcases List.mem_cons.mp he with rfl | he
    · exact hfail
    · exact hi.unfailed e he
  · intro s hs
    change s ∈ granted w.pg.tables userId clientId
    rw [granted, hnow]
    exact hmore s (hi.before s hs)
  · intro e he row' hrow s hs
    change s ∈ granted w.pg.tables userId clientId
    rw [granted, hnow]
    rcases List.mem_cons.mp he with rfl | he
    · cases hop.symm.trans hrow
      exact hs
    · exact hmore s (hi.kept e he row' hrow s hs)

/-- The key of a consent determines it. -/
theorem consentOf_eq_some {t : Tables} :
    consentOf t userId clientId = some row ↔
      row ∈ t.consents ∧ (row.userId == userId && row.clientId == clientId) = true := by
  refine Table.find?_eq_some fun a b ha hb => ?_
  simp only [Bool.and_eq_true, beq_iff_eq] at ha hb
  simp [Keyed.clash, ha, hb]

/-- A row with a new id is inserted where there is no consent yet. -/
theorem Inv.insert {r : Except DbError Unit} (hw : Ready w₀ userId clientId)
    (hi : Inv w₀ userId clientId m) (hid : row.id ∉ w₀.uuids)
    (hown : row.userId = userId ∧ row.clientId = clientId)
    (hnone : consentOf m.world.pg.tables userId clientId = none) (hfail : ch.fail = none)
    (he : World.exec env tid (.sql (.stmt (.insertConsent row))) ch m.world = some (r, w)) :
    Inv w₀ userId clientId (m.after tid (.sql (.stmt (.insertConsent row))) r w) := by
  obtain ⟨rfl, rfl⟩ := hown
  obtain ⟨cs, hcs⟩ : ∃ cs, m.world.pg.tables.consents.insert row = some cs := by
    refine Table.exists_insert fun b hb => decide_eq_false fun hclash => ?_
    have hother : ¬ (b.userId = row.userId ∧ b.clientId = row.clientId) := by
      simpa using Table.find?_eq_none.mp hnone b hb
    rcases hclash with heq | hown
    · rcases hi.rows b hb with ⟨c₀, hc₀, hsame⟩ | hown
      · rw [← heq, ← hsame] at hid
        exact hid (hw.known c₀ hc₀)
      · exact hother hown
    · exact hother hown
  rcases World.exec_sql he with ⟨text, htext, -⟩ | ⟨-, pg, hexec, rfl⟩
  · rw [hfail] at htext
    cases htext
  · simp only [Sql.exec, Stmt.exec, Postgres.insertRow, hcs, hi.user, hi.client, Bool.and_self,
      if_true] at hexec
    cases hexec
    have hstored : consentOf { m.world.pg.tables with consents := cs } row.userId row.clientId =
        some row := consentOf_eq_some.mpr ⟨(Table.mem_insert hcs).mpr (.inr rfl), by simp⟩
    refine hi.write rfl rfl rfl (fun c hc => ?_) (congrArg (Option.map UserConsent.scopes) hstored) ?_
    · rcases (Table.mem_insert hcs).mp hc with hold | rfl
      · exact .inl ⟨c, hold, rfl, rfl, rfl⟩
      · exact .inr ⟨rfl, rfl⟩
    · intro s hs
      rw [granted, hnone] at hs
      cases hs

/-- The consent that is there is updated. -/
theorem Inv.update {row existing : UserConsent} {r : Except DbError Unit}
    (hi : Inv w₀ userId clientId m)
    (hfound : consentOf m.world.pg.tables userId clientId = some existing)
    (hid : row.id = existing.id)
    (hmore : ∀ s ∈ Scopes.parse (some existing.scopes), s ∈ Scopes.parse (some row.scopes))
    (hfail : ch.fail = none)
    (he : World.exec env tid (.sql (.stmt (.updateConsent row))) ch m.world = some (r, w)) :
    Inv w₀ userId clientId (m.after tid (.sql (.stmt (.updateConsent row))) r w) := by
  obtain ⟨hmem, hown⟩ := consentOf_eq_some.mp hfound
  have hstored : consentOf { m.world.pg.tables with
      consents := m.world.pg.tables.consents.update (fun c => c.id == row.id)
        (UserConsent.setScopes row.scopes row.updatedAt) } userId clientId =
      some { existing with scopes := row.scopes, updatedAt := row.updatedAt } :=
    consentOf_eq_some.mpr ⟨Table.mem_update.mpr ⟨existing, hmem, if_pos (by simp [hid])⟩, hown⟩
  rcases World.exec_sql he with ⟨text, htext, -⟩ | ⟨-, pg, hexec, rfl⟩
  · rw [hfail] at htext
    cases htext
  · cases hexec
    refine hi.write rfl rfl rfl (fun c hc => .inl ?_)
      (congrArg (Option.map UserConsent.scopes) hstored) fun s hs => hmore s ?_
    · obtain ⟨c₀, hc₀, rfl⟩ := Table.mem_update.mp hc
      refine ⟨c₀, hc₀, ?_⟩
      split
      · exact ⟨rfl, rfl, rfl⟩
      · exact ⟨rfl, rfl, rfl⟩
    · rwa [granted, hfound] at hs

/-- A grant that finds its consent unchanged writes it without loss. -/
theorem Inv.stmt {r : Except DbError st.Res} {found : Option UserConsent}
    (hw : Ready w₀ userId clientId) (hi : Inv w₀ userId clientId m)
    (hwrites : Writes userId clientId scope es found st)
    (hids : ∀ id, (⟨.newUuid, id⟩ : Reply Res) ∈ es → id ∉ w₀.uuids)
    (hfound : consentOf m.world.pg.tables userId clientId = found) (hfail : ch.fail = none)
    (he : World.exec env tid (.sql (.stmt st)) ch m.world = some (r, w)) :
    Inv w₀ userId clientId (m.after tid (.sql (.stmt st)) r w) := by
  obtain ⟨row, hrow, hscopes⟩ := hwrites.scopes
  cases hwrites with
  | first id at_ hid => exact hi.insert hw (hids id hid) ⟨rfl, rfl⟩ hfound hfail he
  | again existing at_ =>
    cases hrow
    exact hi.update hfound rfl (fun s hs => (hscopes s).mpr (.inl hs)) hfail he

/-- Other commands of grants change no table and do not fail. -/
theorem Inv.other {r : Res op} (hi : Inv w₀ userId clientId m) (hstmt : ∀ st, op ≠ .sql (.stmt st))
    (htx : op.kind ≠ .tx) (hfail : ch.fail = none)
    (he : World.exec env tid op ch m.world = some (r, w)) :
    Inv w₀ userId clientId (m.after tid op r w) := by
  cases op with
  | sql s =>
    cases s with
    | query q =>
      rcases World.exec_sql he with ⟨text, htext, -⟩ | ⟨-, pg, hexec, rfl⟩
      · rw [hfail] at htext
        cases htext
      · cases hexec
        exact hi.read rfl rfl rfl
    | stmt st => exact absurd rfl (hstmt st)
    | tx s => exact absurd rfl htx
  | redis c =>
    rcases World.exec_redis he with ⟨text, -, -, rfl⟩ | ⟨-, -, rfl⟩
    · exact hi.read rfl rfl rfl
    · exact hi.read rfl rfl rfl
  | _ => exact hi.read (congrArg Postgres.tables (World.exec_reading rfl he).1) rfl rfl

/-- Along a run in which no consent changes between a read and the write that follows, the invariant
holds. -/
theorem inv_of_run {c : State} (hw : Ready w₀ userId clientId)
    (run : Run (server env) (unchanged userId clientId) (Config.start w₀) c) :
    Inv w₀ userId clientId c.moment := by
  refine run.invariant (J := fun c : State => Inv w₀ userId clientId c.moment)
    (fun _ _ _ _ ih => ih) ?_ (.start hw)
  intro c₁ tid t op k ch r w run₁ hi ht hp hallow he
  change Inv w₀ userId clientId (c₁.moment.after tid op r w)
  obtain ⟨hfail, hsame⟩ := hallow
  obtain ⟨scope, hcall⟩ := run₁.admitted t (List.mem_of_getElem? ht)
  have hissues := run₁.issues ht hp
  rw [hcall, server_program, handler] at hissues
  by_cases hop : ∃ st, op = .sql (.stmt st)
  · obtain ⟨st, rfl⟩ := hop
    obtain ⟨found, hread, hwrites⟩ := issues_grant hissues
    exact hi.stmt hw hwrites (fun id hid => Draw.id_new run₁ hid) (hsame st found rfl hread) hfail he
  · have hwithin := hissues.uses (ConsentService.uses_grant userId clientId scope).uses.run
    refine hi.other (fun st heq => hop ⟨st, heq⟩) (fun hkind => ?_) hfail he
    rw [Within, hkind] at hwithin
    cases hwithin

/-- Nothing is lost while the consent a grant writes is the one it has read. -/
theorem nothing_lost_if_unchanged (env : Env) : NothingLost env unchanged := by
  intro userId clientId w c hw run
  have hi := inv_of_run hw run
  refine ⟨hi.before, fun tid scope y ha => ?_⟩
  have hret := (run.replayed (Config.start_replayed w)).returns ha
  rw [server_program, handler] at hret
  obtain ⟨rfl, found, st, hwrites, r, hmem⟩ := returns_grant hret fun e he => by
    obtain ⟨x, hx, -, rfl⟩ := Moment.mem_own.mp he
    exact hi.unfailed x hx
  obtain ⟨row, hrow, hscopes⟩ := hwrites.scopes
  obtain ⟨x, hx, -, hreply⟩ := Moment.mem_own.mp hmem
  refine ⟨rfl, fun s hs => hi.kept x hx row ?_ s ((hscopes s).mpr (.inr hs))⟩
  rw [← hrow]
  exact congrArg (fun e : Reply Res => written e.1) hreply

end Proof

/-! ## Two grants at the same time -/

/-- Two grants that both read the consent before either of them writes it. -/
def twoGrants : List (Label Call Choice) :=
  [.spawn (.grantConsent 1 3 (some "email")), .spawn (.grantConsent 1 3 (some "profile"))] ++
    Scenario.steps 0 2 ++ Scenario.steps 1 2 ++ Scenario.steps 0 1 ++ Scenario.steps 1 1

/-- A grant of the sample user to the sample client. -/
def sampleGrant : Call → Bool
  | .grantConsent userId clientId _ => userId == 1 && clientId == 3
  | _ => false

theorem admits_of_sampleGrant (call : Call) (h : sampleGrant call = true) :
    (interleaved 1 3).admits call := by
  unfold sampleGrant at h
  split at h
  · next userId clientId scope =>
    simp only [Bool.and_eq_true, beq_iff_eq] at h
    obtain ⟨rfl, rfl⟩ := h
    exact ⟨scope, rfl⟩
  · cases h

/-- A grant of scope `email`. -/
def grantsEmail : (call : Call) → Ret call → Bool
  | .grantConsent userId clientId scope, _ => userId == 1 && clientId == 3 && scope == some "email"
  | _, _ => false

/-- The later write of two grants takes the scope of the earlier one away. -/
theorem grant_lost : ¬ NothingLost Scenario.env interleaved := by
  intro h
  let w : World := { Scenario.world Scenario.tables with uuids := [6] }
  have hplay : (Config.start w : State).reaches (server Scenario.env) sampleGrant Scenario.succeeds
      twoGrants (fun c => c.settled && c.replied 0 grantsEmail &&
        !(granted c.moment.world.pg.tables 1 3).contains "email") = true := by
    decide +kernel
  obtain ⟨c, run, htest⟩ := Config.run_of_reaches (R := interleaved 1 3) admits_of_sampleGrant
    (fun _ _ _ ch hg => Option.isNone_iff_eq_none.mp hg) hplay
  rw [Bool.and_eq_true, Bool.and_eq_true, Bool.not_eq_true'] at htest
  obtain ⟨⟨-, hreply⟩, hgone⟩ := htest
  obtain ⟨call, y, ha, hcall⟩ := Config.answered_of_replied hreply
  unfold grantsEmail at hcall
  split at hcall
  · next userId clientId scope y =>
    simp only [Bool.and_eq_true, beq_iff_eq] at hcall
    obtain ⟨⟨rfl, rfl⟩, rfl⟩ := hcall
    have hready : Ready w 1 3 := ⟨rfl, rfl, fun c hc => by
      obtain rfl : c = Scenario.consent := List.mem_singleton.mp hc
      exact List.mem_singleton_self _⟩
    have hkept := ((h 1 3 w c hready run).2 0 (some "email") y ha).2 "email" (by decide +kernel)
    rw [List.contains_iff_mem.mpr hkept] at hgone
    cases hgone
  · cases hcall

end ConsentRace

end AuthServer
