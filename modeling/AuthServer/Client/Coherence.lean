import AuthServer.Replies
import AuthServer.Session.Termination
import AuthServer.Store.Frames

/-!
# Coherence of the client cache

Writes of a client remove its cache entry after their statement. A lookup that has
read the row before a write may fill the cache after the write has removed the entry,
and every later lookup is then answered with the old row. The cache is coherent in
the runs in which it is only filled with what the tables hold at that moment, and in
which a removal of a redirect URI has read the client that owns it.
-/

namespace AuthServer

open Concurrent Handler Storage ClientRepository World
open Termination (redisUp redisUp_of_succeeds)

namespace Coherence

/-- The lookups and writes of clients. -/
def family : Call → Bool
  | .findByClientId _ | .updateClient _ | .deleteClient _ | .addRedirectUri _
  | .removeRedirectUri _ => true
  | _ => false

/-- The client with its redirect URIs as the tables hold it. -/
def stored (env : Env) (t : Tables) (clientId : String) : Option Client :=
  (t.clients.find? fun c => c.clientId == clientId).map fun row =>
    ⟨row, Query.exec env t (.redirectUris row.id)⟩

/-- The snapshot is what a lookup of the client reads from the tables. -/
def Current (env : Env) (t : Tables) (clientId : String) (snap : ClientSnapshot) : Prop :=
  (stored env t clientId).map ClientSnapshot.fromEntity = some snap

/-- Clients have names, and the cache holds what the tables do. -/
structure Consistent (env : Env) (w : World) : Prop where
  named : ∀ row ∈ w.pg.tables.clients, row.clientId ≠ ""
  current : ∀ clientId e, w.redis.clients.entry clientId = some e →
    Current env w.pg.tables clientId e.value

def isLookup : Call → Bool
  | .findByClientId _ => true
  | _ => false

/-- The same regime with lookups only. -/
def lookups (R : Rules) : Rules := { R with admits := fun call => isLookup call = true }

/-- Once the writes have returned and all requests received by then have been answered, every later
lookup returns the client that the writes have left in the tables. -/
def Coherent (env : Env) (R : Rules) : Prop :=
  ∀ w : World, Consistent env w → ∀ c₁ c₂ : State, Run (server env) R (Config.start w) c₁ →
    c₁.settled = true → Run (server env) (lookups R) c₁ c₂ →
    ∀ reader clientId x, c₁.threads.length ≤ reader →
      c₂.answered reader (.findByClientId clientId) (.ok x) →
      x = stored env c₁.moment.world.pg.tables clientId

/-- All interleavings of lookups and writes while Redis is available. -/
def available : Rules where
  admits call := family call = true
  allows _ _ op ch := redisUp op ch

/-- The redirect URI and the client that was read as its owner. -/
def owners : Marking Res (Uuid × String)
  | .sql (.query (.redirectUriOwner id)), .ok (some clientId) => some (id, clientId)
  | _, _ => none

/-- The interleavings in which the cache is only filled with what the tables hold, the client of a
new redirect URI is read without failure, and a redirect URI is only removed by a request that has
read the client it belongs to. -/
def ordered (env : Env) : Rules where
  admits call := family call = true
  allows m tid op ch := redisUp op ch ∧
    (∀ cmd snap, op = .redis (.client cmd) → cmd.writes = some snap →
      Current env m.world.pg.tables cmd.key snap) ∧
    (∀ id, op = .sql (.query (.clientById id)) → ch.fail = none) ∧
    ∀ id, op = .sql (.stmt (.deleteRedirectUri id)) →
      ∀ uri ∈ m.world.pg.tables.redirectUris, uri.id = id →
      ∀ row ∈ m.world.pg.tables.clients, row.id = uri.clientId →
        m.Marked owners tid (id, row.clientId)

section Proof

variable {env : Env} {t : Tables} {clientId : String}

/-! ## What the statements do to a stored client -/

theorem stored_eq_some {client : Client} : stored env t clientId = some client ↔
    client.toClientRow ∈ t.clients ∧ client.clientId = clientId ∧
      client.redirectUris = Query.exec env t (.redirectUris client.id) := by
  have hfind : ∀ row, (t.clients.find? fun c => c.clientId == clientId) = some row ↔
      row ∈ t.clients ∧ row.clientId = clientId := by
    intro row
    rw [Table.find?_eq_some, beq_iff_eq]
    intro a b ha hb
    exact decide_eq_true (.inr ((beq_iff_eq.mp ha).trans (beq_iff_eq.mp hb).symm))
  rw [stored, Option.map_eq_some_iff]
  constructor
  · rintro ⟨row, hrow, rfl⟩
    exact ⟨((hfind row).mp hrow).1, ((hfind row).mp hrow).2, rfl⟩
  · rintro ⟨hmem, hname, huris⟩
    exact ⟨client.toClientRow, (hfind _).mpr ⟨hmem, hname⟩, by rw [← huris]⟩

/-- The stored client depends on its row and on its redirect URIs only. -/
theorem stored_congr {t' : Tables}
    (hrow : ∀ row : ClientRow, row.clientId = clientId → (row ∈ t'.clients ↔ row ∈ t.clients))
    (huris : ∀ row ∈ t.clients, row.clientId = clientId →
      (t'.redirectUris.select fun r => r.clientId == row.id) =
        t.redirectUris.select fun r => r.clientId == row.id) :
    stored env t' clientId = stored env t clientId := by
  apply Option.ext
  intro client
  rw [stored_eq_some, stored_eq_some]
  by_cases hname : client.clientId = clientId
  · rw [hrow client.toClientRow hname]
    by_cases hmem : client.toClientRow ∈ t.clients
    · have hsame : Query.exec env t' (.redirectUris client.id) =
          Query.exec env t (.redirectUris client.id) := by
        simp only [Query.exec]
        rw [huris _ hmem hname]
      rw [hsame]
    · simp [hmem]
  · simp [hname]

variable {now : NaiveDateTime}

theorem stored_updateClient {c : ClientRow}
    (h : ∀ row ∈ t.clients, row.id = c.id → row.clientId ≠ clientId) :
    stored env ((Stmt.updateClient c).effect now t) clientId = stored env t clientId := by
  apply stored_congr
  · intro row hname
    simp only [Stmt.effect, Table.mem_update]
    constructor
    · rintro ⟨old, hold, rfl⟩
      split at hname
      · next hid => exact absurd hname (h old hold (beq_iff_eq.mp hid))
      · next hid => rwa [if_neg hid]
    · intro hrow
      refine ⟨row, hrow, if_neg ?_⟩
      exact fun hid => h row hrow (beq_iff_eq.mp hid) hname
  · exact fun _ _ _ => rfl

variable {id : Uuid} {uri : RedirectUri}

theorem stored_deleteClient (h : ∀ row ∈ t.clients, row.id = id → row.clientId ≠ clientId) :
    stored env ((Stmt.deleteClient id).effect now t) clientId = stored env t clientId := by
  apply stored_congr
  · intro row hname
    simp only [Stmt.effect, Table.mem_delete]
    refine ⟨And.left, fun hrow => ⟨hrow, ?_⟩⟩
    exact beq_eq_false_iff_ne.mpr fun hid => h row hrow hid hname
  · intro row hrow hname
    have hid : row.id ≠ id := fun hid => h row hrow hid hname
    simp only [Stmt.effect, Table.select, Table.delete, List.filter_filter]
    apply List.filter_congr
    intro r _
    by_cases hr : r.clientId = row.id
    · simp [hr, hid]
    · simp [hr]

theorem stored_insertRedirectUri
    (h : ∀ row ∈ t.clients, row.id = uri.clientId → row.clientId ≠ clientId) :
    stored env ((Stmt.insertRedirectUri uri).effect now t) clientId = stored env t clientId := by
  apply stored_congr
  · exact fun _ _ => Iff.rfl
  · intro row hrow hname
    have hid : (uri.clientId == row.id) = false :=
      beq_eq_false_iff_ne.mpr fun hid => h row hrow hid.symm hname
    simp only [Stmt.effect]
    cases hins : t.redirectUris.insert uri with
    | none => rfl
    | some uris =>
      unfold Table.insert at hins
      split at hins
      · cases hins
        simp [Table.select, hid]
      · cases hins

theorem stored_deleteRedirectUri
    (h : ∀ uri ∈ t.redirectUris, uri.id = id → ∀ row ∈ t.clients, row.id = uri.clientId →
      row.clientId ≠ clientId) :
    stored env ((Stmt.deleteRedirectUri id).effect now t) clientId = stored env t clientId := by
  apply stored_congr
  · exact fun _ _ => Iff.rfl
  · intro row hrow hname
    simp only [Stmt.effect, Table.select, Table.delete, List.filter_filter]
    apply List.filter_congr
    intro r hr
    by_cases hid : r.id = id
    · have hne : r.clientId ≠ row.id := fun heq => h r hr hid row hrow heq.symm hname
      simp [hne]
    · simp [hid]

/-! ## What a write does after its statement -/

variable {α : Type}

/-- The program removes the cache entry of the client next. -/
def Removes (clientId : String) (p : Prog Res α) : Prop :=
  ∃ k, p = .call (.redis (.client (.del clientId))) k

/-- The program removes the cache entry of the client next, or once it has read the row. -/
def Owes (t : Tables) (clientId : String) (p : Prog Res α) : Prop :=
  Removes clientId p ∨ ∃ row ∈ t.clients, row.clientId = clientId ∧
    ∃ k, p = .call (.sql (.query (.clientById row.id))) k ∧
      ∀ row', row'.clientId = clientId → Removes clientId (k (.ok (some row')))

/-- The program of a write that is about to execute its statement, after the given replies. -/
inductive Writing : Replies → Prog Res α → Prop
  | update {c : ClientRow} {k : Except DbError (Option ClientRow) → Prog Res α}
      (h : ∀ row, row.clientId ≠ "" → Removes row.clientId (k (.ok (some row)))) :
      Writing [] (.call (.sql (.stmt (.updateClient c))) k)
  | delete {id : Uuid} {row : ClientRow} {k : Except DbError Nat → Prog Res α}
      (h : row.clientId ≠ "" → ∀ n, Removes row.clientId (k (.ok n))) :
      Writing [⟨.sql (.query (.clientById id)), (.ok (some row) : Except DbError (Option ClientRow))⟩]
        (.call (.sql (.stmt (.deleteClient id))) k)
  | insert {uri : RedirectUri} {k : Except DbError Unit → Prog Res α}
      {k' : Except DbError (Option ClientRow) → Prog Res α}
      (hk : k (.ok ()) = .call (.sql (.query (.clientById uri.clientId))) k')
      (h : ∀ row, row.clientId ≠ "" → Removes row.clientId (k' (.ok (some row)))) :
      Writing [] (.call (.sql (.stmt (.insertRedirectUri uri))) k)
  | remove {id : Uuid} {owner : Option String} {k : Except DbError Nat → Prog Res α}
      (h : ∀ clientId n, owner = some clientId → clientId ≠ "" → 0 < n →
        Removes clientId (k (.ok n))) :
      Writing [⟨.sql (.query (.redirectUriOwner id)), (.ok owner : Except DbError (Option String))⟩]
        (.call (.sql (.stmt (.deleteRedirectUri id))) k)

theorem removes_invalidate (hne : clientId ≠ "") :
    Removes clientId (invalidate clientId).run := by
  unfold invalidate
  rw [if_neg hne]
  exact ⟨_, rfl⟩

theorem Removes.bind {β : Type} {p : Prog Res α} (h : Removes clientId p) (f : α → Prog Res β) :
    Removes clientId (p >>= f) := by
  obtain ⟨k, rfl⟩ := h
  exact ⟨_, rfl⟩

variable {es : Replies} {st : Stmt}

theorem not_issues_invalidate :
    ¬ Issues (invalidate clientId).run es (.sql (.stmt st)) := by
  rintro ⟨k, h⟩
  unfold invalidate at h
  split at h
  · cases h
  · cases h with
    | call tail => cases tail

/-- After its statement a write removes the cache entry and returns. -/
theorem not_issues_after {f : Except Failure Unit → Prog Res α} (hf : ∀ x, ∃ a, f x = .pure a) :
    ¬ Issues ((invalidate clientId).run >>= f) es (.sql (.stmt st)) := by
  intro h
  rcases Issues.of_bind h with h | ⟨es₁, es₂, x, -, -, h⟩
  · exact not_issues_invalidate h
  · obtain ⟨a, ha⟩ := hf x
    rw [ha] at h
    exact Issues.not_pure h

theorem writing_update {client : ClientRow} {k : _ → Prog Res (Except Failure (Option ClientRow))}
    (h : Leads (update client).run es (.call (.sql (.stmt st)) k)) :
    Writing es (.call (.sql (.stmt st)) k) := by
  cases h with
  | refl => exact .update fun row hne => (removes_invalidate hne).bind _
  | @call _ _ r _ _ tail =>
    rcases r with e | row | row
    · cases tail
    · cases tail
    · refine absurd ⟨k, tail⟩ (not_issues_after fun x => ?_)
      cases x
      all_goals exact ⟨_, rfl⟩

theorem writing_delete {k : _ → Prog Res (Except Failure (Option String))}
    (h : Leads (delete id).run es (.call (.sql (.stmt st)) k)) :
    Writing es (.call (.sql (.stmt st)) k) := by
  cases h with
  | @call _ _ r _ _ tail =>
    rcases r with e | row | row
    · cases tail
    · cases tail
    · cases tail with
      | refl => exact .delete fun hne n => (removes_invalidate hne).bind _
      | @call _ _ r _ _ tail =>
        rcases r with e | n
        · cases tail
        · refine absurd ⟨k, tail⟩ (not_issues_after fun x => ?_)
          cases x
          all_goals exact ⟨_, rfl⟩

theorem writing_addRedirectUri {k : _ → Prog Res (Except Failure Unit)}
    (h : Leads (addRedirectUri uri).run es (.call (.sql (.stmt st)) k)) :
    Writing es (.call (.sql (.stmt st)) k) := by
  cases h with
  | refl => exact .insert rfl fun row hne => removes_invalidate hne
  | @call _ _ r _ _ tail =>
    rcases r with e | _
    · cases tail
    · cases tail with
      | @call _ _ r _ _ tail =>
        rcases r with e | row | row
        · cases tail
        · cases tail
        · exact absurd ⟨k, tail⟩ not_issues_invalidate

theorem writing_removeRedirectUri {k : _ → Prog Res (Except Failure Nat)}
    (h : Leads (removeRedirectUri id).run es (.call (.sql (.stmt st)) k)) :
    Writing es (.call (.sql (.stmt st)) k) := by
  cases h with
  | @call _ _ r _ _ tail =>
    rcases r with e | owner
    · cases tail
    · cases tail with
      | refl =>
        refine .remove ?_
        rintro clientId n rfl hne hn
        obtain ⟨n, rfl⟩ := Nat.exists_eq_succ_of_ne_zero hn.ne'
        exact (removes_invalidate hne).bind _
      | @call _ _ r _ _ tail =>
        rcases r with e | n
        · cases tail
        · rcases n with _ | n
          · cases tail
          · rcases owner with _ | clientId
            · cases tail
            · refine absurd ⟨k, tail⟩ (not_issues_after fun x => ?_)
              cases x
              all_goals exact ⟨_, rfl⟩

/-- A request of the family that executes a statement is a write. -/
theorem writing_of_leads {call : Call} (hcall : family call = true) {k : _ → Prog Res (Ret call)}
    (h : Leads ((server env).program call) es (.call (.sql (.stmt st)) k)) :
    Writing es (.call (.sql (.stmt st)) k) := by
  cases call with
  | findByClientId clientId =>
    have hread := Issues.uses (uses_program (handler_uses env (.findByClientId clientId))) ⟨k, h⟩
    cases reading_of_within hread
  | updateClient client => exact writing_update h
  | deleteClient id => exact writing_delete h
  | addRedirectUri uri => exact writing_addRedirectUri h
  | removeRedirectUri id => exact writing_removeRedirectUri h
  | _ => cases hcall

/-! ## The cache along a run -/

/-- The clients of a world keep the keys they had at the start. -/
def Kept (w₀ : World) (m : Instant) : Prop :=
  ∀ row ∈ m.world.pg.tables.clients, ∃ row₀ ∈ w₀.pg.tables.clients,
    row₀.id = row.id ∧ row₀.clientId = row.clientId

theorem keys_effect {row : ClientRow} (hst : ∀ c, st ≠ .insertClient c)
    (h : row ∈ (st.effect now t).clients) :
    ∃ row₀ ∈ t.clients, row₀.id = row.id ∧ row₀.clientId = row.clientId := by
  cases st with
  | insertClient c => exact absurd rfl (hst c)
  | updateClient c =>
    obtain ⟨row₀, hrow₀, rfl⟩ := Table.mem_update.mp h
    refine ⟨row₀, hrow₀, ?_⟩
    split
    · exact ⟨rfl, rfl⟩
    · exact ⟨rfl, rfl⟩
  | deleteClient id => exact ⟨row, (Table.mem_delete.mp h).1, rfl, rfl⟩
  | updateCredential c =>
    refine ⟨row, ?_, rfl, rfl⟩
    simp only [Stmt.effect] at h
    split at h
    · exact h
    · exact h
  | _ => exact ⟨row, h, rfl, rfl⟩

variable {w₀ w : World} {m : Instant} {tid : Nat} {op : Op} {ch : Choice} {r : Res op}

theorem Kept.step (hk : Kept w₀ m) (hop : ∀ c, op ≠ .sql (.stmt (.insertClient c)))
    (he : exec env tid op ch m.world = some (r, w)) :
    Kept w₀ (m.after tid op r w) := by
  intro row hrow
  have hback : ∃ row₁ ∈ m.world.pg.tables.clients, row₁.id = row.id ∧
      row₁.clientId = row.clientId := by
    have hrow : row ∈ w.pg.tables.clients := hrow
    rcases exec_tables he with ht | ⟨st, x, hreply, ht⟩ | ⟨-, tokens, ht⟩
    · rw [ht] at hrow
      exact ⟨row, hrow, rfl, rfl⟩
    · rw [ht] at hrow
      refine keys_effect (fun c hst => hop c ?_) hrow
      rw [← hst]
      exact congrArg Sigma.fst hreply
    · rw [ht] at hrow
      exact ⟨row, hrow, rfl, rfl⟩
  obtain ⟨row₁, hrow₁, hid, hname⟩ := hback
  obtain ⟨row₀, hrow₀, hid₀, hname₀⟩ := hk row₁ hrow₁
  exact ⟨row₀, hrow₀, hid₀.trans hid, hname₀.trans hname⟩

variable {R : Rules} {c : State}

/-- The family creates no clients. -/
theorem kept_of_run (hR : ∀ call, R.admits call → family call = true)
    (run : Run (server env) R (Config.start w₀) c) : Kept w₀ c.moment := by
  refine run.invariant (J := fun c => Kept w₀ c.moment) (fun _ _ _ _ ih => ih) ?_
    fun row hrow => ⟨row, hrow, rfl, rfl⟩
  intro c₁ tid t op k ch r w run₁ ih ht hp _ he
  refine ih.step (fun row hop => ?_) he
  subst hop
  have hleads := (run₁.replayed (Config.start_replayed w₀)).2 tid t ht
  rw [hp] at hleads
  have hwriting := writing_of_leads (hR _ (run₁.admitted t (List.mem_of_getElem? ht))) hleads
  generalize c₁.moment.own tid = es at hwriting
  cases hwriting

/-- A client that has been read by its id has kept its name. -/
theorem name_of_read (hR : ∀ call, R.admits call → family call = true)
    (run : Run (server env) R (Config.start w₀) c)
    {found row : ClientRow}
    (h : (⟨.sql (.query (.clientById id)), (.ok (some found) : Except DbError (Option ClientRow))⟩ :
      Reply Res) ∈ c.moment.own tid)
    (hrow : row ∈ c.moment.world.pg.tables.clients) (hid : row.id = id) :
    row.clientId = found.clientId := by
  obtain ⟨c₁, t, k, ch, w, run₁, -, -, -, hexec, -⟩ := run.executed_own h
  have hexec : exec env tid (.sql (.query (.clientById id))) ch c₁.moment.world =
    some (.ok (some found), w) := hexec
  obtain ⟨-, -, ⟨e, he⟩ | he⟩ := exec_query hexec
  · cases he
  have hfind : c₁.moment.world.pg.tables.clients.find? (fun c => c.id == id) = some found :=
    (Except.ok.inj he).symm
  obtain ⟨hfound, hfid⟩ := Table.mem_of_find? hfind
  obtain ⟨x, hx, hxid, hxname⟩ := kept_of_run hR run₁ found hfound
  obtain ⟨y, hy, hyid, hyname⟩ := kept_of_run hR run row hrow
  have hsame : x = y := by
    refine Table.eq_of_clash hx hy (decide_eq_true (.inl ?_))
    rw [hxid, hyid, hid, beq_iff_eq.mp hfid]
  rw [← hyname, ← hxname, hsame]

/-- `UPDATE … RETURNING` returns the row under the name it had. -/
theorem updateClient_reply {client row : ClientRow} {x : Option ClientRow}
    (he : exec env tid (.sql (.stmt (.updateClient client))) ch m.world = some (.ok x, w))
    (hrow : row ∈ m.world.pg.tables.clients) (hid : row.id = client.id) :
    ∃ row', x = some row' ∧ row'.clientId = row.clientId := by
  obtain ⟨-, ⟨⟨e, he'⟩, -⟩ | hst⟩ := exec_stmt he
  · cases he'
  have hx : x = (m.world.pg.tables.clients.update (fun r => r.id == client.id)
      client.setColumns).find? fun r => r.id == client.id :=
    Except.ok.inj (Prod.mk.inj (Option.some.inj hst)).1.symm
  have hfind : (m.world.pg.tables.clients.find? fun r => r.id == client.id) = some row := by
    rw [Table.find?_eq_some]
    · exact ⟨hrow, beq_iff_eq.mpr hid⟩
    · intro a b ha hb
      exact decide_eq_true (.inl ((beq_iff_eq.mp ha).trans (beq_iff_eq.mp hb).symm))
  rw [Table.find?_update (fun _ => rfl), hfind, Option.map_some] at hx
  refine ⟨_, hx, ?_⟩
  split
  · rfl
  · rfl

/-- A removal that finds the redirect URI affects a row. -/
theorem deleteRedirectUri_reply {n : Nat}
    (he : exec env tid (.sql (.stmt (.deleteRedirectUri id))) ch m.world = some (.ok n, w))
    (huri : uri ∈ m.world.pg.tables.redirectUris) (hid : uri.id = id) : 0 < n := by
  obtain ⟨-, ⟨⟨e, he'⟩, -⟩ | hst⟩ := exec_stmt he
  · cases he'
  have hn : n = m.world.pg.tables.redirectUris.count fun r => r.id == id :=
    Except.ok.inj (Prod.mk.inj (Option.some.inj hst)).1.symm
  rw [hn]
  exact List.length_pos_of_mem (List.mem_filter.mpr ⟨huri, beq_iff_eq.mpr hid⟩)

/-- A request that has read the owner of a redirect URI has read one owner only. -/
theorem owner_of_marked {owner : Option String} {key : Uuid × String}
    (hown : m.own tid = [⟨.sql (.query (.redirectUriOwner id)),
      (.ok owner : Except DbError (Option String))⟩])
    (h : m.Marked owners tid key) : owner = some key.2 := by
  obtain ⟨x, hx, htid, hmark⟩ := h
  have hmem : (⟨x.op, x.res⟩ : Reply Res) ∈ m.own tid := Moment.mem_own.mpr ⟨x, hx, htid, rfl⟩
  obtain ⟨i, op, r⟩ := x
  rw [hown] at hmem
  cases List.mem_singleton.mp hmem
  cases owner with
  | none => cases hmark
  | some clientId =>
    cases hmark
    rfl

/-- A statement leaves a client alone, or its request is about to remove the cache entry. -/
theorem stored_or_owes (run : Run (server env) (ordered env) (Config.start w₀) c)
    (ha : (ordered env).allows c.moment tid (.sql (.stmt st)) ch) {x : st.Res}
    (he : exec env tid (.sql (.stmt st)) ch c.moment.world = some (.ok x, w))
    {k : _ → Prog Res α} (hw : Writing (c.moment.own tid) (.call (.sql (.stmt st)) k))
    (hne : clientId ≠ "") :
    stored env w.pg.tables clientId = stored env c.moment.world.pg.tables clientId ∨
      Owes w.pg.tables clientId (k (.ok x)) := by
  have ht := exec_stmt_ok he
  rw [ht]
  generalize hown : c.moment.own tid = es at hw
  cases hw with
  | @update client k h =>
    by_cases hhit : ∃ row ∈ c.moment.world.pg.tables.clients, row.id = client.id ∧
        row.clientId = clientId
    · obtain ⟨row, hrow, hid, rfl⟩ := hhit
      obtain ⟨row', rfl, hname⟩ := updateClient_reply he hrow hid
      right
      rw [← hname] at hne ⊢
      exact .inl (h row' hne)
    · left
      exact stored_updateClient fun row hrow hid hname => hhit ⟨row, hrow, hid, hname⟩
  | @delete id found k h =>
    by_cases hhit : ∃ row ∈ c.moment.world.pg.tables.clients, row.id = id ∧
        row.clientId = clientId
    · obtain ⟨row, hrow, hid, rfl⟩ := hhit
      have hname : row.clientId = found.clientId :=
        name_of_read (fun _ hcall => hcall) run (hown ▸ List.mem_singleton_self _) hrow hid
      right
      rw [hname] at hne ⊢
      exact .inl (h hne x)
    · left
      exact stored_deleteClient fun row hrow hid hname => hhit ⟨row, hrow, hid, hname⟩
  | @insert uri k k' hk h =>
    by_cases hhit : ∃ row ∈ c.moment.world.pg.tables.clients, row.id = uri.clientId ∧
        row.clientId = clientId
    · obtain ⟨row, hrow, hid, rfl⟩ := hhit
      right
      right
      refine ⟨row, hrow, rfl, k', ?_, fun row' hname => hname ▸ h row' (hname ▸ hne)⟩
      rw [hid]
      exact hk
    · left
      exact stored_insertRedirectUri fun row hrow hid hname => hhit ⟨row, hrow, hid, hname⟩
  | @remove id owner k h =>
    by_cases hhit : ∃ uri ∈ c.moment.world.pg.tables.redirectUris, uri.id = id ∧
        ∃ row ∈ c.moment.world.pg.tables.clients, row.id = uri.clientId ∧ row.clientId = clientId
    · obtain ⟨uri, huri, hid, row, hrow, howner, rfl⟩ := hhit
      have hread := ha.2.2.2 id rfl uri huri hid row hrow howner
      have howner := owner_of_marked hown hread
      right
      exact .inl (h row.clientId x howner hne (deleteRedirectUri_reply he huri hid))
    · left
      exact stored_deleteRedirectUri fun uri huri hid row hrow howner hname =>
        hhit ⟨uri, huri, hid, row, hrow, howner, hname⟩

/-- A read of a client that is there returns it. -/
theorem clientById_reply {row : ClientRow} {x : Except DbError (Option ClientRow)}
    (hf : ch.fail = none)
    (he : exec env tid (.sql (.query (.clientById row.id))) ch m.world = some (x, w))
    (hrow : row ∈ m.world.pg.tables.clients) : x = .ok (some row) := by
  rcases exec_sql he with ⟨text, hfail, -⟩ | ⟨-, pg, hst, -⟩
  · exact absurd (hf.symm.trans hfail) nofun
  have hx : x = .ok (m.world.pg.tables.clients.find? fun c => c.id == row.id) :=
    (Prod.mk.inj (Option.some.inj hst)).1.symm
  have hfind : (m.world.pg.tables.clients.find? fun c => c.id == row.id) = some row := by
    rw [Table.find?_eq_some]
    · exact ⟨hrow, beq_self_eq_true _⟩
    · intro a b ha hb
      exact decide_eq_true (.inl ((beq_iff_eq.mp ha).trans (beq_iff_eq.mp hb).symm))
  rw [hx, hfind]

theorem Owes.of_stored {t' : Tables} {p : Prog Res α} (h : Owes t clientId p)
    (hsame : stored env t' clientId = stored env t clientId) : Owes t' clientId p := by
  rcases h with h | ⟨row, hrow, hname, hnext⟩
  · exact .inl h
  · have hfound : stored env t' clientId =
        some ⟨row, Query.exec env t (.redirectUris row.id)⟩ :=
      hsame.trans (stored_eq_some.mpr ⟨hrow, hname, rfl⟩)
    exact .inr ⟨row, (stored_eq_some.mp hfound).1, hname, hnext⟩

/-- A cached client is the stored one, or a request is about to remove it. -/
def Fresh (env : Env) (c : State) : Prop :=
  ∀ clientId e, c.moment.world.redis.clients.entry clientId = some e → clientId ≠ "" →
    Current env c.moment.world.pg.tables clientId e.value ∨
      ∃ (i : Nat) (th : Thread Res World Ret), c.threads[i]? = some th ∧
        Owes c.moment.world.pg.tables clientId th.prog

/-- An entry of the cache is from before the command, or the command has filled it. -/
theorem entry_before (ha : (ordered env).allows m tid op ch)
    (he : exec env tid op ch m.world = some (r, w)) {e : Entry ClientSnapshot}
    (h : w.redis.clients.entry clientId = some e) :
    (m.world.redis.clients.entry clientId = some e ∧ op ≠ .redis (.client (.del clientId))) ∨
      (Current env m.world.pg.tables clientId e.value ∧ w.pg.tables = m.world.pg.tables) := by
  cases op with
  | redis cmd =>
    obtain ⟨text, hf, -, -⟩ | ⟨-, -, rfl⟩ := exec_redis he
    · exact absurd (ha.1.symm.trans hf) (by rintro ⟨⟩)
    cases cmd with
    | client cmd =>
      rcases Kv.entry_exec h with hold | ⟨rfl, hwrites⟩
      · refine .inl ⟨hold, ?_⟩
        rintro hdel
        cases hdel
        simp [RedisCmd.exec, Kv.exec] at h
      · exact .inr ⟨ha.2.1 cmd _ rfl hwrites, rfl⟩
    | _ => exact .inl ⟨h, (by rintro ⟨⟩)⟩
  | _ =>
    rcases redis_exec he with hr | ⟨cmd, hop, -⟩
    · rw [hr] at h
      exact .inl ⟨h, (by rintro ⟨⟩)⟩
    · cases hop

theorem Fresh.step {th : Thread Res World Ret} {k : Res op → Prog Res (Ret th.call)}
    (run : Run (server env) (ordered env) (Config.start w₀) c) (hfresh : Fresh env c)
    (hth : c.threads[tid]? = some th) (hprog : th.prog = .call op k)
    (ha : (ordered env).allows c.moment tid op ch)
    (he : exec env tid op ch c.moment.world = some (r, w)) :
    Fresh env (c.advance tid th op r w (k r)) := by
  intro clientId e hentry hne
  have hself : Owes w.pg.tables clientId (k r) → ∃ (i : Nat) (th' : Thread Res World Ret),
      (c.advance tid th op r w (k r)).threads[i]? = some th' ∧
        Owes w.pg.tables clientId th'.prog := by
    intro howes
    refine ⟨tid, _, List.getElem?_set_self ?_, howes⟩
    exact (List.getElem?_eq_some_iff.mp hth).1
  have hstored : stored env w.pg.tables clientId = stored env c.moment.world.pg.tables clientId ∨
      Owes w.pg.tables clientId (k r) := by
    rcases exec_tables he with ht | ⟨st, x, hreply, -⟩ | ⟨-, tokens, ht⟩
    · exact .inl (by rw [ht])
    · cases hreply
      have hlead := (run.replayed (Config.start_replayed w₀)).2 tid th hth
      rw [hprog] at hlead
      exact stored_or_owes run ha he (writing_of_leads (run.admitted th (List.mem_of_getElem? hth)) hlead) hne
    · exact .inl (by rw [ht]; rfl)
  rcases hstored with hsame | howes
  · rcases entry_before ha he hentry with ⟨hold, hdel⟩ | ⟨hcurrent, ht⟩
    · rcases hfresh clientId e hold hne with hcurrent | ⟨i, th', hth', howes⟩
      · left
        change Option.map _ (stored env w.pg.tables clientId) = _
        rw [hsame]
        exact hcurrent
      · right
        by_cases hi : i = tid
        · subst hi
          cases hth.symm.trans hth'
          rw [hprog] at howes
          rcases howes with ⟨k', hk⟩ | ⟨row, hrow, hname, k', hk, hnext⟩
          · cases hk
            exact absurd rfl hdel
          · cases hk
            obtain rfl := clientById_reply (ha.2.2.1 _ rfl) he hrow
            exact hself (.inl (hnext row hname))
        · refine ⟨i, th', ?_, ?_⟩
          · exact (List.getElem?_set_ne (Ne.symm hi)).trans hth'
          · exact howes.of_stored hsame
    · left
      change Current env w.pg.tables clientId e.value
      rw [ht]
      exact hcurrent
  · exact .inr (hself howes)

theorem fresh_of_run (hw₀ : Consistent env w₀)
    (run : Run (server env) (ordered env) (Config.start w₀) c) : Fresh env c := by
  refine run.invariant (J := Fresh env) ?_ ?_ fun clientId e h _ => .inl (hw₀.current clientId e h)
  · intro c₁ call _ _ hfresh clientId e hentry hne
    rcases hfresh clientId e hentry hne with hcurrent | ⟨i, th, hth, howes⟩
    · exact .inl hcurrent
    · have hlt : i < c₁.threads.length := (List.getElem?_eq_some_iff.mp hth).1
      exact .inr ⟨i, th, (List.getElem?_append_left hlt).trans hth, howes⟩
  · intro c₁ tid th op k ch r w run₁ hfresh hth hprog ha he
    exact hfresh.step run₁ hth hprog ha he

/-- The named entries of the cache are what the tables hold. -/
def Clean (env : Env) (w : World) : Prop :=
  ∀ clientId e, w.redis.clients.entry clientId = some e → clientId ≠ "" →
    Current env w.pg.tables clientId e.value

/-- When every request has been answered, no entry is left to remove. -/
theorem Fresh.clean (hfresh : Fresh env c) (hsettled : c.settled = true) :
    Clean env c.moment.world := by
  intro clientId e hentry hne
  rcases hfresh clientId e hentry hne with hcurrent | ⟨i, th, hth, howes⟩
  · exact hcurrent
  · have hdone := List.all_eq_true.mp hsettled th (List.mem_of_getElem? hth)
    rcases howes with ⟨k, hk⟩ | ⟨row, -, -, k, hk, -⟩
    · rw [hk] at hdone
      cases hdone
    · rw [hk] at hdone
      cases hdone

/-! ## Later lookups -/

variable {c₁ c₂ : State}

/-- Lookups alone leave the tables as they are and the cache clean. -/
theorem clean_of_lookups (hsettled : c₁.settled = true) (hclean : Clean env c₁.moment.world)
    (run : Run (server env) (lookups (ordered env)) c₁ c₂) :
    c₂.moment.world.pg.tables = c₁.moment.world.pg.tables ∧ Clean env c₂.moment.world := by
  refine run.invariant (J := fun c : State => c.moment.world.pg.tables =
    c₁.moment.world.pg.tables ∧ Clean env c.moment.world) (fun _ _ _ _ ih => ih) ?_ ⟨rfl, hclean⟩
  intro c tid th op k ch r w run' ih hth hprog ha he
  have hread : op.reading = true := by
    have hlookup : ∀ call, (lookups (ordered env)).admits call →
        ((server env).program call).Uses fun op => op.reading = true := by
      intro call hcall
      cases call with
      | findByClientId clientId =>
        exact Prog.Uses.mono (uses_program (handler_uses env (.findByClientId clientId)))
          fun op => reading_of_within
      | _ => cases hcall
    have huses := run'.uses hlookup (Config.uses_of_settled hsettled) th (List.mem_of_getElem? hth)
    rw [hprog] at huses
    exact huses.1
  have ht : w.pg.tables = c.moment.world.pg.tables :=
    congrArg Postgres.tables (exec_reading hread he).1
  refine ⟨ht.trans ih.1, fun clientId e hentry hne => ?_⟩
  change Current env w.pg.tables clientId e.value
  rw [ht]
  rcases entry_before ha he hentry with ⟨hold, -⟩ | ⟨hcurrent, -⟩
  · exact ih.2 clientId e hold hne
  · exact hcurrent

/-- What a later lookup has been told, it was told after the others had ended. -/
theorem told_after (hn : c₁.Numbered) {reader : Nat} (hreader : c₁.threads.length ≤ reader)
    (run : Run (server env) R c₁ c₂)
    (h : (⟨op, r⟩ : Reply Res) ∈ c₂.moment.own reader) :
    ∃ c ch w, Run (server env) R c₁ c ∧
      exec env reader op ch c.moment.world = some (r, w) := by
  obtain ⟨⟨i, op', r'⟩, hx, rfl, hreply⟩ := Moment.mem_own.mp h
  cases hreply
  rcases run.executed hx with hold | ⟨c, t, k, ch, w, run', -, -, -, hexec, -⟩
  · have hlt := hn _ hold
    exact absurd hlt (by simpa using hreader)
  · exact ⟨c, ch, w, run', hexec⟩

theorem intoEntity_fromEntity {client : Client}
    (h : ∀ uri ∈ client.redirectUris, uri.clientId = client.id) :
    (ClientSnapshot.fromEntity client).intoEntity = client := by
  obtain ⟨row, uris⟩ := client
  simp only [ClientSnapshot.fromEntity, ClientSnapshot.intoEntity, List.map_map, Client.mk.injEq,
    true_and]
  refine (List.map_congr_left fun uri huri => ?_).trans (List.map_id uris)
  rw [Function.comp_apply, ← h uri huri]
  rfl

/-- A client read from a clean cache is the stored one. -/
theorem stored_of_current {snap : ClientSnapshot} (h : Current env t clientId snap) :
    stored env t clientId = some snap.intoEntity := by
  obtain ⟨client, hclient, rfl⟩ := Option.map_eq_some_iff.mp h
  rw [hclient, intoEntity_fromEntity]
  intro uri huri
  rw [(stored_eq_some.mp hclient).2.2] at huri
  simp only [Query.exec, List.mem_insertionSort, Table.mem_select, beq_iff_eq] at huri
  exact huri.2

/-- A lookup that arrives when the cache is clean and meets no write returns the stored client. -/
theorem returns_stored (hn : c₁.Numbered) (hsettled : c₁.settled = true)
    (hclean : Clean env c₁.moment.world)
    (run : Run (server env) (lookups (ordered env)) c₁ c₂) {reader : Nat}
    (hreader : c₁.threads.length ≤ reader) (hne : clientId ≠ "") {x : Option Client}
    (h : Returns (findByClientId env clientId).run (c₂.moment.own reader) (.ok x)) :
    x = stored env c₁.moment.world.pg.tables clientId := by
  -- a `SELECT` of the lookup has returned what the tables hold
  have hselect : ∀ (q : Query) (y : q.Res), (⟨.sql (.query q), (.ok y : Except DbError q.Res)⟩ :
      Reply Res) ∈ c₂.moment.own reader → y = q.exec env c₁.moment.world.pg.tables := by
    intro q y hy
    obtain ⟨c, ch, w, run', hexec⟩ := told_after hn hreader run hy
    obtain ⟨-, -, ⟨e, he⟩ | he⟩ := exec_query hexec
    · cases he
    · rw [Except.ok.inj he, (clean_of_lookups hsettled hclean run').1]
  cases x with
  | none =>
    have hrow : (c₁.moment.world.pg.tables.clients.find? fun c => c.clientId == clientId) = none :=
      (hselect _ _ (returns_findByClientId_none hne h)).symm
    rw [stored, hrow, Option.map_none]
  | some client =>
    have hfound := returns_findByClientId h
    generalize hown : c₂.moment.own reader = es at hfound
    cases hfound with
    | cached snap =>
      obtain ⟨c, ch, w, run', hexec⟩ := told_after hn hreader run
        (hown ▸ List.mem_singleton_self _)
      obtain ⟨ht, hclean'⟩ := clean_of_lookups hsettled hclean run'
      rcases exec_redis hexec with ⟨text, -, hr, -⟩ | ⟨-, hr, -⟩
      · cases hr
      have hget : c.moment.world.redis.clients.get (c.moment.world.now + ch.elapse) clientId =
          some snap := (Except.ok.inj hr).symm
      obtain ⟨e, hentry, -, rfl⟩ := Expiring.get_eq_some.mp hget
      have hcurrent := hclean' clientId e hentry hne
      rw [ht] at hcurrent
      exact (stored_of_current hcurrent).symm
    | stored miss row uris ttl filled hmiss =>
      have hrow : (c₁.moment.world.pg.tables.clients.find? fun c => c.clientId == clientId) =
          some row :=
        (hselect (.clientByClientId clientId) (some row) (hown ▸ .tail _ (.head _))).symm
      have huris := hselect (.redirectUris row.id) uris (hown ▸ .tail _ (.tail _ (.head _)))
      obtain ⟨hmem, hname⟩ := Table.mem_of_find? hrow
      exact (stored_eq_some.mpr ⟨hmem, beq_iff_eq.mp hname, huris⟩).symm

end Proof

section Counterexample

open Scenario

/-- The client with a rotated secret. -/
def rotated : ClientRow := { client with clientSecret := some "rotated" }

/-- A lookup reads the row, the update commits and removes the cache entry, and then the lookup
fills the cache. -/
def staleFill : List (Label Call Choice) :=
  [.spawn (.findByClientId "web-app"), .spawn (.updateClient rotated)] ++
    steps 0 3 ++ steps 1 2 ++ [.step 0 { number := 300 }] ++ steps 0 1

/-- A later lookup. -/
def lookupAgain : List (Label Call Choice) := [.spawn (.findByClientId "web-app")] ++ steps 2 1

/-- The lookup returns another secret than the tables hold. -/
def outdated (t : Tables) : (call : Call) → Ret call → Bool
  | .findByClientId clientId, .ok x =>
    x.map (fun c : Client => c.clientSecret) !=
      (stored Scenario.env t clientId).map fun c => c.clientSecret
  | _, _ => false

theorem consistent_world : Consistent Scenario.env (world tables) := by
  constructor
  · intro row hrow
    rw [List.mem_singleton.mp hrow]
    decide
  · intro clientId e h
    cases h

/-- A later lookup is answered from the cache with the secret from before the update. -/
theorem not_coherent : ¬ Coherent Scenario.env available := by
  intro hcoherent
  have hplay : (Config.start (world tables) : State).reaches (server Scenario.env) family succeeds
      staleFill (fun c₁ => c₁.settled && decide (c₁.threads.length ≤ 2) &&
        c₁.reaches (server Scenario.env) isLookup succeeds lookupAgain fun c₂ =>
          c₂.replied 2 (outdated c₁.moment.world.pg.tables)) = true := by
    decide +kernel
  obtain ⟨c₁, run₁, h₁⟩ := Config.run_of_reaches (R := available) (fun _ h => h)
    (fun _ _ _ _ h => redisUp_of_succeeds h) hplay
  obtain ⟨h₁, hagain⟩ := Bool.and_eq_true_iff.mp h₁
  obtain ⟨hsettled, hlen⟩ := Bool.and_eq_true_iff.mp h₁
  obtain ⟨c₂, run₂, h₂⟩ := Config.run_of_reaches (R := lookups available)
    (fun _ h => h) (fun _ _ _ _ h => redisUp_of_succeeds h) hagain
  obtain ⟨call, a, ha, hold⟩ := Config.answered_of_replied h₂
  unfold outdated at hold
  split at hold
  · next clientId x =>
    have hx := hcoherent _ consistent_world c₁ c₂ run₁ hsettled run₂ 2 clientId x
      (of_decide_eq_true hlen) ha
    rw [hx, bne_self_eq_false] at hold
    cases hold
  · cases hold

end Counterexample

/-- In an ordered run the cache is coherent. -/
theorem coherent_of_ordered (env : Env) : Coherent env (ordered env) := by
  intro w hw c₁ c₂ run₁ hsettled run₂ reader clientId x hreader ha
  have hclean : Clean env c₁.moment.world := (fresh_of_run hw run₁).clean hsettled
  have hreplayed := run₁.replayed (Config.start_replayed w)
  have hreturns := (run₂.replayed hreplayed).returns ha
  by_cases hne : clientId = ""
  · subst hne
    obtain ⟨-, rfl⟩ := hreturns.ret
    cases hstored : stored env c₁.moment.world.pg.tables "" with
    | none => rfl
    | some client =>
      obtain ⟨hrow, hname, -⟩ := stored_eq_some.mp hstored
      obtain ⟨row₀, hrow₀, -, hname₀⟩ := kept_of_run (fun _ hcall => hcall) run₁ _ hrow
      exact absurd (hname₀.trans hname) (hw.named row₀ hrow₀)
  · exact returns_stored hreplayed.1 hsettled hclean run₂ hreader hne hreturns

end Coherence

end AuthServer
