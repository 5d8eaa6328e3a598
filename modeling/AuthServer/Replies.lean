import AuthServer.Concurrent.History
import AuthServer.Footprint

/-!
# The replies a handler has received

Inversion rules for the combinators that handlers are written with, and for the
lookups that several handlers share: from the value a handler has returned to the
replies it was given.
-/

namespace AuthServer

open Concurrent Handler ClientRepository

/-- The replies of the server's commands. -/
abbrev Replies := List (Reply Res)

section Combinators

variable {α : Type} {es : Replies}

variable {op : Op} {s : Sql} {h : Handler α}

theorem returns_perform {r : Res op} :
    Returns (perform op).run es (.ok r) ↔ es = [⟨op, r⟩] := by
  constructor
  · intro h
    cases h with
    | call tail =>
      cases tail
      rfl
  · rintro rfl
    exact .call (.refl _)

theorem returns_sql {x : s.Res} (h : Returns (sql s).run es (.ok x)) :
    es = [⟨.sql s, (.ok x : Except DbError s.Res)⟩] := by
  unfold sql at h
  obtain ⟨es₁, es₂, r, rfl, hperform, hret⟩ := h.seq
  rw [returns_perform.mp hperform]
  split at hret
  · obtain ⟨rfl, rfl⟩ := hret.ret
    rfl
  · cases hret

/-- A SQL statement has failed. -/
def sqlFailed : Marking Res Unit
  | .sql _, .error _ => some ()
  | _, _ => none

/-- A statement that has not failed has returned its rows. -/
theorem returns_sql_unfailed {y : Except Failure s.Res} (h : Returns (sql s).run es y)
    (hok : ∀ e ∈ es, sqlFailed e.1 e.2 = none) :
    ∃ x, y = .ok x ∧ es = [⟨.sql s, (.ok x : Except DbError s.Res)⟩] := by
  unfold sql at h
  rcases Returns.bindE h with ⟨e, -, hperform⟩ | ⟨es₁, es₂, r, rfl, hperform, hret⟩
  · cases hperform with
    | call tail => cases tail
  · obtain rfl := returns_perform.mp hperform
    split at hret
    · obtain ⟨rfl, rfl⟩ := Returns.pure_iff.mp hret
      exact ⟨_, rfl, rfl⟩
    · next e => cases hok _ List.mem_cons_self

theorem returns_redis {c : RedisCmd} {x : c.Res} (h : Returns (redis c).run es (.ok x)) :
    es = [⟨.redis c, (.ok x : Except String c.Res)⟩] := by
  unfold redis at h
  obtain ⟨es₁, es₂, r, rfl, hperform, hret⟩ := h.seq
  rw [returns_perform.mp hperform]
  split at hret
  · obtain ⟨rfl, rfl⟩ := hret.ret
    rfl
  · cases hret

theorem returns_attempt {x : Except Failure α} (ha : Returns (attempt h).run es (.ok x))
    : Returns h.run es x := by
  obtain ⟨es₁, es₂, y, rfl, hrun, hret⟩ := Returns.bind_iff.mp ha
  obtain ⟨rfl, hx⟩ := Returns.pure_iff.mp hret
  rw [List.append_nil, Except.ok.inj hx]
  exact hrun

/-- The replies to the statements that open and close a transaction. -/
def beginReply : Reply Res := ⟨.sql (.tx .begin), (.ok () : Except DbError Unit)⟩

def commitReply : Reply Res := ⟨.sql (.tx .commit), (.ok () : Except DbError Unit)⟩

/-- A transaction returns what its body does, after it has been committed or dropped. -/
theorem returns_transaction {body : Handler (TxEnd α)} {a : α}
    (h : Returns (transaction body).run es (.ok a)) :
    ∃ es', (es = beginReply :: es' ++ [commitReply] ∧ Returns body.run es' (.ok (.commit a))) ∨
      ∃ r, es = beginReply :: es' ++ [⟨.sql (.tx .rollback), r⟩] ∧
        Returns body.run es' (.ok (.drop a)) := by
  unfold transaction at h
  obtain ⟨es₁, es₂, _, rfl, hbegin, hrest⟩ := h.seq
  obtain ⟨es₃, es₄, x, rfl, hbody, hend⟩ := hrest.seq
  have hbody := returns_attempt hbody
  refine ⟨es₃, ?_⟩
  rw [returns_sql hbegin]
  split at hend
  · obtain ⟨es₅, es₆, _, rfl, hcommit, hret⟩ := hend.seq
    obtain ⟨rfl, rfl⟩ := hret.ret
    rw [returns_sql hcommit]
    exact .inl ⟨rfl, hbody⟩
  · obtain ⟨es₅, es₆, r, rfl, hroll, hret⟩ := hend.seq
    obtain ⟨rfl, rfl⟩ := hret.ret
    rw [returns_perform.mp hroll]
    exact .inr ⟨r, rfl, hbody⟩
  · obtain ⟨es₅, es₆, r, rfl, -, hret⟩ := hend.seq
    cases hret

/-! ## Statements that a handler issues -/

/-- A command outside the footprint of a handler is issued by what follows it. -/
theorem Handler.Uses.skip {β : Type} {f : α → Handler β} {ks : List Kind} (hu : h.Uses (Within ks))
    (hop : ks.contains op.kind = false) (hi : Issues (h >>= f).run es op) :
    ∃ es₁ es₂ a, es = es₁ ++ es₂ ∧ Returns h.run es₁ (.ok a) ∧ Issues (f a).run es₂ op :=
  Issues.skip hu.run (fun hw => absurd (hw.symm.trans hop) (by decide)) hi

/-- A handler that issues one statement only issues that one. -/
theorem stmt_of_issues {st st' : Stmt} (hu : h.Uses fun op => op = .sql (.stmt st))
    (hi : Issues h.run es (.sql (.stmt st'))) :
    st' = st := by
  have hsame := hi.uses hu.run
  injection hsame with hsame
  injection hsame

theorem issues_stmt {st st' : Stmt} (h : Issues (stmt st).run es (.sql (.stmt st'))) : st' = st :=
  stmt_of_issues (uses_stmt rfl) h

/-- A statement that the first part of a handler does not issue is issued by its second part. -/
theorem skip_stmt {β : Type} {f : α → Handler β} {p : Stmt → Bool} {st : Stmt}
    (hu : h.Uses fun op => op.isStmt p = false) (hst : p st = true)
    (hi : Issues (h >>= f).run es (.sql (.stmt st))) :
    ∃ es₁ es₂ a, es = es₁ ++ es₂ ∧ Returns h.run es₁ (.ok a) ∧
      Issues (f a).run es₂ (.sql (.stmt st)) :=
  Issues.skip hu.run (fun hno => Bool.noConfusion (hst.symm.trans hno)) hi

theorem not_issues_stmt {p : Stmt → Bool} {st : Stmt} (hu : h.Uses fun op => op.isStmt p = false)
    (hst : p st = true) :
    ¬ Issues h.run es (.sql (.stmt st)) := by
  intro hi
  have hno := hi.uses hu.run
  exact Bool.noConfusion (hst.symm.trans hno)

/-! ## Kinds of commands that a handler has reached -/

/-- A command of a kind has been answered or is the next one. -/
def Reached (kind : Kind) (es : Replies) (q : Action α) : Prop :=
  (∃ e ∈ es, e.1.kind = kind) ∨ ∃ op k, q = .call op k ∧ op.kind = kind

section Reached

variable {β : Type} {kind : Kind} {ks : List Kind} {q : Action (Except Failure α)}

theorem Handler.Uses.not_reached {h : Handler α} (hu : h.Uses (Within ks))
    (hk : ks.contains kind = false) (hl : Leads h.run es q) : ¬ Reached kind es q := by
  rintro (⟨e, he, rfl⟩ | ⟨op, k, rfl, rfl⟩)
  · exact Bool.noConfusion (((hl.uses hu.run).1 e he).symm.trans hk)
  · exact Bool.noConfusion ((hl.uses hu.run).2.1.symm.trans hk)

theorem not_reached_pure {x : α} (hl : Leads (pure x : Handler α).run es q) :
    ¬ Reached kind es q :=
  (uses_pure x : (pure x : Handler α).Uses (Within [])).not_reached rfl hl

/-- A kind of command outside the footprint of a handler is reached by what follows it. -/
theorem Handler.Uses.pass {h : Handler β} {f : β → Handler α} (hu : h.Uses (Within ks))
    (hk : ks.contains kind = false) (hl : Leads (h >>= f).run es q) (hr : Reached kind es q) :
    ∃ es₁ es₂ a, es = es₁ ++ es₂ ∧ Returns h.run es₁ (.ok a) ∧ Leads (f a).run es₂ q ∧
      Reached kind es₂ q := by
  rcases hl.of_bindE with ⟨op, k, hp, k', rfl⟩ | ⟨e, hp, rfl⟩ | ⟨es₁, es₂, a, rfl, hp, hl⟩
  · refine absurd ?_ (hu.not_reached hk hp)
    refine hr.imp id fun ⟨op', _, hq, hkind⟩ => ?_
    obtain ⟨rfl, -⟩ := Prog.call.inj hq
    exact ⟨op, k, rfl, hkind⟩
  · refine absurd (hr.imp id ?_) (hu.not_reached hk hp)
    rintro ⟨op, k, hq, -⟩
    cases hq
  · refine ⟨es₁, es₂, a, rfl, hp, hl, hr.imp ?_ id⟩
    rintro ⟨e, he, hkind⟩
    rcases List.mem_append.mp he with he | he
    · exact absurd (.inl ⟨e, he, hkind⟩) (hu.not_reached hk hp)
    · exact ⟨e, he, hkind⟩

theorem leads_ite {p : Prop} [Decidable p] {h h' : Handler α}
    (hl : Leads (if p then h else h').run es q) : Leads h.run es q ∨ Leads h'.run es q := by
  split at hl
  · exact .inl hl
  · exact .inr hl

/-- A Redis command is waited for, or it has been answered. -/
theorem leads_redis {cmd : RedisCmd} {f : cmd.Res → Handler α}
    (hl : Leads (redis cmd >>= f).run es q) :
    (es = [] ∧ ∃ k, q = .call (.redis cmd) k) ∨
      (∃ text, es = [⟨.redis cmd, (.error text : Except String cmd.Res)⟩] ∧
        q = .pure (.error (.redis text))) ∨
      ∃ x es₁, es = ⟨.redis cmd, (.ok x : Except String cmd.Res)⟩ :: es₁ ∧ Leads (f x).run es₁ q := by
  cases hl with
  | refl => exact .inl ⟨rfl, _, rfl⟩
  | @call _ _ r es₁ _ tail =>
    cases r with
    | ok x => exact .inr (.inr ⟨x, es₁, rfl, tail⟩)
    | error text =>
      obtain ⟨rfl, rfl⟩ := Leads.pure_iff.mp tail
      exact .inr (.inl ⟨text, rfl, rfl⟩)

end Reached

end Combinators

section Lookups

variable {env : Env} {es : Replies}

/-- The client a request has found: the cached snapshot, or the row with its redirect URIs. -/
inductive ClientFound (env : Env) (clientId : String) : Replies → Client → Prop
  | cached (snap : ClientSnapshot) :
      ClientFound env clientId
        [⟨.redis (.client (.get clientId)), (.ok (some snap) : Except String (Option ClientSnapshot))⟩]
        snap.intoEntity
  | stored (miss : Except String (Option ClientSnapshot)) (row : ClientRow)
      (uris : List RedirectUri) (ttl : Nat) (filled : Except String Unit)
      (hmiss : ∀ snap, miss ≠ .ok (some snap)) :
      ClientFound env clientId
        [⟨.redis (.client (.get clientId)), miss⟩,
          ⟨.sql (.query (.clientByClientId clientId)),
            (.ok (some row) : Except DbError (Option ClientRow))⟩,
          ⟨.sql (.query (.redirectUris row.id)), (.ok uris : Except DbError (List RedirectUri))⟩,
          ⟨.jitteredTtl env.clientCacheTtlSeconds, ttl⟩,
          ⟨.redis (.client (.setex row.clientId (.fromEntity ⟨row, uris⟩) (seconds (Int.ofNat ttl)))),
            filled⟩]
        ⟨row, uris⟩

variable {clientId : String}

theorem returns_readCache {hit : Option Client}
    (h : Returns (readCache clientId).run es (.ok hit)) :
    ∃ reply : Except String (Option ClientSnapshot),
      es = [⟨.redis (.client (.get clientId)), reply⟩] ∧
        ((∃ snap, reply = .ok (some snap) ∧ hit = some snap.intoEntity) ∨
          (hit = none ∧ ∀ snap, reply ≠ .ok (some snap))) := by
  unfold readCache at h
  obtain ⟨es₁, es₂, reply, rfl, hget, hret⟩ := h.seq
  refine ⟨reply, ?_⟩
  rw [returns_perform.mp hget]
  split at hret
  · next snap =>
    obtain ⟨rfl, rfl⟩ := hret.ret
    exact ⟨rfl, .inl ⟨snap, rfl, rfl⟩⟩
  · obtain ⟨rfl, rfl⟩ := hret.ret
    refine ⟨rfl, .inr ⟨rfl, fun snap hs => ?_⟩⟩
    cases hs
  · obtain ⟨rfl, rfl⟩ := hret.ret
    refine ⟨rfl, .inr ⟨rfl, fun snap hs => ?_⟩⟩
    cases hs

theorem returns_populateCache {client : Client} {x : Unit}
    (h : Returns (populateCache env client).run es (.ok x)) :
    ∃ (ttl : Nat) (filled : Except String Unit),
      es = [⟨.jitteredTtl env.clientCacheTtlSeconds, ttl⟩,
        ⟨.redis (.client (.setex client.clientId (.fromEntity client) (seconds (Int.ofNat ttl)))),
          filled⟩] := by
  unfold populateCache at h
  obtain ⟨es₁, es₂, ttl, rfl, httl, hset⟩ := h.seq
  obtain ⟨es₃, es₄, filled, rfl, hset, hret⟩ := hset.seq
  refine ⟨ttl, filled, ?_⟩
  rw [returns_perform.mp httl, returns_perform.mp hset, hret.ret.1]
  rfl

theorem returns_findByClientId {client : Client}
    (h : Returns (findByClientId env clientId).run es (.ok (some client))) :
    ClientFound env clientId es client := by
  unfold findByClientId at h
  split at h
  · cases h.ret.2
  obtain ⟨es₁, es₂, hit, rfl, hread, hrest⟩ := h.seq
  obtain ⟨reply, rfl, ⟨snap, rfl, rfl⟩ | ⟨rfl, hmiss⟩⟩ := returns_readCache hread
  · obtain ⟨rfl, hc⟩ := hrest.ret
    rw [Option.some.inj hc]
    exact .cached snap
  · obtain ⟨es₃, es₄, found, rfl, hselect, hrest⟩ := hrest.seq
    rw [returns_sql hselect]
    split at hrest
    · cases hrest.ret.2
    · next row =>
      obtain ⟨es₅, es₆, uris, rfl, huris, hrest⟩ := hrest.seq
      obtain ⟨es₇, es₈, _, rfl, hfill, hret⟩ := hrest.seq
      obtain ⟨rfl, hc⟩ := hret.ret
      obtain ⟨ttl, filled, rfl⟩ := returns_populateCache hfill
      rw [returns_sql huris, Option.some.inj hc]
      exact .stored reply row uris ttl filled hmiss

/-- A lookup that finds no client has found no row. -/
theorem returns_findByClientId_none (hne : clientId ≠ "")
    (h : Returns (findByClientId env clientId).run es (.ok none)) :
    (⟨.sql (.query (.clientByClientId clientId)), (.ok none : Except DbError (Option ClientRow))⟩ :
      Reply Res) ∈ es := by
  unfold findByClientId at h
  rw [if_neg hne] at h
  obtain ⟨es₁, es₂, hit, rfl, -, hrest⟩ := h.seq
  split at hrest
  · cases hrest.ret.2
  · obtain ⟨es₃, es₄, found, rfl, hselect, hrest⟩ := hrest.seq
    rw [returns_sql hselect]
    split at hrest
    · exact List.mem_append_right _ (List.mem_append_left _ (List.mem_singleton_self _))
    · obtain ⟨es₅, es₆, uris, rfl, -, hrest⟩ := hrest.seq
      obtain ⟨es₇, es₈, _, rfl, -, hret⟩ := hrest.seq
      cases hret.ret.2

/-- A session that a request has found: the cached snapshot, or the row with its user. -/
inductive SessionFound (env : Env) (token : String) : Replies → SessionWithUser → Prop
  | cached (snap : SessionSnapshot) (es : Replies) :
      SessionFound env token
        (⟨.redis (.session (.get (env.sha256 token))),
          (.ok (some snap) : Except String (Option SessionSnapshot))⟩ :: es) snap.intoSessionWithUser
  | stored (miss : Except String (Option SessionSnapshot)) (row : SessionWithUser) (es : Replies)
      (hmiss : ∀ snap, miss ≠ .ok (some snap)) :
      SessionFound env token
        (⟨.redis (.session (.get (env.sha256 token))), miss⟩ ::
          ⟨.sql (.query (.sessionWithUser token)),
            (.ok (some row) : Except DbError (Option SessionWithUser))⟩ :: es) row

theorem SessionFound.append {token : String} {session : SessionWithUser}
    (h : SessionFound env token es session) (es' : Replies) :
    SessionFound env token (es ++ es') session := by
  cases h with
  | cached snap es => exact .cached snap _
  | stored miss row es hmiss => exact .stored miss _ _ hmiss

theorem found_of_findByToken {token : String} {session : SessionWithUser}
    (h : Returns (SessionRepository.findByToken env token).run es (.ok (some session))) :
    SessionFound env token es session := by
  unfold SessionRepository.findByToken at h
  split at h
  · cases h.ret.2
  obtain ⟨es₁, es₂, hit, rfl, hcache, hrest⟩ := h.seq
  unfold SessionRepository.readCache at hcache
  obtain ⟨es₃, es₄, reply, rfl, hget, hret⟩ := hcache.seq
  rw [returns_perform.mp hget]
  rcases hit with _ | hit
  · have hmiss : ∀ snap, reply ≠ .ok (some snap) := by
      rintro snap rfl
      cases hret.ret.2
    obtain rfl : es₄ = [] := by
      split at hret
      · exact absurd rfl (hmiss _)
      all_goals exact hret.ret.1
    obtain ⟨es₅, es₆, row, rfl, hquery, hrest⟩ := hrest.seq
    rcases row with _ | row
    · cases hrest.ret.2
    obtain ⟨es₇, es₈, _, rfl, -, hrest⟩ := hrest.seq
    obtain ⟨-, hrow⟩ := hrest.ret
    cases hrow
    rw [returns_sql hquery]
    exact .stored _ _ _ hmiss
  · obtain ⟨-, hhit⟩ := hrest.ret
    cases hhit
    split at hret
    · next snap =>
      obtain ⟨-, hsnap⟩ := hret.ret
      cases hsnap
      exact .cached snap _
    all_goals cases hret.ret.2

theorem found_of_findActiveSession {token : String} {session : SessionWithUser}
    (h : Returns (SessionService.findActiveSession env token).run es (.ok (some session))) :
    SessionFound env token es session := by
  unfold SessionService.findActiveSession at h
  split at h
  · cases h.ret.2
  obtain ⟨es₁, es₂, found, rfl, hfound, h⟩ := h.seq
  rcases found with _ | hit
  · cases h.ret.2
  obtain ⟨es₃, es₄, at_, rfl, -, h⟩ := h.seq
  split at h
  · cases h.ret.2
  split at h
  · cases h.ret.2
  obtain ⟨es₅, es₆, bump, rfl, -, h⟩ := h.seq
  obtain ⟨es₇, es₈, _, rfl, -, h⟩ := h.seq
  obtain rfl := Option.some.inj h.ret.2
  exact (found_of_findByToken hfound).append _

/-- An accepted session was read from the cache or from the table. -/
theorem returns_findActiveSession {token : String} {session : SessionWithUser}
    (h : Returns (SessionService.findActiveSession env token).run es (.ok (some session))) :
    (∃ snap : SessionSnapshot, session = snap.intoSessionWithUser ∧
      (⟨.redis (.session (.get (env.sha256 token))),
        (.ok (some snap) : Except String (Option SessionSnapshot))⟩ : Reply Res) ∈ es) ∨
    (⟨.sql (.query (.sessionWithUser token)),
      (.ok (some session) : Except DbError (Option SessionWithUser))⟩ : Reply Res) ∈ es := by
  cases found_of_findActiveSession h with
  | cached snap es => exact .inl ⟨snap, rfl, List.mem_cons_self⟩
  | stored miss row es hmiss => exact .inr (List.mem_cons_of_mem _ List.mem_cons_self)

end Lookups

end AuthServer
