import AuthServer.Alone
import AuthServer.Oauth.ConsentRace

/-!
# Recorded consent is the union of the grants

Grants and deletions of consents, one after the other. The stored text is parsed, merged and
written again with every grant; at any time it stands for the scopes of all grants since the consent
was deleted last.
-/

namespace AuthServer

open Concurrent Handler Storage ConsentRace ConsentService

namespace ConsentUnion

/-- The requests that delete consents: of one consent, of a user, of a client. -/
def deletes : Call → Bool
  | .revokeConsent _ _ | .deleteUser _ _ | .deleteClient _ => true
  | _ => false

/-- Requests executed one after the other, and the grants since the consent was deleted last; a
consent that is there at the start is one of them. Commands may fail, and a grant that fails is not
one of them. -/
inductive Grants (env : Env) (userId clientId : Uuid) : Instant → List (Option String) → Prop
  | start {m} : Grants env userId clientId m
      ((consentOf m.world.pg.tables userId clientId).toList.map fun row => some row.scopes)
  | grant {m m' gs R tid scope} (before : Grants env userId clientId m gs)
      (h : Alone (server env) R tid (ConsentService.grant userId clientId scope).run m (.ok ()) m') :
      Grants env userId clientId m' (scope :: gs)
  | failed {m m' gs R tid scope e} (before : Grants env userId clientId m gs)
      (h : Alone (server env) R tid (ConsentService.grant userId clientId scope).run m (.error e) m') :
      Grants env userId clientId m' gs
  | other {m m' gs R tid userId' clientId' scope y} (before : Grants env userId clientId m gs)
      (hother : ¬ (userId' = userId ∧ clientId' = clientId))
      (h : Alone (server env) R tid (ConsentService.grant userId' clientId' scope).run m y m') :
      Grants env userId clientId m' gs
  | delete {m m' gs R tid} {call : Call} {y : Ret call} (before : Grants env userId clientId m gs)
      (hcall : deletes call = true) (h : Alone (server env) R tid ((server env).program call) m y m') :
      Grants env userId clientId m'
        (if consentOf m'.world.pg.tables userId clientId = none then [] else gs)

/-- Consent is given to exactly the scopes of the grants, and the text of a set of scopes stands for
that set. -/
structure IsUnion (env : Env) : Prop where
  hasConsent : ∀ R tid userId clientId scope m m' gs b, Grants env userId clientId m gs →
    Alone (server env) R tid (ConsentService.hasConsent userId clientId scope).run m (.ok b) m' →
    (b = true ↔ ∀ s ∈ Scopes.parse scope, ∃ g ∈ gs, s ∈ Scopes.parse g)
  answers : ∀ tid userId clientId scope m, ∃ b m', Alone (server env) frozen tid
    (ConsentService.hasConsent userId clientId scope).run m (.ok b) m'
  roundTrip : ∀ scope s, s ∈ Scopes.parse (some (ConsentService.joinScopes (Scopes.parse scope))) ↔
    s ∈ Scopes.parse scope

section Proof

variable {env : Env} {R : Rules} {tid : Nat} {m m' : Instant} {userId clientId : Uuid}
variable {scope : Option String} {t : Tables} {st : Stmt}

/-! ## A grant -/

/-- The consent of a user to a client is replaced by one with the given scopes added. -/
structure Granted (userId clientId : Uuid) (scope : Option String) (t t' : Tables) : Prop where
  row : ∃ row, (row.userId = userId ∧ row.clientId = clientId) ∧
    (∀ s, s ∈ Scopes.parse (some row.scopes) ↔ s ∈ granted t userId clientId ∨ s ∈ Scopes.parse scope) ∧
    ∀ x, x ∈ t'.consents ↔
      x = row ∨ (x ∈ t.consents ∧ ¬ (x.userId = userId ∧ x.clientId = clientId))

/-- The scopes are joined and read back. -/
theorem mem_parse_merged {old : Option String} {s : String} :
    s ∈ Scopes.parse (some (joinScopes
      (Scopes.parse old ++ Scopes.parse scope).dedup)) ↔
      s ∈ Scopes.parse old ∨ s ∈ Scopes.parse scope := by
  rw [mem_parse_joinScopes fun s hs => ?_, List.mem_dedup, List.mem_append]
  rcases List.mem_append.mp (List.mem_dedup.mp hs) with hs | hs
  · exact Scopes.isScope_of_mem_parse hs
  · exact Scopes.isScope_of_mem_parse hs

theorem granted_insert {row : UserConsent} {cs : Table UserConsent}
    (hnone : consentOf t userId clientId = none)
    (hown : row.userId = userId ∧ row.clientId = clientId) (hcs : t.consents.insert row = some cs)
    (hscopes : row.scopes = joinScopes (Scopes.parse scope)) :
    Granted userId clientId scope t { t with consents := cs } := by
  refine ⟨row, hown, fun s => ?_, fun x => ?_⟩
  · rw [hscopes, mem_parse_joinScopes fun s hs => Scopes.isScope_of_mem_parse hs,
      granted, hnone]
    exact ⟨.inr, fun h => h.resolve_left (by rintro ⟨⟩)⟩
  · refine (Table.mem_insert hcs).trans (or_comm.trans (or_congr_right ?_))
    refine ⟨fun hx => ⟨hx, ?_⟩, And.left⟩
    simpa using Table.find?_eq_none.mp hnone x hx

theorem granted_update {existing row : UserConsent} {now : NaiveDateTime}
    (hfound : consentOf t userId clientId = some existing) (hid : row.id = existing.id)
    (hscopes : row.scopes = joinScopes
      (Scopes.parse (some existing.scopes) ++ Scopes.parse scope).dedup) :
    Granted userId clientId scope t ((Stmt.updateConsent row).effect now t) := by
  obtain ⟨hmem, hown⟩ := consentOf_eq_some.mp hfound
  simp only [Bool.and_eq_true, beq_iff_eq] at hown
  refine ⟨{ existing with scopes := row.scopes, updatedAt := row.updatedAt }, hown, fun s => ?_,
    fun x => ?_⟩
  · rw [granted, hfound, Option.map_some, hscopes, mem_parse_merged]
  · refine Table.mem_update.trans ⟨?_, ?_⟩
    · rintro ⟨x₀, hx₀, rfl⟩
      by_cases hkey : x₀.id = existing.id
      · obtain rfl := Table.eq_of_clash hx₀ hmem (decide_eq_true (.inl hkey))
        rw [if_pos (beq_iff_eq.mpr hid.symm)]
        exact .inl rfl
      · rw [if_neg (by rw [beq_iff_eq, hid]; exact hkey)]
        refine .inr ⟨hx₀, fun hsame => hkey ?_⟩
        rw [Table.eq_of_clash hx₀ hmem
          (decide_eq_true (.inr ⟨hsame.1.trans hown.1.symm, hsame.2.trans hown.2.symm⟩))]
    · rintro (rfl | ⟨hx, hother⟩)
      · exact ⟨existing, hmem, if_pos (beq_iff_eq.mpr hid.symm)⟩
      · refine ⟨x, hx, if_neg ?_⟩
        rw [beq_iff_eq, hid]
        intro hkey
        rw [Table.eq_of_clash hx hmem (decide_eq_true (.inl hkey))] at hother
        exact hother hown

/-- A grant fails without effect or adds its scopes. -/
theorem alone_grant {y : Except Failure Unit}
    (ha : Alone (server env) R tid (grant userId clientId scope).run m y m') :
    (∃ e, y = .error e) ∧ m'.world.pg.tables = m.world.pg.tables ∨
      y = .ok () ∧ Granted userId clientId scope m.world.pg.tables m'.world.pg.tables := by
  unfold grant at ha
  dsimp only at ha
  rcases ha.bindE with ⟨e, rfl, hstop⟩ | ⟨at_, m₁, hnow, ha⟩
  · exact .inl ⟨⟨e, rfl⟩, congrArg _ (alone_reading (uses_now rfl) hstop).1⟩
  have hpg₁ := (alone_reading (uses_now rfl) hnow).1
  rcases ha.bindE with ⟨e, rfl, hstop⟩ | ⟨found, m₂, hquery, ha⟩
  · exact .inl ⟨⟨e, rfl⟩, congrArg _ ((alone_reading (uses_query rfl) hstop).1.trans hpg₁)⟩
  obtain ⟨hfound, hpg₂, -⟩ := alone_query hquery
  have hpg : m₂.world.pg.tables = m.world.pg.tables := congrArg _ (hpg₂.trans hpg₁)
  rw [hpg₁, show Query.exec env m.world.pg.tables (.consent userId clientId) =
    consentOf m.world.pg.tables userId clientId from rfl] at hfound
  cases found with
  | none =>
    rcases ha.bindE with ⟨e, rfl, hstop⟩ | ⟨id', m₃, hid, ha⟩
    · exact .inl ⟨⟨e, rfl⟩, (congrArg _ (alone_reading (uses_newUuid rfl) hstop).1).trans hpg⟩
    have hpg₃ : m₃.world.pg.tables = m.world.pg.tables :=
      (congrArg _ (alone_reading (uses_newUuid rfl) hid).1).trans hpg
    obtain ⟨-, ⟨hy, hsame⟩ | ⟨x, now, rfl, -⟩⟩ := alone_stmt_cases ha
    · exact .inl ⟨hy, hsame.trans hpg₃⟩
    · obtain ⟨⟨at', hexec⟩, -⟩ := alone_stmt_exec ha
      obtain ⟨⟨e, he⟩, -⟩ | ⟨-, -, cs, hcs, hpg'⟩ := Postgres.insertRow_cases hexec
      · cases he
      · refine .inr ⟨rfl, ?_⟩
        rw [hpg', hpg₃]
        rw [hpg₃] at hcs
        exact granted_insert hfound.symm ⟨rfl, rfl⟩ hcs rfl
  | some existing =>
    obtain ⟨-, ⟨hy, hsame⟩ | ⟨x, now, rfl, heffect⟩⟩ := alone_stmt_cases ha
    · exact .inl ⟨hy, hsame.trans hpg⟩
    · refine .inr ⟨rfl, ?_⟩
      rw [heffect, hpg]
      refine granted_update hfound.symm rfl ?_
      dsimp only

theorem Granted.adds {t' : Tables} (h : Granted userId clientId scope t t') :
    consentOf t' userId clientId ≠ none ∧ ∀ s, s ∈ granted t' userId clientId ↔
      s ∈ granted t userId clientId ∨ s ∈ Scopes.parse scope := by
  obtain ⟨row, hown, hscopes, hmem⟩ := h.row
  have hrow : consentOf t' userId clientId = some row :=
    consentOf_eq_some.mpr ⟨(hmem row).mpr (.inl rfl), by simp [hown]⟩
  rw [granted, hrow]
  exact ⟨(by rintro ⟨⟩), hscopes⟩

/-- Consents of others are as before. -/
theorem Granted.other {t' : Tables} {userId' clientId' : Uuid}
    (h : Granted userId' clientId' scope t t')
    (hother : ¬ (userId' = userId ∧ clientId' = clientId)) :
    consentOf t' userId clientId = consentOf t userId clientId := by
  obtain ⟨row, hown, -, hmem⟩ := h.row
  refine Option.ext fun x => ?_
  rw [consentOf_eq_some, consentOf_eq_some, hmem, Bool.and_eq_true, beq_iff_eq, beq_iff_eq]
  constructor
  · rintro ⟨rfl | ⟨hx, -⟩, hkey⟩
    · exact absurd ⟨hown.1.symm.trans hkey.1, hown.2.symm.trans hkey.2⟩ hother
    · exact ⟨hx, hkey⟩
  · rintro ⟨hx, hkey⟩
    exact ⟨.inr ⟨hx, fun hsame => hother ⟨hsame.1.symm.trans hkey.1, hsame.2.symm.trans hkey.2⟩⟩,
      hkey⟩

/-! ## Deletions -/

/-- The statements that insert or change consents. -/
def writesConsent : Stmt → Bool
  | .insertConsent _ | .updateConsent _ => true
  | _ => false

theorem consents_effect {now : NaiveDateTime} (hst : writesConsent st = false) :
    ∀ x ∈ (st.effect now t).consents, x ∈ t.consents := by
  intro x hx
  cases st with
  | insertConsent | updateConsent => cases hst
  | deleteUser | deleteClient | deleteConsent => exact (Table.mem_delete.mp hx).1
  | updateCredential c =>
    simp only [Stmt.effect] at hx
    split at hx
    · exact hx
    · exact hx
  | _ => exact hx

theorem kind_of_writesConsent (st : Stmt) (h : writesConsent st = true) :
    [.consent].contains st.kind = true := by
  cases st with
  | insertConsent | updateConsent => rfl
  | _ => cases h

theorem uses_of_deletes {call : Call} (h : deletes call = true) :
    (handler env call).Uses fun op => op.isStmt writesConsent = false := by
  refine (handler_uses env call).not_isStmt kind_of_writesConsent ?_
  cases call with
  | deleteUser | deleteClient | revokeConsent => rfl
  | _ => cases h

/-- A deletion removes the consent or leaves it as it is. -/
theorem consentOf_of_deletes {call : Call} {y : Ret call} (hcall : deletes call = true)
    (ha : Alone (server env) R tid ((server env).program call) m y m') :
    consentOf m'.world.pg.tables userId clientId = none ∨
      consentOf m'.world.pg.tables userId clientId =
        consentOf m.world.pg.tables userId clientId := by
  have hsub : ∀ x ∈ m'.world.pg.tables.consents, x ∈ m.world.pg.tables.consents := by
    refine ha.keeps (J := fun m₁ => ∀ x ∈ m₁.world.pg.tables.consents, x ∈ m.world.pg.tables.consents)
      (uses_of_deletes hcall).run ?_ fun _ => id
    intro m₁ op ch r w hm hop _ he x hx
    rcases World.exec_tables he with heq | ⟨st, y', hreply, heq⟩ | ⟨-, tokens, heq⟩
    · exact hm x (by rwa [← heq])
    · cases hreply
      change x ∈ w.pg.tables.consents at hx
      rw [heq] at hx
      exact hm x (consents_effect hop x hx)
    · change x ∈ w.pg.tables.consents at hx
      rw [heq] at hx
      exact hm x hx
  cases hafter : consentOf m'.world.pg.tables userId clientId with
  | none => exact .inl rfl
  | some row =>
    obtain ⟨hmem, hkey⟩ := consentOf_eq_some.mp hafter
    exact .inr (consentOf_eq_some.mpr ⟨hsub row hmem, hkey⟩).symm

/-! ## All grants -/

/-- The consent stands for the grants. -/
structure Stands (userId clientId : Uuid) (m : Instant) (gs : List (Option String)) : Prop where
  none : consentOf m.world.pg.tables userId clientId = none → gs = []
  mem : ∀ s, s ∈ granted m.world.pg.tables userId clientId ↔ ∃ g ∈ gs, s ∈ Scopes.parse g

theorem Stands.of_consentOf {gs : List (Option String)} (h : Stands userId clientId m gs)
    (hsame : consentOf m'.world.pg.tables userId clientId =
      consentOf m.world.pg.tables userId clientId) : Stands userId clientId m' gs := by
  constructor
  · rw [hsame]
    exact h.none
  · rw [granted, hsame]
    exact h.mem

theorem stands_of_none (h : consentOf m.world.pg.tables userId clientId = none) :
    Stands userId clientId m [] := by
  refine ⟨fun _ => rfl, fun s => ?_⟩
  rw [granted, h]
  exact ⟨by rintro ⟨⟩, by rintro ⟨_, ⟨⟩, _⟩⟩

theorem stands_of_grants {gs : List (Option String)} (h : Grants env userId clientId m gs) :
    Stands userId clientId m gs := by
  induction h with
  | @start m =>
    cases hrow : consentOf m.world.pg.tables userId clientId with
    | none => exact stands_of_none hrow
    | some row =>
      refine ⟨fun hnone => absurd (hrow.symm.trans hnone) nofun, fun s => ?_⟩
      rw [granted, hrow]
      simp
  | @grant m m' gs R tid scope _ ha ih =>
    obtain ⟨⟨e, hy⟩, -⟩ | ⟨-, hgranted⟩ := alone_grant ha
    · cases hy
    · obtain ⟨hsome, hmem⟩ := hgranted.adds
      refine ⟨fun hnone => absurd hnone hsome, fun s => ?_⟩
      rw [hmem, ih.mem, List.exists_mem_cons_iff, or_comm]
  | failed _ ha ih =>
    obtain ⟨-, hsame⟩ | ⟨hy, -⟩ := alone_grant ha
    · exact ih.of_consentOf (by rw [hsame])
    · cases hy
  | other _ hother ha ih =>
    obtain ⟨-, hsame⟩ | ⟨-, hgranted⟩ := alone_grant ha
    · exact ih.of_consentOf (by rw [hsame])
    · exact ih.of_consentOf (hgranted.other hother)
  | delete _ hcall ha ih =>
    split
    · next hnone => exact stands_of_none hnone
    · next hsome =>
      exact ih.of_consentOf ((consentOf_of_deletes hcall ha).resolve_left hsome)

/-- What `has_consent` answers. -/
theorem alone_hasConsent {b : Bool}
    (ha : Alone (server env) R tid (hasConsent userId clientId scope).run m (.ok b) m') :
    b = true ↔ ∀ s ∈ Scopes.parse scope, s ∈ granted m.world.pg.tables userId clientId := by
  unfold hasConsent at ha
  dsimp only at ha
  split at ha
  · next hempty =>
    obtain ⟨hb, -⟩ := ha.ret
    rw [List.isEmpty_iff] at hempty
    rw [Except.ok.inj hb, hempty]
    exact ⟨fun _ => by rintro _ ⟨⟩, fun _ => rfl⟩
  next hne =>
  obtain ⟨found, m₁, hquery, ha⟩ := ha.seq
  have hfound : found = consentOf m.world.pg.tables userId clientId := (alone_query hquery).1
  cases found with
  | none =>
    obtain ⟨hb, -⟩ := ha.ret
    rw [Except.ok.inj hb, granted, ← hfound]
    obtain ⟨s, hs⟩ := List.exists_mem_of_ne_nil _ (mt List.isEmpty_iff.mpr hne)
    exact ⟨(by rintro ⟨⟩), fun h => absurd (h s hs) (by rintro ⟨⟩)⟩
  | some existing =>
    obtain ⟨hb, -⟩ := ha.ret
    rw [Except.ok.inj hb, granted, ← hfound, List.all_eq_true]
    simp only [List.contains_iff_mem, Option.map_some]

/-- At most one query, which is never blocked. -/
theorem exists_hasConsent (tid : Nat) (userId clientId : Uuid) (scope : Option String) (m : Instant) :
    ∃ b m', Alone (server env) frozen tid (hasConsent userId clientId scope).run m
      (.ok b) m' := by
  unfold hasConsent
  dsimp only
  split
  · exact ⟨true, m, alone_pure.mpr ⟨rfl, rfl⟩⟩
  obtain ⟨m₁, hquery⟩ := exists_query env tid m (.consent userId clientId)
  cases hfound : Query.exec env m.world.pg.tables (.consent userId clientId) with
  | none =>
    rw [hfound] at hquery
    exact ⟨_, m₁, Alone.bindE_ok.mpr ⟨_, m₁, hquery, alone_pure.mpr ⟨rfl, rfl⟩⟩⟩
  | some existing =>
    rw [hfound] at hquery
    exact ⟨_, m₁, Alone.bindE_ok.mpr ⟨_, m₁, hquery, alone_pure.mpr ⟨rfl, rfl⟩⟩⟩

end Proof

/-- What is recorded for a user and a client is the union of the grants since the last deletion. -/
theorem consent_is_union (env : Env) : IsUnion env where
  hasConsent R tid userId clientId scope m m' gs b hgrants ha := by
    rw [alone_hasConsent ha]
    simp only [(stands_of_grants hgrants).mem]
  answers := exists_hasConsent
  roundTrip scope _ :=
    mem_parse_joinScopes fun _ hs => Scopes.isScope_of_mem_parse hs

end ConsentUnion

end AuthServer
