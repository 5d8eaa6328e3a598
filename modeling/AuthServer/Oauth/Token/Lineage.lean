import AuthServer.Oauth.Token.Rotation
import AuthServer.Scenario

/-!
# Lineages of refresh tokens

What the ledger says about whole runs: along rotations every row has one successor
at most, and only the last row of a lineage can be used.

## Implementation notes

A lineage is a relation between ids, so that it also speaks about rows that were
deleted since. Rows that were there at the start have no parent.
-/

namespace AuthServer

open Concurrent Discipline

namespace Ledger

/-- The committed refresh tokens. -/
def rowsOf (c : State) : Storage.Table RefreshToken := c.moment.world.pg.tables.refreshTokens

/-- The request has found the row and has answered with tokens. -/
def Redeemed (c : State) (i : Nat) (p : RefreshToken) : Prop :=
  (∃ req payload, c.answered i (.token req) (.ok (.success payload))) ∧
    c.moment.Marked TxMark.of i (.found p)

/-- A row with id `b` was created by rotating a row with id `a`. -/
def Child (c : State) (a b : Uuid) : Prop :=
  ∃ i p d, (Ledger.of c.moment).Rotated i p d ∧ p.id = a ∧ d.id = b

/-- `b` descends from `a` by rotations. -/
def Lineage (c : State) : Uuid → Uuid → Prop := Relation.ReflTransGen (Child c)

/-- No family is forked. -/
structure NoFork (env : Env) (c : State) : Prop where
  /-- A successful refresh exchanges the row it was asked for. -/
  redeems : ∀ i req payload, c.answered i (.token req) (.ok (.success payload)) →
    req.grantType = some "refresh_token" → ∃ p d, Redeemed c i p ∧
      (Ledger.of c.moment).Rotated i p d ∧ p.tokenHash = env.hmac (req.refreshToken.getD "")
  redeemed_once : ∀ i j p q, Redeemed c i p → Redeemed c j q → p.id = q.id → i = j
  one_child : ∀ a b b', Child c a b → Child c a b' → b = b'
  parent_revoked : ∀ r ∈ rowsOf c, ∀ b, Child c r.id b → r.revoked = true
  /-- The child keeps user, client and session of its parent, as they were exchanged and as
  they are stored. -/
  same_owner : ∀ i p d, (Ledger.of c.moment).Rotated i p d → d.owner = p.owner ∧
    (∀ r ∈ rowsOf c, r.id = p.id → r.owner = p.owner) ∧
    ∀ r ∈ rowsOf c, r.id = d.id → r.owner = p.owner
  one_unrevoked : ∀ root, ∀ r ∈ rowsOf c, ∀ r' ∈ rowsOf c, Lineage c root r.id →
    Lineage c root r'.id → r.revoked = false → r'.revoked = false → r = r'

section Proof

variable {env : Env} {R : Rules} {c c' : State}

/-- A ledger without transactions and history is in order. -/
theorem inv_start {w : World} (htx : ∀ i, w.pg.tx? i = none)
    (hids : ∀ r ∈ w.pg.tables.refreshTokens, r.id ∈ w.uuids) :
    (Ledger.of ⟨w, []⟩).Inv := by
  have hclosed : ∀ i x, (Ledger.of ⟨w, []⟩).txs i ≠ some x := by
    intro i x hx
    have hnone : (Ledger.of ⟨w, []⟩).txs i = none := htx i
    rw [hnone] at hx
    cases hx
  have hmarks : ∀ i mk, ¬ (Ledger.of ⟨w, []⟩).marks i mk := fun _ _ => Moment.not_marked_nil
  have hdraws : ∀ i id, ¬ (Ledger.of ⟨w, []⟩).draws i id := fun _ _ => Moment.not_marked_nil
  constructor
  case row_known => exact fun r hr => ⟨hids r hr, fun i h => absurd h (hdraws _ _)⟩
  case exclusive => exact fun i j x y id hx => absurd hx (hclosed _ _)
  case locked_known => exact fun i x id hx => absurd hx (hclosed _ _)
  case held => exact fun i x p hx => absurd hx (hclosed _ _)
  case writes => exact fun i x hx => absurd hx (hclosed _ _)
  case live => exact fun i x hx => absurd hx (hclosed _ _)
  case drawn_known => exact fun i id h => absurd h (hdraws _ _)
  case drawn_once => exact fun i j id h => absurd h (hdraws _ _)
  case found_known => exact fun i p h => absurd h (hmarks _ _)
  case inserted_drawn => exact fun i c h => absurd h (hmarks _ _)
  case found_one => exact fun i p q h => absurd h (hmarks _ _)
  case inserted_one => exact fun i c d h => absurd h (hmarks _ _)
  case found_owner => exact fun i p h => absurd h (hmarks _ _)
  case inserted_owner => exact fun i c h => absurd h (hmarks _ _)
  case passed_on => exact fun i p c h => absurd h (hmarks _ _)
  case parent_revoked => exact fun i p c h => absurd h.1 (hmarks _ _)
  case rotated_once => exact fun i j p q c d h => absurd h.1 (hmarks _ _)

/-- A redeemed row was exchanged. -/
theorem rotated_of_redeemed (hs : Sound discipline (server env) R (spec env) c) {i : Nat}
    {p : RefreshToken} (h : Redeemed c i p) : ∃ d, (Ledger.of c.moment).Rotated i p d := by
  obtain ⟨⟨req, payload, born, hthread⟩, hfound⟩ := h
  have hspec : Redeems env i req (.success payload) (Ledger.of c.moment) := hs.answered hthread
  obtain ⟨hcom, d, hd⟩ := (hspec payload rfl).1 p hfound
  exact ⟨d, hfound, hd, hcom⟩

/-- The child of a row is determined by the row. -/
theorem child_unique (hi : (Ledger.of c.moment).Inv) {a b b' : Uuid} (h : Child c a b)
    (h' : Child c a b') : b = b' := by
  obtain ⟨i, p, d, hrot, rfl, rfl⟩ := h
  obtain ⟨j, q, e, hrot', hid, rfl⟩ := h'
  have hij : i = j := hi.rotated_once i j p q d e hrot hrot' hid.symm
  subst hij
  rw [hi.inserted_one i d e hrot.2.1 hrot'.2.1]

/-- A stored row that is not the last of its lineage is revoked. -/
theorem revoked_of_lineage (hi : (Ledger.of c.moment).Inv) {r : RefreshToken}
    (hr : r ∈ rowsOf c) {b : Uuid} (h : Lineage c r.id b) : b = r.id ∨ r.revoked = true := by
  rcases Relation.ReflTransGen.cases_head h with heq | ⟨d, ⟨i, p, e, hrot, hid, -⟩, -⟩
  · exact .inl heq.symm
  · exact .inr (hi.parent_revoked i p e hrot r hr hid.symm)

theorem noFork_of_sound (hs : Sound discipline (server env) R (spec env) c) : NoFork env c := by
  have hi : (Ledger.of c.moment).Inv := hs.2.1
  constructor
  case redeems =>
    intro i req payload ⟨born, hthread⟩ hg
    have hspec : Redeems env i req (.success payload) (Ledger.of c.moment) := hs.answered hthread
    obtain ⟨hcom, ⟨d, hd⟩, hfound⟩ := (hspec payload rfl).2 hg
    obtain ⟨p, hp, hhash⟩ := hfound _ rfl
    exact ⟨p, d, ⟨⟨req, payload, born, hthread⟩, hp⟩, ⟨hp, hd, hcom⟩, hhash⟩
  case redeemed_once =>
    intro i j p q hp hq hid
    obtain ⟨d, hrot⟩ := rotated_of_redeemed hs hp
    obtain ⟨e, hrot'⟩ := rotated_of_redeemed hs hq
    exact hi.rotated_once i j p q d e hrot hrot' hid
  case one_child => exact fun a b b' h h' => child_unique hi h h'
  case parent_revoked =>
    rintro r hr b ⟨i, p, d, hrot, hid, -⟩
    exact hi.parent_revoked i p d hrot r hr hid.symm
  case same_owner =>
    intro i p d hrot
    have hpass : d.owner = p.owner := (hi.passed_on i p d hrot.1 hrot.2.1).2
    refine ⟨hpass, hi.found_owner i p hrot.1, fun r hr hid => ?_⟩
    rw [← hpass]
    exact hi.inserted_owner i d hrot.2.1 r hr hid
  case one_unrevoked =>
    intro root r hr r' hr' h h' hlive hlive'
    have hunique : Relator.RightUnique (Child c) := fun _ _ _ => child_unique hi
    -- both lie on one path from the root, so one of them descends from the other
    rcases Relation.ReflTransGen.total_of_right_unique hunique h h' with hdesc | hdesc
    · rcases revoked_of_lineage hi hr hdesc with hid | hrev
      · exact row_eq hr hr' hid.symm
      · rw [hrev] at hlive
        cases hlive
    · rcases revoked_of_lineage hi hr' hdesc with hid | hrev
      · exact row_eq hr hr' hid
      · rw [hrev] at hlive'
        cases hlive'

/-- The row with this id, if it is still stored, is revoked, and the id will not be used again. -/
def Dead (id : Uuid) (v : Ledger) : Prop :=
  id ∈ v.uuids ∧ (∀ i, v.draws i id → v.marks i .committed) ∧
    ∀ r ∈ v.rows, r.id = id → r.revoked = true

/-- The id has been drawn, and whoever has drawn it in this run has committed. -/
def Spent (id : Uuid) (v : Ledger) : Prop :=
  id ∈ v.uuids ∧ ∀ i, v.draws i id → v.marks i .committed

theorem Guar.spent {tid : Nat} {a b : Ledger} (hg : Guar tid a b) {id : Uuid} (h : Spent id a) :
    Spent id b := by
  obtain ⟨hknown, hdraws⟩ := h
  refine ⟨hg.uuids id hknown, fun i hi => ?_⟩
  by_cases hne : i = tid
  · subst hne
    rcases hg.draws id hi with hold | hnew
    · exact hg.marks _ (hdraws i hold)
    · exact absurd hknown hnew
  · obtain ⟨-, hmarks, hdraw⟩ := hg.others i hne
    rw [hmarks]
    exact hdraws i (hdraw ▸ hi)

theorem Guar.dead {tid : Nat} {a b : Ledger} (hg : Guar tid a b) {id : Uuid} (h : Dead id a) :
    Dead id b := by
  obtain ⟨hknown, hdraws, hrows⟩ := h
  obtain ⟨hknown', hdraws'⟩ := hg.spent ⟨hknown, hdraws⟩
  refine ⟨hknown', hdraws', fun r' hr' hid => ?_⟩
  rcases hg.rows r' hr' with ⟨r, hr, hsame, hkeep⟩ | ⟨hdraw, hopen⟩
  · exact hkeep (hrows r hr (hsame.trans hid))
  · exact absurd (hdraws tid (hid ▸ hdraw)) hopen

/-- A revoked row stays revoked. -/
theorem revoked_of_run (hs : Sound discipline (server env) R (spec env) c)
    (run : Run (server env) R c c') {r r' : RefreshToken} (hr : r ∈ rowsOf c)
    (hr' : r' ∈ rowsOf c') (hid : r'.id = r.id) (hrev : r.revoked = true) :
    r'.revoked = true := by
  have hi : (Ledger.of c.moment).Inv := hs.2.1
  have hdead : Dead r.id (Ledger.of c.moment) := by
    obtain ⟨hknown, hdraws⟩ := hi.row_known r hr
    exact ⟨hknown, hdraws, fun q hq hqid => row_eq hq hr hqid ▸ hrev⟩
  have hafter : Dead r.id (Ledger.of c'.moment) :=
    hs.preserves meets run (fun _ _ ⟨_, _, _, hg⟩ h => hg.dead h) hdead
  exact hafter.2.2 r' hr' hid

end Proof

/-- Rotation never forks a family, in any interleaving of all requests and whatever fails, and a
revoked row is never restored. Nothing is asked of the start but that no transaction is open and
that the ids in use have been drawn before. -/
theorem rotation_never_forks (env : Env) (w : World) (htx : ∀ i, w.pg.tx? i = none)
    (hids : ∀ r ∈ w.pg.tables.refreshTokens, r.id ∈ w.uuids) (c : State)
    (run : Run (server env) {} (Config.start w) c) :
    NoFork env c ∧ ∀ c', Run (server env) {} c c' → ∀ r ∈ rowsOf c, ∀ r' ∈ rowsOf c',
      r'.id = r.id → r.revoked = true → r'.revoked = true := by
  have hstart : Sound discipline (server env) {} (spec env) (Config.start w) :=
    Sound.start (inv_start htx hids)
  have hs := (hstart.run meets run).1
  exact ⟨noFork_of_sound hs, fun c' run' r hr r' hr' => revoked_of_run hs run' hr hr'⟩

section Witness

open Scenario

/-- The answer is the success of a refresh. -/
def refreshes : (call : Call) → Ret call → Bool
  | .token req, .ok (.success _) => req.grantType == some "refresh_token"
  | _, _ => false

/-- A refresh, and a second one with the same token. -/
def refreshTwice : List (Label Call Choice) :=
  [.spawn (.token (refreshRequest "refresh-a"))] ++ lookupClient 0 ++ steps 0 6 ++
    issueTokens 0 10 11 12 "refresh-b" ++
    [.spawn (.token (refreshRequest "refresh-a"))] ++ steps 1 6

/-- The first of two refreshes with one token redeems it, and the family is not forked. -/
theorem rotation_never_forks_refreshTwice :
    ∃ c, Run (server Scenario.env) {} (Config.start refreshWorld) c ∧
      (∃ p, Redeemed c 0 p) ∧ c.settled = true ∧ NoFork Scenario.env c := by
  have hplay : (Config.start refreshWorld : State).reaches (server Scenario.env) (fun _ => true)
      succeeds refreshTwice (fun c => c.settled && c.replied 0 refreshes) = true := by
    decide +kernel
  obtain ⟨c, run, hc⟩ := Config.run_of_reaches (R := {}) (fun _ _ => trivial)
    (fun _ _ _ _ _ => trivial) hplay
  obtain ⟨hsettled, hreplied⟩ := Bool.and_eq_true_iff.mp hc
  have hids : ∀ r ∈ refreshWorld.pg.tables.refreshTokens, r.id ∈ refreshWorld.uuids := by
    intro r hr
    obtain rfl : r = refreshToken := List.mem_singleton.mp hr
    exact List.mem_singleton_self _
  have hfork := (rotation_never_forks Scenario.env refreshWorld (fun _ => rfl) hids c run).1
  obtain ⟨call, a, hanswered, ht⟩ := Config.answered_of_replied hreplied
  refine ⟨c, run, ?_, hsettled, hfork⟩
  unfold refreshes at ht
  split at ht
  · next req payload =>
    obtain ⟨p, d, hred, -⟩ := hfork.redeems 0 req payload hanswered (beq_iff_eq.mp ht)
    exact ⟨p, hred⟩
  · cases ht

end Witness

end Ledger

end AuthServer
