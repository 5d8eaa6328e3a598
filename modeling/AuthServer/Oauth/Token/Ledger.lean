import AuthServer.Concurrent.History
import AuthServer.Logic
import AuthServer.Store.Transactions

/-!
# The ledger of refresh tokens

The part of the server that rotation is about: the committed refresh tokens, the
open transactions, the ids drawn so far, and what each request has done in its
transaction. The invariant says how these fit together; it is kept by every step
of a transaction and by every statement on the pool.

## Implementation notes

A request opens at most one transaction. Its marks are what it has done there, so
a mark `committed` next to a mark `inserted` is a row that has become visible.
-/

namespace AuthServer

open Concurrent Storage

/-- What a request has done in its transaction. -/
inductive TxMark where
  | begun
  | found (row : RefreshToken)
  | inserted (row : RefreshToken)
  | committed

namespace TxMark

/-- The marks of the statements of transactions. -/
def of : Marking Res TxMark
  | .sql (.tx .begin), .ok _ => some .begun
  | .sql (.tx (.findForUpdate _)), .ok (some row) => some (.found row)
  | .sql (.tx (.insertRefreshToken row)), .ok _ => some (.inserted row)
  | .sql (.tx .commit), .ok _ => some .committed
  | _, _ => none

end TxMark

/-- The drawn ids. -/
def drawn : Marking Res Uuid
  | .newUuid, id => some id
  | _, _ => none

/-- The abstract state. -/
@[ext] structure Ledger where
  rows : Table RefreshToken
  txs : Nat → Option OpenTx
  marks : Nat → TxMark → Prop
  draws : Nat → Uuid → Prop
  uuids : List Uuid

namespace Ledger

/-- The ledger of a moment. -/
def of (m : Instant) : Ledger where
  rows := m.world.pg.tables.refreshTokens
  txs := m.world.pg.tx?
  marks := m.Marked TxMark.of
  draws := m.Marked drawn
  uuids := m.world.uuids

/-- The request has exchanged one row for another. -/
def Rotated (v : Ledger) (tid : Nat) (parent child : RefreshToken) : Prop :=
  v.marks tid (.found parent) ∧ v.marks tid (.inserted child) ∧ v.marks tid .committed

/-- How the parts of the ledger fit together. -/
structure Inv (v : Ledger) : Prop where
  /-- Locks are exclusive. -/
  exclusive : ∀ i j x y id, v.txs i = some x → v.txs j = some y →
    id ∈ x.locked → id ∈ y.locked → i = j
  /-- What is locked is a row, or an id of the locking request. -/
  locked_known : ∀ i x id, v.txs i = some x → id ∈ x.locked →
    (∃ r ∈ v.rows, r.id = id) ∨ v.draws i id
  /-- A row found for update is locked, and stays as it was found, while the transaction is
  open. -/
  held : ∀ i x p, v.txs i = some x → v.marks i (.found p) → p ∈ v.rows ∧ p.id ∈ x.locked
  /-- Transactions only revoke rows they have locked and insert rows. -/
  writes : ∀ i x, v.txs i = some x → OpenTx.Revoking x.writes ∧
    (∀ id, Write.setRevoked id true ∈ x.writes → id ∈ x.locked) ∧
    ∀ c, Write.insert c ∈ x.writes → v.marks i (.inserted c)
  live : ∀ i x, v.txs i = some x → v.marks i .begun ∧ ¬ v.marks i .committed
  drawn_known : ∀ i id, v.draws i id → id ∈ v.uuids
  drawn_once : ∀ i j id, v.draws i id → v.draws j id → i = j
  /-- The id of a row is known, and whoever has drawn it in this run has committed. -/
  row_known : ∀ r ∈ v.rows, r.id ∈ v.uuids ∧ ∀ i, v.draws i r.id → v.marks i .committed
  found_known : ∀ i p, v.marks i (.found p) →
    p.id ∈ v.uuids ∧ ∀ j, v.draws j p.id → v.marks j .committed
  inserted_drawn : ∀ i c, v.marks i (.inserted c) → v.draws i c.id
  found_one : ∀ i p q, v.marks i (.found p) → v.marks i (.found q) → p = q
  inserted_one : ∀ i c d, v.marks i (.inserted c) → v.marks i (.inserted d) → c = d
  /-- Rows keep their owner. -/
  found_owner : ∀ i p, v.marks i (.found p) → ∀ r ∈ v.rows, r.id = p.id → r.owner = p.owner
  inserted_owner : ∀ i c, v.marks i (.inserted c) → ∀ r ∈ v.rows, r.id = c.id → r.owner = c.owner
  /-- A request that has found one row and inserted another passes on the owner of a row that
  was not revoked. -/
  passed_on : ∀ i p c, v.marks i (.found p) → v.marks i (.inserted c) →
    p.revoked = false ∧ c.owner = p.owner
  /-- A rotated row is revoked. -/
  parent_revoked : ∀ i p c, v.Rotated i p c → ∀ r ∈ v.rows, r.id = p.id → r.revoked = true
  /-- A row is rotated by one request at most. -/
  rotated_once : ∀ i j p q c d, v.Rotated i p c → v.Rotated j q d → p.id = q.id → i = j

/-- What a step of one request may change. -/
structure Guar (tid : Nat) (a b : Ledger) : Prop where
  others : ∀ i ≠ tid, b.txs i = a.txs i ∧ b.marks i = a.marks i ∧ b.draws i = a.draws i
  marks : ∀ x, a.marks tid x → b.marks tid x
  rows : ∀ r' ∈ b.rows, (∃ r ∈ a.rows, r.id = r'.id ∧ (r.revoked = true → r'.revoked = true)) ∨
    (a.draws tid r'.id ∧ ¬ a.marks tid .committed)
  draws : ∀ id, b.draws tid id → a.draws tid id ∨ id ∉ a.uuids
  uuids : ∀ id ∈ a.uuids, id ∈ b.uuids

theorem Guar.refl (tid : Nat) (a : Ledger) : Guar tid a a where
  others _ _ := ⟨rfl, rfl, rfl⟩
  marks _ h := h
  rows r hr := .inl ⟨r, hr, rfl, id⟩
  draws _ h := .inl h
  uuids _ h := h

/-! ## Steps outside transactions -/

section Steps

variable {v : Ledger} {tid : Nat}

variable {t : Table RefreshToken} {id : Uuid} {x : OpenTx}

/-- Rows with the same id are the same row. -/
theorem row_eq {r r' : RefreshToken} (hr : r ∈ t) (hr' : r' ∈ t) (hid : r.id = r'.id) : r = r' :=
  Table.eq_of_clash hr hr' (by simp [Keyed.clash, hid])

/-- Every lock is respected. -/
def Respects (v : Ledger) (locked : Uuid → Bool) : Prop :=
  ∀ i x id, v.txs i = some x → id ∈ x.locked → locked id = true

theorem Inv.recede (hi : v.Inv) {locked : Uuid → Bool} (hl : v.Respects locked)
    (ht : Recedes locked v.rows t) : ({ v with rows := t } : Ledger).Inv := by
  have hold : ∀ r' ∈ t, ∃ r ∈ v.rows, r'.id = r.id ∧ r'.owner = r.owner ∧
      (r.revoked = true → r'.revoked = true) := by
    intro r' hr'
    obtain ⟨r, hr, rfl | rfl⟩ := ht.old r' hr'
    · exact ⟨_, hr, rfl, rfl, id⟩
    · exact ⟨_, hr, rfl, rfl, fun _ => rfl⟩
  refine { hi with locked_known := ?_, held := ?_, row_known := ?_, found_owner := ?_,
                   inserted_owner := ?_, parent_revoked := ?_, rotated_once := hi.rotated_once }
  · intro i x id hx hid
    rcases hi.locked_known i x id hx hid with ⟨r, hr, rfl⟩ | h
    · exact .inl ⟨r, ht.stays r hr (hl i x r.id hx hid), rfl⟩
    · exact .inr h
  · intro i x p hx hp
    obtain ⟨hmem, hlock⟩ := hi.held i x p hx hp
    exact ⟨ht.stays p hmem (hl i x p.id hx hlock), hlock⟩
  · intro r' hr'
    obtain ⟨r, hr, hid, -⟩ := hold r' hr'
    rw [hid]
    exact hi.row_known r hr
  · intro i p hp r' hr' hid
    obtain ⟨r, hr, hid', how, -⟩ := hold r' hr'
    rw [how]
    exact hi.found_owner i p hp r hr (hid' ▸ hid)
  · intro i c hc r' hr' hid
    obtain ⟨r, hr, hid', how, -⟩ := hold r' hr'
    rw [how]
    exact hi.inserted_owner i c hc r hr (hid' ▸ hid)
  · intro i p c hrot r' hr' hid
    obtain ⟨r, hr, hid', -, hrev⟩ := hold r' hr'
    exact hrev (hi.parent_revoked i p c hrot r hr (hid' ▸ hid))

theorem Guar.recede {locked : Uuid → Bool} (ht : Recedes locked v.rows t)
    : Guar tid v { v with rows := t } := by
  refine { Guar.refl tid v with rows := fun r' hr' => ?_ }
  obtain ⟨r, hr, rfl | rfl⟩ := ht.old r' hr'
  · exact .inl ⟨_, hr, rfl, id⟩
  · exact .inl ⟨_, hr, rfl, fun _ => rfl⟩

/-- The ledger after a request has drawn an id. -/
def draw (v : Ledger) (tid : Nat) (id : Uuid) : Ledger where
  rows := v.rows
  txs := v.txs
  marks := v.marks
  draws i u := (i = tid ∧ u = id) ∨ v.draws i u
  uuids := id :: v.uuids

theorem Inv.draw (hi : v.Inv) (hid : id ∉ v.uuids) : (v.draw tid id).Inv := by
  refine { hi with locked_known := ?_, drawn_known := ?_, drawn_once := ?_, row_known := ?_,
                   found_known := ?_, inserted_drawn := ?_, rotated_once := hi.rotated_once,
                   parent_revoked := hi.parent_revoked }
  · intro i x u hx hu
    exact (hi.locked_known i x u hx hu).imp_right .inr
  · rintro i u (⟨-, rfl⟩ | h)
    · exact List.mem_cons_self
    · exact List.mem_cons_of_mem _ (hi.drawn_known i u h)
  · rintro i j u (⟨rfl, rfl⟩ | h) (⟨rfl, hu⟩ | h')
    · rfl
    · exact absurd (hi.drawn_known j u h') hid
    · subst hu
      exact absurd (hi.drawn_known i u h) hid
    · exact hi.drawn_once i j u h h'
  · intro r hr
    obtain ⟨hk, hc⟩ := hi.row_known r hr
    refine ⟨List.mem_cons_of_mem _ hk, ?_⟩
    rintro i (⟨-, rfl⟩ | h)
    · exact absurd hk hid
    · exact hc i h
  · intro i p hp
    obtain ⟨hk, hc⟩ := hi.found_known i p hp
    refine ⟨List.mem_cons_of_mem _ hk, ?_⟩
    rintro j (⟨-, rfl⟩ | h)
    · exact absurd hk hid
    · exact hc j h
  · intro i c hc
    exact .inr (hi.inserted_drawn i c hc)

theorem Guar.draw (hid : id ∉ v.uuids) : Guar tid v (v.draw tid id) := by
  refine { Guar.refl tid v with others := ?_, draws := ?_, uuids := ?_ }
  · intro i hi
    refine ⟨rfl, rfl, ?_⟩
    funext u
    simp [Ledger.draw, hi]
  · rintro u (⟨-, rfl⟩ | h)
    · exact .inr hid
    · exact .inl h
  · intro u hu
    exact List.mem_cons_of_mem _ hu

/-! ## Steps of transactions -/

/-- The ledger after the transaction of a request has changed. -/
def setTx (v : Ledger) (tid : Nat) (y : Option OpenTx) : Ledger :=
  { v with txs := Function.update v.txs tid y }

/-- The ledger after a request has left a mark. -/
def addMark (v : Ledger) (tid : Nat) (mk : TxMark) : Ledger :=
  { v with marks := fun i x => (i = tid ∧ x = mk) ∨ v.marks i x }

@[simp] theorem setTx_same {y : Option OpenTx} : (v.setTx tid y).txs tid = y := by
  simp [setTx]

@[simp] theorem setTx_marks {y : Option OpenTx} : (v.setTx tid y).marks = v.marks := rfl

@[simp] theorem setTx_rows {y : Option OpenTx} : (v.setTx tid y).rows = v.rows := rfl

theorem setTx_other {y : Option OpenTx} {i : Nat} (h : i ≠ tid) :
    (v.setTx tid y).txs i = v.txs i := by
  simp [setTx, h]

/-- What the new state of an open transaction has to satisfy. -/
structure Fits (v : Ledger) (tid : Nat) (y : OpenTx) : Prop where
  exclusive : ∀ i x, i ≠ tid → v.txs i = some x → ∀ id ∈ y.locked, id ∉ x.locked
  locked_known : ∀ id ∈ y.locked, (∃ r ∈ v.rows, r.id = id) ∨ v.draws tid id
  held : ∀ p, v.marks tid (.found p) → p ∈ v.rows ∧ p.id ∈ y.locked
  writes : OpenTx.Revoking y.writes ∧
    (∀ id, Write.setRevoked id true ∈ y.writes → id ∈ y.locked) ∧
    ∀ c, Write.insert c ∈ y.writes → v.marks tid (.inserted c)
  live : v.marks tid .begun ∧ ¬ v.marks tid .committed

/-- An open transaction satisfies it. -/
theorem Inv.fits (hi : v.Inv) (hx : v.txs tid = some x) : v.Fits tid x where
  exclusive i y hne hy id hid hid' := hne (hi.exclusive i tid y x id hy hx hid' hid)
  locked_known id hid := hi.locked_known tid x id hx hid
  held p hp := hi.held tid x p hx hp
  writes := hi.writes tid x hx
  live := hi.live tid x hx

theorem Fits.abort (h : v.Fits tid x) : v.Fits tid (OpenTx.abort.apply x) :=
  ⟨h.exclusive, h.locked_known, h.held, h.writes, h.live⟩

/-- What a transaction sees is a row, or has an id of the request. -/
theorem Inv.visible_known (hi : v.Inv) (hx : v.txs tid = some x) {r : RefreshToken}
    (hr : r ∈ x.view v.rows) : (∃ r' ∈ v.rows, r'.id = r.id) ∨ v.draws tid r.id := by
  obtain ⟨hw, -, hins⟩ := hi.writes tid x hx
  rcases OpenTx.mem_foldl_writes hw hr with ⟨r', hr', rfl | ⟨rfl, -⟩⟩ | ⟨c, hc, rfl | rfl⟩
  · exact .inl ⟨_, hr', rfl⟩
  · exact .inl ⟨_, hr', rfl⟩
  · exact .inr (hi.inserted_drawn tid _ (hins _ hc))
  · exact .inr (hi.inserted_drawn tid c (hins c hc))

/-- A transaction may revoke a row that nobody else has locked. -/
theorem Fits.revoke (h : v.Fits tid x) (hfree : ∀ i y, i ≠ tid → v.txs i = some y → id ∉ y.locked)
    (hknown : (∃ r ∈ v.rows, r.id = id) ∨ v.draws tid id) :
    v.Fits tid ((OpenTx.record [id] [.setRevoked id true]).apply x) := by
  refine { h with exclusive := ?_, locked_known := ?_, held := ?_, writes := ?_ }
  · intro i y hne hy u hu
    rcases List.mem_cons.mp hu with rfl | hu
    · exact hfree i y hne hy
    · exact h.exclusive i y hne hy u hu
  · intro u hu
    rcases List.mem_cons.mp hu with rfl | hu
    · exact hknown
    · exact h.locked_known u hu
  · intro p hp
    obtain ⟨hrow, hlock⟩ := h.held p hp
    exact ⟨hrow, List.mem_cons_of_mem _ hlock⟩
  · obtain ⟨hw, hset, hins⟩ := h.writes
    refine ⟨fun u hu => ?_, fun u hu => ?_, fun c hc => ?_⟩
    · rcases List.mem_append.mp hu with hu | hu
      · exact hw u hu
      · simp at hu
    · rcases List.mem_append.mp hu with hu | hu
      · exact List.mem_cons_of_mem _ (hset u hu)
      · obtain rfl : u = id := by simpa using hu
        exact List.mem_cons_self
    · rcases List.mem_append.mp hc with hc | hc
      · exact hins c hc
      · simp at hc

theorem Inv.setTx (hi : v.Inv) {y : OpenTx} (hy : v.Fits tid y) : (v.setTx tid (some y)).Inv := by
  have htx : ∀ i x, (v.setTx tid (some y)).txs i = some x →
      (i = tid ∧ x = y) ∨ (i ≠ tid ∧ v.txs i = some x) := by
    intro i x hx
    by_cases h : i = tid
    · subst h
      rw [setTx_same] at hx
      exact .inl ⟨rfl, (Option.some.inj hx).symm⟩
    · rw [setTx_other h] at hx
      exact .inr ⟨h, hx⟩
  refine { hi with exclusive := ?_, locked_known := ?_, held := ?_, writes := ?_, live := ?_,
                   rotated_once := hi.rotated_once, parent_revoked := hi.parent_revoked }
  · intro i j x z id hx hz hid hid'
    have hi' := htx i x hx
    have hj' := htx j z hz
    clear hx hz
    rcases hi' with ⟨rfl, rfl⟩ | ⟨hne, hx⟩ <;> rcases hj' with ⟨rfl, rfl⟩ | ⟨hne', hz⟩
    · rfl
    · exact absurd hid' (hy.exclusive j z hne' hz id hid)
    · exact absurd hid (hy.exclusive i x hne hx id hid')
    · exact hi.exclusive i j x z id hx hz hid hid'
  · intro i x id hx hid
    rcases htx i x hx with ⟨rfl, rfl⟩ | ⟨-, hx⟩
    · exact hy.locked_known id hid
    · exact hi.locked_known i x id hx hid
  · intro i x p hx hp
    rcases htx i x hx with ⟨rfl, rfl⟩ | ⟨-, hx⟩
    · exact hy.held p hp
    · exact hi.held i x p hx hp
  · intro i x hx
    rcases htx i x hx with ⟨rfl, rfl⟩ | ⟨-, hx⟩
    · exact hy.writes
    · exact hi.writes i x hx
  · intro i x hx
    rcases htx i x hx with ⟨rfl, rfl⟩ | ⟨-, hx⟩
    · exact hy.live
    · exact hi.live i x hx

theorem Inv.closeTx (hi : v.Inv) : (v.setTx tid none).Inv := by
  have htx : ∀ i x, (v.setTx tid none).txs i = some x → v.txs i = some x := by
    intro i x hx
    by_cases h : i = tid
    · subst h
      rw [setTx_same] at hx
      cases hx
    · rwa [setTx_other h] at hx
  exact
    { hi with
      exclusive := fun i j x y id hx hy => hi.exclusive i j x y id (htx i x hx) (htx j y hy)
      locked_known := fun i x id hx => hi.locked_known i x id (htx i x hx)
      held := fun i x p hx => hi.held i x p (htx i x hx)
      writes := fun i x hx => hi.writes i x (htx i x hx)
      live := fun i x hx => hi.live i x (htx i x hx)
      rotated_once := hi.rotated_once
      parent_revoked := hi.parent_revoked }

/-- A step that leaves the rows and the draws alone only touches what is the request's own. -/
theorem Guar.of_own {b : Ledger} (hrows : b.rows = v.rows) (hdraws : b.draws = v.draws)
    (huuids : b.uuids = v.uuids)
    (hothers : ∀ i ≠ tid, b.txs i = v.txs i ∧ b.marks i = v.marks i)
    (hmarks : ∀ x, v.marks tid x → b.marks tid x) : Guar tid v b where
  others i hi := ⟨(hothers i hi).1, (hothers i hi).2, by rw [hdraws]⟩
  marks := hmarks
  rows r hr := .inl ⟨r, hrows ▸ hr, rfl, id⟩
  draws id hid := .inl (hdraws ▸ hid)
  uuids id hid := huuids ▸ hid

/-- When a request that has not committed may leave a mark. -/
structure Markable (v : Ledger) (tid : Nat) (mk : TxMark) : Prop where
  uncommitted : mk ≠ .committed ∧ ¬ v.marks tid .committed
  found : ∀ p, mk = .found p → p ∈ v.rows ∧ (∀ x, v.txs tid = some x → p.id ∈ x.locked) ∧
    (∀ q, ¬ v.marks tid (.found q)) ∧ ∀ c, ¬ v.marks tid (.inserted c)
  inserted : ∀ c, mk = .inserted c → v.draws tid c.id ∧ (∀ d, ¬ v.marks tid (.inserted d)) ∧
    ∀ p, v.marks tid (.found p) → p.revoked = false ∧ c.owner = p.owner

theorem Inv.addMark (hi : v.Inv) {mk : TxMark} (hm : v.Markable tid mk) :
    (v.addMark tid mk).Inv := by
  have hcom : ∀ i, (v.addMark tid mk).marks i .committed → v.marks i .committed ∧ i ≠ tid := by
    rintro i (⟨-, h⟩ | h)
    · exact absurd h.symm hm.uncommitted.1
    · refine ⟨h, fun ht => hm.uncommitted.2 (ht ▸ h)⟩
  have hrot : ∀ i p c, (v.addMark tid mk).Rotated i p c → v.Rotated i p c := by
    rintro i p c ⟨h₁, h₂, h₃⟩
    obtain ⟨h₃, hne⟩ := hcom i h₃
    exact ⟨h₁.resolve_left fun h => hne h.1, h₂.resolve_left fun h => hne h.1, h₃⟩
  refine { hi with held := ?_, writes := ?_, live := ?_, row_known := ?_, found_known := ?_,
                   inserted_drawn := ?_, found_one := ?_, inserted_one := ?_, found_owner := ?_,
                   inserted_owner := ?_, passed_on := ?_, parent_revoked := ?_, rotated_once := ?_ }
  · rintro i x p hx (⟨rfl, hp⟩ | hp)
    · obtain ⟨hrow, hlock, -⟩ := hm.found p hp.symm
      exact ⟨hrow, hlock x hx⟩
    · exact hi.held i x p hx hp
  · intro i x hx
    obtain ⟨h₁, h₂, h₃⟩ := hi.writes i x hx
    exact ⟨h₁, h₂, fun c hc => .inr (h₃ c hc)⟩
  · intro i x hx
    obtain ⟨h₁, h₂⟩ := hi.live i x hx
    exact ⟨.inr h₁, fun h => h₂ (hcom i h).1⟩
  · intro r hr
    obtain ⟨h₁, h₂⟩ := hi.row_known r hr
    exact ⟨h₁, fun i h => .inr (h₂ i h)⟩
  · rintro i p (⟨rfl, hp⟩ | hp)
    · obtain ⟨h₁, h₂⟩ := hi.row_known p (hm.found p hp.symm).1
      exact ⟨h₁, fun j h => .inr (h₂ j h)⟩
    · obtain ⟨h₁, h₂⟩ := hi.found_known i p hp
      exact ⟨h₁, fun j h => .inr (h₂ j h)⟩
  · rintro i c (⟨rfl, hc⟩ | hc)
    · exact (hm.inserted c hc.symm).1
    · exact hi.inserted_drawn i c hc
  · rintro i p q (⟨rfl, hp⟩ | hp) (⟨hi', hq⟩ | hq)
    · exact TxMark.found.inj (hp.trans hq.symm)
    · exact absurd hq ((hm.found p hp.symm).2.2.1 q)
    · subst hi'
      exact absurd hp ((hm.found q hq.symm).2.2.1 p)
    · exact hi.found_one i p q hp hq
  · rintro i c d (⟨rfl, hc⟩ | hc) (⟨hi', hd⟩ | hd)
    · exact TxMark.inserted.inj (hc.trans hd.symm)
    · exact absurd hd ((hm.inserted c hc.symm).2.1 d)
    · subst hi'
      exact absurd hc ((hm.inserted d hd.symm).2.1 c)
    · exact hi.inserted_one i c d hc hd
  · rintro i p (⟨rfl, hp⟩ | hp) r hr hid
    · rw [row_eq hr (hm.found p hp.symm).1 hid]
    · exact hi.found_owner i p hp r hr hid
  · rintro i c (⟨rfl, hc⟩ | hc) r hr hid
    · -- whoever has drawn the id of a row has committed
      have hdraw : v.draws i r.id := hid ▸ (hm.inserted c hc.symm).1
      exact absurd ((hi.row_known r hr).2 i hdraw) hm.uncommitted.2
    · exact hi.inserted_owner i c hc r hr hid
  · rintro i p c (⟨rfl, hp⟩ | hp) (⟨hi', hc⟩ | hc)
    · cases hp.trans hc.symm
    · exact absurd hc ((hm.found p hp.symm).2.2.2 c)
    · subst hi'
      exact (hm.inserted c hc.symm).2.2 p hp
    · exact hi.passed_on i p c hp hc
  · intro i p c h
    exact hi.parent_revoked i p c (hrot i p c h)
  · intro i j p q c d h h'
    exact hi.rotated_once i j p q c d (hrot i p c h) (hrot j q d h')

/-- The ledger after a request has committed its transaction. -/
def commitTx (v : Ledger) (tid : Nat) (x : OpenTx) : Ledger :=
  { (v.setTx tid none).addMark tid .committed with
    rows := if x.aborted then v.rows else x.view v.rows }

section Commit

variable {x : OpenTx}

/-- A row after a commit is an old one, possibly revoked, or the one that was inserted. -/
theorem Inv.commitTx_rows (hi : v.Inv) (hx : v.txs tid = some x) :
    ∀ r' ∈ (v.commitTx tid x).rows,
      (∃ r ∈ v.rows, r'.id = r.id ∧ r'.owner = r.owner ∧ (r.revoked = true → r'.revoked = true)) ∨
        ∃ c, v.marks tid (.inserted c) ∧ r'.id = c.id ∧ r'.owner = c.owner := by
  intro r' hr'
  obtain ⟨hw, -, hins⟩ := hi.writes tid x hx
  simp only [Ledger.commitTx] at hr'
  split at hr'
  · exact .inl ⟨r', hr', rfl, rfl, id⟩
  · rcases OpenTx.mem_foldl_writes hw hr' with ⟨r, hr, rfl | ⟨rfl, -⟩⟩ | ⟨c, hc, rfl | rfl⟩
    · exact .inl ⟨_, hr, rfl, rfl, id⟩
    · exact .inl ⟨_, hr, rfl, rfl, fun _ => rfl⟩
    · exact .inr ⟨_, hins _ hc, rfl, rfl⟩
    · exact .inr ⟨_, hins _ hc, rfl, rfl⟩

/-- Rows that the committed transaction has not locked stay as they are. -/
theorem Inv.commitTx_stays (hi : v.Inv) (hx : v.txs tid = some x) {r : RefreshToken}
    (hr : r ∈ v.rows) (hl : r.id ∉ x.locked) : r ∈ (v.commitTx tid x).rows := by
  obtain ⟨hw, hlock, -⟩ := hi.writes tid x hx
  simp only [Ledger.commitTx]
  split
  · exact hr
  · refine OpenTx.mem_foldl_of_unwritten hr fun b hb => ?_
    cases b with
    | true => exact hl (hlock r.id hb)
    | false => exact hw r.id hb

/-- The row that a request with an open transaction has inserted is not a row yet, and nobody
has found it. -/
theorem Inv.inserted_new (hi : v.Inv) (hx : v.txs tid = some x) {c : RefreshToken}
    (hc : v.marks tid (.inserted c)) :
    (∀ r ∈ v.rows, r.id ≠ c.id) ∧ ∀ j p, v.marks j (.found p) → p.id ≠ c.id := by
  have hdraw := hi.inserted_drawn tid c hc
  have hopen := (hi.live tid x hx).2
  constructor
  · intro r hr hid
    exact hopen ((hi.row_known r hr).2 tid (hid ▸ hdraw))
  · intro j p hp hid
    exact hopen ((hi.found_known j p hp).2 tid (hid ▸ hdraw))

theorem Inv.commitTx (hi : v.Inv) (hx : v.txs tid = some x)
    (hrot : ∀ p c, v.marks tid (.found p) → v.marks tid (.inserted c) →
      x.aborted = false ∧ Write.setRevoked p.id true ∈ x.writes) :
    (v.commitTx tid x).Inv := by
  have htx : ∀ i y, (v.commitTx tid x).txs i = some y → i ≠ tid ∧ v.txs i = some y := by
    intro i y hy
    change (v.setTx tid none).txs i = some y at hy
    by_cases h : i = tid
    · subst h
      rw [setTx_same] at hy
      cases hy
    · rw [setTx_other h] at hy
      exact ⟨h, hy⟩
  have hfound : ∀ i p, (v.commitTx tid x).marks i (.found p) → v.marks i (.found p) :=
    fun i p h => h.resolve_left nofun
  have hinserted : ∀ i c, (v.commitTx tid x).marks i (.inserted c) → v.marks i (.inserted c) :=
    fun i c h => h.resolve_left nofun
  have hrows := hi.commitTx_rows hx
  have hfree : ∀ i y id, i ≠ tid → v.txs i = some y → id ∈ y.locked → id ∉ x.locked := by
    intro i y id hne hy hid hid'
    exact hne (hi.exclusive i tid y x id hy hx hid hid')
  -- the row that this request has rotated, if any, is revoked by the commit
  have hown : ∀ p c, v.marks tid (.found p) → v.marks tid (.inserted c) →
      ∀ r ∈ (v.commitTx tid x).rows, r.id = p.id → r.revoked = true := by
    intro p c hp hc r hr hid
    obtain ⟨ha, hset⟩ := hrot p c hp hc
    obtain ⟨hw, -, hins⟩ := hi.writes tid x hx
    simp only [Ledger.commitTx, ha, Bool.false_eq_true, if_false] at hr
    refine OpenTx.revoked_of_write hw hset (fun d hd => ?_) hr hid
    exact fun h => (hi.inserted_new hx (hins d hd)).2 tid p hp h.symm
  have holder : ∀ i p c, v.Rotated i p c → ∀ r ∈ (v.commitTx tid x).rows, r.id = p.id →
      r.revoked = true := by
    intro i p c hr r' hr' hid
    rcases hrows r' hr' with ⟨r, hmem, hid', -, hrev⟩ | ⟨d, hd, hid', -⟩
    · exact hrev (hi.parent_revoked i p c hr r hmem (hid' ▸ hid))
    · exact absurd (hid.symm.trans hid') ((hi.inserted_new hx hd).2 i p hr.1)
  have hrotated : ∀ i p c, (v.commitTx tid x).Rotated i p c →
      v.Rotated i p c ∨ (i = tid ∧ v.marks tid (.found p) ∧ v.marks tid (.inserted c)) := by
    rintro i p c ⟨h₁, h₂, h₃⟩
    have hp := hfound i p h₁
    have hc := hinserted i c h₂
    rcases h₃ with ⟨ht, -⟩ | h₃
    · exact .inr ⟨ht, ht ▸ hp, ht ▸ hc⟩
    · exact .inl ⟨hp, hc, h₃⟩
  -- a row that has been rotated before cannot be the one this request has found
  have hnew : ∀ j p q c d, v.marks tid (.found p) → v.marks tid (.inserted c) →
      v.Rotated j q d → p.id ≠ q.id := by
    intro j p q c d hp hc hq hid
    have hrow := (hi.held tid x p hx hp).1
    have hrev := hi.parent_revoked j q d hq p hrow hid
    rw [(hi.passed_on tid p c hp hc).1] at hrev
    cases hrev
  constructor
  · intro i j y z id hy hz
    exact hi.exclusive i j y z id (htx i y hy).2 (htx j z hz).2
  · intro i y id hy hid
    obtain ⟨hne, hy⟩ := htx i y hy
    rcases hi.locked_known i y id hy hid with ⟨r, hr, rfl⟩ | h
    · exact .inl ⟨r, hi.commitTx_stays hx hr (hfree i y _ hne hy hid), rfl⟩
    · exact .inr h
  · intro i y p hy hp
    obtain ⟨hne, hy⟩ := htx i y hy
    obtain ⟨hr, hl⟩ := hi.held i y p hy (hfound i p hp)
    exact ⟨hi.commitTx_stays hx hr (hfree i y _ hne hy hl), hl⟩
  · intro i y hy
    obtain ⟨h₁, h₂, h₃⟩ := hi.writes i y (htx i y hy).2
    exact ⟨h₁, h₂, fun c hc => .inr (h₃ c hc)⟩
  · intro i y hy
    obtain ⟨hne, hy⟩ := htx i y hy
    obtain ⟨h₁, h₂⟩ := hi.live i y hy
    exact ⟨.inr h₁, fun h => h₂ (h.resolve_left fun h => hne h.1)⟩
  · exact hi.drawn_known
  · exact hi.drawn_once
  · intro r' hr'
    rcases hrows r' hr' with ⟨r, hr, hid, -⟩ | ⟨c, hc, hid, -⟩
    · obtain ⟨h₁, h₂⟩ := hi.row_known r hr
      rw [hid]
      exact ⟨h₁, fun i h => .inr (h₂ i h)⟩
    · have hdraw := hi.inserted_drawn tid c hc
      rw [hid]
      exact ⟨hi.drawn_known tid _ hdraw, fun i h => .inl ⟨hi.drawn_once i tid _ h hdraw, rfl⟩⟩
  · intro i p hp
    obtain ⟨h₁, h₂⟩ := hi.found_known i p (hfound i p hp)
    exact ⟨h₁, fun j h => .inr (h₂ j h)⟩
  · intro i c hc
    exact hi.inserted_drawn i c (hinserted i c hc)
  · intro i p q hp hq
    exact hi.found_one i p q (hfound i p hp) (hfound i q hq)
  · intro i c d hc hd
    exact hi.inserted_one i c d (hinserted i c hc) (hinserted i d hd)
  · intro i p hp r' hr' hid
    have hp := hfound i p hp
    rcases hrows r' hr' with ⟨r, hr, hid', how, -⟩ | ⟨c, hc, hid', -⟩
    · rw [how]
      exact hi.found_owner i p hp r hr (hid' ▸ hid)
    · exact absurd (hid.symm.trans hid') ((hi.inserted_new hx hc).2 i p hp)
  · intro i c hc r' hr' hid
    have hc := hinserted i c hc
    rcases hrows r' hr' with ⟨r, hr, hid', how, -⟩ | ⟨d, hd, hid', how⟩
    · rw [how]
      exact hi.inserted_owner i c hc r hr (hid' ▸ hid)
    · have hsame : i = tid := hi.drawn_once i tid c.id (hi.inserted_drawn i c hc)
        (hid.symm.trans hid' ▸ hi.inserted_drawn tid d hd)
      rw [how, hi.inserted_one tid d c hd (hsame ▸ hc)]
  · intro i p c hp hc
    exact hi.passed_on i p c (hfound i p hp) (hinserted i c hc)
  · intro i p c hr
    rcases hrotated i p c hr with h | ⟨-, hp, hc⟩
    · exact holder i p c h
    · exact hown p c hp hc
  · intro i j p q c d hr hr' hid
    rcases hrotated i p c hr with h | ⟨hi', hp, hc⟩ <;>
      rcases hrotated j q d hr' with h' | ⟨hj', hq, hd⟩
    · exact hi.rotated_once i j p q c d h h' hid
    · exact absurd hid.symm (hnew i q p d c hq hd h)
    · exact absurd hid (hnew j p q c d hp hc h')
    · rw [hi', hj']

theorem Guar.commitTx (hi : v.Inv) (hx : v.txs tid = some x) : Guar tid v (v.commitTx tid x) where
  others i hne := by
    refine ⟨setTx_other hne, ?_, rfl⟩
    funext mk
    simp [Ledger.commitTx, Ledger.addMark, Ledger.setTx, hne]
  marks _ h := .inr h
  rows r' hr' := by
    rcases hi.commitTx_rows hx r' hr' with ⟨r, hr, hid, -, hrev⟩ | ⟨c, hc, hid, -⟩
    · exact .inl ⟨r, hr, hid.symm, hrev⟩
    · refine .inr ⟨?_, (hi.live tid x hx).2⟩
      rw [hid]
      exact hi.inserted_drawn tid c hc
  draws _ h := .inl h
  uuids _ h := h

end Commit

end Steps

end Ledger

end AuthServer
