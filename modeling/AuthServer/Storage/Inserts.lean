import AuthServer.Storage.Table

/-!
# Transactions that insert rows

The rows that a transaction has inserted are seen by itself only, until it commits. An insertion
with a key of an uncommitted row of another transaction waits until that one ends. An insertion
with a key that is taken, or without its parent rows, fails and aborts its transaction: the rows it
has inserted are void, and its further statements are refused.
-/

namespace Storage

variable {ρ : Type}

/-- An open transaction of a thread and the rows it has inserted. -/
structure InsertTx (ρ : Type) where
  tid : Nat
  rows : List ρ := []
  aborted : Bool := false

instance : Keyed (InsertTx ρ) where
  clash a b := decide (a.tid = b.tid)
  clash_self _ := by simp
  clash_symm _ _ := by simp only [eq_comm]

namespace InsertTx

/-- One more row. -/
def push (r : ρ) : Setter (InsertTx ρ) where
  apply x := { x with rows := x.rows ++ [r] }
  clash_left _ _ := rfl

/-- A statement has failed. -/
def abort : Setter (InsertTx ρ) where
  apply x := { x with rows := [], aborted := true }
  clash_left _ _ := rfl

end InsertTx

/-- Why a statement of a transaction is refused. -/
inductive InsertError where
  | duplicate
  | orphan
  | aborted
  deriving DecidableEq

/-- The committed rows and the open transactions. -/
structure Inserts (ρ : Type) [Keyed ρ] where
  committed : Table ρ
  txs : Table (InsertTx ρ) := .empty

namespace Inserts

variable [Keyed ρ] {α : Type}

/-- The transaction of a thread. -/
def tx? (s : Inserts ρ) (tid : Nat) : Option (InsertTx ρ) := s.txs.find? fun x => x.tid == tid

/-- Change the transaction of a thread. -/
def onTx (s : Inserts ρ) (tid : Nat) (f : Setter (InsertTx ρ)) : Inserts ρ :=
  { s with txs := s.txs.update (fun x => x.tid == tid) f }

/-- The transaction of a thread is over. -/
def close (s : Inserts ρ) (tid : Nat) : Inserts ρ :=
  { s with txs := s.txs.delete fun x => x.tid == tid }

/-- Start a transaction. -/
def begin (s : Inserts ρ) (tid : Nat) : Option (Inserts ρ) :=
  (s.txs.insert { tid }).map fun txs => { s with txs }

/-- The rows that a transaction sees. -/
def visible (s : Inserts ρ) (x : InsertTx ρ) : List ρ := s.committed.rows ++ x.rows

/-- A statement inside the transaction of a thread. -/
def inTx (s : Inserts ρ) (tid : Nat)
    (f : InsertTx ρ → Option (Except InsertError α × Inserts ρ)) :
    Option (Except InsertError α × Inserts ρ) :=
  match s.tx? tid with
  | none => none
  | some x => if x.aborted then some (.error .aborted, s) else f x

/-- A lookup. -/
def select (s : Inserts ρ) (tid : Nat) (p : ρ → Bool) :
    Option (Except InsertError (Option ρ) × Inserts ρ) :=
  s.inTx tid fun x => some (.ok ((s.visible x).find? p), s)

/-- Another transaction has inserted a row with a key of this one. -/
def awaited (s : Inserts ρ) (tid : Nat) (r : ρ) : Bool :=
  s.txs.rows.any fun y => y.tid != tid && y.rows.any fun r' => Keyed.clash r' r

/-- `INSERT`, or `INSERT … ON CONFLICT DO NOTHING`, and whether the row was added. -/
def insert (s : Inserts ρ) (tid : Nat) (skip : Bool) (parents : List (ρ → Bool)) (r : ρ) :
    Option (Except InsertError Bool × Inserts ρ) :=
  s.inTx tid fun x =>
    if s.awaited tid r then none
    else if (s.visible x).any fun r' => Keyed.clash r' r then
      if skip then some (.ok false, s) else some (.error .duplicate, s.onTx tid InsertTx.abort)
    else if parents.all fun p => (s.visible x).any p then
      some (.ok true, s.onTx tid (InsertTx.push r))
    else some (.error .orphan, s.onTx tid InsertTx.abort)

/-- Add rows to a table. -/
def addAll (t : Table ρ) (rows : List ρ) : Table ρ := rows.foldl (fun t r => (t.insert r).getD t) t

/-- `COMMIT`; of an aborted transaction nothing is left. -/
def commit (s : Inserts ρ) (tid : Nat) : Option (Inserts ρ) :=
  (s.tx? tid).map fun x => { s.close tid with committed := addAll s.committed x.rows }

section Lookups

variable {s s' : Inserts ρ} {tid i : Nat} {x : InsertTx ρ}

theorem tx?_onTx {f : Setter (InsertTx ρ)} (hf : ∀ a, (f.apply a).tid = a.tid) :
    (s.onTx tid f).tx? i = if i = tid then (s.tx? tid).map f.apply else s.tx? i :=
  Table.find?_update_key hf

theorem tx?_close : (s.close tid).tx? i = if i = tid then none else s.tx? i := Table.find?_delete_key

theorem tx?_begin (h : s.begin tid = some s') :
    s'.tx? i = (if i = tid then some { tid } else s.tx? i) ∧ s'.committed = s.committed := by
  obtain ⟨txs, hins, rfl⟩ := Option.map_eq_some_iff.mp h
  exact ⟨Table.find?_insert_key (fun _ _ h => decide_eq_true h) hins, rfl⟩

theorem mem_txs : x ∈ s.txs ↔ s.tx? x.tid = some x := by
  rw [tx?, Table.find?_key fun _ _ h => decide_eq_true h]
  exact (and_iff_left rfl).symm

theorem tid_of_tx? (h : s.tx? i = some x) : x.tid = i := beq_iff_eq.mp (Table.mem_of_find? h).2

theorem awaited_eq_false {r : ρ} : s.awaited tid r = false ↔
    ∀ i x, i ≠ tid → s.tx? i = some x → ∀ r' ∈ x.rows, Keyed.clash r' r = false := by
  simp only [awaited, List.any_eq_false, Bool.and_eq_true, bne_iff_ne, List.any_eq_true, not_and,
    not_exists, Bool.not_eq_true]
  constructor
  · intro h i x hi hx
    exact h x (Table.mem_of_find? hx).1 (tid_of_tx? hx ▸ hi)
  · intro h x hx hi
    exact h x.tid x hi (mem_txs.mp hx)

end Lookups

/-! ## What statements do -/

section Cases

variable {s s' : Inserts ρ} {tid : Nat}

theorem inTx_cases {f : InsertTx ρ → Option (Except InsertError α × Inserts ρ)}
    {y : Except InsertError α} (h : s.inTx tid f = some (y, s')) :
    ∃ x, s.tx? tid = some x ∧
      ((x.aborted = true ∧ y = .error .aborted ∧ s' = s) ∨
        (x.aborted = false ∧ f x = some (y, s'))) := by
  unfold inTx at h
  split at h
  · cases h
  · next x hx =>
    refine ⟨x, hx, ?_⟩
    split at h
    · next hab =>
      cases h
      exact .inl ⟨hab, rfl, rfl⟩
    · next hab => exact .inr ⟨Bool.eq_false_iff.mpr hab, h⟩

theorem select_cases {p : ρ → Bool} {y : Except InsertError (Option ρ)}
    (h : s.select tid p = some (y, s')) :
    s' = s ∧ ∃ x, s.tx? tid = some x ∧
      ((x.aborted = true ∧ y = .error .aborted) ∨
        (x.aborted = false ∧ y = .ok ((s.visible x).find? p))) := by
  obtain ⟨x, hx, ⟨hab, rfl, rfl⟩ | ⟨hab, hf⟩⟩ := inTx_cases h
  · exact ⟨rfl, x, hx, .inl ⟨hab, rfl⟩⟩
  · cases hf
    exact ⟨rfl, x, hx, .inr ⟨hab, rfl⟩⟩

/-- An insertion is refused, fails, finds its keys taken or adds its row. -/
theorem insert_cases {skip : Bool} {parents : List (ρ → Bool)} {r : ρ} {y : Except InsertError Bool}
    (h : s.insert tid skip parents r = some (y, s')) :
    ∃ x, s.tx? tid = some x ∧
      ((x.aborted = true ∧ y = .error .aborted ∧ s' = s) ∨
        (x.aborted = false ∧
          ((∃ e, y = .error e ∧ s' = s.onTx tid InsertTx.abort) ∨
            (skip = true ∧ y = .ok false ∧ s' = s) ∨
            (y = .ok true ∧ s' = s.onTx tid (InsertTx.push r) ∧ s.awaited tid r = false ∧
              (∀ r' ∈ s.visible x, Keyed.clash r' r = false) ∧
              ∀ p ∈ parents, ∃ r' ∈ s.visible x, p r' = true)))) := by
  obtain ⟨x, hx, hrefused | ⟨hab, hf⟩⟩ := inTx_cases h
  · exact ⟨x, hx, .inl hrefused⟩
  · refine ⟨x, hx, .inr ⟨hab, ?_⟩⟩
    split at hf
    · cases hf
    next hfree =>
    split at hf
    · split at hf
      · next hskip =>
        cases hf
        exact .inr (.inl ⟨hskip, rfl, rfl⟩)
      · cases hf
        exact .inl ⟨_, rfl, rfl⟩
    next hnew =>
    split at hf
    · next hparents =>
      cases hf
      refine .inr (.inr ⟨rfl, rfl, Bool.eq_false_iff.mpr hfree, fun r' hr' => ?_, fun p hp => ?_⟩)
      · exact Bool.eq_false_iff.mpr fun hclash => hnew (List.any_eq_true.mpr ⟨r', hr', hclash⟩)
      · exact List.any_eq_true.mp (List.all_eq_true.mp hparents p hp)
    · cases hf
      exact .inl ⟨_, rfl, rfl⟩

theorem commit_cases (h : s.commit tid = some s') :
    ∃ x, s.tx? tid = some x ∧
      s' = { s.close tid with committed := addAll s.committed x.rows } := by
  obtain ⟨x, hx, rfl⟩ := Option.map_eq_some_iff.mp h
  exact ⟨x, hx, rfl⟩

end Cases

/-! ## Uncommitted rows can be committed -/

theorem addAll_cons {t : Table ρ} {r : ρ} {rows : List ρ} :
    addAll t (r :: rows) = addAll ((t.insert r).getD t) rows := rfl

/-- Rows without clashes are all added. -/
theorem mem_addAll {t : Table ρ} {rows : List ρ} {a : ρ}
    (hfresh : ∀ r ∈ rows, ∀ b ∈ t, Keyed.clash b r = false)
    (hapart : rows.Pairwise fun a b => Keyed.clash a b = false) :
    a ∈ addAll t rows ↔ a ∈ t ∨ a ∈ rows := by
  induction rows generalizing t with
  | nil => simp [addAll]
  | cons r rows ih =>
    obtain ⟨hr, hapart⟩ := List.pairwise_cons.mp hapart
    obtain ⟨t', hins⟩ := Table.exists_insert (hfresh r List.mem_cons_self)
    rw [addAll_cons, hins, Option.getD_some, ih ?_ hapart, Table.mem_insert hins, List.mem_cons,
      or_assoc]
    intro r' hr' b hb
    rcases (Table.mem_insert hins).mp hb with hb | rfl
    · exact hfresh r' (List.mem_cons_of_mem _ hr') b hb
    · exact hr r' hr'

/-- No uncommitted row clashes with a committed one or with another uncommitted one, and aborted
transactions have none. -/
structure Sound (s : Inserts ρ) : Prop where
  void : ∀ i x, s.tx? i = some x → x.aborted = true → x.rows = []
  fresh : ∀ i x, s.tx? i = some x → ∀ r ∈ x.rows, ∀ b ∈ s.committed, Keyed.clash b r = false
  distinct : ∀ i x, s.tx? i = some x → x.rows.Pairwise fun a b => Keyed.clash a b = false
  apart : ∀ i j x y, i ≠ j → s.tx? i = some x → s.tx? j = some y →
    ∀ r ∈ x.rows, ∀ r' ∈ y.rows, Keyed.clash r r' = false

section Invariant

variable {s s' : Inserts ρ} {tid : Nat}

/-- Without open transactions. -/
theorem sound_start (t : Table ρ) : Sound ({ committed := t } : Inserts ρ) where
  void _ _ h := by cases h
  fresh _ _ h := by cases h
  distinct _ _ h := by cases h
  apart _ _ _ _ _ h := by cases h

/-- Transactions that only lose rows stay sound. -/
theorem Sound.shrink (h : s.Sound) (hcommitted : s'.committed = s.committed)
    (htxs : ∀ i x, s'.tx? i = some x → x.rows = [] ∨ s.tx? i = some x) : s'.Sound where
  void i x hx hab := (htxs i x hx).elim id fun hold => h.void i x hold hab
  fresh i x hx r hr b hb := by
    rcases htxs i x hx with hnil | hold
    · rw [hnil] at hr
      cases hr
    · exact h.fresh i x hold r hr b (hcommitted ▸ hb)
  distinct i x hx := by
    rcases htxs i x hx with hnil | hold
    · rw [hnil]
      exact .nil
    · exact h.distinct i x hold
  apart i j x y hij hx hy r hr r' hr' := by
    rcases htxs i x hx with hnil | hold
    · rw [hnil] at hr
      cases hr
    · rcases htxs j y hy with hnil | hold'
      · rw [hnil] at hr'
        cases hr'
      · exact h.apart i j x y hij hold hold' r hr r' hr'

theorem Sound.begin (h : s.Sound) (hb : s.begin tid = some s') : s'.Sound := by
  refine h.shrink (tx?_begin (i := tid) hb).2 fun i x hx => ?_
  rw [(tx?_begin hb).1] at hx
  split at hx
  · cases hx
    exact .inl rfl
  · exact .inr hx

theorem Sound.close (h : s.Sound) : (s.close tid).Sound := by
  refine h.shrink rfl fun i x hx => ?_
  rw [tx?_close] at hx
  split at hx
  · cases hx
  · exact .inr hx

theorem Sound.abort (h : s.Sound) : (s.onTx tid InsertTx.abort).Sound := by
  refine h.shrink rfl fun i x hx => ?_
  rw [tx?_onTx fun _ => rfl] at hx
  split at hx
  · obtain ⟨x₀, -, rfl⟩ := Option.map_eq_some_iff.mp hx
    exact .inl rfl
  · exact .inr hx

/-- A row that clashes with none is added to a transaction. -/
theorem Sound.push (h : s.Sound) {r : ρ} {x : InsertTx ρ} (hx : s.tx? tid = some x)
    (hab : x.aborted = false) (hfree : s.awaited tid r = false) (hnew : ∀ r' ∈ s.visible x, Keyed.clash r' r = false) :
    (s.onTx tid (InsertTx.push r)).Sound := by
  have htx : ∀ i y, (s.onTx tid (InsertTx.push r)).tx? i = some y →
      (i = tid ∧ y.rows = x.rows ++ [r] ∧ y.aborted = false) ∨ (i ≠ tid ∧ s.tx? i = some y) := by
    intro i y hy
    rw [tx?_onTx fun _ => rfl] at hy
    split at hy
    · next hi =>
      rw [hx] at hy
      cases hy
      exact .inl ⟨hi, rfl, hab⟩
    · next hi => exact .inr ⟨hi, hy⟩
  have hother := awaited_eq_false.mp hfree
  constructor
  · intro i y hy hab'
    rcases htx i y hy with ⟨rfl, -, hab⟩ | ⟨-, hold⟩
    · rw [hab] at hab'
      cases hab'
    · exact h.void i y hold hab'
  · intro i y hy r' hr' b hb
    rcases htx i y hy with ⟨rfl, hrows, -⟩ | ⟨-, hold⟩
    · rw [hrows, List.mem_append, List.mem_singleton] at hr'
      rcases hr' with hr' | rfl
      · exact h.fresh _ x hx r' hr' b hb
      · exact hnew b (List.mem_append_left _ hb)
    · exact h.fresh i y hold r' hr' b hb
  · intro i y hy
    rcases htx i y hy with ⟨rfl, hrows, -⟩ | ⟨-, hold⟩
    · rw [hrows, List.pairwise_append]
      refine ⟨h.distinct _ x hx, List.pairwise_singleton _ _, fun a ha b hb => ?_⟩
      rw [List.mem_singleton.mp hb]
      exact hnew a (List.mem_append_right _ ha)
    · exact h.distinct i y hold
  · intro i j y z hij hy hz a ha b hb
    rcases htx i y hy with ⟨rfl, hrows, -⟩ | ⟨hi, hold⟩
    · rcases htx j z hz with ⟨rfl, -⟩ | ⟨hj, hold'⟩
      · exact absurd rfl hij
      · rw [hrows, List.mem_append, List.mem_singleton] at ha
        rcases ha with ha | rfl
        · exact h.apart _ j x z hij hx hold' a ha b hb
        · rw [Keyed.clash_symm]
          exact hother j z hj hold' b hb
    · rcases htx j z hz with ⟨rfl, hrows, -⟩ | ⟨-, hold'⟩
      · rw [hrows, List.mem_append, List.mem_singleton] at hb
        rcases hb with hb | rfl
        · exact h.apart i _ y x hij hold hx a ha b hb
        · exact hother i y hi hold a ha
      · exact h.apart i j y z hij hold hold' a ha b hb

/-- All rows of a transaction are committed. -/
theorem Sound.mem_commit (h : s.Sound) {x : InsertTx ρ} (hx : s.tx? tid = some x) {a : ρ} :
    a ∈ addAll s.committed x.rows ↔ a ∈ s.committed ∨ a ∈ x.rows :=
  mem_addAll (h.fresh tid x hx) (h.distinct tid x hx)

theorem Sound.commit (h : s.Sound) (hc : s.commit tid = some s') : s'.Sound := by
  obtain ⟨x, hx, rfl⟩ := commit_cases hc
  have htx : ∀ i y, ({ s.close tid with committed := addAll s.committed x.rows } : Inserts ρ).tx? i =
      some y → i ≠ tid ∧ s.tx? i = some y := by
    intro i y hy
    have hy : (s.close tid).tx? i = some y := hy
    rw [tx?_close] at hy
    split at hy
    · cases hy
    · next hi => exact ⟨hi, hy⟩
  constructor
  · intro i y hy
    exact h.void i y (htx i y hy).2
  · intro i y hy r hr b hb
    obtain ⟨hi, hold⟩ := htx i y hy
    rcases (h.mem_commit hx).mp hb with hb | hb
    · exact h.fresh i y hold r hr b hb
    · exact h.apart tid i x y (Ne.symm hi) hx hold b hb r hr
  · intro i y hy
    exact h.distinct i y (htx i y hy).2
  · intro i j y z hij hy hz
    exact h.apart i j y z hij (htx i y hy).2 (htx j z hz).2

end Invariant

end Inserts

end Storage
