import AuthServer.Storage.Expiring

/-!
# Fixed-window counters

A counter is created by its first increment together with a deadline that later increments leave
alone; it starts again at one after the deadline. The log of a counter lists its increments, newest
first, each with its instant and the value it returned. What a counter admits in one lifetime, and
in any interval as long as a lifetime, is read off the log.
-/

namespace Storage

variable {K : Type} [DecidableEq K]

/-- The commands on counters: the script that increments and gives the first increment a time to
live, and the remaining time in a unit of the clock, rounded to the nearest. -/
inductive CounterCmd (K : Type) where
  | incrAndExpire (key : K) (life : Int)
  | ttl (key : K) (unit : Int)
  deriving DecidableEq

namespace CounterCmd

/-- The reply of a command. -/
def Res : CounterCmd K → Type
  | .incrAndExpire _ _ => Nat
  | .ttl _ _ => Int

omit [DecidableEq K] in
/-- The remaining time of a counter: `-2` for a missing one, `-1` for one without deadline. -/
def remaining (s : Expiring K Nat) (now : Int) (k : K) (unit : Int) : Int :=
  match s.peek now k with
  | none => -2
  | some e =>
    match e.deadline with
    | none => -1
    | some d => (d - now + unit / 2) / unit

/-- Execute a command atomically. -/
def exec (now : Int) : (c : CounterCmd K) → Expiring K Nat → c.Res × Expiring K Nat
  | .incrAndExpire k life, s =>
    match s.peek now k with
    | some e => ((e.value + 1 : Nat), s.set k (e.value + 1) e.deadline)
    | none => ((1 : Nat), s.set k 1 (some (now + life)))
  | .ttl k unit, s => (remaining s now k unit, s)

/-- The key a command is about. -/
def key : CounterCmd K → K
  | .incrAndExpire k _ | .ttl k _ => k

variable {c : CounterCmd K} {s : Expiring K Nat} {k : K} {now : Int}

/-- A command leaves the counters of other keys alone. -/
theorem entry_exec_of_ne (h : k ≠ c.key) : (c.exec now s).2.entry k = s.entry k := by
  cases c with
  | incrAndExpire => simp only [exec]; split <;> simp_all [key]
  | ttl => rfl

end CounterCmd

/-! ## The log of a counter -/

namespace FixedWindow

/-- The increments of one counter, newest first. -/
abbrev Log := List (Int × Nat)

/-- When the newest lifetime of the counter began. -/
def opened : Log → Option Int
  | [] => none
  | (t, n) :: l => if n = 1 then some t else opened l

/-- The increments of the newest lifetime, and those of earlier ones. -/
def current : Log → Log
  | [] => []
  | (t, n) :: l => if n = 1 then [(t, n)] else (t, n) :: current l

def older : Log → Log
  | [] => []
  | (_, n) :: l => if n = 1 then l else older l

/-- The logs of a counter whose lifetimes are `width` long: a lifetime begins at one after the end
of the one before, and counts up to its own end. -/
inductive Valid (width : Int) : Log → Prop
  | nil : Valid width []
  | opens {l t} (hl : Valid width l) (ht : ∀ x ∈ l, x.1 ≤ t)
      (hs : ∀ s, opened l = some s → s + width < t) : Valid width ((t, 1) :: l)
  | counts {l t t₀ n s} (hl : Valid width ((t₀, n) :: l)) (ht : ∀ x ∈ (t₀, n) :: l, x.1 ≤ t)
      (hs : opened ((t₀, n) :: l) = some s) (hw : t ≤ s + width) :
      Valid width ((t, n + 1) :: (t₀, n) :: l)

variable {width : Int} {l : Log}

theorem current_append_older (l : Log) : current l ++ older l = l := by
  induction l with
  | nil => rfl
  | cons x l ih =>
    obtain ⟨t, n⟩ := x
    simp only [current, older]
    split
    · rfl
    · rw [List.cons_append, ih]

variable {x : Int × Nat} {limit : Nat} {a b : Int}

theorem older_length_lt : (older (x :: l)).length < (x :: l).length := by
  induction l generalizing x with
  | nil => simp [older]
  | cons y l ih =>
    obtain ⟨t, n⟩ := x
    rw [older]
    split
    · simp
    · exact Nat.lt_succ_of_lt ih

theorem Valid.pos (h : Valid width l) : ∀ x ∈ l, 1 ≤ x.2 := by
  induction h with
  | nil => simp
  | opens _ _ _ ih => simpa using ih
  | counts _ _ _ _ ih => exact fun x hx => (List.mem_cons.mp hx).elim (by rintro rfl; simp) (ih x)

theorem Valid.tail (h : Valid width (x :: l)) : Valid width l := by
  cases h with
  | opens hl => exact hl
  | counts hl => exact hl

theorem Valid.of_append {later : Log} (h : Valid width (later ++ l)) : Valid width l := by
  induction later with
  | nil => exact h
  | cons x later ih => exact ih h.tail

/-- Increments are logged in the order of their instants. -/
theorem Valid.sorted (h : Valid width l) : l.Pairwise fun x y => y.1 ≤ x.1 := by
  induction h with
  | nil => exact .nil
  | opens _ ht _ ih => exact .cons ht ih
  | counts _ ht _ _ ih => exact .cons ht ih

/-- A log that is not empty has a newest lifetime. -/
theorem Valid.opened_isSome (h : Valid width (x :: l)) :
    ∃ s, opened (x :: l) = some s := by
  cases h with
  | opens => exact ⟨_, rfl⟩
  | @counts _ _ _ n s hl _ hs _ =>
    refine ⟨s, ?_⟩
    have hpos := hl.pos _ (List.mem_cons_self ..)
    simp only at hpos
    rw [opened, if_neg (by omega), hs]

/-- The newest value is the number of increments of the newest lifetime. -/
theorem Valid.current_length {t : Int} {n : Nat} (h : Valid width ((t, n) :: l)) :
    (current ((t, n) :: l)).length = n := by
  induction l generalizing t n with
  | nil => cases h; rfl
  | cons y l ih =>
    cases h with
    | opens => rfl
    | @counts _ _ t₀ n₀ _ hl _ _ _ =>
      have hpos := hl.pos _ (List.mem_cons_self ..)
      simp only at hpos
      rw [current, if_neg (by omega), List.length_cons, ih hl]

/-- Within the newest lifetime the values go down by one to one. -/
theorem Valid.values {t : Int} {n : Nat} (h : Valid width ((t, n) :: l)) {i : Nat} (hi : i < n) :
    (((t, n) :: l)[i]?).map Prod.snd = some (n - i) := by
  induction l generalizing t n i with
  | nil =>
    cases h
    obtain rfl : i = 0 := by omega
    rfl
  | cons y l ih =>
    cases h with
    | opens =>
      obtain rfl : i = 0 := by omega
      rfl
    | @counts _ _ t₀ n₀ _ hl _ _ _ =>
      cases i with
      | zero => rfl
      | succ i =>
        rw [List.getElem?_cons_succ, ih hl (by omega)]
        congr 1
        omega

theorem Valid.older (h : Valid width l) : Valid width (older l) := by
  induction h with
  | nil => exact .nil
  | opens hl => exact hl
  | counts hl _ _ _ ih =>
    have hpos := hl.pos _ (List.mem_cons_self ..)
    simp only at hpos
    rw [FixedWindow.older, if_neg (by omega)]
    exact ih

/-- The increments of the newest lifetime are at most `width` later than its beginning; earlier
ones are not later than it, and the lifetime before it has ended. -/
theorem Valid.spans {s : Int} (h : Valid width l) (hs : opened l = some s) :
    (∀ x ∈ current l, s ≤ x.1) ∧ (∀ x ∈ FixedWindow.older l, x.1 ≤ s) ∧
      ∀ s', opened (FixedWindow.older l) = some s' → s' + width < s := by
  induction h with
  | nil => cases hs
  | @opens l t hl ht hs' =>
    cases hs
    refine ⟨?_, ht, hs'⟩
    simp [current]
  | @counts l t t₀ n s₀ hl ht hs₀ hw ih =>
    have hpos := hl.pos _ (List.mem_cons_self ..)
    simp only at hpos
    rw [opened, if_neg (by omega)] at hs
    obtain ⟨hcur, hold⟩ := ih hs
    rw [current, FixedWindow.older, if_neg (by omega), if_neg (by omega)]
    refine ⟨fun x hx => ?_, hold⟩
    rcases List.mem_cons.mp hx with rfl | hx
    · obtain ⟨y, hy⟩ : ∃ y, y ∈ current ((t₀, n) :: l) := by
        cases hc : current ((t₀, n) :: l) with
        | nil => simp only [current] at hc; split at hc <;> cases hc
        | cons y _ => exact ⟨y, List.mem_cons_self ..⟩
      have hmem : y ∈ (t₀, n) :: l := by
        rw [← current_append_older ((t₀, n) :: l)]
        exact List.mem_append_left _ hy
      exact Int.le_trans (hcur y hy) (ht y hmem)
    · exact hcur x hx

/-- At most `limit` increments of the newest lifetime return a value up to `limit`. -/
theorem Valid.current_admitted (h : Valid width l) (limit : Nat) :
    ((current l).filter fun x => decide (x.2 ≤ limit)).length ≤ limit := by
  induction h with
  | nil => simp [current]
  | opens =>
    simp only [current, if_true, List.filter_cons, List.filter_nil]
    split
    · next hle => simpa using hle
    · simp
  | @counts l t t₀ n s hl ht hs hw ih =>
    have hpos := hl.pos _ (List.mem_cons_self ..)
    simp only at hpos
    rw [current, if_neg (by omega), List.filter_cons]
    split
    · next hle =>
      -- the newest value is admitted, so the lifetime is not longer than the limit
      have hlen := hl.current_length
      have := List.length_filter_le (fun x : Int × Nat => decide (x.2 ≤ limit))
        (current ((t₀, n) :: l))
      simp only [decide_eq_true_eq] at hle
      rw [List.length_cons]
      omega
    · exact ih

/-! ### Bounds -/

/-- The increments admitted under a limit in a closed interval. -/
def admitted (limit : Nat) (from_ until_ : Int) (l : Log) : Log :=
  l.filter fun x => decide (x.2 ≤ limit) && (decide (from_ ≤ x.1) && decide (x.1 ≤ until_))

theorem admitted_append {l l' : Log} :
    admitted limit a b (l ++ l') = admitted limit a b l ++ admitted limit a b l' :=
  List.filter_append ..

theorem admitted_length_le :
    (admitted limit a b l).length ≤ (l.filter fun x => decide (x.2 ≤ limit)).length := by
  have hfilter : admitted limit a b l = (l.filter fun x => decide (x.2 ≤ limit)).filter
      fun x => decide (a ≤ x.1) && decide (x.1 ≤ b) := by
    rw [admitted, List.filter_filter]
    simp only [Bool.and_comm]
  rw [hfilter]
  exact List.length_filter_le ..

theorem admitted_eq_nil (h : ∀ x ∈ l, a ≤ x.1 → x.1 ≤ b → False) :
    admitted limit a b l = [] := by
  refine List.filter_eq_nil_iff.mpr fun x hx => ?_
  simp only [Bool.and_eq_true, decide_eq_true_eq]
  exact fun hx' => h x hx hx'.2.1 hx'.2.2

/-- In an interval as long as a lifetime at most two lifetimes are counted in. -/
theorem Valid.admitted_in_interval (h : Valid width l) (limit : Nat) (t : Int) :
    (admitted limit t (t + width) l).length ≤ 2 * limit := by
  induction hn : l.length using Nat.strongRecOn generalizing l with
  | _ n ih =>
    cases l with
    | nil => simp [admitted]
    | cons x l =>
      obtain ⟨s, hs⟩ := h.opened_isSome
      obtain ⟨hcur, hold, hgap⟩ := h.spans hs
      have hsplit : (admitted limit t (t + width) (x :: l)).length =
          (admitted limit t (t + width) (current (x :: l))).length +
            (admitted limit t (t + width) (FixedWindow.older (x :: l))).length := by
        rw [← List.length_append, ← admitted_append, current_append_older]
      have hfst := Nat.le_trans admitted_length_le (h.current_admitted limit)
        (n := (admitted limit t (t + width) (current (x :: l))).length)
      by_cases hlate : t + width < s
      · -- the newest lifetime is too late, so only earlier ones count
        have hnil : admitted limit t (t + width) (current (x :: l)) = [] :=
          admitted_eq_nil fun y hy _ hle => by have := hcur y hy; omega
        rw [hsplit, hnil]
        simpa using ih _ (hn ▸ older_length_lt) h.older rfl
      · -- of the earlier ones only the one before reaches into the interval
        generalize hm : FixedWindow.older (x :: l) = m at *
        have hv : Valid width m := hm ▸ h.older
        have hsnd : (admitted limit t (t + width) m).length ≤ limit := by
          cases m with
          | nil => simp [admitted]
          | cons y m =>
            obtain ⟨s', hs'⟩ := hv.opened_isSome
            obtain ⟨-, hold', -⟩ := hv.spans hs'
            have hend := hgap s' hs'
            have hnil : admitted limit t (t + width) (FixedWindow.older (y :: m)) = [] :=
              admitted_eq_nil fun z hz hle _ => by have := hold' z hz; omega
            rw [← current_append_older (y :: m), admitted_append, hnil, List.append_nil]
            exact Nat.le_trans admitted_length_le (hv.current_admitted limit)
        omega

theorem mem_of_opened {s : Int} (h : opened l = some s) : ∃ x ∈ l, x.1 = s := by
  induction l with
  | nil => cases h
  | cons x l ih =>
    obtain ⟨t, n⟩ := x
    rw [opened] at h
    split at h
    · exact ⟨_, List.mem_cons_self .., Option.some.inj h⟩
    · obtain ⟨y, hy, rfl⟩ := ih h
      exact ⟨y, List.mem_cons_of_mem _ hy, rfl⟩

/-- A lifetime is still the newest one, or one has begun after its end. -/
theorem Valid.current_or_ended {later earlier : Log} {s : Int}
    (h : Valid width (later ++ (s, 1) :: earlier)) :
    (opened (later ++ (s, 1) :: earlier) = some s ∧
        current (later ++ (s, 1) :: earlier) = later ++ [(s, 1)]) ∨
      ∃ s', opened (later ++ (s, 1) :: earlier) = some s' ∧ s + width < s' := by
  induction later with
  | nil => exact .inl ⟨rfl, rfl⟩
  | cons x later ih =>
    generalize hl : later ++ (s, 1) :: earlier = l at *
    obtain ⟨t, n⟩ := x
    rw [List.cons_append, hl] at h ⊢
    cases h with
    | opens hv ht hs =>
      refine .inr ⟨t, rfl, ?_⟩
      rcases ih hv with ⟨ho, -⟩ | ⟨s', ho, hlt⟩
      · exact hs s ho
      · obtain ⟨y, hy, rfl⟩ := mem_of_opened ho
        exact Int.lt_of_lt_of_le hlt (ht y hy)
    | @counts l t t₀ n _ hv ht hs hw =>
      have hpos := hv.pos _ (List.mem_cons_self ..)
      simp only at hpos
      rw [opened, current, if_neg (by omega), if_neg (by omega)]
      rcases ih hv with ⟨ho, hc⟩ | hended
      · exact .inl ⟨ho, by rw [hc, List.cons_append]⟩
      · exact .inr hended

/-- In one lifetime, from the increment that begins it to its end, at most `limit` increments are
admitted. -/
theorem Valid.admitted_in_lifetime {later earlier : Log} {s : Int} (hlimit : 1 ≤ limit)
    (h : Valid width (later ++ (s, 1) :: earlier)) :
    (admitted limit s (s + width) later).length + 1 ≤ limit := by
  induction later with
  | nil => simpa [admitted] using hlimit
  | cons x later ih =>
    rcases h.current_or_ended with ⟨-, hc⟩ | ⟨s', ho, hlt⟩
    · have hbound := h.current_admitted limit
      rw [hc, List.filter_append, List.length_append] at hbound
      have hone : [(s, 1)].filter (fun x : Int × Nat => decide (x.2 ≤ limit)) = [(s, 1)] := by
        simpa using hlimit
      rw [hone, List.length_singleton] at hbound
      exact Nat.le_trans (Nat.succ_le_succ admitted_length_le) hbound
    · -- the newest increment is later than the end of this lifetime
      obtain ⟨hcur, -, -⟩ := h.spans ho
      have hx : x ∈ current (x :: later ++ (s, 1) :: earlier) := by
        obtain ⟨t, n⟩ := x
        rw [List.cons_append, current]
        split <;> simp
      have hlate : ¬ x.1 ≤ s + width := by
        have := hcur x hx
        omega
      have hdrop : admitted limit s (s + width) (x :: later) =
          admitted limit s (s + width) later := by
        simp [admitted, hlate]
      rw [hdrop]
      exact ih h.tail

/-! ### The log as a function of the instants -/

/-- The log of increments at given instants, newest first. -/
def count (width : Int) : List Int → Log
  | [] => []
  | t :: ts =>
    match count width ts, opened (count width ts) with
    | (t₀, n) :: l, some s =>
      if t ≤ s + width then (t, n + 1) :: (t₀, n) :: l else (t, 1) :: (t₀, n) :: l
    | l, _ => (t, 1) :: l

/-- What increments return is determined by when they are made. -/
theorem Valid.eq_count (h : Valid width l) : l = count width (l.map Prod.fst) := by
  induction h with
  | nil => rfl
  | @opens l t hl _ hs ih =>
    rw [List.map_cons, count, ← ih]
    cases l with
    | nil => rfl
    | cons x l =>
      obtain ⟨s, ho⟩ := hl.opened_isSome
      have := hs s ho
      rw [ho]
      exact (if_neg (by omega)).symm
  | @counts l t t₀ n s hl _ hs hw ih =>
    rw [List.map_cons, count, ← ih, hs]
    exact (if_pos hw).symm

/-! ## A counter and its log -/

variable {s : Expiring K Nat} {k : K} {now : Int}

/-- The counter of a key holds what its log says; nothing in the log is later than now. -/
structure Tracks (width now : Int) (s : Expiring K Nat) (k : K) (l : Log) : Prop where
  valid : Valid width l
  past : ∀ x ∈ l, x.1 ≤ now
  fresh : l = [] → s.entry k = none
  holds : ∀ t n l', l = (t, n) :: l' →
    ∃ opening, opened l = some opening ∧ s.entry k = some ⟨n, some (opening + width)⟩

namespace Tracks

omit [DecidableEq K] in
/-- Time passes. -/
theorem elapse {now' : Int} (h : Tracks width now s k l) (hle : now ≤ now') :
    Tracks width now' s k l where
  valid := h.valid
  past x hx := Int.le_trans (h.past x hx) hle
  fresh := h.fresh
  holds := h.holds

omit [DecidableEq K] in
/-- A counter always has a deadline. -/
theorem deadline {e : Entry Nat} (h : Tracks width now s k l) (he : s.entry k = some e) :
    ∃ d, e.deadline = some d := by
  cases l with
  | nil =>
    rw [h.fresh rfl] at he
    cases he
  | cons x l =>
    obtain ⟨opening, ho, hentry⟩ := h.holds x.1 x.2 l rfl
    cases hentry.symm.trans he
    exact ⟨_, rfl⟩

omit [DecidableEq K] in
/-- A visible counter is the one of the newest lifetime; it has a deadline. -/
theorem peek_eq {e : Entry Nat} (h : Tracks width now s k l) (he : s.peek now k = some e) :
    ∃ t n l' opening, l = (t, n) :: l' ∧ opened l = some opening ∧
      e = ⟨n, some (opening + width)⟩ ∧ now ≤ opening + width := by
  cases l with
  | nil =>
    rw [Expiring.peek, h.fresh rfl] at he
    cases he
  | cons x l =>
    obtain ⟨opening, ho, hentry⟩ := h.holds x.1 x.2 l rfl
    obtain ⟨hsome, hlive⟩ := Option.filter_eq_some_iff.mp he
    cases hentry.symm.trans hsome
    exact ⟨x.1, x.2, l, opening, rfl, ho, rfl, of_decide_eq_true hlive⟩

/-- An increment is logged with the value it returns. -/
theorem incr (h : Tracks width now s k l) :
    Tracks width now ((CounterCmd.incrAndExpire k width).exec now s).2 k
      ((now, ((CounterCmd.incrAndExpire k width).exec now s).1) :: l) := by
  cases hp : s.peek now k with
  | some e =>
    obtain ⟨t, n, l', opening, rfl, ho, rfl, hle⟩ := h.peek_eq hp
    have hpos := h.valid.pos _ (List.mem_cons_self ..)
    simp only at hpos
    have hexec : (CounterCmd.incrAndExpire k width).exec now s =
        ((n + 1 : Nat), s.set k (n + 1) (some (opening + width))) := by
      simp only [CounterCmd.exec, hp]
      rfl
    have ho' : opened ((now, n + 1) :: (t, n) :: l') = some opening := by
      rw [opened, if_neg (by omega), ho]
    rw [hexec]
    refine ⟨.counts h.valid h.past ho hle, ?_, nofun, ?_⟩
    · exact fun x hx => (List.mem_cons.mp hx).elim (fun hx => hx ▸ Int.le_refl _) (h.past x)
    · intro t' n' l'' heq
      cases heq
      exact ⟨opening, ho', by simp⟩
  | none =>
    have hexec : (CounterCmd.incrAndExpire k width).exec now s =
        ((1 : Nat), s.set k 1 (some (now + width))) := by
      simp only [CounterCmd.exec, hp]
      rfl
    rw [hexec]
    refine ⟨.opens h.valid h.past fun opening ho => ?_, ?_, nofun, ?_⟩
    · cases l with
      | nil => cases ho
      | cons x l =>
        obtain ⟨opening', ho', hentry⟩ := h.holds x.1 x.2 l rfl
        cases ho.symm.trans ho'
        have hdead := Option.filter_eq_none_iff.mp hp _ hentry
        simpa [Entry.live] using hdead
    · exact fun x hx => (List.mem_cons.mp hx).elim (fun hx => hx ▸ Int.le_refl _) (h.past x)
    · intro t' n' l'' heq
      cases heq
      exact ⟨now, rfl, by simp⟩

omit [DecidableEq K] in
/-- The remaining time is never more than a whole lifetime. -/
theorem ttl_le {n unit : Int} (h : Tracks (n * unit) now s k l) (hn : 0 ≤ n) (hu : 0 < unit) :
    CounterCmd.remaining s now k unit ≤ n := by
  cases hp : s.peek now k with
  | none =>
    rw [CounterCmd.remaining, hp]
    exact Int.le_trans (show (-2 : Int) ≤ 0 by decide) hn
  | some e =>
    obtain ⟨t, m, l', opening, -, ho, rfl, -⟩ := h.peek_eq hp
    obtain ⟨x, hx, rfl⟩ := mem_of_opened ho
    have hpast := h.past x hx
    rw [CounterCmd.remaining, hp]
    -- half a unit is less than a whole one
    refine Int.lt_add_one_iff.mp (Int.ediv_lt_of_lt_mul hu ?_)
    rw [Int.add_mul, Int.one_mul]
    omega

omit [DecidableEq K] in
/-- Only the entry of the key matters. -/
theorem congr {s' : Expiring K Nat} (h : Tracks width now s k l) (he : s'.entry k = s.entry k) :
    Tracks width now s' k l where
  valid := h.valid
  past := h.past
  fresh hl := by rw [he]; exact h.fresh hl
  holds t n l' hl := by rw [he]; exact h.holds t n l' hl

end Tracks

end FixedWindow

end Storage
