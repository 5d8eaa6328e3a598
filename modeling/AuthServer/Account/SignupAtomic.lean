import AuthServer.Account.SignupStore
import AuthServer.Scenario
import AuthServer.Store.Effects

/-!
# Signups are atomic

Whatever signups are interleaved and whatever statements fail, a signup that is answered with
success has added the rows of one account, and a signup that is answered with an error has added
nothing. No two signups succeed with the same email or username.
-/

namespace AuthServer

open Concurrent Storage

namespace SignupTx

/-- The rows of an account that a signup was answered with. -/
inductive Account (env : Env) (req : SignupRequest) (s : SignupSuccess) : List SignupRow → Prop
  | intro (u : User) (c : Credential) (roles : List SignupRow) (v : EmailVerification)
      (hid : u.id = s.userId) (hemail : u.email = env.toLowercase (Text.trim (req.email.getD "")))
      (hname : u.username = req.username.getD "")
      (hcredential : c.userId = s.userId ∧ c.credentialType = "password")
      (hroles : roles = [] ∨ ∃ roleId, roles = [.userRole ⟨s.userId, roleId⟩])
      (hverification : v.userId = s.userId ∧ v.tokenHash = env.hmac s.verificationTokenRaw) :
      Account env req s ([.user u, .credential c] ++ roles ++ [.verification v])

/-- What holds of the signups that have been answered, where `rows` were there at the start. -/
structure Atomic (env : Env) (rows : Table SignupRow) (c : SignupConfig) : Prop where
  /-- The rows are those at the start and those that the signups have added. -/
  contents : ∀ a, a ∈ c.moment.world.db.committed ↔ a ∈ rows ∨ ∃ tid, a ∈ added c.moment tid
  /-- What a signup adds was not there. -/
  new : ∀ tid, ∀ a ∈ added c.moment tid, a ∉ rows
  /-- A success has added one account. -/
  succeeded : ∀ tid req s, c.answered tid req (.ok s) → Account env req s (added c.moment tid)
  /-- An error has added nothing. -/
  failed : ∀ tid req e, c.answered tid req (.error e) → added c.moment tid = []
  /-- Successes have different emails and usernames. -/
  apart : ∀ i j req req' s s', i ≠ j → c.answered i req (.ok s) → c.answered j req' (.ok s') →
    env.toLowercase (Text.trim (req.email.getD "")) ≠
      env.toLowercase (Text.trim (req'.email.getD "")) ∧
    req.username.getD "" ≠ req'.username.getD ""

/-- A database with some rows and no open transaction. -/
def start (rows : Table SignupRow) (now : NaiveDateTime) (uuids : List Uuid)
    (tokens : List String) : SignupWorld :=
  { db := { committed := rows }, now, uuids, tokens }

end SignupTx

/-! ## Replies that transactions give -/

namespace SignupDraft

/-- An insertion succeeds only while its transaction is not aborted, and without `ON CONFLICT` it
adds its row. -/
def Allows (d : SignupDraft) : Reply SignupRes → Prop
  | ⟨.sql (.insert _), .ok b⟩ => b = true ∧ ∃ rows, d.tx = some (rows, false)
  | ⟨.sql (.insertOrSkip _), .ok _⟩ => ∃ rows, d.tx = some (rows, false)
  | _ => True

/-- Replies that can follow each other. -/
def Coherent : SignupDraft → List (Reply SignupRes) → Prop
  | _, [] => True
  | d, e :: es => d.Allows e ∧ Coherent (d.next e) es

variable {d : SignupDraft} {es es' : List (Reply SignupRes)} {e : Reply SignupRes}

theorem coherent_append :
    Coherent d (es ++ es') ↔ Coherent d es ∧ Coherent (es.foldl next d) es' := by
  induction es generalizing d with
  | nil => simp [Coherent]
  | cons e es ih =>
    simp only [List.cons_append, Coherent, List.foldl_cons, ih]
    exact (and_assoc).symm

theorem after_append : after (es ++ es') = es'.foldl next (after es) := List.foldl_append

/-- Rows are added by a commit only. -/
theorem added_next (h : e.1 ≠ .sql .commit) : (d.next e).added = d.added := by
  unfold next
  split
  all_goals first | rfl | exact absurd rfl h

theorem added_foldl (h : ∀ e ∈ es, e.1 ≠ .sql .commit) : (es.foldl next d).added = d.added := by
  induction es generalizing d with
  | nil => rfl
  | cons e es ih =>
    rw [List.foldl_cons, ih fun e' he' => h e' (List.mem_cons_of_mem _ he'),
      added_next (h e List.mem_cons_self)]

end SignupDraft

/-! ## What one command does -/

namespace SignupTx

open SignupDraft

variable {env : Env} {tid : Nat} {d : SignupDraft}

/-- The store holds the transaction that a draft describes. -/
def Follows (s : Inserts SignupRow) (tid : Nat) (d : SignupDraft) : Prop :=
  (s.tx? tid).map (fun x => (x.rows, x.aborted)) = d.tx

/-- A command of a thread changes its own transaction as its reply tells, and commits its rows. -/
structure Advances (tid : Nat) (d : SignupDraft) (e : Reply SignupRes) (s s' : Inserts SignupRow) :
    Prop where
  sound : s'.Sound
  follows : Follows s' tid (d.next e)
  others : ∀ i, i ≠ tid → s'.tx? i = s.tx? i
  allows : d.Allows e
  commits : ∃ new, (d.next e).added = d.added ++ new ∧
    (∀ a, a ∈ s'.committed ↔ a ∈ s.committed ∨ a ∈ new) ∧
    ∀ a ∈ new, ∀ b ∈ s.committed, Keyed.clash b a = false

section Commands

variable {s s' : Inserts SignupRow} {x : InsertTx SignupRow} {e : Reply SignupRes}

theorem tx_of_follows (hf : Follows s tid d) (hx : s.tx? tid = some x) :
    d.tx = some (x.rows, x.aborted) := by
  rw [← hf, hx]
  rfl

/-- A command that commits nothing. -/
theorem advances_of_same (hs : s'.Sound) (hcommitted : s'.committed = s.committed)
    (hadded : (d.next e).added = d.added) (hallows : d.Allows e)
    (hothers : ∀ i, i ≠ tid → s'.tx? i = s.tx? i) (hf : Follows s' tid (d.next e)) :
    Advances tid d e s s' := by
  refine ⟨hs, hf, hothers, hallows, [], by rw [hadded, List.append_nil], fun a => ?_, nofun⟩
  rw [hcommitted]
  simp

/-- A command that leaves the store and the draft. -/
theorem advances_refl (hs : s.Sound) (hf : Follows s tid d) (hnext : d.next e = d)
    (hallows : d.Allows e) : Advances tid d e s s :=
  advances_of_same hs rfl (by rw [hnext]) hallows (fun _ _ => rfl) (by rwa [hnext])

/-- A statement fails inside the transaction. -/
theorem advances_abort (hs : s.Sound) (hf : Follows s tid d)
    (hnext : d.next e = { d with tx := d.tx.map fun _ => ([], true) }) (hallows : d.Allows e) :
    Advances tid d e s (s.onTx tid InsertTx.abort) := by
  refine advances_of_same hs.abort rfl (by rw [hnext]) hallows (fun i hi => ?_) ?_
  · rw [Inserts.tx?_onTx fun _ => rfl, if_neg hi]
  · rw [hnext, Follows, Inserts.tx?_onTx (fun _ => rfl), if_pos rfl, ← hf, Option.map_map,
      Option.map_map]
    rfl

/-- A statement is refused in an aborted transaction. -/
theorem advances_refused (hs : s.Sound) (hf : Follows s tid d) (hx : s.tx? tid = some x)
    (hab : x.aborted = true) (hrows : x.rows = [])
    (hnext : d.next e = { d with tx := d.tx.map fun _ => ([], true) }) (hallows : d.Allows e) :
    Advances tid d e s s := by
  refine advances_of_same hs rfl (by rw [hnext]) hallows (fun _ _ => rfl) ?_
  rw [hnext, Follows, hx, tx_of_follows hf hx]
  simp [hab, hrows]

/-- The transaction ends without a commit. -/
theorem advances_close (hs : s.Sound) (hnext : d.next e = { d with tx := none })
    (hallows : d.Allows e) : Advances tid d e s (s.close tid) := by
  refine advances_of_same hs.close rfl (by rw [hnext]) hallows (fun i hi => ?_) ?_
  · rw [Inserts.tx?_close, if_neg hi]
  · rw [hnext, Follows, Inserts.tx?_close, if_pos rfl]
    rfl

theorem advances_begin (hs : s.Sound) (h : s.begin tid = some s') :
    Advances tid d ⟨.sql .begin, .ok ()⟩ s s' := by
  have htx := fun i => (Inserts.tx?_begin (i := i) h).1
  refine advances_of_same (hs.begin h) (Inserts.tx?_begin (i := tid) h).2 rfl trivial
    (fun i hi => ?_) ?_
  · rw [htx, if_neg hi]
  · rw [Follows, htx, if_pos rfl]
    rfl

theorem advances_commit (hs : s.Sound) (hf : Follows s tid d) (h : s.commit tid = some s') :
    Advances tid d ⟨.sql .commit, .ok ()⟩ s s' := by
  obtain ⟨x, hx, rfl⟩ := Inserts.commit_cases h
  have htx : ∀ i, ({ s.close tid with committed := Inserts.addAll s.committed x.rows } :
      Inserts SignupRow).tx? i = if i = tid then none else s.tx? i := fun i => Inserts.tx?_close
  refine ⟨hs.commit h, ?_, fun i hi => ?_, trivial, x.rows, ?_, fun a => hs.mem_commit hx,
    hs.fresh tid x hx⟩
  · rw [Follows, htx, if_pos rfl]
    rfl
  · rw [htx, if_neg hi]
  · change d.added ++ (d.tx.map Prod.fst).getD [] = _
    rw [tx_of_follows hf hx]
    rfl

theorem advances_select {p : SignupRow → Bool} {q : SignupSql} {y : Except InsertError (Option SignupRow)}
    {r : SignupRes (.sql q)} (hs : s.Sound) (hf : Follows s tid d)
    (h : s.select tid p = some (y, s')) (hok : ∀ found, y = .ok found →
      d.next ⟨.sql q, r⟩ = d ∧ d.Allows ⟨.sql q, r⟩)
    (herror : ∀ e, y = .error e → d.next ⟨.sql q, r⟩ = { d with tx := d.tx.map fun _ => ([], true) } ∧
      d.Allows ⟨.sql q, r⟩) : Advances tid d ⟨.sql q, r⟩ s s' := by
  obtain ⟨rfl, x, hx, ⟨hab, rfl⟩ | ⟨-, rfl⟩⟩ := Inserts.select_cases h
  · obtain ⟨hnext, hallows⟩ := herror _ rfl
    exact advances_refused hs hf hx hab (hs.void tid x hx hab) hnext hallows
  · obtain ⟨hnext, hallows⟩ := hok _ rfl
    exact advances_refl hs hf hnext hallows

/-- An insertion, with or without `ON CONFLICT`. -/
theorem advances_insert {skip : Bool} {row : SignupRow} {y : Except InsertError Bool}
    (hs : s.Sound) (hf : Follows s tid d) (h : s.insert tid skip row.parents row = some (y, s'))
    (herror : ∀ e', y = .error e' →
      d.next e = { d with tx := d.tx.map fun _ => ([], true) } ∧ d.Allows e)
    (hskip : skip = true → y = .ok false → (∃ rows, d.tx = some (rows, false)) →
      d.next e = d ∧ d.Allows e)
    (hadd : y = .ok true → (∃ rows, d.tx = some (rows, false)) →
      d.next e = { d with tx := d.tx.map fun x => (x.1 ++ [row], x.2) } ∧ d.Allows e) :
    Advances tid d e s s' := by
  obtain ⟨x, hx, ⟨hab, rfl, rfl⟩ | ⟨hab, hdone⟩⟩ := Inserts.insert_cases h
  · obtain ⟨hnext, hallows⟩ := herror _ rfl
    exact advances_refused hs hf hx hab (hs.void tid x hx hab) hnext hallows
  have htx : ∃ rows, d.tx = some (rows, false) := ⟨x.rows, hab ▸ tx_of_follows hf hx⟩
  obtain ⟨e', rfl, rfl⟩ | ⟨hs', rfl, rfl⟩ | ⟨rfl, rfl, hfree, hnew, -⟩ := hdone
  · obtain ⟨hnext, hallows⟩ := herror e' rfl
    exact advances_abort hs hf hnext hallows
  · obtain ⟨hnext, hallows⟩ := hskip hs' rfl htx
    exact advances_refl hs hf hnext hallows
  · obtain ⟨hnext, hallows⟩ := hadd rfl htx
    refine advances_of_same (hs.push hx hab hfree hnew) rfl (by rw [hnext]) hallows
      (fun i hi => ?_) ?_
    · rw [Inserts.tx?_onTx fun _ => rfl, if_neg hi]
    · rw [hnext, Follows, Inserts.tx?_onTx (fun _ => rfl), if_pos rfl, ← hf, Option.map_map,
        Option.map_map]
      rfl

/-- A statement that the environment lets fail. -/
theorem advances_fail (q : SignupSql) {e : DbError} (hs : s.Sound) (hf : Follows s tid d) :
    Advances tid d ⟨.sql q, .error e⟩ s (q.fail tid s) := by
  cases q with
  | findByName | begin => exact advances_refl hs hf rfl trivial
  | userByEmail | userByUsername | insert | insertOrSkip => exact advances_abort hs hf rfl trivial
  | commit | rollback => exact advances_close hs rfl trivial

/-- A statement that is executed. -/
theorem advances_sql (q : SignupSql) {r : Except DbError q.Res} (hs : s.Sound) (hf : Follows s tid d)
    (h : q.exec env tid s = some (r, s')) : Advances tid d ⟨.sql q, r⟩ s s' := by
  cases q with
  | findByName name =>
    cases h
    exact advances_refl hs hf rfl trivial
  | begin =>
    obtain ⟨s₁, hbegin, heq⟩ := Option.map_eq_some_iff.mp h
    cases heq
    exact advances_begin hs hbegin
  | userByEmail | userByUsername =>
    obtain ⟨⟨y, s₁⟩, hselect, heq⟩ := Option.map_eq_some_iff.mp h
    cases heq
    refine advances_select hs hf hselect ?_ ?_
    · rintro found rfl
      exact ⟨rfl, trivial⟩
    · rintro e rfl
      exact ⟨rfl, trivial⟩
  | insert row =>
    obtain ⟨⟨y, s₁⟩, hinsert, heq⟩ := Option.map_eq_some_iff.mp h
    cases heq
    refine advances_insert hs hf hinsert ?_ nofun ?_
    · rintro e rfl
      exact ⟨rfl, trivial⟩
    · rintro rfl htx
      exact ⟨rfl, rfl, htx⟩
  | insertOrSkip row =>
    obtain ⟨⟨y, s₁⟩, hinsert, heq⟩ := Option.map_eq_some_iff.mp h
    cases heq
    refine advances_insert hs hf hinsert ?_ ?_ ?_
    · rintro e rfl
      exact ⟨rfl, trivial⟩
    · rintro - rfl htx
      exact ⟨rfl, htx⟩
    · rintro rfl htx
      exact ⟨rfl, htx⟩
  | commit =>
    obtain ⟨s₁, hcommit, heq⟩ := Option.map_eq_some_iff.mp h
    cases heq
    exact advances_commit hs hf hcommit
  | rollback =>
    cases h
    exact advances_close hs rfl trivial

end Commands

/-- Every command of a thread advances its draft. -/
theorem advances_exec {op : SignupOp} {ch : Choice} {w w' : SignupWorld} {r : SignupRes op}
    (hs : w.db.Sound) (hf : Follows w.db tid d)
    (h : SignupWorld.exec env tid op ch w = some (r, w')) : Advances tid d ⟨op, r⟩ w.db w'.db := by
  cases op with
  | sql q =>
    simp only [SignupWorld.exec] at h
    split at h
    · cases h
      exact advances_fail q hs hf
    · obtain ⟨⟨r', s'⟩, hexec, heq⟩ := Option.map_eq_some_iff.mp h
      cases heq
      exact advances_sql q hs hf hexec
  | now | salt =>
    cases h
    exact advances_refl hs hf rfl trivial
  | newUuid | urlSafe =>
    simp only [SignupWorld.exec] at h
    split at h
    · cases h
    · cases h
      exact advances_refl hs hf rfl trivial

/-! ## Runs -/

/-- What the replies of all threads say about the store. -/
structure Kept (rows : Table SignupRow) (m : Moment SignupRes SignupWorld) : Prop where
  sound : m.world.db.Sound
  follows : ∀ tid, Follows m.world.db tid (after (m.own tid))
  coherent : ∀ tid, Coherent {} (m.own tid)
  contents : ∀ a, a ∈ m.world.db.committed ↔ a ∈ rows ∨ ∃ tid, a ∈ added m tid
  fresh : ∀ tid, ∀ a ∈ added m tid, ∀ b ∈ rows, Keyed.clash b a = false
  apart : ∀ i j, i ≠ j → ∀ a ∈ added m i, ∀ b ∈ added m j, Keyed.clash a b = false

theorem Kept.step {rows : Table SignupRow} {m : Moment SignupRes SignupWorld} {op : SignupOp}
    {ch : Choice} {r : SignupRes op} {w : SignupWorld} (hk : Kept rows m)
    (h : SignupWorld.exec env tid op ch m.world = some (r, w)) :
    Kept rows (m.after tid op r w) := by
  have hadv := advances_exec hk.sound (hk.follows tid) h
  obtain ⟨new, hnew, hcommitted, hclash⟩ := hadv.commits
  have hself : (m.after tid op r w).own tid = m.own tid ++ [⟨op, r⟩] := Moment.own_after_self
  have hother : ∀ {i}, i ≠ tid → (m.after tid op r w).own i = m.own i := Moment.own_after_of_ne
  have hadded : added (m.after tid op r w) tid = added m tid ++ new := by
    rw [added, hself, after_append]
    exact hnew
  have hsame : ∀ {i}, i ≠ tid → added (m.after tid op r w) i = added m i := by
    intro i hi
    rw [added, hother hi, added]
  -- the rows of other threads were committed before
  have hold : ∀ {i a}, a ∈ added m i → a ∈ m.world.db.committed :=
    fun ha => (hk.contents _).mpr (.inr ⟨_, ha⟩)
  refine ⟨hadv.sound, fun i => ?_, fun i => ?_, fun a => ?_, fun i a ha b hb => ?_,
    fun i j hij a ha b hb => ?_⟩
  · by_cases hi : i = tid
    · subst hi
      rw [hself, after_append]
      exact hadv.follows
    · rw [hother hi]
      exact (congrArg (Option.map _) (hadv.others i hi)).trans (hk.follows i)
  · by_cases hi : i = tid
    · subst hi
      rw [hself]
      exact coherent_append.mpr ⟨hk.coherent i, hadv.allows, trivial⟩
    · rw [hother hi]
      exact hk.coherent i
  · change a ∈ w.db.committed ↔ _
    rw [hcommitted, hk.contents]
    constructor
    · rintro ((ha | ⟨i, ha⟩) | ha)
      · exact .inl ha
      · by_cases hi : i = tid
        · subst hi
          exact .inr ⟨i, hadded ▸ List.mem_append_left _ ha⟩
        · exact .inr ⟨i, hsame hi ▸ ha⟩
      · exact .inr ⟨tid, hadded ▸ List.mem_append_right _ ha⟩
    · rintro (ha | ⟨i, ha⟩)
      · exact .inl (.inl ha)
      · by_cases hi : i = tid
        · subst hi
          rw [hadded, List.mem_append] at ha
          exact ha.imp (fun ha => .inr ⟨i, ha⟩) id
        · exact .inl (.inr ⟨i, hsame hi ▸ ha⟩)
  · by_cases hi : i = tid
    · subst hi
      rw [hadded, List.mem_append] at ha
      rcases ha with ha | ha
      · exact hk.fresh i a ha b hb
      · exact hclash a ha b ((hk.contents b).mpr (.inl hb))
    · exact hk.fresh i a (hsame hi ▸ ha) b hb
  · by_cases hi : i = tid
    · subst hi
      rw [hsame (Ne.symm hij)] at hb
      rw [hadded, List.mem_append] at ha
      rcases ha with ha | ha
      · exact hk.apart i j hij a ha b hb
      · rw [Keyed.clash_symm]
        exact hclash a ha b (hold hb)
    · rw [hsame hi] at ha
      by_cases hj : j = tid
      · subst hj
        rw [hadded, List.mem_append] at hb
        rcases hb with hb | hb
        · exact hk.apart i j hij a ha b hb
        · exact hclash b hb a (hold ha)
      · exact hk.apart i j hij a ha b (hsame hj ▸ hb)

variable {R : Regime SignupRes SignupWorld Choice SignupRequest} {c : SignupConfig}

theorem kept_of_run {rows : Table SignupRow} {now : NaiveDateTime} {uuids : List Uuid}
    {tokens : List String}
    (run : Run (signupServer env) R (Config.start (start rows now uuids tokens)) c) :
    Kept rows c.moment := by
  refine run.invariant (J := fun c => Kept rows c.moment) (fun _ _ _ _ ih => ih) ?_ ?_
  · intro c₁ tid t op k ch r w _ ih _ _ _ he
    exact ih.step he
  · refine ⟨Inserts.sound_start rows, fun _ => rfl, fun _ => trivial, fun a => ?_,
      fun _ _ h => (by cases h), fun _ _ _ _ h => (by cases h)⟩
    refine ⟨.inl, ?_⟩
    rintro (h | ⟨tid, h⟩)
    · exact h
    · cases h

/-! ## The program of a signup -/

section Program

variable {α : Type} {es : List (Reply SignupRes)}

theorem returns_perform {op : SignupOp} {y : Except SignupError (SignupRes op)}
    (h : Returns (perform op).run es y) : ∃ r, es = [⟨op, r⟩] ∧ y = .ok r := by
  cases h with
  | call tail =>
    cases tail
    exact ⟨_, rfl, rfl⟩

variable {f : DbError → SignupError} {q : SignupSql} {rows : List SignupRow} {at_ : NaiveDateTime}
variable {s : SignupSuccess} {req : SignupRequest} {email username : String} {hashed : Hashed}

theorem returns_sql {y : Except SignupError q.Res} (h : Returns (sql f q).run es y) :
    ∃ r : Except DbError q.Res, es = [⟨.sql q, r⟩] ∧ y = r.mapError f := by
  obtain ⟨es₁, es₂, r, rfl, hperform, hret⟩ := Returns.bind_iff.mp h
  obtain ⟨r, rfl, rfl⟩ := returns_perform hperform
  refine ⟨r, ?_⟩
  cases r with
  | ok x =>
    obtain ⟨rfl, rfl⟩ := Returns.pure_iff.mp hret
    exact ⟨rfl, rfl⟩
  | error e =>
    obtain ⟨rfl, rfl⟩ := Returns.pure_iff.mp hret
    exact ⟨rfl, rfl⟩

theorem returns_sql_ok {x : q.Res} (h : Returns (sql f q).run es (.ok x))
    : es = [⟨.sql q, .ok x⟩] := by
  obtain ⟨r, rfl, hy⟩ := returns_sql h
  cases r with
  | ok x' => rw [Except.ok.inj hy]
  | error e => cases hy

theorem returns_attempt {h : SignupProg α} {x : Except SignupError (Except SignupError α)}
    (hr : Returns (attempt h).run es x) : ∃ z, x = .ok z ∧ Returns h.run es z := by
  obtain ⟨es₁, es₂, z, rfl, hh, hret⟩ := Returns.bind_iff.mp hr
  obtain ⟨rfl, rfl⟩ := Returns.pure_iff.mp hret
  exact ⟨z, rfl, by rwa [List.append_nil]⟩

/-- A transaction does not start, or its body ends and it is committed or rolled back. -/
theorem returns_transaction {body : SignupProg α} {y : Except SignupError α}
    (h : Returns (transaction body).run es y) :
    (∃ e e', es = [⟨.sql .begin, .error e⟩] ∧ y = .error e') ∨
      ∃ es₁, ((∃ a, Returns body.run es₁ (.ok a) ∧
          ((es = ⟨.sql .begin, .ok ()⟩ :: es₁ ++ [⟨.sql .commit, .ok ()⟩] ∧ y = .ok a) ∨
            ∃ e e', es = ⟨.sql .begin, .ok ()⟩ :: es₁ ++ [⟨.sql .commit, .error e⟩] ∧
              y = .error e')) ∨
        ∃ e r, Returns body.run es₁ (.error e) ∧
          es = ⟨.sql .begin, .ok ()⟩ :: es₁ ++ [⟨.sql .rollback, r⟩] ∧ y = .error e) := by
  rcases Returns.bindE h with ⟨e', rfl, hbegin⟩ | ⟨es₁, es₂, _, rfl, hbegin, hrest⟩
  · obtain ⟨r, rfl, hy⟩ := returns_sql hbegin
    cases r with
    | ok x => cases hy
    | error e => exact .inl ⟨e, e', rfl, rfl⟩
  obtain rfl := returns_sql_ok hbegin
  obtain ⟨es₃, es₄, x, rfl, hattempt, hend⟩ := Returns.bind_iff.mp hrest
  obtain ⟨z, rfl, hbody⟩ := returns_attempt hattempt
  refine .inr ⟨es₃, ?_⟩
  cases z with
  | ok a =>
    refine .inl ⟨a, hbody, ?_⟩
    rcases Returns.bindE hend with ⟨e', rfl, hcommit⟩ | ⟨es₅, es₆, _, rfl, hcommit, hret⟩
    · obtain ⟨r, rfl, hy⟩ := returns_sql hcommit
      cases r with
      | ok x => cases hy
      | error e => exact .inr ⟨e, e', rfl, rfl⟩
    · obtain rfl := returns_sql_ok hcommit
      obtain ⟨rfl, rfl⟩ := Returns.pure_iff.mp hret
      exact .inl ⟨by simp, rfl⟩
  | error e =>
    obtain ⟨es₅, es₆, x, rfl, hrollback, hret⟩ := Returns.bind_iff.mp hend
    obtain ⟨r, rfl, rfl⟩ := returns_perform hrollback
    obtain ⟨rfl, rfl⟩ := Returns.pure_iff.mp hret
    exact .inr ⟨e, r, hbody, by simp, rfl⟩

/-- The default role is added to the transaction, or it is not and the transaction may be
aborted. -/
theorem draft_assignDefaultRole {userId : Uuid} {u : Unit} (htx : d.tx = some (rows, false))
    (h : Returns (assignDefaultRole userId).run es (.ok u)) :
    (es.foldl next d).tx = some ([], true) ∨
      ∃ roles, (roles = [] ∨ ∃ roleId, roles = [SignupRow.userRole ⟨userId, roleId⟩]) ∧
        (es.foldl next d).tx = some (rows ++ roles, false) := by
  obtain ⟨es₁, es₂, found, rfl, hfind, hrest⟩ := h.seq
  obtain ⟨found', rfl, hy⟩ := returns_perform hfind
  cases hy
  have hskip : ∀ found, (List.foldl next d [⟨.sql (.findByName "user"), found⟩]).tx =
      some (rows ++ [], false) := by
    intro found
    rw [List.append_nil]
    exact htx
  match found, hrest with
  | .ok none, hrest =>
    obtain ⟨rfl, -⟩ := hrest.ret
    exact .inr ⟨[], .inl rfl, hskip _⟩
  | .error e, hrest =>
    obtain ⟨rfl, -⟩ := hrest.ret
    exact .inr ⟨[], .inl rfl, hskip _⟩
  | .ok (some role), hrest =>
    obtain ⟨es₃, es₄, r, rfl, hinsert, hret⟩ := hrest.seq
    obtain ⟨rfl, -⟩ := hret.ret
    obtain ⟨r', rfl, hy⟩ := returns_perform hinsert
    cases hy
    match r with
    | .ok true =>
      refine .inr ⟨_, .inr ⟨role.id, rfl⟩, ?_⟩
      change d.tx.map _ = _
      rw [htx]
      rfl
    | .ok false =>
      refine .inr ⟨[], .inl rfl, ?_⟩
      rw [List.append_nil rows]
      exact htx
    | .error e =>
      left
      change d.tx.map _ = _
      rw [htx]
      rfl

/-- Coherent replies after others. -/
theorem coherent_cons {e : Reply SignupRes} (h : Coherent d ([e] ++ es)) :
    d.Allows e ∧ Coherent (d.next e) es := h

/-- An insertion that succeeds adds its row. -/
theorem draft_insert {row : SignupRow} {b : Bool} (htx : d.tx = some (rows, false))
    (hc : Coherent d ([⟨.sql (.insert row), .ok b⟩] ++ es)) :
    (d.next ⟨.sql (.insert row), .ok b⟩).tx = some (rows ++ [row], false) ∧
      Coherent (d.next ⟨.sql (.insert row), .ok b⟩) es := by
  obtain ⟨⟨rfl, -⟩, hc⟩ := coherent_cons hc
  refine ⟨?_, hc⟩
  change d.tx.map _ = _
  rw [htx]
  rfl

/-- The token is added, unless the transaction has been aborted. -/
theorem draft_addToken {userId : Uuid} (hc : Coherent d es)
    (h : Returns (addToken env userId at_).run es (.ok s)) :
    s.userId = userId ∧ ∃ rows v, d.tx = some (rows, false) ∧
      (v.userId = userId ∧ v.tokenHash = env.hmac s.verificationTokenRaw) ∧
      (es.foldl next d).tx = some (rows ++ [.verification v], false) := by
  obtain ⟨_, _, tokenRaw, rfl, htoken, h₁⟩ := h.seq
  obtain ⟨_, rfl, -⟩ := returns_perform htoken
  obtain ⟨_, _, verificationId, rfl, hid, h₂⟩ := h₁.seq
  obtain ⟨_, rfl, -⟩ := returns_perform hid
  obtain ⟨_, _, b, rfl, hinsert, h₃⟩ := h₂.seq
  obtain rfl := returns_sql_ok hinsert
  obtain ⟨rfl, rfl⟩ := h₃.ret
  have hc₂ := (coherent_cons (coherent_cons hc).2).2
  obtain ⟨rows, htx⟩ := (coherent_cons hc₂).1.2
  exact ⟨rfl, rows, _, htx, ⟨rfl, rfl⟩, (draft_insert htx hc₂).1⟩

/-- The insertions of a registration that ends well. -/
theorem draft_register (htx : d.tx = some ([], false))
    (hemail : email = env.toLowercase (Text.trim (req.email.getD "")))
    (hname : username = req.username.getD "") (hc : Coherent d es)
    (h : Returns (register env req email username at_ hashed).run es (.ok s)) :
    ∃ rows, Account env req s rows ∧ (es.foldl next d).tx = some (rows, false) := by
  obtain ⟨_, _, userId, rfl, hid, h₁⟩ := h.seq
  obtain ⟨_, rfl, -⟩ := returns_perform hid
  obtain ⟨_, _, b₁, rfl, huser, h₂⟩ := h₁.seq
  obtain rfl := returns_sql_ok huser
  obtain ⟨_, _, credentialId, rfl, hcid, h₃⟩ := h₂.seq
  obtain ⟨_, rfl, -⟩ := returns_perform hcid
  obtain ⟨_, _, b₂, rfl, hcredential, h₄⟩ := h₃.seq
  obtain rfl := returns_sql_ok hcredential
  obtain ⟨es₁, es₂, u, rfl, hassign, h₅⟩ := h₄.seq
  obtain ⟨htx₁, hc₁⟩ := draft_insert htx (coherent_cons hc).2
  obtain ⟨htx₂, hc₂⟩ := draft_insert htx₁ (coherent_cons hc₁).2
  obtain ⟨-, hc₃⟩ := coherent_append.mp hc₂
  obtain ⟨hsid, rows, v, htx₃, hv, hlast⟩ := draft_addToken hc₃ h₅
  rcases draft_assignDefaultRole htx₂ hassign with haborted | ⟨roles, hroles, htx₄⟩
  · cases Option.some.inj (htx₃.symm.trans haborted)
  · cases htx₃.symm.trans htx₄
    refine ⟨?rows, ?account, ?fold⟩
    case fold =>
      simp only [List.foldl_append, List.foldl_cons, List.foldl_nil]
      exact hlast
    case account =>
      exact .intro _ _ roles v hsid.symm hemail hname ⟨hsid.symm, rfl⟩ (hsid ▸ hroles) (hsid ▸ hv)

/-- The body of the transaction ends well only with an account. -/
theorem draft_body (htx : d.tx = some ([], false))
    (hemail : email = env.toLowercase (Text.trim (req.email.getD "")))
    (hname : username = req.username.getD "") (hc : Coherent d es)
    (h : Returns (body env req email username at_ hashed).run es (.ok s)) :
    ∃ rows, Account env req s rows ∧ (es.foldl next d).tx = some (rows, false) := by
  obtain ⟨_, _, found, rfl, hselect, h₁⟩ := h.seq
  obtain rfl := returns_sql_ok hselect
  obtain ⟨-, hc₁⟩ := coherent_cons hc
  split at h₁
  · cases h₁
  obtain ⟨_, _, found', rfl, hselect', h₂⟩ := h₁.seq
  obtain rfl := returns_sql_ok hselect'
  obtain ⟨-, hc₂⟩ := coherent_cons hc₁
  split at h₂
  · cases h₂
  obtain ⟨rows, haccount, hrows⟩ := draft_register (d := d) htx hemail hname hc₂ h₂
  exact ⟨rows, haccount, hrows⟩

theorem uses_perform {op : SignupOp} (h : op ≠ .sql .commit) :
    (perform op).run.Uses fun op => op ≠ .sql .commit := ⟨h, fun _ => trivial⟩

theorem uses_sql {f : DbError → SignupError} {q : SignupSql} (hq : q ≠ .commit) :
    (sql f q).run.Uses fun op => op ≠ .sql .commit := by
  refine Prog.Uses.bindE (uses_perform fun h => hq (SignupOp.sql.inj h)) fun r => ?_
  cases (r : Except DbError q.Res) with
  | ok x => trivial
  | error e => trivial

/-- The body does not commit. -/
theorem uses_body :
    (body env req email username at_ hashed).run.Uses fun op => op ≠ .sql .commit := by
  have hrole : ∀ userId, (assignDefaultRole userId).run.Uses fun op => op ≠ .sql .commit := by
    intro userId
    refine Prog.Uses.bindE (uses_perform nofun) fun r => ?_
    split
    · exact Prog.Uses.bindE (uses_perform nofun) fun _ => trivial
    · trivial
  have htoken : ∀ userId, (addToken env userId at_).run.Uses fun op => op ≠ .sql .commit := fun _ =>
    .bindE (uses_perform nofun) fun _ => .bindE (uses_perform nofun) fun _ =>
      .bindE (uses_sql nofun) fun _ => trivial
  refine Prog.Uses.bindE (uses_sql nofun) fun _ => ?_
  split
  · trivial
  refine Prog.Uses.bindE (uses_sql nofun) fun _ => ?_
  split
  · trivial
  exact .bindE (uses_perform nofun) fun _ => .bindE (uses_sql nofun) fun _ =>
    .bindE (uses_perform nofun) fun _ => .bindE (uses_sql nofun) fun _ => .bindE (hrole _)
      fun _ => htoken _

/-- What the replies of a transaction have added. -/
theorem added_of_transaction
    {y : Except SignupError SignupSuccess} (hc : Coherent {} es)
    (h : Returns (transaction (body env req (env.toLowercase (Text.trim (req.email.getD "")))
      (req.username.getD "") at_ hashed)).run es y) :
    (∀ s, y = .ok s → Account env req s (after es).added) ∧
      ∀ e, y = .error e → (after es).added = [] := by
  -- the body commits nothing
  have hbody : ∀ {es₁ z}, Returns (body env req (env.toLowercase (Text.trim (req.email.getD "")))
      (req.username.getD "") at_ hashed).run es₁ z →
      (es₁.foldl next { tx := some ([], false) }).added = [] := by
    intro es₁ z hb
    exact added_foldl (Leads.uses uses_body hb).1
  have hafter : ∀ {es₁ last}, after (⟨.sql .begin, .ok ()⟩ :: es₁ ++ [last]) =
      (es₁.foldl next { tx := some ([], false) }).next last := by
    intro es₁ last
    rw [after_append]
    rfl
  rcases returns_transaction h with ⟨e, e', rfl, rfl⟩ |
    ⟨es₁, ⟨s, hb, ⟨rfl, rfl⟩ | ⟨e, e', rfl, rfl⟩⟩ | ⟨e, r, hb, rfl, rfl⟩⟩
  · exact ⟨fun _ h => (by cases h), fun _ _ => rfl⟩
  · refine ⟨?_, fun _ h => (by cases h)⟩
    rintro s' heq
    cases heq
    have hc₁ : Coherent { tx := some ([], false) } (es₁ ++ [⟨.sql .commit, .ok ()⟩]) := hc.2
    obtain ⟨rows, haccount, htx⟩ := draft_body rfl rfl rfl (coherent_append.mp hc₁).1 hb
    have hadded : (after (⟨.sql .begin, .ok ()⟩ :: es₁ ++ [⟨.sql .commit, .ok ()⟩])).added = rows := by
      rw [hafter]
      change (es₁.foldl next { tx := some ([], false) }).added ++
        ((es₁.foldl next { tx := some ([], false) }).tx.map Prod.fst).getD [] = rows
      rw [hbody hb]
      exact congrArg (fun tx => (tx.map Prod.fst).getD []) htx
    rw [hadded]
    exact haccount
  · refine ⟨fun _ h => (by cases h), fun _ _ => ?_⟩
    rw [hafter]
    exact hbody hb
  · refine ⟨fun _ h => (by cases h), fun _ _ => ?_⟩
    rw [hafter]
    exact hbody hb

/-- What the replies of an answered signup have added. -/
theorem added_of_returns {y : Except SignupError SignupSuccess} (hc : Coherent {} es)
    (h : Returns (signup env req).run es y) :
    (∀ s, y = .ok s → Account env req s (after es).added) ∧
      ∀ e, y = .error e → (after es).added = [] := by
  unfold signup at h
  dsimp only at h
  split at h
  · obtain ⟨rfl, rfl⟩ := Returns.pure_iff.mp h
    exact ⟨fun _ h => (by cases h), fun _ _ => rfl⟩
  split at h
  · obtain ⟨rfl, rfl⟩ := Returns.pure_iff.mp h
    exact ⟨fun _ h => (by cases h), fun _ _ => rfl⟩
  obtain ⟨_, es₁, _, rfl, hnow, h₁⟩ := Returns.bind_iff.mp h
  obtain ⟨at_, rfl, rfl⟩ := returns_perform hnow
  obtain ⟨_, es₂, _, rfl, hsalt, h₂⟩ := Returns.bind_iff.mp h₁
  obtain ⟨salt, rfl, rfl⟩ := returns_perform hsalt
  have hc₂ : Coherent {} es₂ := (coherent_cons (coherent_cons hc).2).2
  have hend := added_of_transaction hc₂ h₂
  exact hend

theorem Account.user (h : Account env req s rows) : ∃ u, .user u ∈ rows ∧
      u.email = env.toLowercase (Text.trim (req.email.getD "")) ∧
      u.username = req.username.getD "" := by
  cases h with
  | intro u c roles v hid hemail hname =>
    exact ⟨u, List.mem_append_left _ (List.mem_append_left _ List.mem_cons_self), hemail, hname⟩

end Program

/-- Any number of signups, interleaved in any way and with any failures, are atomic. -/
theorem signup_atomic (env : Env) (rows : Table SignupRow) (now : NaiveDateTime)
    (uuids : List Uuid) (tokens : List String) (c : SignupConfig)
    (run : Run (signupServer env) {} (Config.start (start rows now uuids tokens)) c) :
    Atomic env rows c := by
  have hk := kept_of_run run
  have hreplayed := run.replayed (Config.start_replayed _)
  have hreturns : ∀ tid req y, c.answered tid req y →
      Returns (signup env req).run (c.moment.own tid) y := by
    intro tid req y ha
    rw [← signupServer_program]
    exact hreplayed.returns ha
  have hok : ∀ tid req s, c.answered tid req (.ok s) → Account env req s (added c.moment tid) := by
    intro tid req s ha
    exact (added_of_returns (hk.coherent tid) (hreturns tid req _ ha)).1 s rfl
  refine ⟨hk.contents, fun tid a ha hrow => ?_, hok, fun tid req e ha => ?_, ?_⟩
  · cases (hk.fresh tid a ha a hrow).symm.trans (Keyed.clash_self a)
  · exact (added_of_returns (hk.coherent tid) (hreturns tid req _ ha)).2 e rfl
  · intro i j req req' s s' hij ha ha'
    obtain ⟨u, hu, hemail, hname⟩ := (hok i req s ha).user
    obtain ⟨v, hv, hemail', hname'⟩ := (hok j req' s' ha').user
    have hclash : Keyed.clash u v = false := hk.apart i j hij _ hu _ hv
    simp only [Keyed.clash, decide_eq_false_iff_not, not_or] at hclash
    rw [hemail, hemail', hname, hname'] at hclash
    exact hclash.2

/-- A request for an account. -/
def sampleRequest (username : String) : SignupRequest :=
  { email := some "bob@example.com", username := some username, password := some "password" }

/-- Two signups that both find the email free; the first one to insert it succeeds. -/
def sampleSchedule : List (Label SignupRequest Choice) :=
  let step := fun tid (ch : Choice) => Label.step tid ch
  [.spawn (sampleRequest "bob"), .spawn (sampleRequest "bobby")] ++
    List.replicate 5 (step 0 {}) ++ List.replicate 5 (step 1 {}) ++
    [step 0 { uuid := 10 }, step 0 {}, step 0 { uuid := 11 }, step 0 {}, step 0 {}, step 0 {},
      step 0 { text := "token-a" }, step 0 { uuid := 12 }, step 0 {}, step 0 {},
      step 1 { uuid := 13 }, step 1 {}, step 1 {}]

def sampleRows : Table SignupRow :=
  Scenario.one (.role { id := 1, name := "user", description := none, parentId := none, createdAt := 0 })

/-- Of two signups with one email, one succeeds and adds its four rows. -/
theorem signup_atomic_sample :
    ∃ c : SignupConfig, Run (signupServer Scenario.env) {}
        (Config.start (start sampleRows 0 [1] [])) c ∧
      Atomic Scenario.env sampleRows c ∧ (added c.moment 0).length = 4 ∧ added c.moment 1 = [] := by
  have hplay : (Config.start (start sampleRows 0 [1] []) : SignupConfig).reaches
      (signupServer Scenario.env) (fun _ => true) (fun _ => true) sampleSchedule
      (fun c => (added c.moment 0).length == 4 && added c.moment 1 == [] &&
        c.replied 0 (fun _ y => y.isOk) && c.replied 1 fun _ y => !y.isOk) = true := by
    decide +kernel
  obtain ⟨c, run, hc⟩ := Config.run_of_reaches (R := {}) (fun _ _ => trivial)
    (fun _ _ _ _ _ => trivial) hplay
  simp only [Bool.and_eq_true, beq_iff_eq] at hc
  exact ⟨c, run, signup_atomic Scenario.env sampleRows 0 [1] [] c run, hc.1.1.1, hc.1.1.2⟩

end SignupTx

end AuthServer
