import AuthServer.Replies
import AuthServer.Scenario
import AuthServer.Store.Frames

/-!
# Using a password reset once

A reset reads its token, rotates the password, and then marks its own token and the
other tokens of the user as consumed with two further statements. Two resets that
have both read unconsumed tokens of the same user both succeed. At most one of them
does when no token of a user is read while another reset of that user has passed its
check and not yet executed the two statements.
-/

namespace AuthServer

open Concurrent Handler Storage

namespace ResetOnce

/-- Calls that consume a reset token. -/
def family : Call → Bool
  | .consumeReset _ _ => true
  | _ => false

/-- A call has been answered with success for a token that the user had at the start. -/
def Succeeded (env : Env) (w : World) (c : State) (tid : Nat) (userId : Uuid) : Prop :=
  ∃ token password, c.answered tid (.consumeReset token password) (.ok (.ok ())) ∧
    ∃ r ∈ w.pg.tables.passwordResets, r.tokenHash = env.hmac token ∧ r.userId = userId

/-- In the runs of a regime at most one reset of a user's tokens succeeds. -/
def AtMostOne (env : Env) (R : Rules) : Prop :=
  ∀ w c, Run (server env) R (Config.start w) c →
    ∀ u i j, Succeeded env w c i u → Succeeded env w c j u → i = j

/-- Resets in any order. -/
def interleaved : Rules where
  admits call := family call = true

/-- The user whose unconsumed token has been read. -/
def reads : Marking Res Uuid
  | .sql (.query (.passwordResetByHash _)), .ok (some r) =>
    if PasswordReset.consumedAt r = none then some r.userId else none
  | _, _ => none

/-- The token that has been marked as consumed. -/
def consumes : Marking Res Uuid
  | .sql (.stmt (.markConsumed id)), .ok _ => some id
  | _, _ => none

/-- The user whose tokens but one have been marked as consumed. -/
def closes : Marking Res (Uuid × Uuid)
  | .sql (.stmt (.consumeSiblingTokens u keep)), .ok _ => some (u, keep)
  | _, _ => none

/-- A statement has failed. -/
def fails : Marking Res Unit
  | .sql _, .error _ => some ()
  | _, _ => none

/-- A reset that has read an unconsumed token has consumed all tokens of the user, or has failed. -/
def Settled (m : Instant) (i : Nat) (u : Uuid) : Prop :=
  (∃ id, m.Marked consumes i id ∧ m.Marked closes i (u, id)) ∨ m.Marked fails i ()

/-- A token is read only when every other reset that has read an unconsumed token of the same user
is settled. -/
def serial : Rules where
  admits call := family call = true
  allows m tid op _ := ∀ hash, op = .sql (.query (.passwordResetByHash hash)) →
    ∀ r ∈ m.world.pg.tables.passwordResets, r.tokenHash = hash →
      ∀ i ≠ tid, m.Marked reads i r.userId → Settled m i r.userId

section Proof

variable {env : Env}

/-- Commands that neither add a reset token nor delete users. -/
def Closed (op : Op) : Prop :=
  (∀ r, op ≠ .sql (.stmt (.insertPasswordReset r))) ∧ ∀ id, op ≠ .sql (.stmt (.deleteUser id))

theorem closed_of_within {ks : List Kind} (hks : ks.contains .newReset = false)
    (hdrop : ks.contains .drop = false) {op : Op} (h : Within ks op) : Closed op := by
  constructor
  · rintro r rfl
    exact absurd (h.symm.trans hks) (by decide)
  · rintro id rfl
    exact absurd (h.symm.trans hdrop) (by decide)

theorem uses_family {call : Call} (h : family call = true) :
    ((server env).program call).Uses Closed := by
  apply uses_program
  cases call with
  | consumeReset => exact (handler_uses env _).of_within fun _ => closed_of_within rfl rfl
  | _ => cases h

/-! ## What a successful reset has done -/

/-- A handler that returns only when none of its statements has failed. -/
def Strict {α : Type} (h : Handler α) : Prop :=
  ∀ es x, Returns h.run es (.ok x) → ∀ e ∈ es, fails e.1 e.2 = none

variable {α β : Type}

theorem strict_pure (x : α) : Strict (pure x : Handler α) := by
  intro es y h e he
  rw [h.ret.1] at he
  cases he

theorem strict_throw (failure : Failure) : Strict (throw failure : Handler α) := by
  intro es y h
  cases h

theorem strict_bind {h : Handler α} {f : α → Handler β} (hh : Strict h)
    (hf : ∀ x, Strict (f x)) : Strict (h >>= f) := by
  intro es y hret e he
  obtain ⟨es₁, es₂, x, rfl, h₁, h₂⟩ := hret.seq
  rcases List.mem_append.mp he with he | he
  · exact hh es₁ x h₁ e he
  · exact hf x es₂ y h₂ e he

theorem strict_sql (s : Sql) : Strict (sql s) := by
  intro es x h e he
  rw [returns_sql h] at he
  obtain rfl := List.mem_singleton.mp he
  rfl

theorem strict_perform {op : Op} (hop : ∀ s, op ≠ .sql s) : Strict (perform op) := by
  intro es x h e he
  rw [returns_perform.mp h] at he
  obtain rfl := List.mem_singleton.mp he
  cases op with
  | sql s => exact absurd rfl (hop s)
  | _ => rfl

theorem strict_invalidateAll (tokens : List String) :
    Strict (SessionRepository.invalidateAll env tokens) := by
  induction tokens with
  | nil => exact strict_pure _
  | cons token tokens ih =>
    refine strict_bind (strict_perform fun s => nofun) fun r => ?_
    split
    · exact ih
    · exact strict_bind ih fun _ => strict_pure _

theorem strict_deleteAllByUserId (userId : Uuid) :
    Strict (SessionRepository.deleteAllByUserId env userId) := by
  refine strict_bind (strict_sql _) fun tokens =>
    strict_bind (strict_invalidateAll tokens) fun failed => ?_
  split
  · exact strict_bind (strict_throw _) fun _ =>
      strict_bind (strict_sql _) fun _ => strict_sql _
  · exact strict_bind (strict_sql _) fun _ => strict_sql _

theorem strict_rotatePassword (userId : Uuid) (password : String) :
    Strict (PasswordFlow.rotatePassword env userId password) := by
  refine strict_bind (strict_perform fun s => by rintro ⟨⟩) fun salt =>
    strict_bind (strict_perform fun s => by rintro ⟨⟩) fun at_ => strict_bind (strict_sql _) fun found => ?_
  split
  · exact strict_bind (strict_sql _) fun _ => strict_pure _
  · exact strict_bind (strict_perform fun s => by rintro ⟨⟩) fun _ => strict_sql _

/-- A successful reset has read an unconsumed token, and none of its statements has failed. -/
theorem returns_consumeReset {token password : String} {es : Replies}
    (h : Returns (PasswordFlow.consumeReset env token password).run es (.ok (.ok ()))) :
    (∃ r : PasswordReset, r.consumedAt = none ∧
      (⟨.sql (.query (.passwordResetByHash (env.hmac token))),
        (.ok (some r) : Except DbError (Option PasswordReset))⟩ : Reply Res) ∈ es) ∧
    ∀ e ∈ es, fails e.1 e.2 = none := by
  unfold PasswordFlow.consumeReset at h
  split at h
  · cases h.ret.2
  split at h
  · cases h.ret.2
  obtain ⟨es₁, es₂, found, rfl, hquery, h₁⟩ := h.seq
  rw [returns_sql hquery]
  split at h₁
  · cases h₁.ret.2
  next reset =>
    obtain ⟨es₃, es₄, at_, rfl, hnow, h₂⟩ := h₁.seq
    rw [returns_perform.mp hnow]
    split at h₂
    · cases h₂.ret.2
    next hopen =>
      rw [Bool.or_eq_true, not_or] at hopen
      refine ⟨⟨reset, by simpa using hopen.1, List.mem_append_left _ (List.mem_singleton_self _)⟩, ?_⟩
      have hrest : ∀ e ∈ es₄, fails e.1 e.2 = none :=
        strict_bind (strict_rotatePassword _ _) (fun _ => strict_bind (strict_sql _) fun _ =>
          strict_bind (strict_sql _) fun _ => strict_bind (strict_deleteAllByUserId _) fun _ =>
            strict_pure _) es₄ _ h₂
      intro e he
      simp only [List.mem_append, List.mem_singleton] at he
      rcases he with rfl | rfl | he
      · rfl
      · rfl
      · exact hrest e he

/-! ## The reset tokens along a run -/

variable {t : Tables} {now : NaiveDateTime}

/-- A row has become another one: same keys, and consumed if it was. -/
def Becomes (r r' : PasswordReset) : Prop :=
  r.id = r'.id ∧ r.userId = r'.userId ∧ r.tokenHash = r'.tokenHash ∧
    (r.consumedAt ≠ none → r'.consumedAt ≠ none)

theorem becomes_setConsumed (r : PasswordReset) (b : Bool) :
    Becomes r (if b then (PasswordReset.setConsumed now).apply r else r) := by
  split
  · exact ⟨rfl, rfl, rfl, fun _ => nofun⟩
  · exact ⟨rfl, rfl, rfl, id⟩

/-- Statements of resets keep the reset tokens, and never take back that one is consumed. -/
theorem becomes_effect {st : Stmt} (hst : Closed (.sql (.stmt st))) {r' : PasswordReset}
    (h : r' ∈ (st.effect now t).passwordResets) : ∃ r ∈ t.passwordResets, Becomes r r' := by
  cases st with
  | insertPasswordReset r => exact absurd rfl (hst.1 r)
  | deleteUser id => exact absurd rfl (hst.2 id)
  | markConsumed id =>
    obtain ⟨r, hr, rfl⟩ := Table.mem_update.mp h
    exact ⟨r, hr, becomes_setConsumed r _⟩
  | consumeSiblingTokens u keep =>
    obtain ⟨r, hr, rfl⟩ := Table.mem_update.mp h
    exact ⟨r, hr, becomes_setConsumed r _⟩
  | updateCredential c =>
    refine ⟨r', ?_, rfl, rfl, rfl, id⟩
    simp only [Stmt.effect] at h
    split at h
    · exact h
    · exact h
  | _ => exact ⟨r', h, rfl, rfl, rfl, id⟩

theorem consumed_of_markConsumed {id : Uuid} {r : PasswordReset}
    (h : r ∈ ((Stmt.markConsumed id).effect now t).passwordResets) (hid : r.id = id) :
    r.consumedAt ≠ none := by
  obtain ⟨r₀, -, rfl⟩ := Table.mem_update.mp h
  by_cases hr : r₀.id = id
  · simp [hr, PasswordReset.setConsumed]
  · rw [if_neg (by simpa using hr)] at hid
    exact absurd hid hr

theorem consumed_of_siblings {u keep : Uuid} {r : PasswordReset}
    (h : r ∈ ((Stmt.consumeSiblingTokens u keep).effect now t).passwordResets)
    (hu : r.userId = u) (hid : r.id ≠ keep) : r.consumedAt ≠ none := by
  obtain ⟨r₀, -, rfl⟩ := Table.mem_update.mp h
  split
  · nofun
  · next hp =>
    rw [if_neg hp] at hu hid
    simpa [hu, hid] using hp

/-- What holds at every moment of a serial run that has started in a given world. -/
structure Kept (w₀ : World) (m : Instant) : Prop where
  origin : ∀ r ∈ m.world.pg.tables.passwordResets, ∃ r₀ ∈ w₀.pg.tables.passwordResets, Becomes r₀ r
  consumed : ∀ i id, m.Marked consumes i id →
    ∀ r ∈ m.world.pg.tables.passwordResets, r.id = id → r.consumedAt ≠ none
  closed : ∀ i u keep, m.Marked closes i (u, keep) →
    ∀ r ∈ m.world.pg.tables.passwordResets, r.userId = u → r.id ≠ keep → r.consumedAt ≠ none
  apart : ∀ i j u, i ≠ j → m.Marked reads i u → m.Marked reads j u →
    m.Marked fails i () ∨ m.Marked fails j ()

theorem Becomes.trans {r₁ r₂ r₃ : PasswordReset} (h : Becomes r₁ r₂) (h' : Becomes r₂ r₃) :
    Becomes r₁ r₃ :=
  ⟨h.1.trans h'.1, h.2.1.trans h'.2.1, h.2.2.1.trans h'.2.2.1, h'.2.2.2 ∘ h.2.2.2⟩

variable {w₀ w : World} {m : Instant} {tid : Nat} {op : Op} {ch : Choice} {r : Res op}

/-- A step of the family takes each reset token to one it becomes. -/
theorem becomes_exec (hop : Closed op) (he : World.exec env tid op ch m.world = some (r, w))
    {x : PasswordReset} (hx : x ∈ w.pg.tables.passwordResets) :
    ∃ x₀ ∈ m.world.pg.tables.passwordResets, Becomes x₀ x := by
  rcases World.exec_tables he with ht | ⟨st, y, hreply, ht⟩ | ⟨-, tokens, ht⟩
  · rw [ht] at hx
    exact ⟨x, hx, rfl, rfl, rfl, id⟩
  · cases hreply
    rw [ht] at hx
    exact becomes_effect hop hx
  · rw [ht] at hx
    exact ⟨x, hx, rfl, rfl, rfl, id⟩

/-- An unconsumed token of a user is not there after a settled reset of that user, unless that
reset has failed. -/
theorem Kept.failed_of_settled (hk : Kept w₀ m) {i : Nat} {x : PasswordReset}
    (hx : x ∈ m.world.pg.tables.passwordResets) (hopen : x.consumedAt = none)
    (hs : Settled m i x.userId) : m.Marked fails i () := by
  rcases hs with ⟨id, hconsumes, hcloses⟩ | hfails
  · by_cases hid : x.id = id
    · exact absurd hopen (hk.consumed i id hconsumes x hx hid)
    · exact absurd hopen (hk.closed i _ id hcloses x hx rfl hid)
  · exact hfails

/-- A token that has been read unconsumed was stored so. -/
theorem read_stored (he : World.exec env tid op ch m.world = some (r, w)) {u : Uuid}
    (hread : reads op r = some u) : ∃ hash, op = .sql (.query (.passwordResetByHash hash)) ∧
      ∃ x ∈ m.world.pg.tables.passwordResets, x.tokenHash = hash ∧ x.consumedAt = none ∧
        x.userId = u := by
  unfold reads at hread
  split at hread
  · next hash x =>
    split at hread
    · next hopen =>
      refine ⟨hash, rfl, x, ?_⟩
      obtain ⟨-, -, ⟨e, h⟩ | h⟩ := World.exec_query he
      · cases h
      · have hfind : m.world.pg.tables.passwordResets.find? (fun r => r.tokenHash == hash) =
            some x := (Except.ok.inj h).symm
        obtain ⟨hx, hhash⟩ := Table.mem_of_find? hfind
        exact ⟨hx, beq_iff_eq.mp hhash, hopen, Option.some.inj hread⟩
    · cases hread
  · cases hread

/-- Every step of a serial run keeps the invariant. -/
theorem Kept.step (hk : Kept w₀ m) (hop : Closed op) (ha : serial.allows m tid op ch)
    (he : World.exec env tid op ch m.world = some (r, w)) : Kept w₀ (m.after tid op r w) := by
  have hback := fun x hx => becomes_exec (x := x) hop he hx
  -- another reset of the same user that has read before has failed
  have hfailed : ∀ i u, i ≠ tid → reads op r = some u → m.Marked reads i u →
      m.Marked fails i () := by
    intro i u hi hread hmarked
    obtain ⟨hash, hquery, x, hx, hhash, hopen, rfl⟩ := read_stored he hread
    exact hk.failed_of_settled hx hopen (ha hash hquery x hx hhash i hi hmarked)
  constructor
  · intro x hx
    obtain ⟨x₁, hx₁, h₁⟩ := hback x hx
    obtain ⟨x₀, hx₀, h₀⟩ := hk.origin x₁ hx₁
    exact ⟨x₀, hx₀, h₀.trans h₁⟩
  · intro i id hmarked x hx hid
    rcases hmarked.of_after with ⟨-, hnew⟩ | hold
    · unfold consumes at hnew
      split at hnew
      · cases hnew
        exact consumed_of_markConsumed (World.exec_stmt_ok he ▸ hx) hid
      · cases hnew
    · obtain ⟨x₁, hx₁, h₁⟩ := hback x hx
      exact h₁.2.2.2 (hk.consumed i id hold x₁ hx₁ (h₁.1.trans hid))
  · intro i u keep hmarked x hx hu hid
    rcases hmarked.of_after with ⟨-, hnew⟩ | hold
    · unfold closes at hnew
      split at hnew
      · cases hnew
        exact consumed_of_siblings (World.exec_stmt_ok he ▸ hx) hu hid
      · cases hnew
    · obtain ⟨x₁, hx₁, h₁⟩ := hback x hx
      exact h₁.2.2.2 (hk.closed i u keep hold x₁ hx₁ (h₁.2.1.trans hu) fun h => hid (h₁.1.symm.trans h))
  · intro i j u hne hi hj
    rcases hi.of_after with ⟨rfl, hnew⟩ | hi'
    · rcases hj.of_after with ⟨rfl, -⟩ | hj'
      · exact absurd rfl hne
      · exact .inr (hfailed j u hne.symm hnew hj').after
    · rcases hj.of_after with ⟨rfl, hnew⟩ | hj'
      · exact .inl (hfailed i u hne hnew hi').after
      · exact (hk.apart i j u hne hi' hj').imp Moment.Marked.after Moment.Marked.after

theorem kept_of_run {c : State} (run : Run (server env) serial (Config.start w₀) c) :
    Kept w₀ c.moment := by
  refine run.keeps (fun call hcall => uses_family hcall)
    (fun m tid op ch r w hk hop ha he => hk.step hop ha he) ?_
  constructor
  · exact fun r hr => ⟨r, hr, rfl, rfl, rfl, id⟩
  · exact fun i id h => absurd h Moment.not_marked_nil
  · exact fun i u keep h => absurd h Moment.not_marked_nil
  · exact fun i j u _ h => absurd h Moment.not_marked_nil

/-- A successful reset has read an unconsumed token of the user, and has not failed. -/
theorem read_of_succeeded {c : State} (run : Run (server env) serial (Config.start w₀) c)
    {u : Uuid} (h : Succeeded env w₀ c tid u) :
    c.moment.Marked reads tid u ∧ ¬ c.moment.Marked fails tid () := by
  obtain ⟨token, password, ha, r₀, hr₀, hhash₀, rfl⟩ := h
  obtain ⟨⟨r, hopen, hmem⟩, hclean⟩ :=
    returns_consumeReset ((run.replayed (Config.start_replayed w₀)).returns ha)
  constructor
  · obtain ⟨x, hx, htid, hreply⟩ := Moment.mem_own.mp hmem
    have huser : r.userId = r₀.userId := by
      obtain ⟨c₁, t, k, ch, w, run₁, -, -, -, hexec, -⟩ := run.executed_own hmem
      have hexec : World.exec env tid (.sql (.query (.passwordResetByHash (env.hmac token)))) ch
        c₁.moment.world = some (.ok (some r), w) := hexec
      obtain ⟨hash, hop, y, hy, hyhash, -, hyuser⟩ := read_stored hexec (if_pos hopen)
      cases hop
      obtain ⟨y₀, hy₀, hyid, hyuser₀, hyhash₀, -⟩ := (kept_of_run run₁).origin y hy
      have hsame : y₀ = r₀ := by
        refine Table.eq_of_clash hy₀ hr₀ (decide_eq_true (.inr ?_))
        rw [hyhash₀, hyhash, hhash₀]
      rw [← hyuser, ← hyuser₀, hsame]
    refine ⟨x, hx, htid, ?_⟩
    obtain ⟨i, op, res⟩ := x
    cases hreply
    exact (if_pos hopen).trans (congrArg some huser)
  · rintro ⟨x, hx, htid, hfails⟩
    have hnone := hclean ⟨x.op, x.res⟩ (Moment.mem_own.mpr ⟨x, hx, htid, rfl⟩)
    exact absurd (hnone.symm.trans hfails) (by decide)

end Proof

section Counterexample

open Scenario

/-- Two calls read the same token before either of them consumes it. -/
def resetTwice : List (Label Call Choice) :=
  [.spawn (.consumeReset "reset-a" "new-password"), .spawn (.consumeReset "reset-a" "other-password")] ++
    steps 0 1 ++ steps 1 1 ++ steps 0 4 ++ [drawUuid 0 20] ++ steps 0 7 ++ steps 1 10

/-- The call was for the reset token and has succeeded. -/
def succeeded : (call : Call) → Ret call → Bool
  | .consumeReset token _, .ok (.ok ()) => token == "reset-a"
  | _, _ => false

theorem succeeded_of_replied {c : State} {tid : Nat} (h : c.replied tid succeeded = true) :
    Succeeded resetEnv resetWorld c tid 1 := by
  obtain ⟨call, a, ha, hs⟩ := Config.answered_of_replied h
  unfold succeeded at hs
  split at hs
  · next token password =>
    obtain rfl : token = "reset-a" := beq_iff_eq.mp hs
    exact ⟨_, password, ha, passwordReset, List.mem_singleton_self _, rfl, rfl⟩
  · cases hs

/-- Both calls are answered with success. -/
theorem not_at_most_one : ¬ AtMostOne resetEnv interleaved := by
  intro h
  have hplay : (Config.start resetWorld : State).reaches (server resetEnv) family succeeds
      resetTwice (fun c => c.replied 0 succeeded && c.replied 1 succeeded) = true := by
    decide +kernel
  obtain ⟨c, run, hc⟩ := Config.run_of_reaches (R := interleaved) (fun _ hcall => hcall)
    (fun _ _ _ _ _ => trivial) hplay
  rw [Bool.and_eq_true] at hc
  have heq := h resetWorld c run 1 0 1 (succeeded_of_replied hc.1) (succeeded_of_replied hc.2)
  exact absurd heq (by decide)

end Counterexample

/-- In a serial run at most one reset of a user's tokens succeeds. -/
theorem at_most_one_of_serial (env : Env) : AtMostOne env serial := by
  intro w c run u i j hi hj
  have hkept := kept_of_run run
  obtain ⟨hri, hfi⟩ := read_of_succeeded run hi
  obtain ⟨hrj, hfj⟩ := read_of_succeeded run hj
  by_contra hne
  rcases hkept.apart i j u hne hri hrj with h | h
  · exact hfi h
  · exact hfj h

end ResetOnce

end AuthServer
