import AuthServer.Account.ResetOnce
import AuthServer.Alone
import AuthServer.Concurrent.Serial

/-!
# Reset tokens after a change of the password

A password is replaced by a reset, by its owner, and by an admin. A reset consumes all reset tokens
of the user; the other two leave them as they are, so that a token from before the change can still
be used to change the password again. Tokens that are consumed by the time of the change stay void,
and after a reset all of them are.
-/

namespace AuthServer

open Concurrent Handler Storage

namespace ResetVoid

/-- Requests that issue reset tokens or replace passwords. -/
def family : Call → Bool
  | .requestReset _ | .consumeReset _ _ | .changePassword _ _ _ _ | .updateUser _ _ _ => true
  | _ => false

def passwords : Rules where
  admits call := family call = true

/-- A request has replaced the password of a user and has succeeded. -/
def Changed (env : Env) (t : Tables) (userId : Uuid) : (call : Call) → Ret call → Prop
  | .consumeReset token _, y => y = .ok (.ok ()) ∧
      ∃ r ∈ t.passwordResets, r.tokenHash = env.hmac token ∧ r.userId = userId
  | .changePassword uid _ _ _, y => y = .ok (.ok ()) ∧ uid = userId
  | .updateUser _ path body, y => (∃ summary, y = .ok (.ok summary)) ∧
      env.parseUuid path = some userId ∧ (AdminResource.newPassword body).isSome = true
  | _, _ => False

/-- Once a request has replaced the password of a user, under a condition on it and on the tables it
leaves, no later reset succeeds with a token that the user has had by then. -/
def Voids (env : Env) (cond : Call → Tables → Uuid → Prop) : Prop :=
  ∀ w c₁ c, Serial (server env) passwords (Config.start w) c₁ → c₁.settled = true →
    Serial (server env) passwords c₁ c →
    ∀ i userId call y, c₁.threads.length = i + 1 → c₁.answered i call y →
      Changed env c₁.moment.world.pg.tables userId call y →
      cond call c₁.moment.world.pg.tables userId →
      ∀ r ∈ c₁.moment.world.pg.tables.passwordResets, r.userId = userId →
        ∀ j token password, i < j → r.tokenHash = env.hmac token →
          ¬ c.answered j (.consumeReset token password) (.ok (.ok ()))

/-- All reset tokens of the user are consumed. -/
def AllConsumed (t : Tables) (userId : Uuid) : Prop :=
  ∀ r ∈ t.passwordResets, r.userId = userId → r.consumedAt ≠ none

/-- The password was replaced by a reset, or the user has no token left that is not consumed. -/
def resetOrConsumed (call : Call) (t : Tables) (userId : Uuid) : Prop :=
  (∃ token password, call = .consumeReset token password) ∨ AllConsumed t userId

section Proof

variable {env : Env} {R : Rules} {tid : Nat} {m m' : Instant} {t : Tables} {st : Stmt}

/-! ## A reset consumes all tokens of the user -/

/-- The kinds of statements that write reset tokens. -/
theorem kind_of_writesResets (st : Stmt) (h : st.writesResets = true) :
    [.newReset, .useReset, .drop].contains st.kind = true := by
  cases st with
  | insertPasswordReset | markConsumed | consumeSiblingTokens | deleteUser => rfl
  | _ => cases h

theorem leavesResets {α : Type} {h : Handler α} {ks : List Kind} (hf : Footprint h ks)
    (hks : [.newReset, .useReset, .drop].any ks.contains = false) :
    h.Uses fun op => op.isStmt Stmt.writesResets = false :=
  hf.uses.not_isStmt kind_of_writesResets hks

theorem resets_of_alone {α : Type} {h : Handler α} {y : Except Failure α}
    (hu : h.Uses fun op => op.isStmt Stmt.writesResets = false)
    (ha : Alone (server env) R tid h.run m y m') :
    m'.world.pg.tables.passwordResets = m.world.pg.tables.passwordResets :=
  alone_frame Tables.passwordResets (fun _ _ => rfl)
    (fun _ now t hst => Stmt.resets_effect hst now t) hu ha

theorem closed_siblings {userId keep : Uuid} :
    ResetOnce.Closed (.sql (.stmt (.consumeSiblingTokens userId keep))) :=
  ⟨fun _ => nofun, fun _ => nofun⟩

theorem closed_markConsumed {id : Uuid} : ResetOnce.Closed (.sql (.stmt (.markConsumed id))) :=
  ⟨fun _ => nofun, fun _ => nofun⟩

/-- After the two statements of a reset, all tokens of the user are consumed. -/
theorem allConsumed_of_effects {reset : PasswordReset} {at₁ at₂ : NaiveDateTime} {t' : Tables}
    (ht' : t'.passwordResets = ((Stmt.consumeSiblingTokens reset.userId reset.id).effect at₂
      ((Stmt.markConsumed reset.id).effect at₁ t)).passwordResets) :
    AllConsumed t' reset.userId := by
  intro r hr huser
  rw [ht'] at hr
  by_cases hid : r.id = reset.id
  · obtain ⟨r₁, hr₁, hbecomes⟩ := ResetOnce.becomes_effect closed_siblings hr
    exact hbecomes.2.2.2 (ResetOnce.consumed_of_markConsumed hr₁ (hbecomes.1.trans hid))
  · exact ResetOnce.consumed_of_siblings hr huser hid

/-- A reset that succeeds when it is executed alone leaves no token of the user that could be used. -/
theorem allConsumed_of_consumeReset {token password : String} {r : PasswordReset}
    (h : Alone (server env) R tid (PasswordFlow.consumeReset env token password).run m
      (.ok (.ok ())) m')
    (hr : r ∈ m'.world.pg.tables.passwordResets) (hhash : r.tokenHash = env.hmac token) :
    AllConsumed m'.world.pg.tables r.userId := by
  unfold PasswordFlow.consumeReset at h
  split at h
  · cases h
  split at h
  · cases h
  obtain ⟨found, m₁, hquery, h⟩ := h.seq
  obtain ⟨hfound, htables₁, -⟩ := alone_query hquery
  split at h
  · cases h
  next reset =>
    obtain ⟨hreset, hkey⟩ := Table.mem_of_find? hfound.symm
    obtain ⟨at_, m₂, hnow, h⟩ := h.seq
    split at h
    · cases h
    obtain ⟨_, m₃, hrotate, h⟩ := h.seq
    obtain ⟨_, m₄, hmark, h⟩ := h.seq
    obtain ⟨_, m₅, hsiblings, h⟩ := h.seq
    obtain ⟨_, m₆, hdelete, h⟩ := h.seq
    obtain ⟨-, rfl⟩ := Alone.pure_iff.mp h
    obtain ⟨at₁, heffect₁⟩ := alone_stmt hmark
    obtain ⟨at₂, heffect₂⟩ := alone_stmt hsiblings
    have hbefore : m₃.world.pg.tables.passwordResets = m.world.pg.tables.passwordResets := by
      rw [resets_of_alone (leavesResets inferInstance rfl) hrotate,
        resets_of_alone (uses_now rfl) hnow, htables₁]
    have hafter : m'.world.pg.tables.passwordResets =
        ((Stmt.consumeSiblingTokens reset.userId reset.id).effect at₂
          ((Stmt.markConsumed reset.id).effect at₁ m₃.world.pg.tables)).passwordResets := by
      rw [resets_of_alone (leavesResets inferInstance rfl) hdelete, heffect₂, heffect₁]
    -- the token was the one that has been found
    have huser : r.userId = reset.userId := by
      rw [hafter] at hr
      obtain ⟨r₁, hr₁, h₁⟩ := ResetOnce.becomes_effect closed_siblings hr
      obtain ⟨r₀, hr₀, h₀⟩ := ResetOnce.becomes_effect closed_markConsumed hr₁
      rw [hbefore] at hr₀
      have hsame : r₀ = reset := by
        refine Table.eq_of_clash hr₀ hreset (decide_eq_true (.inr ?_))
        rw [(h₀.trans h₁).2.2.1, hhash, beq_iff_eq.mp hkey]
      rw [← hsame]
      exact (h₀.trans h₁).2.1.symm
    rw [huser]
    exact allConsumed_of_effects hafter

/-! ## Consumed tokens stay void -/

/-- The token with this hash is consumed. -/
def Consumed (hash : String) (m : Instant) : Prop :=
  ∃ r ∈ m.world.pg.tables.passwordResets, r.tokenHash = hash ∧ r.consumedAt ≠ none

variable {hash : String}

theorem consumed_effect {now : NaiveDateTime} (hst : ∀ id, st ≠ .deleteUser id) {r : PasswordReset}
    (hr : r ∈ t.passwordResets) (hhash : r.tokenHash = hash) (hconsumed : r.consumedAt ≠ none) :
    ∃ r' ∈ (st.effect now t).passwordResets, r'.tokenHash = hash ∧ r'.consumedAt ≠ none := by
  have hset : ∀ p : PasswordReset → Bool,
      ∃ r' ∈ t.passwordResets.update p (PasswordReset.setConsumed now),
        r'.tokenHash = hash ∧ r'.consumedAt ≠ none := by
    intro p
    have hbecomes : ResetOnce.Becomes r
        (if p r then (PasswordReset.setConsumed now).apply r else r) :=
      ResetOnce.becomes_setConsumed r (p r)
    exact ⟨_, Table.mem_update.mpr ⟨r, hr, rfl⟩, hbecomes.2.2.1.symm.trans hhash,
      hbecomes.2.2.2 hconsumed⟩
  cases hw : st.writesResets with
  | false => exact ⟨r, by rwa [Stmt.resets_effect hw], hhash, hconsumed⟩
  | true =>
    cases st with
    | insertPasswordReset r₀ =>
      refine ⟨r, ?_, hhash, hconsumed⟩
      simp only [Stmt.effect]
      cases hins : t.passwordResets.insert r₀ with
      | none => exact hr
      | some t' => exact (Table.mem_insert hins).mpr (.inl hr)
    | markConsumed | consumeSiblingTokens => exact hset _
    | deleteUser id => exact absurd rfl (hst id)
    | _ => cases hw

/-- Requests of the family do not delete users. -/
theorem uses_of_family {call : Call} (h : family call = true) :
    ((server env).program call).Uses (Within call.footprint) ∧
      call.footprint.contains .drop = false := by
  refine ⟨(handler_uses env call).run, ?_⟩
  cases call with
  | requestReset | consumeReset | changePassword | updateUser => rfl
  | _ => cases h

theorem Consumed.after {op : Op} {ch : Choice} {r : Res op} {w : World} (h : Consumed hash m)
    (hop : op.kind ≠ .drop) (he : World.exec env tid op ch m.world = some (r, w))
    : Consumed hash (m.after tid op r w) := by
  obtain ⟨x, hx, hhash, hconsumed⟩ := h
  rcases World.exec_tables he with heq | ⟨st, y, hreply, heq⟩ | ⟨-, tokens, heq⟩
  · exact ⟨x, by rwa [Moment.after, heq], hhash, hconsumed⟩
  · cases hreply
    change ∃ r ∈ w.pg.tables.passwordResets, r.tokenHash = hash ∧ r.consumedAt ≠ none
    rw [heq]
    refine consumed_effect (fun id hst => ?_) hx hhash hconsumed
    rw [hst] at hop
    exact hop rfl
  · exact ⟨x, by rwa [Moment.after, heq], hhash, hconsumed⟩

/-- Along a run of the family a consumed token stays consumed. -/
theorem Consumed.of_run {c c' : State} (run : Run (server env) passwords c c')
    (hsettled : c.settled = true) (h : Consumed hash c.moment) : Consumed hash c'.moment := by
  have huses : ∀ call, passwords.admits call →
      ((server env).program call).Uses fun op => op.kind ≠ .drop := by
    intro call hcall
    obtain ⟨hu, hdrop⟩ := uses_of_family hcall
    refine hu.mono fun op hop hkind => ?_
    rw [Within, hkind, hdrop] at hop
    cases hop
  refine run.invariant (J := fun c => Consumed hash c.moment) (fun _ _ _ _ ih => ih) ?_ h
  intro c₁ tid t op k ch r w run₁ ih ht hp _ he
  have hu := run₁.uses huses (Config.uses_of_settled hsettled) t (List.mem_of_getElem? ht)
  rw [hp] at hu
  exact ih.after hu.1 he

/-- A reset with a consumed token does not succeed. -/
theorem not_answered_of_consumed {c c' : State} {token password : String}
    (run : Run (server env) passwords c c') (hreplayed : c.Replayed (server env))
    (hsettled : c.settled = true) (h : Consumed (env.hmac token) c.moment)
    (htid : c.threads.length ≤ tid) :
    ¬ c'.answered tid (.consumeReset token password) (.ok (.ok ())) := by
  intro ha
  have hret := (run.replayed hreplayed).returns ha
  rw [server_program, handler] at hret
  obtain ⟨⟨x, hopen, hmem⟩, -⟩ := ResetOnce.returns_consumeReset hret
  obtain ⟨c₂, t, k, ch, w, run₂, -, -, -, he, -⟩ := run.executed_since hreplayed.1 htid hmem
  obtain ⟨r, hr, hhash, hconsumed⟩ := h.of_run run₂ hsettled
  obtain ⟨-, -, ⟨e, hx⟩ | hx⟩ := World.exec_query he
  · cases hx
  · have hfind := (Except.ok.inj hx).symm
    obtain ⟨hmem, hkey⟩ := Table.mem_of_find? hfind
    have hsame : r = x := by
      refine Table.eq_of_clash hr hmem (decide_eq_true (.inr ?_))
      rw [hhash, beq_iff_eq.mp hkey]
    rw [hsame] at hconsumed
    exact hconsumed hopen

end Proof

/-- A change by a reset voids all tokens of the user, and any change leaves consumed tokens void. -/
theorem voids_of_resetOrConsumed (env : Env) : Voids env resetOrConsumed := by
  intro w c₁ c run₁ hsettled run i userId call y hlength ha hchanged hcond r hr huser j token
    password hij hhash
  have hall : AllConsumed c₁.moment.world.pg.tables userId := by
    rcases hcond with ⟨token', password', rfl⟩ | hall
    · obtain ⟨rfl, r', hr', hhash', rfl⟩ := hchanged
      obtain ⟨c₀, c₂, hcount, hserved⟩ := run₁.served rfl (Nat.zero_le i) ha
      -- the configuration after the request is the one in which everything is answered
      obtain rfl : c₁ = c₂ := by
        refine hserved.after.eq_of_length hserved.done ?_
        rw [hlength, hserved.count, hcount]
      have halone := hserved.alone
      rw [server_program, handler] at halone
      exact allConsumed_of_consumeReset halone hr' hhash'
    · exact hall
  have hreplayed := run₁.run.replayed (Config.start_replayed w)
  refine not_answered_of_consumed run.run hreplayed hsettled ⟨r, hr, hhash, hall r hr huser⟩ ?_
  omega

/-! ## A token from before a change -/

/-- The user has a password and has asked for a reset. -/
def sampleWorld : World :=
  Scenario.world { Scenario.tables with
    credentials := Scenario.one
      { id := 11, credentialType := "password", secretData := some "old-password"
        credentialData := some "", createdAt := 0, updatedAt := 0, userId := 1 }
    passwordResets := Scenario.one Scenario.passwordReset }

/-- The user changes their password. -/
def change : List (Label Call Choice) :=
  .spawn (.changePassword 1 none "old-password" "new-password") :: Scenario.steps 0 10

/-- Then the token is used. -/
def useToken : List (Label Call Choice) :=
  .spawn (.consumeReset "reset-a" "third-password") :: Scenario.steps 1 11

def changed : (call : Call) → Ret call → Bool
  | .changePassword userId _ _ _, .ok (.ok ()) => userId == 1
  | _, _ => false

def tokenUsed : (call : Call) → Ret call → Bool
  | .consumeReset token _, .ok (.ok ()) => token == "reset-a"
  | _, _ => false

/-- A change by the owner leaves the token usable. -/
theorem token_survives_change : ¬ Voids Scenario.resetEnv fun _ _ _ => True := by
  intro h
  have hplay : (Config.start sampleWorld : State).serves (server Scenario.resetEnv) family
      Scenario.succeeds change (fun c₁ => c₁.settled && c₁.threads.length == 1 &&
        c₁.replied 0 changed &&
        c₁.moment.world.pg.tables.passwordResets.rows.contains Scenario.passwordReset &&
        c₁.serves (server Scenario.resetEnv) family Scenario.succeeds useToken fun c =>
          c.replied 1 tokenUsed) = true := by
    decide +kernel
  obtain ⟨c₁, run₁, htest⟩ := Config.serial_of_serves (R := passwords) (fun _ hcall => hcall)
    (fun _ _ _ _ _ => trivial) hplay
  simp only [Bool.and_eq_true, beq_iff_eq, List.contains_iff_mem] at htest
  obtain ⟨⟨⟨⟨hsettled, hlength⟩, hchanged⟩, hmem⟩, hlater⟩ := htest
  obtain ⟨c, run, hused⟩ := Config.serial_of_serves (R := passwords) (fun _ hcall => hcall)
    (fun _ _ _ _ _ => trivial) hlater
  obtain ⟨call, y, ha, hy⟩ := Config.answered_of_replied hchanged
  obtain ⟨call', y', ha', hy'⟩ := Config.answered_of_replied hused
  unfold changed at hy
  unfold tokenUsed at hy'
  split at hy
  · split at hy'
    · obtain rfl := beq_iff_eq.mp hy
      obtain rfl := beq_iff_eq.mp hy'
      exact h sampleWorld c₁ c run₁ hsettled run 0 1 _ _ hlength ha ⟨rfl, rfl⟩ trivial
        Scenario.passwordReset hmem rfl 1 _ _ Nat.zero_lt_one rfl ha'
    · cases hy'
  · cases hy

end ResetVoid

end AuthServer
