import AuthServer.Account.Identifiers
import AuthServer.Concurrent.Serial

/-!
# Account holders can log in

A login answers for an account whose password credential accepts the password, found by an
identifier: with an `@` by its email, otherwise by its username and only then by its email. What is
stored decides whether the holder of an account is found under both of their identifiers.
-/

namespace AuthServer

open Concurrent Handler Storage Identifiers UserRepository LoginService

namespace Holders

variable (env : Env)

/-- The requests through which accounts come into being and get their passwords. -/
def family : Call → Bool
  | .signup _ _ | .createUser _ _ | .verifyEmail _ _ | .requestReset _ | .consumeReset _ _
  | .changePassword _ _ _ _ => true
  | _ => false

/-- Argon2 accepts exactly the password that was hashed, and `LOWER` leaves what `to_lowercase`
returns. -/
structure Laws : Prop extends CaseLaws env where
  verify : ∀ password salt attempt,
    env.argon2Verify attempt (env.argon2Hash password salt).secretData
      (env.argon2Hash password salt).credentialData = true ↔ attempt = password
  lower : ∀ s, env.sqlLower (normal env s) = normal env s

/-- A credential stores a password. -/
def Hashes (c : Credential) (password : String) : Prop :=
  ∃ salt, c.secretData = some (env.argon2Hash password salt).secretData ∧
    c.credentialData = some (env.argon2Hash password salt).credentialData

/-- The credential is the password of an account. -/
def PasswordOf (c : Credential) (userId : Uuid) : Prop :=
  c.userId = userId ∧ c.credentialType = "password"

/-- The current password of an account. -/
def Current (t : Tables) (u : User) (password : String) : Prop :=
  ∃ c ∈ t.credentials, PasswordOf c u.id ∧ Hashes env c password

/-- `authenticate` returns an account. -/
def LogsIn (m : Instant) (identifier password : String) (u : User) : Prop :=
  ∀ tid, (∃ m', Alone (server env) frozen tid
      (LoginService.authenticate env (some identifier) (some password)).run m (.ok (some u)) m') ∧
    ∀ y m', Alone (server env) {} tid
      (LoginService.authenticate env (some identifier) (some password)).run m (.ok y) m' → y = some u

/-- Logins are sound and complete. -/
structure LoginCorrect (m : Instant) : Prop where
  /-- The holder of an account logs in with either identifier. -/
  complete : ∀ u ∈ m.world.pg.tables.users, u.enabled = true → u.emailVerified = true →
    ∀ password, Current env m.world.pg.tables u password →
      LogsIn env m u.email password u ∧ LogsIn env m u.username password u
  /-- Whoever logs in is the holder of an account. -/
  sound : ∀ tid identifier password u m', Alone (server env) {} tid
      (LoginService.authenticate env (some identifier) (some password)).run m (.ok (some u)) m' →
    u ∈ m.world.pg.tables.users ∧ u.enabled = true ∧ u.emailVerified = true ∧
    Current env m.world.pg.tables u password ∧
    (Text.trim identifier = u.username ∨ normal env identifier = normal env u.email)

/-- Each account has at most one password, which is stored as a hash. -/
structure Passwords (t : Tables) : Prop where
  owned : ∀ c ∈ t.credentials, t.hasUser c.userId = true
  single : ∀ c ∈ t.credentials, ∀ c' ∈ t.credentials, ∀ id, PasswordOf c id → PasswordOf c' id →
    c = c'
  hashed : ∀ c ∈ t.credentials, ∀ id, PasswordOf c id → ∃ password, password ≠ "" ∧ Hashes env c password

/-- Identifiers under which an account is found. -/
structure Plain (u : User) : Prop where
  trimmed : Text.trim u.username = u.username
  named : u.username ≠ ""
  username : Text.containsChar u.username '@' = false
  email : Text.containsChar u.email '@' = true

/-- The accounts at the start. -/
structure Start (w : World) : Prop where
  passwords : Passwords env w.pg.tables
  emails : ∀ u ∈ w.pg.tables.users, normal env u.email = u.email
  plain : ∀ u ∈ w.pg.tables.users, Plain u

/-- In the serial runs of a regime logins are sound and complete. -/
def Correct (R : Rules) : Prop :=
  ∀ w, Start env w → ∀ c, Serial (server env) R (Config.start w) c → c.settled = true →
    LoginCorrect env c.moment

/-- The requests of the family. -/
def open_ : Rules where
  admits call := family call = true

/-- Accounts are asked for with a trimmed username without `@` and an email with one. -/
def plain : Rules where
  admits call := family call = true ∧ (Identifiers.family call = true →
    Text.trim (requested call) = requested call ∧
    Text.containsChar (requested call) '@' = false ∧
    Text.containsChar (normal env (requestedEmail call)) '@' = true)

section Answers

variable {env : Env} {t : Tables}

variable {u : User} {c : Credential}

/-- The password of an account is found. -/
theorem passwordOf_eq (hp : Passwords env t) (hc : c ∈ t.credentials) (hu : PasswordOf c u.id)
    : passwordOf t u = some c := by
  have hkey : ∀ d : Credential, (d.userId == u.id && d.credentialType == "password") = true ↔
      PasswordOf d u.id := by
    intro d
    simp [PasswordOf]
  cases hfind : passwordOf t u with
  | none =>
    have hnot := Table.find?_eq_none.mp hfind c hc
    rw [(hkey c).mpr hu] at hnot
    cases hnot
  | some d =>
    obtain ⟨hd, hkeyd⟩ := Table.mem_of_find? hfind
    rw [hp.single c hc d hd u.id hu ((hkey d).mp hkeyd)]

theorem mem_of_passwordOf (h : passwordOf t u = some c) :
    c ∈ t.credentials ∧ PasswordOf c u.id := by
  obtain ⟨hc, hkey⟩ := Table.mem_of_find? h
  rw [Bool.and_eq_true, beq_iff_eq, beq_iff_eq] at hkey
  exact ⟨hc, hkey⟩

/-- A credential accepts the password it stores and no other one. -/
theorem verify_iff (hlaws : Laws env) {password attempt : String} (hc : Hashes env c password) :
    env.argon2Verify attempt (c.secretData.getD "") (c.credentialData.getD "") = true ↔
      attempt = password := by
  obtain ⟨salt, hsecret, hdata⟩ := hc
  rw [hsecret, hdata]
  exact hlaws.verify password salt attempt

theorem admits_of_current (hlaws : Laws env) (hp : Passwords env t) {password : String}
    (henabled : u.enabled = true) (hverified : u.emailVerified = true)
    (hc : Current env t u password) : admits env t u password = true := by
  obtain ⟨c, hc, hu, hash⟩ := hc
  rw [admits, passwordOf_eq hp hc hu, Option.any_some, henabled, hverified,
    (verify_iff hlaws hash).mpr rfl]
  rfl

theorem ne_empty_of_current (hlaws : Laws env) (hp : Passwords env t) {password : String}
    (hc : Current env t u password) : password ≠ "" := by
  obtain ⟨c, hc, hu, hash⟩ := hc
  obtain ⟨password', hne, hash'⟩ := hp.hashed c hc u.id hu
  rwa [(verify_iff hlaws hash').mp ((verify_iff hlaws hash).mpr rfl)]

/-- An account is found by its email. -/
theorem byEmail_eq (hlaws : Laws env) (hemails : ∀ u ∈ t.users, normal env u.email = u.email)
    (hu : u ∈ t.users) {identifier : String} (hid : normal env identifier = u.email)
    (hne : u.email ≠ "") : byEmail env t identifier = some u := by
  have hlower : ∀ v ∈ t.users, env.sqlLower v.email = v.email := by
    intro v hv
    rw [← hemails v hv]
    exact hlaws.lower v.email
  have hfind : (t.users.find? fun v => env.sqlLower v.email == u.email) = some u := by
    cases hfound : t.users.find? fun v => env.sqlLower v.email == u.email with
    | none =>
      have hnot := Table.find?_eq_none.mp hfound u hu
      rw [hlower u hu, beq_self_eq_true] at hnot
      cases hnot
    | some v =>
      obtain ⟨hv, hkey⟩ := Table.mem_of_find? hfound
      rw [hlower v hv, beq_iff_eq] at hkey
      exact congrArg some (Table.eq_of_clash hv hu (by simp [Keyed.clash, hkey]))
  have hnormal : env.toLowercase (Text.trim identifier) = u.email := hid
  unfold byEmail
  rw [hnormal, if_neg hne]
  exact hfind

/-- An account is found by its username. -/
theorem byUsername_eq (hu : u ∈ t.users) :
    (t.users.find? fun v => v.username == u.username) = some u := by
  have hunique : ∀ a b : User, (a.username == u.username) = true → (b.username == u.username) = true →
      Keyed.clash a b = true := by
    intro a b ha hb
    rw [beq_iff_eq] at ha hb
    simp [Keyed.clash, ha, hb]
  exact (Table.find?_eq_some hunique).mpr ⟨hu, beq_self_eq_true _⟩

theorem answer_eq_some {identifier password : String} :
    answer env t (some identifier) (some password) = some u ↔
      Text.trim identifier ≠ "" ∧ password ≠ "" ∧
      byIdentifier env t (Text.trim identifier) = some u ∧
      admits env t u password = true := by
  unfold answer
  simp only [Option.map_some, Option.bind_eq_some_iff, Option.filter_eq_some_iff,
    Option.some.injEq, bne_iff_ne]
  constructor
  · rintro ⟨i, ⟨rfl, hi⟩, p, ⟨rfl, hp⟩, hfound, hadmits⟩
    exact ⟨hi, hp, hfound, hadmits⟩
  · rintro ⟨hi, hp, hfound, hadmits⟩
    exact ⟨_, ⟨rfl, hi⟩, _, ⟨rfl, hp⟩, hfound, hadmits⟩

/-- What decides a login. -/
theorem logsIn_of_answer {m : Instant} {identifier password : String}
    (h : answer env m.world.pg.tables (some identifier) (some password) = some u) :
    LogsIn env m identifier password u := by
  intro tid
  constructor
  · rw [← h]
    exact frozen_authenticate env tid m _ _
  · intro y m' ha
    rw [(alone_authenticate ha).1, h]

theorem ne_empty_of_at {s : String} (h : Text.containsChar s '@' = true) : s ≠ "" := by
  rintro rfl
  cases h

/-- The tables decide: identifiers that are stored plainly are found. -/
theorem loginCorrect_of_tables (hlaws : Laws env) {m : Instant}
    (hp : Passwords env m.world.pg.tables)
    (hemails : ∀ u ∈ m.world.pg.tables.users, normal env u.email = u.email)
    (hplain : ∀ u ∈ m.world.pg.tables.users, Plain u) : LoginCorrect env m where
  complete u hu henabled hverified password hcurrent := by
    have hadmits := admits_of_current hlaws hp henabled hverified hcurrent
    have hne := ne_empty_of_current hlaws hp hcurrent
    have hu' := hplain u hu
    constructor
    · -- the email has an `@`, which lower-casing leaves
      have hat : Text.containsChar (Text.trim u.email) '@' = true := by
        rw [← hlaws.at_sign]
        change Text.containsChar (normal env u.email) '@' = true
        rw [hemails u hu]
        exact hu'.email
      refine logsIn_of_answer (answer_eq_some.mpr ⟨ne_empty_of_at hat, hne, ?_, hadmits⟩)
      rw [byIdentifier, if_pos hat]
      refine byEmail_eq hlaws hemails hu ?_ (ne_empty_of_at hu'.email)
      rw [normal_trim, hemails u hu]
    · refine logsIn_of_answer (answer_eq_some.mpr ?_)
      rw [hu'.trimmed]
      refine ⟨hu'.named, hne, ?_, hadmits⟩
      rw [byIdentifier, hu'.username, if_neg Bool.false_ne_true, byUsername_eq hu]
      rfl
  sound tid identifier password u m' ha := by
    obtain ⟨hid, hpw, hfound, hadmits⟩ := answer_eq_some.mp (alone_authenticate ha).1.symm
    have hbyEmail : byEmail env m.world.pg.tables (Text.trim identifier) = some u →
        u ∈ m.world.pg.tables.users ∧ normal env identifier = normal env u.email := by
      intro hfound
      unfold byEmail at hfound
      dsimp only at hfound
      split at hfound
      · cases hfound
      · obtain ⟨hu, hkey⟩ := Table.mem_of_find? hfound
        refine ⟨hu, ?_⟩
        rw [← hemails u hu, hlaws.lower, beq_iff_eq] at hkey
        rw [hkey, trim_trim]
        rfl
    have hwho : u ∈ m.world.pg.tables.users ∧
        (Text.trim identifier = u.username ∨ normal env identifier = normal env u.email) := by
      unfold byIdentifier at hfound
      split at hfound
      · exact (hbyEmail hfound).imp id .inr
      · rcases Option.or_eq_some_iff.mp hfound with hname | ⟨-, hemail⟩
        · obtain ⟨hu, hkey⟩ := Table.mem_of_find? hname
          exact ⟨hu, .inl (beq_iff_eq.mp hkey).symm⟩
        · exact (hbyEmail hemail).imp id .inr
    obtain ⟨c, hc, hok⟩ := (Option.any_eq_true _ _).mp hadmits
    rw [Bool.and_eq_true, Bool.and_eq_true] at hok
    obtain ⟨hmem, howner⟩ := mem_of_passwordOf hc
    obtain ⟨password', -, hash⟩ := hp.hashed c hmem u.id howner
    rw [← (verify_iff hlaws hash).mp hok.1.1] at hash
    exact ⟨hwho.1, hok.1.2, hok.2, ⟨c, hmem, howner, hash⟩, hwho.2⟩

end Answers

/-! ## What requests do to passwords -/

section Requests

variable {α β : Type} {env : Env} {R : Rules} {t t' : Tables}

/-- A handler that is executed alone keeps the passwords in order. -/
def Holds (env : Env) (R : Rules) (h : Handler α) : Prop :=
  ∀ tid m y m', Passwords env m.world.pg.tables → Alone (server env) R tid h.run m y m' →
    Passwords env m'.world.pg.tables

theorem holds_pure (x : α) : Holds env R (pure x : Handler α) := by
  intro tid m y m' hp ha
  rw [ha.ret.2]
  exact hp

variable {h : Handler α} {c : Credential} {u : User} {tid : Nat} {m m' : Instant}

theorem holds_bind {f : α → Handler β} (hh : Holds env R h) (hf : ∀ a, Holds env R (f a))
    : Holds env R (h >>= f) := by
  intro tid m y m' hp ha
  rcases ha.bindE with ⟨e, rfl, hstop⟩ | ⟨a, m₁, hfirst, ha⟩
  · exact hh tid m _ m' hp hstop
  · exact hf a tid m₁ y m' (hh tid m _ m₁ hp hfirst) ha

theorem holds_if {c : Prop} [Decidable c] {h h' : Handler α} (h₁ : c → Holds env R h)
    (h₂ : ¬ c → Holds env R h') : Holds env R (if c then h else h') := by
  by_cases hc : c
  · rw [if_pos hc]
    exact h₁ hc
  · rw [if_neg hc]
    exact h₂ hc

/-- The statements that write accounts or their credentials. -/
def writes (st : Stmt) : Bool := st.writesUsers || st.writesCredentials

theorem holds_uses (hu : h.Uses fun op => op.isStmt writes = false) :
    Holds env R h := by
  intro tid m y m' hp ha
  have hsame : m'.world.pg.tables.users = m.world.pg.tables.users ∧
      m'.world.pg.tables.credentials = m.world.pg.tables.credentials := by
    refine alone_keeps (J := fun m₁ => m₁.world.pg.tables.users = m.world.pg.tables.users ∧
      m₁.world.pg.tables.credentials = m.world.pg.tables.credentials) hu ha ?_ ⟨rfl, rfl⟩
    rintro m₁ op ch r w ⟨husers, hcredentials⟩ hop - he
    have hst : ∀ st, op = .sql (.stmt st) → st.writesUsers = false ∧ st.writesCredentials = false := by
      rintro st rfl
      exact Bool.or_eq_false_iff.mp hop
    constructor
    · refine Eq.trans (World.exec_frame Tables.users (fun _ _ => rfl) he fun st h => ?_) husers
      exact Stmt.users_effect (hst st h).1 _ _
    · refine Eq.trans (World.exec_frame Tables.credentials (fun _ _ => rfl) he fun st h => ?_)
        hcredentials
      exact Stmt.credentials_effect (hst st h).2 _ _
  obtain ⟨husers, hcredentials⟩ := hsame
  constructor
  · unfold Tables.hasUser
    rw [husers, hcredentials]
    exact hp.owned
  · rw [hcredentials]
    exact hp.single
  · rw [hcredentials]
    exact hp.hashed

/-- The kinds of statements that write users or credentials. -/
theorem kind_of_writes (st : Stmt) (h : writes st = true) :
    [.enrol, .profile, .confirm, .credential, .drop].contains st.kind = true := by
  cases st with
  | insertUser | updateUser | signup | verifyEmail | insertCredential | updateCredential
  | deleteUser => rfl
  | _ => cases h

theorem holds_within {ks : List Kind} (hu : h.Uses (Within ks))
    (hks : [.enrol, .profile, .confirm, .credential, .drop].any ks.contains = false) :
    Holds env R h :=
  holds_uses (hu.not_isStmt kind_of_writes hks)

theorem holds_perform {op : Op} (h : op.isStmt writes = false) : Holds env R (perform op) :=
  holds_uses (uses_perform h)

theorem holds_sql {q : Sql} (h : (Op.sql q).isStmt writes = false) : Holds env R (sql q) :=
  holds_uses (uses_sql h)

/-! ### New accounts and new passwords -/

/-- A password is added for an account that has none. -/
theorem Passwords.insert (hp : Passwords env t) {credentials : Table Credential}
    (hins : t.credentials.insert c = some credentials) (hcredentials : t'.credentials = credentials)
    (husers : ∀ id, t.hasUser id = true → t'.hasUser id = true)
    (howner : t'.hasUser c.userId = true) (hnew : ∀ c' ∈ t.credentials, ¬ PasswordOf c' c.userId)
    (hash : ∃ password, password ≠ "" ∧ Hashes env c password) : Passwords env t' := by
  have hmem : ∀ d, d ∈ t'.credentials ↔ d ∈ t.credentials ∨ d = c := by
    intro d
    rw [hcredentials]
    exact Table.mem_insert hins
  constructor
  · intro d hd
    rcases (hmem d).mp hd with hd | rfl
    · exact husers _ (hp.owned d hd)
    · exact howner
  · intro d hd d' hd' id hid hid'
    rcases (hmem d).mp hd with hd | rfl
    · rcases (hmem d').mp hd' with hd' | rfl
      · exact hp.single d hd d' hd' id hid hid'
      · rw [← hid'.1] at hid
        exact absurd hid (hnew d hd)
    · rcases (hmem d').mp hd' with hd' | rfl
      · rw [← hid.1] at hid'
        exact absurd hid' (hnew d' hd')
      · rfl
  · intro d hd id hid
    rcases (hmem d).mp hd with hd | rfl
    · exact hp.hashed d hd id hid
    · exact hash

theorem hasUser_iff {id : Uuid} : t.hasUser id = true ↔ ∃ u ∈ t.users, u.id = id := by
  simp [Tables.hasUser, Table.mem_rows]

/-- An account that has just been added has no password. -/
theorem Passwords.new (hp : Passwords env t) {users : Table User}
    (hins : t.users.insert u = some users) : ∀ c ∈ t.credentials, ¬ PasswordOf c u.id := by
  intro c hc hu
  obtain ⟨v, hv, hid⟩ := hasUser_iff.mp (hp.owned c hc)
  have hclash := Table.clash_of_insert hins hv
  simp [Keyed.clash, hid, hu.1] at hclash

theorem hasUser_of_insert {u : User} {users : Table User} (hins : t.users.insert u = some users)
    (husers : t'.users = users) :
    t'.hasUser u.id = true ∧ ∀ id, t.hasUser id = true → t'.hasUser id = true := by
  constructor
  · refine hasUser_iff.mpr ⟨u, ?_, rfl⟩
    rw [husers]
    exact (Table.mem_insert hins).mpr (.inr rfl)
  · intro id hid
    obtain ⟨v, hv, hid⟩ := hasUser_iff.mp hid
    refine hasUser_iff.mpr ⟨v, ?_, hid⟩
    rw [husers]
    exact (Table.mem_insert hins).mpr (.inl hv)

theorem hashes_argon2 {password salt : String}
    (hsecret : c.secretData = some (env.argon2Hash password salt).secretData)
    (hdata : c.credentialData = some (env.argon2Hash password salt).credentialData)
    (hne : password ≠ "") : ∃ password, password ≠ "" ∧ Hashes env c password :=
  ⟨password, hne, salt, hsecret, hdata⟩

/-- The transaction of a signup adds an account with its password. -/
theorem holds_signupStmt {roleId : Option Uuid} {v : EmailVerification}
    (hash : ∃ password, password ≠ "" ∧ Hashes env c password) :
    Holds env R (trySql (.stmt (.signup u c roleId v))) := by
  intro tid m y m' hp ha
  obtain ⟨ch, r, w, -, he, -, rfl⟩ := alone_perform.mp ha
  change Passwords env w.pg.tables
  obtain ⟨-, ⟨-, hpg⟩ | hst⟩ := World.exec_stmt he
  · rw [hpg]
    exact hp
  obtain ⟨-, hpg⟩ | ⟨-, users, credentials, verifications, husers, hcredentials, -, ⟨howner, -⟩, hpg⟩ :=
    Postgres.signup_cases hst
  · rw [hpg]
    exact hp
  · rw [hpg]
    obtain ⟨hself, hrest⟩ := @hasUser_of_insert m.world.pg.tables (Postgres.signedUp
      m.world.pg.tables users credentials verifications u.id roleId) u users husers rfl
    refine hp.insert hcredentials rfl hrest (howner ▸ hself) ?_ hash
    rw [howner]
    exact hp.new husers

/-- A password is inserted for an account that has none. -/
theorem passwords_insertCredential {y : Except Failure Unit} (hp : Passwords env m.world.pg.tables)
    (hnew : ∀ c' ∈ m.world.pg.tables.credentials, ¬ PasswordOf c' c.userId)
    (hash : ∃ password, password ≠ "" ∧ Hashes env c password)
    (ha : Alone (server env) R tid (stmt (.insertCredential c)).run m y m') :
    Passwords env m'.world.pg.tables := by
  obtain ⟨ch, r, w, -, he, rfl, -⟩ := alone_sql_cases ha
  change Passwords env w.pg.tables
  obtain ⟨-, ⟨-, hpg⟩ | hst⟩ := World.exec_stmt he
  · rw [hpg]
    exact hp
  obtain ⟨-, hpg⟩ | ⟨-, howner, credentials, hins, hpg⟩ := Postgres.insertRow_cases hst
  · rw [hpg]
    exact hp
  · rw [hpg]
    exact hp.insert hins rfl (fun _ h => h) howner hnew hash

/-- The password of an account is replaced. -/
theorem passwords_updateCredential {c c' : Credential} {y : Except Failure (Option Credential)}
    (hp : Passwords env m.world.pg.tables) (hc : c ∈ m.world.pg.tables.credentials)
    (hid : c'.id = c.id) (huser : c'.userId = c.userId)
    (htype : c'.credentialType = c.credentialType)
    (hash : ∃ password, password ≠ "" ∧ Hashes env c' password)
    (ha : Alone (server env) R tid (stmt (.updateCredential c')).run m y m') :
    Passwords env m'.world.pg.tables := by
  obtain ⟨ch, r, w, -, he, rfl, -⟩ := alone_sql_cases ha
  change Passwords env w.pg.tables
  -- each row comes from one with the same owner and type, and the changed one is `c`
  have hrows : ∀ {d}, d ∈ m.world.pg.tables.credentials.update (fun r => r.id == c'.id) c'.setColumns →
      ∃ d₀ ∈ m.world.pg.tables.credentials, d.userId = d₀.userId ∧
        d.credentialType = d₀.credentialType ∧
        d = (if d₀.id == c'.id then c'.setColumns.apply d₀ else d₀) ∧
        (d = d₀ ∨ Hashes env d = Hashes env c') := by
    intro d hd
    obtain ⟨d₀, hd₀, rfl⟩ := Table.mem_update.mp hd
    refine ⟨d₀, hd₀, ?_⟩
    by_cases hkey : (d₀.id == c'.id) = true
    · have heq : d₀ = c := Table.eq_of_clash hd₀ hc (by
        rw [beq_iff_eq, hid] at hkey
        simp [Keyed.clash, hkey])
      rw [if_pos hkey]
      exact ⟨huser.trans (heq ▸ rfl), htype.trans (heq ▸ rfl), rfl, .inr rfl⟩
    · rw [if_neg hkey]
      exact ⟨rfl, rfl, rfl, .inl rfl⟩
  have hupdated : Passwords env { m.world.pg.tables with
      credentials := m.world.pg.tables.credentials.update (fun r => r.id == c'.id) c'.setColumns } := by
    constructor
    · intro d hd
      obtain ⟨d₀, hd₀, huser, -⟩ := hrows hd
      rw [huser]
      exact hp.owned d₀ hd₀
    · intro d hd d' hd' id hpw hpw'
      obtain ⟨d₀, hd₀, huser₀, htype₀, heq, -⟩ := hrows hd
      obtain ⟨d₁, hd₁, huser₁, htype₁, heq', -⟩ := hrows hd'
      have hsame : d₀ = d₁ := hp.single d₀ hd₀ d₁ hd₁ id ⟨huser₀ ▸ hpw.1, htype₀ ▸ hpw.2⟩
        ⟨huser₁ ▸ hpw'.1, htype₁ ▸ hpw'.2⟩
      rw [heq, heq', hsame]
    · intro d hd id hpw
      obtain ⟨d₀, hd₀, huser₀, htype₀, -, rfl | hsame⟩ := hrows hd
      · exact hp.hashed d hd₀ id hpw
      · rw [hsame]
        exact hash
  rcases World.exec_tables he with hsame | ⟨st, x, hreply, heq⟩ | ⟨hcommit, -⟩
  · rw [hsame]
    exact hp
  · cases hreply
    rw [heq, Stmt.effect]
    split
    · exact hupdated
    · exact hp
  · cases hcommit

theorem holds_rotatePassword {userId : Uuid} {newPassword : String} (hne : newPassword ≠ "") :
    Holds env R (PasswordFlow.rotatePassword env userId newPassword) := by
  unfold PasswordFlow.rotatePassword
  refine holds_bind (holds_perform rfl) fun salt => holds_bind (holds_perform rfl) fun at_ => ?_
  intro tid m y m' hp ha
  rcases ha.bindE with ⟨e, rfl, hstop⟩ | ⟨found, m₁, hquery, ha⟩
  · exact holds_sql rfl tid m _ m' hp hstop
  obtain ⟨hfound, hpg, -⟩ := alone_query hquery
  change found = m.world.pg.tables.credentials.find? _ at hfound
  rw [← hpg] at hp hfound
  cases found with
  | some c =>
    obtain ⟨hc, hkey⟩ := Table.mem_of_find? hfound.symm
    have hwrite : ∀ {y m'}, Alone (server env) R tid (stmt (.updateCredential { c with
          secretData := some (env.argon2Hash newPassword salt).secretData
          credentialData := some (env.argon2Hash newPassword salt).credentialData
          updatedAt := at_ })).run m₁ y m' → Passwords env m'.world.pg.tables :=
      passwords_updateCredential hp hc rfl rfl rfl (hashes_argon2 rfl rfl hne)
    rcases ha.bindE with ⟨e, rfl, hstop⟩ | ⟨_, m₂, hupdate, ha⟩
    · exact hwrite hstop
    · rw [ha.ret.2]
      exact hwrite hupdate
  | none =>
    rcases ha.bindE with ⟨e, rfl, hstop⟩ | ⟨id, m₂, hdraw, ha⟩
    · exact holds_perform rfl tid m₁ _ m' hp hstop
    have hsame : m₂.world.pg = m₁.world.pg := by
      obtain ⟨ch, r, w, -, he, -, rfl⟩ := alone_perform.mp hdraw
      exact (World.exec_reading rfl he).1
    rw [← hsame] at hp hfound
    refine passwords_insertCredential hp (fun c hc hpw => ?_) (hashes_argon2 rfl rfl hne) ha
    have hnot := Table.find?_eq_none.mp hfound.symm c hc
    rw [hpw.1, hpw.2, beq_self_eq_true, beq_self_eq_true] at hnot
    cases hnot

/-- An account is added; it has no password yet. -/
theorem passwords_insertUser {y : Except Failure Unit} (hp : Passwords env m.world.pg.tables)
    (ha : Alone (server env) R tid (stmt (.insertUser u)).run m y m') :
    Passwords env m'.world.pg.tables ∧
      (y = .ok () → ∀ c ∈ m'.world.pg.tables.credentials, ¬ PasswordOf c u.id) := by
  obtain ⟨ch, r, w, -, he, rfl, hy⟩ := alone_sql_cases ha
  change Passwords env w.pg.tables ∧ (_ → ∀ c ∈ w.pg.tables.credentials, _)
  have hfailed : (∃ e, r = .error e) ∧ w.pg = m.world.pg → Passwords env w.pg.tables ∧
      (y = .ok () → ∀ c ∈ w.pg.tables.credentials, ¬ PasswordOf c u.id) := by
    rintro ⟨⟨e, rfl⟩, hpg⟩
    rw [hpg]
    refine ⟨hp, ?_⟩
    rintro rfl
    obtain ⟨e', -, hy⟩ | ⟨x, hr, -⟩ := hy
    · cases hy
    · cases hr
  obtain ⟨-, hfail | hst⟩ := World.exec_stmt he
  · exact hfailed hfail
  obtain hfail | ⟨-, -, users, hins, hpg⟩ := Postgres.insertRow_cases hst
  · exact hfailed hfail
  · rw [hpg]
    obtain ⟨-, hrest⟩ :=
      @hasUser_of_insert m.world.pg.tables { m.world.pg.tables with users } _ users hins rfl
    exact ⟨⟨fun c hc => hrest _ (hp.owned c hc), hp.single, hp.hashed⟩, fun _ => hp.new hins⟩

/-- An account is added, and then its password. -/
theorem holds_insertAccount {body : UserCreateRequest} {email username password : String}
    (hne : password ≠ "") :
    Holds env R (AdminResource.insertAccount env body email username password) := by
  unfold AdminResource.insertAccount
  refine holds_bind (holds_perform rfl) fun at_ => holds_bind (holds_perform rfl) fun id => ?_
  intro tid m y m' hp ha
  rcases ha.bindE with ⟨e, rfl, hstop⟩ | ⟨_, m₁, hinsert, ha⟩
  · exact (passwords_insertUser hp hstop).1
  obtain ⟨hp, hnew⟩ := passwords_insertUser hp hinsert
  replace hnew := hnew rfl
  -- the draws in between leave the tables
  have hdraws : ∀ {op : Op} {y m₁ m₂}, op.reading = true →
      Alone (server env) R tid (perform op).run m₁ y m₂ → m₂.world.pg = m₁.world.pg := by
    intro op y m₁ m₂ hop ha
    obtain ⟨ch, r, w, -, he, -, rfl⟩ := alone_perform.mp ha
    exact (World.exec_reading hop he).1
  rcases ha.bindE with ⟨e, rfl, hstop⟩ | ⟨salt, m₂, hsalt, ha⟩
  · rw [hdraws rfl hstop]
    exact hp
  rw [← hdraws rfl hsalt] at hp hnew
  rcases ha.bindE with ⟨e, rfl, hstop⟩ | ⟨credentialId, m₃, hdraw, ha⟩
  · rw [hdraws rfl hstop]
    exact hp
  rw [← hdraws rfl hdraw] at hp hnew
  rcases ha.bindE with ⟨e, rfl, hstop⟩ | ⟨_, m₄, hcredential, ha⟩
  · exact passwords_insertCredential hp hnew (hashes_argon2 rfl rfl hne) hstop
  have hp := passwords_insertCredential hp hnew (hashes_argon2 rfl rfl hne) hcredential
  -- the role assignment is no account statement
  refine holds_bind (holds_sql rfl) (fun role => ?_) tid m₄ y m' hp ha
  cases role with
  | none => exact holds_pure _
  | some role => exact holds_bind (holds_uses (uses_ignore (uses_stmt rfl))) fun _ => holds_pure _

theorem holds_verifyEmailStmt {userId id : Uuid} :
    Holds env R (trySql (.stmt (.verifyEmail userId id))) := by
  intro tid m y m' hp ha
  obtain ⟨ch, r, w, -, he, -, rfl⟩ := alone_perform.mp ha
  change Passwords env w.pg.tables
  rcases World.exec_tables he with hsame | ⟨st, x, hreply, heq⟩ | ⟨hcommit, -⟩
  · rw [hsame]
    exact hp
  · cases hreply
    rw [heq]
    refine ⟨fun c hc => ?_, hp.single, hp.hashed⟩
    obtain ⟨u, hu, hid⟩ := hasUser_iff.mp (hp.owned c hc)
    refine hasUser_iff.mpr ⟨_, Table.mem_update.mpr ⟨u, hu, rfl⟩, ?_⟩
    split
    · exact hid
    · exact hid
  · cases hcommit

theorem ne_empty_of_size {s : String} (h : ¬ s.utf8ByteSize < 8) : s ≠ "" := by
  rintro rfl
  exact h (by decide)

theorem holds_signup (req : SignupRequest) : Holds env R (SignupFlow.signup env req) := by
  unfold SignupFlow.signup SignupFlow.register
  refine holds_if (fun _ => holds_pure _) fun _ => holds_if (fun _ => holds_pure _) fun hlong => ?_
  refine holds_bind (holds_perform rfl) fun _ => holds_bind (holds_perform rfl) fun salt => ?_
  refine holds_bind (holds_perform rfl) fun _ => ?_
  split
  · exact holds_pure _
  · exact holds_pure _
  refine holds_bind (holds_perform rfl) fun _ => ?_
  split
  · exact holds_pure _
  · exact holds_pure _
  refine holds_bind (holds_perform rfl) fun _ => holds_bind (holds_perform rfl) fun _ => ?_
  refine holds_bind (holds_perform rfl) fun _ => holds_bind (holds_perform rfl) fun _ => ?_
  refine holds_bind (holds_perform rfl) fun _ => holds_bind (holds_signupStmt ?_) fun _ => ?_
  · exact hashes_argon2 rfl rfl (ne_empty_of_size hlong)
  split
  · exact holds_pure _
  · exact holds_pure _

theorem holds_verifyEmail (token : String) : Holds env R (SignupFlow.verifyEmail env token) := by
  unfold SignupFlow.verifyEmail
  refine holds_if (fun _ => holds_pure _) fun _ => holds_bind (holds_perform rfl) fun _ => ?_
  split
  · exact holds_pure _
  · exact holds_pure _
  refine holds_if (fun _ => holds_pure _) fun _ => holds_bind (holds_perform rfl) fun _ => ?_
  refine holds_if (fun _ => holds_pure _) fun _ => holds_bind holds_verifyEmailStmt fun _ => ?_
  split
  · exact holds_pure _
  · exact holds_pure _

theorem holds_createUser (token : Option String) (body : UserCreateRequest) :
    Holds env R (AdminResource.createUser env token body) := by
  unfold AdminResource.createUser
  refine holds_bind (holds_within Footprint.uses rfl) fun _ => ?_
  split
  · exact holds_pure _
  refine holds_if (fun _ => holds_pure _) fun hfilled => ?_
  refine holds_bind (holds_within Footprint.uses rfl) fun _ => ?_
  split
  · exact holds_pure _
  refine holds_bind (holds_sql rfl) fun _ => ?_
  split
  · exact holds_pure _
  refine holds_bind (holds_insertAccount ?_) fun _ => holds_bind (holds_sql rfl) fun _ => holds_pure _
  exact ne_empty_of_size fun hshort => hfilled (.inr (.inr hshort))

theorem holds_consumeReset (token newPassword : String) :
    Holds env R (PasswordFlow.consumeReset env token newPassword) := by
  unfold PasswordFlow.consumeReset
  refine holds_if (fun _ => holds_pure _) fun hlong => holds_if (fun _ => holds_pure _) fun _ => ?_
  refine holds_bind (holds_sql rfl) fun _ => ?_
  split
  · exact holds_pure _
  refine holds_bind (holds_perform rfl) fun _ => holds_if (fun _ => holds_pure _) fun _ => ?_
  refine holds_bind (holds_rotatePassword (ne_empty_of_size hlong)) fun _ => ?_
  refine holds_bind (holds_sql rfl) fun _ => holds_bind (holds_sql rfl) fun _ => ?_
  exact holds_bind (holds_within Footprint.uses rfl) fun _ =>
    holds_pure _

theorem holds_changePassword (userId : Uuid) (sessionId : Option Uuid) (old new : String) :
    Holds env R (PasswordFlow.changePassword env userId sessionId old new) := by
  unfold PasswordFlow.changePassword
  refine holds_if (fun _ => holds_pure _) fun hlong => holds_bind (holds_sql rfl) fun _ => ?_
  split
  · exact holds_pure _
  refine holds_bind (holds_sql rfl) fun _ => ?_
  split
  · exact holds_pure _
  refine holds_if (fun _ => holds_pure _) fun _ => ?_
  refine holds_bind (holds_rotatePassword (ne_empty_of_size hlong)) fun _ => ?_
  cases sessionId with
  | some sid =>
    exact holds_bind (holds_within Footprint.uses rfl)
      fun _ => holds_pure _
  | none =>
    exact holds_bind (holds_within Footprint.uses rfl)
      fun _ => holds_pure _

/-- Every request of the family keeps the passwords in order. -/
theorem holds_handler {call : Call} (hcall : family call = true) :
    Holds env R (handler env call) := by
  cases call with
  | signup req body =>
    exact holds_bind (holds_within Footprint.uses rfl) fun _ => holds_signup body
  | verifyEmail req token =>
    exact holds_bind (holds_within Footprint.uses rfl) fun _ => holds_verifyEmail _
  | createUser token body => exact holds_createUser token body
  | requestReset => exact holds_within (handler_uses env _) rfl
  | consumeReset token new => exact holds_consumeReset token new
  | changePassword userId sid old new => exact holds_changePassword userId sid old new
  | _ => cases hcall

end Requests

/-! ## Identifiers of new accounts -/

section Creation

variable {env : Env} {P : User → Prop}

/-- Only signups and `create_user` create accounts. -/
theorem uses_program_family {call : Call} (hcall : family call = true)
    (h : Identifiers.family call = true → ∀ u : User, u.email = normal env (requestedEmail call) →
      u.username = requested call → Text.trim u.username ≠ "" → P u) :
    ((server env).program call).Uses (Creates P) := by
  cases call with
  | signup req body => exact uses_family rfl (h rfl)
  | createUser token body => exact uses_family rfl (h rfl)
  | verifyEmail | requestReset | consumeReset | changePassword =>
    exact uses_program (uses_creates (handler_uses env _) rfl)
  | _ => cases hcall

variable {w₀ : World} {c : State}

/-- Emails are stored trimmed and in lower case. -/
theorem emails_of_family (hlaws : CaseLaws env) (run : Run (server env) (plain env) (Config.start w₀) c)
    (hw : ∀ u ∈ w₀.pg.tables.users, normal env u.email = u.email) :
    ∀ u ∈ c.moment.world.pg.tables.users, normal env u.email = u.email := by
  refine users_of_run (fun u v hemail _ h => hemail ▸ h)
    (fun call (hcall : _ ∧ _) => uses_program_family hcall.1 fun _ u hemail _ _ => ?_) run hw
  rw [hemail]
  exact hlaws.idem _

/-- Identifiers are stored as plainly as they are requested. -/
theorem plain_of_family (run : Run (server env) (plain env) (Config.start w₀) c)
    (hw : ∀ u ∈ w₀.pg.tables.users, Plain u) : ∀ u ∈ c.moment.world.pg.tables.users, Plain u := by
  refine users_of_run (P := Plain) (fun u v hemail hname h => ?_)
    (fun call (hcall : _ ∧ _) =>
      uses_program_family hcall.1 fun hcreates u hemail hname hfilled => ?_) run hw
  · exact ⟨hname ▸ h.trimmed, hname ▸ h.named, hname ▸ h.username, hemail ▸ h.email⟩
  · obtain ⟨htrimmed, hbare, hat⟩ := hcall.2 hcreates
    rw [hname, htrimmed] at hfilled
    exact ⟨by rw [hname, htrimmed], hname ▸ hfilled, hname ▸ hbare, hemail ▸ hat⟩

/-- The passwords stay in order while requests are executed one after the other. -/
theorem passwords_of_serial {R : Rules} (hadmits : ∀ call, R.admits call → family call = true)
    (run : Serial (server env) R (Config.start w₀) c) (hs : c.settled = true)
    (hw : Passwords env w₀.pg.tables) : Passwords env c.moment.world.pg.tables := by
  refine run.settles (J := fun m => Passwords env m.world.pg.tables) ?_ rfl hw hs
  intro call tid m a m' hcall hp ha
  rw [server_program] at ha
  exact holds_handler (hadmits call hcall) tid m a m' hp ha

end Creation

/-! ## Usernames with blanks -/

section Sample

open Scenario

theorem start_tables : Start Scenario.env (world tables) where
  passwords := ⟨nofun, nofun, nofun⟩
  emails u hu := by
    rw [List.mem_singleton.mp hu]
    decide +kernel
  plain u hu := by
    rw [List.mem_singleton.mp hu]
    exact ⟨by decide +kernel, by decide, by decide, by decide⟩

/-- A signup and the verification of its email. -/
def joining (username : String) : List (Label Call Choice) :=
  signingUp username ++ [.spawn (.verifyEmail {} (some "token-a"))] ++ steps 1 3

/-- A configuration in which the new account may log in with `"password"`. -/
def joined (username : String) (c : State) : Bool :=
  c.settled && c.moment.world.pg.tables.users.rows.any fun u =>
    u.username == username && u.enabled && u.emailVerified &&
    c.moment.world.pg.tables.credentials.rows.any fun d => d.userId == u.id &&
      d.credentialType == "password" && d.secretData == some "password" && d.credentialData.isSome

/-- What the test finds. -/
theorem current_of_joined {username : String} {c : State} (h : joined username c = true) :
    c.settled = true ∧ ∃ u ∈ c.moment.world.pg.tables.users, u.username = username ∧
      u.enabled = true ∧ u.emailVerified = true ∧
      Current Scenario.env c.moment.world.pg.tables u "password" := by
  rw [joined, Bool.and_eq_true, List.any_eq_true] at h
  obtain ⟨hsettled, u, hu, htest⟩ := h
  simp only [Bool.and_eq_true, beq_iff_eq, List.any_eq_true] at htest
  obtain ⟨⟨⟨hname, henabled⟩, hverified⟩, d, hd, ⟨⟨hid, htype⟩, hsecret⟩, hdata⟩ := htest
  obtain ⟨salt, hsalt⟩ := Option.isSome_iff_exists.mp hdata
  exact ⟨hsettled, u, hu, hname, henabled, hverified, d, hd, ⟨hid, htype⟩, salt, hsecret, hsalt⟩

/-- A signup stores `" bob"`, and a login looks for `"bob"`. -/
theorem not_correct : ¬ Correct Scenario.env open_ := by
  intro h
  have hplay : (Config.start (world tables) : State).serves (server Scenario.env) family succeeds
      (joining " bob") (fun c => joined " bob" c && decide (answer Scenario.env
        c.moment.world.pg.tables (some " bob") (some "password") = none)) = true := by
    decide +kernel
  obtain ⟨c, run, htest⟩ := Config.serial_of_serves (R := open_) (fun _ hcall => hcall)
    (fun _ _ _ _ _ => trivial) hplay
  rw [Bool.and_eq_true, decide_eq_true_eq] at htest
  obtain ⟨hsettled, u, hu, hname, henabled, hverified, hcurrent⟩ := current_of_joined htest.1
  have hlogin := ((h (world tables) start_tables c run hsettled).complete u hu henabled hverified
    "password" hcurrent).2
  rw [hname] at hlogin
  obtain ⟨m', ha⟩ := (hlogin 0).1
  have hanswer := (alone_authenticate ha).1
  rw [htest.2] at hanswer
  cases hanswer

end Sample

/-- Where accounts are asked for with plain identifiers, logins are sound and complete. -/
theorem login_correct (env : Env) (hlaws : Laws env) : Correct env (plain env) := by
  intro w hw c run hs
  exact loginCorrect_of_tables hlaws (passwords_of_serial (fun _ => And.left) run hs hw.passwords)
    (emails_of_family hlaws.toCaseLaws run.run hw.emails) (plain_of_family run.run hw.plain)

section Sample

open Scenario

theorem laws_env : Laws Scenario.env where
  toCaseLaws := caseLaws_env
  verify _ _ _ := beq_iff_eq
  lower s := by
    have hlower := caseLaws_env.idem s
    have htrim : Text.trim (normal Scenario.env s) = normal Scenario.env s := by
      change Text.trim (Text.toAsciiLowercase (Text.trim s)) = Text.toAsciiLowercase (Text.trim s)
      rw [trim_toAsciiLowercase, trim_trim]
    change Text.toAsciiLowercase (Text.trim (normal Scenario.env s)) = _ at hlower
    rwa [htrim] at hlower

/-- `bob` signs up, verifies the email and logs in under the username. -/
theorem login_correct_joining :
    ∃ c u, Serial (server Scenario.env) (plain Scenario.env) (Config.start (world tables)) c ∧
      u ∈ c.moment.world.pg.tables.users ∧ LoginCorrect Scenario.env c.moment ∧
      LogsIn Scenario.env c.moment "bob" "password" u := by
  have hplay : (Config.start (world tables) : State).serves (server Scenario.env)
      (fun call => family call && (!Identifiers.family call ||
        decide (Text.trim (requested call) = requested call ∧
          Text.containsChar (requested call) '@' = false ∧
          Text.containsChar (normal Scenario.env (requestedEmail call)) '@' = true)))
      succeeds (joining "bob") (joined "bob") = true := by
    decide +kernel
  obtain ⟨c, run, htest⟩ := Config.serial_of_serves (R := plain Scenario.env)
    (fun call hcall => by
      rw [Bool.and_eq_true, Bool.or_eq_true, decide_eq_true_eq, Bool.not_eq_true'] at hcall
      refine ⟨hcall.1, fun hcreates => hcall.2.resolve_left ?_⟩
      rw [hcreates]
      exact Bool.noConfusion) (fun _ _ _ _ _ => trivial) hplay
  obtain ⟨hsettled, u, hu, hname, henabled, hverified, hcurrent⟩ := current_of_joined htest
  have hcorrect := login_correct Scenario.env laws_env (world tables) start_tables c run hsettled
  refine ⟨c, u, run, hu, hcorrect, ?_⟩
  rw [← hname]
  exact (hcorrect.complete u hu henabled hverified "password" hcurrent).2

end Sample

end Holders

end AuthServer
