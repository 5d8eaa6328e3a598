import AuthServer.Alone

/-!
# Which account a login is for

The answer of `authenticate` as a function of the tables: the lookups of a login read only, so it
answers with what is stored when nothing fails.
-/

namespace AuthServer

open Concurrent Handler Storage UserRepository LoginService

namespace UserRepository

variable (env : Env)

/-- The first account with an email, without case. -/
def byEmail (t : Tables) (email : String) : Option User :=
  let normalized := env.toLowercase (Text.trim email)
  if normalized = "" then none else t.users.find? fun u => env.sqlLower u.email == normalized

/-- The account of an identifier. -/
def byIdentifier (t : Tables) (identifier : String) : Option User :=
  if Text.containsChar identifier '@' then byEmail env t identifier
  else (t.users.find? fun u => u.username == identifier).or (byEmail env t identifier)

end UserRepository

namespace LoginService

variable (env : Env)

/-- The password credential of an account. -/
def passwordOf (t : Tables) (u : User) : Option Credential :=
  t.credentials.find? fun c => c.userId == u.id && c.credentialType == "password"

/-- An account may log in with a password. -/
def admits (t : Tables) (u : User) (rawPassword : String) : Bool :=
  (passwordOf t u).any fun c =>
    env.argon2Verify rawPassword (c.secretData.getD "") (c.credentialData.getD "") &&
      u.enabled && u.emailVerified

/-- The answer of `authenticate`. -/
def answer (t : Tables) (identifier rawPassword : Option String) : Option User :=
  ((identifier.map Text.trim).filter fun s => s != "").bind fun identifier =>
    (rawPassword.filter fun p => p != "").bind fun rawPassword =>
      (UserRepository.byIdentifier env t identifier).filter fun u => admits env t u rawPassword

end LoginService

section Alone

variable {env : Env} {R : Rules} {tid : Nat} {m m' : Instant}

variable {y : Option User}

theorem alone_findByEmail {email : String}
    (ha : Alone (server env) R tid (findByEmail env email).run m (.ok y) m') :
    y = byEmail env m.world.pg.tables email ∧ m'.world.pg = m.world.pg := by
  by_cases hempty : env.toLowercase (Text.trim email) = ""
  · have hnone : findByEmail env email = pure none := if_pos hempty
    rw [hnone] at ha
    obtain ⟨hy, rfl⟩ := ha.ret
    exact ⟨(Except.ok.inj hy).trans (if_pos hempty).symm, rfl⟩
  · have hquery : findByEmail env email =
        query (.userByEmail (env.toLowercase (Text.trim email))) := if_neg hempty
    rw [hquery] at ha
    obtain ⟨hy, hpg, -⟩ := alone_query ha
    exact ⟨Eq.trans hy (if_neg hempty).symm, hpg⟩

theorem alone_findByIdentifier {identifier : String}
    (ha : Alone (server env) R tid (findByIdentifier env identifier).run m (.ok y)
      m') :
    y = byIdentifier env m.world.pg.tables identifier ∧
      m'.world.pg = m.world.pg := by
  unfold findByIdentifier at ha
  unfold byIdentifier
  split at ha
  · next hat =>
    rw [if_pos hat]
    exact alone_findByEmail ha
  · next hat =>
    rw [if_neg hat]
    obtain ⟨found, m₁, hquery, ha⟩ := ha.seq
    obtain ⟨hfound, hpg, -⟩ := alone_query hquery
    change found = m.world.pg.tables.users.find? _ at hfound
    rw [← hfound]
    split at ha
    · obtain ⟨hy, rfl⟩ := ha.ret
      exact ⟨Except.ok.inj hy, hpg⟩
    · obtain ⟨hy, hpg'⟩ := alone_findByEmail ha
      rw [hpg] at hy
      exact ⟨hy, hpg'.trans hpg⟩

/-- A login answers from what is stored. -/
theorem alone_authenticate {identifier rawPassword : Option String}
    (ha : Alone (server env) R tid (authenticate env identifier rawPassword).run m
      (.ok y) m') :
    y = answer env m.world.pg.tables identifier rawPassword ∧
      m'.world.pg = m.world.pg := by
  unfold authenticate at ha
  unfold answer
  cases hid : (identifier.map Text.trim).filter fun s => s != "" with
  | none =>
    rw [hid] at ha
    obtain ⟨hy, rfl⟩ := ha.ret
    exact ⟨Except.ok.inj hy, rfl⟩
  | some i =>
    cases hpw : rawPassword.filter fun p => p != "" with
    | none =>
      rw [hid, hpw] at ha
      obtain ⟨hy, rfl⟩ := ha.ret
      exact ⟨Except.ok.inj hy, rfl⟩
    | some p =>
      rw [hid, hpw] at ha
      obtain ⟨user, m₁, huser, ha⟩ := ha.seq
      obtain ⟨hfound, hpg⟩ := alone_findByIdentifier huser
      dsimp only [Option.bind_some]
      rw [← hfound]
      cases user with
      | none =>
        obtain ⟨hy, rfl⟩ := ha.ret
        exact ⟨Except.ok.inj hy, hpg⟩
      | some u =>
        obtain ⟨credential, m₂, hquery, ha⟩ := ha.seq
        obtain ⟨hcredential, hpg', -⟩ := alone_query hquery
        rw [hpg] at hcredential
        change credential = passwordOf m.world.pg.tables u at hcredential
        rw [Option.filter_some, admits, ← hcredential]
        cases credential with
        | none =>
          obtain ⟨hy, rfl⟩ := ha.ret
          exact ⟨Except.ok.inj hy, hpg'.trans hpg⟩
        | some c =>
          dsimp only [Option.any_some] at ha ⊢
          split at ha
          · next hok =>
            rw [if_pos hok]
            obtain ⟨hy, rfl⟩ := ha.ret
            exact ⟨Except.ok.inj hy, hpg'.trans hpg⟩
          · next hok =>
            rw [if_neg hok]
            obtain ⟨hy, rfl⟩ := ha.ret
            exact ⟨Except.ok.inj hy, hpg'.trans hpg⟩

/-! ## Lookups succeed when nothing fails -/

variable (env tid m)

theorem frozen_query (q : Query) :
    ∃ m', Alone (server env) frozen tid (query q).run m (.ok (q.exec env m.world.pg.tables)) m' ∧
      m'.world.pg = m.world.pg := by
  refine ⟨_, Alone.bindE_ok.mpr ⟨.ok (q.exec env m.world.pg.tables), _,
    alone_perform.mpr ⟨{}, _, _, ⟨rfl, rfl⟩, rfl, rfl, rfl⟩, alone_pure.mpr ⟨rfl, rfl⟩⟩, ?_⟩
  rfl

theorem frozen_findByEmail (email : String) :
    ∃ m', Alone (server env) frozen tid (findByEmail env email).run m
      (.ok (byEmail env m.world.pg.tables email)) m' ∧ m'.world.pg = m.world.pg := by
  by_cases hempty : env.toLowercase (Text.trim email) = ""
  · have hnone : findByEmail env email = pure none := if_pos hempty
    rw [hnone]
    exact ⟨m, alone_pure.mpr ⟨congrArg Except.ok (if_pos hempty), rfl⟩, rfl⟩
  · have hquery : findByEmail env email =
        query (.userByEmail (env.toLowercase (Text.trim email))) := if_neg hempty
    have hanswer : byEmail env m.world.pg.tables email =
        Query.exec env m.world.pg.tables (.userByEmail (env.toLowercase (Text.trim email))) :=
      if_neg hempty
    rw [hquery, hanswer]
    exact frozen_query env tid m _

theorem frozen_findByIdentifier (identifier : String) :
    ∃ m', Alone (server env) frozen tid (findByIdentifier env identifier).run m
      (.ok (byIdentifier env m.world.pg.tables identifier)) m' ∧
      m'.world.pg = m.world.pg := by
  unfold findByIdentifier byIdentifier
  split
  · exact frozen_findByEmail env tid m identifier
  · obtain ⟨m₁, hquery, hpg⟩ := frozen_query env tid m
      (.userByUsername identifier)
    change Alone _ _ _ _ _ (Except.ok (m.world.pg.tables.users.find? fun u => u.username == identifier)) _
      at hquery
    cases hfound : m.world.pg.tables.users.find? fun u => u.username == identifier with
    | some u =>
      rw [hfound] at hquery
      exact ⟨m₁, Alone.bindE_ok.mpr ⟨some u, m₁, hquery, alone_pure.mpr ⟨rfl, rfl⟩⟩, hpg⟩
    | none =>
      rw [hfound] at hquery
      obtain ⟨m₂, hemail, hpg'⟩ := frozen_findByEmail env tid m₁ identifier
      rw [hpg] at hemail hpg'
      exact ⟨m₂, Alone.bindE_ok.mpr ⟨none, m₁, hquery, hemail⟩, hpg'⟩

/-- A login answers when nothing fails. -/
theorem frozen_authenticate (identifier rawPassword : Option String) :
    ∃ m', Alone (server env) frozen tid
      (authenticate env identifier rawPassword).run m
      (.ok (answer env m.world.pg.tables identifier rawPassword)) m' := by
  unfold authenticate answer
  cases (identifier.map Text.trim).filter fun s => s != "" with
  | none => exact ⟨m, alone_pure.mpr ⟨rfl, rfl⟩⟩
  | some i =>
    cases rawPassword.filter fun p => p != "" with
    | none => exact ⟨m, alone_pure.mpr ⟨rfl, rfl⟩⟩
    | some p =>
      obtain ⟨m₁, huser, hpg⟩ := frozen_findByIdentifier env tid m i
      dsimp only [Option.bind_some]
      cases hfound : byIdentifier env m.world.pg.tables i with
      | none =>
        rw [hfound] at huser
        exact ⟨m₁, Alone.bindE_ok.mpr ⟨none, m₁, huser, alone_pure.mpr ⟨rfl, rfl⟩⟩⟩
      | some u =>
        rw [hfound] at huser
        obtain ⟨m₂, hquery, -⟩ := frozen_query env tid m₁
          (.credentialByUserAndType u.id "password")
        rw [hpg] at hquery
        change Alone _ _ _ _ _ (Except.ok (passwordOf m.world.pg.tables u)) _ at hquery
        refine ⟨m₂, Alone.bindE_ok.mpr ⟨some u, m₁, huser,
          Alone.bindE_ok.mpr ⟨_, m₂, hquery, ?_⟩⟩⟩
        rw [Option.filter_some, admits]
        cases passwordOf m.world.pg.tables u with
        | none => exact alone_pure.mpr ⟨rfl, rfl⟩
        | some c =>
          dsimp only [Option.any_some]
          split
          · exact alone_pure.mpr ⟨rfl, rfl⟩
          · exact alone_pure.mpr ⟨rfl, rfl⟩

end Alone

end AuthServer
