import AuthServer.Account.Resolution
import AuthServer.Common.TextLaws
import AuthServer.Scenario
import Mathlib.Data.List.DropRight

/-!
# Identifiers of accounts

Emails are trimmed and lower-cased before they are stored and before they are looked up, so the
unique constraint makes them unique up to case. Usernames are stored as they are given.
-/

namespace AuthServer

open Concurrent Handler Storage UserRepository Text

namespace Identifiers

/-- `trim().to_lowercase()`. -/
def normal (env : Env) (s : String) : String := env.toLowercase (Text.trim s)

/-- What the string functions of the library are taken to do: a lower-cased text is its own lower
case, and lower-casing neither adds nor removes an `@`. -/
structure CaseLaws (env : Env) : Prop where
  empty : env.toLowercase "" = ""
  idem : ∀ s, normal env (normal env s) = normal env s
  at_sign : ∀ s, Text.containsChar (env.toLowercase s) '@' = Text.containsChar s '@'

/-- The requests that create accounts. -/
def family : Call → Bool
  | .signup _ _ | .createUser _ _ => true
  | _ => false

/-- The email that a request asks for. -/
def requestedEmail : Call → String
  | .signup _ body => body.email.getD ""
  | .createUser _ body => body.email.getD ""
  | _ => ""

/-- The username that a request asks for: signups take it as it is. -/
def requested : Call → String
  | .signup _ body => body.username.getD ""
  | .createUser _ body => Text.trim (body.username.getD "")
  | _ => ""

/-- The requests that create accounts, in any order. -/
def interleaved : Rules where
  admits call := family call = true

/-- The same, where every requested username is trimmed and in lower case. -/
def lowerCased (env : Env) : Rules where
  admits call := family call = true ∧ normal env (requested call) = requested call

/-- All identifiers are stored trimmed and in lower case. -/
def Stored (env : Env) (w : World) : Prop :=
  ∀ u ∈ w.pg.tables.users, normal env u.email = u.email ∧ normal env u.username = u.username

/-- No two accounts have identifiers that differ in case or surrounding blanks only. -/
structure Unambiguous (env : Env) (t : Tables) : Prop where
  emails : ∀ u ∈ t.users, ∀ v ∈ t.users, normal env u.email = normal env v.email → u = v
  usernames : ∀ u ∈ t.users, ∀ v ∈ t.users, normal env u.username = normal env v.username → u = v

/-- Two identifiers log in to the same account with any password. -/
def Alike (env : Env) (m : Instant) (i j : String) : Prop :=
  ∀ tid password y y' m₁ m₂,
    Alone (server env) {} tid (LoginService.authenticate env (some i) password).run m (.ok y) m₁ →
    Alone (server env) {} tid (LoginService.authenticate env (some j) password).run m (.ok y') m₂ →
    y = y'

/-- In the runs of a regime identifiers are unique up to case, and those of a class are resolved
without case. -/
def CaseBlind (env : Env) (R : Rules) (class_ : Tables → String → Prop) : Prop :=
  ∀ w, Stored env w → ∀ c, Run (server env) R (Config.start w) c →
    Unambiguous env c.moment.world.pg.tables ∧
    ∀ i j, normal env i = normal env j → class_ c.moment.world.pg.tables i → Alike env c.moment i j

/-- Identifiers with an `@`, and those that are nobody's username. -/
def emailLike (env : Env) (t : Tables) (i : String) : Prop :=
  Text.containsChar (normal env i) '@' = true ∨
    ∀ u ∈ t.users, normal env u.username ≠ normal env i

end Identifiers

/-! ## Commands -/

/-- The account that a command creates. -/
def Op.newUser? : Op → Option User
  | .sql (.stmt (.insertUser u)) | .sql (.stmt (.signup u _ _ _)) => some u
  | _ => none

/-- Apart from `UPDATE users`, a command leaves the identifiers of the accounts and adds the account
that it creates. -/
theorem World.user_of_exec {env : Env} {tid : Nat} {op : Op} {ch : Choice} {w w' : World} {r : Res op}
    (hop : ∀ u, op ≠ .sql (.stmt (.updateUser u)))
    (h : World.exec env tid op ch w = some (r, w')) {u : User} (hu : u ∈ w'.pg.tables.users) :
    (∃ u₀ ∈ w.pg.tables.users, u₀.id = u.id ∧ u₀.email = u.email ∧ u₀.username = u.username) ∨
      op.newUser? = some u := by
  have hinsert : ∀ {v : User}, u ∈ (w.pg.tables.users.insert v).getD w.pg.tables.users →
      u ∈ w.pg.tables.users ∨ v = u := by
    intro v hu
    cases hins : w.pg.tables.users.insert v with
    | none =>
      rw [hins] at hu
      exact .inl hu
    | some t =>
      rw [hins] at hu
      exact ((Table.mem_insert hins).mp hu).imp id Eq.symm
  have hold : ∀ {v : User}, u ∈ w.pg.tables.users ∨ v = u →
      (∃ u₀ ∈ w.pg.tables.users, u₀.id = u.id ∧ u₀.email = u.email ∧ u₀.username = u.username) ∨
        some v = some u :=
    fun h => h.imp (fun h => ⟨u, h, rfl, rfl, rfl⟩) (congrArg some)
  rcases World.exec_tables h with hsame | ⟨st, x, hreply, heq⟩ | ⟨-, tokens, heq⟩
  · rw [hsame] at hu
    exact .inl ⟨u, hu, rfl, rfl, rfl⟩
  · cases hreply
    rw [heq] at hu
    by_cases hst : st.writesUsers = false
    · rw [Stmt.users_effect hst] at hu
      exact .inl ⟨u, hu, rfl, rfl, rfl⟩
    · cases st with
      | insertUser v => exact hold (hinsert hu)
      | signup v => exact hold (hinsert hu)
      | updateUser v => exact absurd rfl (hop v)
      | deleteUser id => exact .inl ⟨u, (Table.mem_delete.mp hu).1, rfl, rfl, rfl⟩
      | verifyEmail uid id =>
        obtain ⟨u₀, hu₀, rfl⟩ := Table.mem_update.mp hu
        refine .inl ⟨u₀, hu₀, ?_⟩
        split
        · exact ⟨rfl, rfl, rfl⟩
        · exact ⟨rfl, rfl, rfl⟩
      | _ => exact absurd rfl hst
  · rw [heq] at hu
    exact .inl ⟨u, hu, rfl, rfl, rfl⟩

namespace Identifiers

theorem trim_trim (s : String) : trim (trim s) = trim s := by
  have hchars : ∀ l, trimChars (trimChars l) = trimChars l := by
    intro l
    -- the outer passes meet no white space at either end
    have hfirst : ((l.dropWhile isWhitespace).rdropWhile isWhitespace).dropWhile
        isWhitespace = (l.dropWhile isWhitespace).rdropWhile isWhitespace := by
      refine List.dropWhile_eq_self_iff.mpr fun hpos => ?_
      have hle := List.rdropWhile_prefix isWhitespace (l := l.dropWhile isWhitespace)
      rw [hle.getElem hpos]
      exact List.dropWhile_eq_self_iff.mp (List.dropWhile_idempotent _ l) _
    change List.rdropWhile _ (List.dropWhile _ (List.rdropWhile _ _)) = _
    rw [hfirst]
    exact List.rdropWhile_idempotent _ _
  unfold trim
  rw [String.toList_ofList, hchars]

section Proof

variable {env : Env} {P : User → Prop}

/-- The accounts that a command creates have a property. -/
def Creates (P : User → Prop) (op : Op) : Prop :=
  (∀ u, op ≠ .sql (.stmt (.updateUser u))) ∧ ∀ u, op.newUser? = some u → P u

/-- The commands that neither create accounts nor change their identifiers. -/
def sparing : Op → Bool
  | .sql (.stmt (.insertUser _)) | .sql (.stmt (.signup _ _ _ _)) | .sql (.stmt (.updateUser _)) => false
  | _ => true

theorem creates_sparing {op : Op} (h : sparing op = true) : Creates P op := by
  constructor
  · rintro u rfl
    cases h
  · intro u hu
    unfold Op.newUser? at hu
    split at hu
    · cases h
    · cases h
    · cases hu

theorem uses_creates {α : Type} {h : Handler α} {ks : List Kind} (hu : h.Uses (Within ks))
    (hks : [.enrol, .profile].any ks.contains = false) : h.Uses (Creates P) := by
  refine hu.of_within fun op hop => ?_
  have hkind : ∀ k ∈ [Kind.enrol, .profile], op.kind ≠ k := by
    rintro k hk rfl
    exact List.any_eq_false.mp hks _ hk hop
  constructor
  · rintro u rfl
    exact hkind .profile (by decide) rfl
  · intro u hu
    unfold Op.newUser? at hu
    split at hu
    · exact absurd rfl (hkind .enrol (by decide))
    · exact absurd rfl (hkind .enrol (by decide))
    · cases hu

theorem uses_if {α : Type} {c : Prop} [Decidable c] {ok : Op → Prop} {h h' : Handler α}
    (h₁ : c → h.Uses ok) (h₂ : ¬ c → h'.Uses ok) : (if c then h else h').Uses ok := by
  by_cases hc : c
  · rw [if_pos hc]
    exact h₁ hc
  · rw [if_neg hc]
    exact h₂ hc

theorem creates_signup {u : User} {c : Credential} {roleId : Option Uuid} {v : EmailVerification}
    (h : P u) : Creates P (.sql (.stmt (.signup u c roleId v))) :=
  ⟨nofun, fun _ hu => Option.some.inj hu ▸ h⟩

theorem creates_insertUser {u : User} (h : P u) : Creates P (.sql (.stmt (.insertUser u))) :=
  ⟨nofun, fun _ hu => Option.some.inj hu ▸ h⟩

theorem uses_register {req : SignupRequest} {email username : String} {at_ : NaiveDateTime}
    {hashed : Hashed} (h : ∀ u : User, u.email = email → u.username = username → P u) :
    (SignupFlow.register env req email username at_ hashed).Uses (Creates P) := by
  unfold SignupFlow.register
  refine uses_bind (uses_newUuid (creates_sparing rfl)) fun _ => ?_
  refine uses_bind (uses_newUuid (creates_sparing rfl)) fun _ => ?_
  refine uses_bind (uses_trySql (creates_sparing rfl)) fun _ => ?_
  refine uses_bind (uses_urlSafe (creates_sparing rfl)) fun _ => ?_
  refine uses_bind (uses_newUuid (creates_sparing rfl)) fun _ => ?_
  refine uses_bind (uses_trySql (creates_signup (h _ rfl rfl))) fun _ => ?_
  split
  · exact uses_pure _
  · exact uses_pure _

theorem uses_signup {req : SignupRequest}
    (h : ∀ u : User, u.email = normal env (req.email.getD "") →
      u.username = req.username.getD "" → trim u.username ≠ "" → P u) :
    (SignupFlow.signup env req).Uses (Creates P) := by
  unfold SignupFlow.signup
  refine uses_if (fun _ => uses_pure _) fun hfilled => uses_ite (uses_pure _) ?_
  refine uses_bind (uses_now (creates_sparing rfl)) fun _ => ?_
  refine uses_bind (uses_perform (creates_sparing rfl)) fun _ => ?_
  refine uses_bind (uses_trySql (creates_sparing rfl)) fun _ => ?_
  split
  · exact uses_pure _
  · exact uses_pure _
  · refine uses_bind (uses_trySql (creates_sparing rfl)) fun _ => ?_
    split
    · exact uses_pure _
    · exact uses_pure _
    · refine uses_register fun u hemail hname => h u hemail hname fun hempty => ?_
      rw [hname] at hempty
      exact hfilled (.inr (.inr hempty))

theorem uses_insertAccount {body : UserCreateRequest} {email username password : String}
    (h : ∀ u : User, u.email = email → u.username = username → P u) :
    (AdminResource.insertAccount env body email username password).Uses (Creates P) := by
  unfold AdminResource.insertAccount
  refine uses_bind (uses_now (creates_sparing rfl)) fun _ => ?_
  refine uses_bind (uses_newUuid (creates_sparing rfl)) fun _ => ?_
  refine uses_bind (uses_stmt (creates_insertUser (h _ rfl rfl))) fun _ => ?_
  refine uses_bind (uses_perform (creates_sparing rfl)) fun _ => ?_
  refine uses_bind (uses_newUuid (creates_sparing rfl)) fun _ => ?_
  refine uses_bind (uses_stmt (creates_sparing rfl)) fun _ => ?_
  refine uses_bind (uses_query (creates_sparing rfl)) fun role => ?_
  cases role with
  | none => exact uses_pure _
  | some role =>
    exact uses_bind (uses_ignore (uses_stmt (creates_sparing rfl))) fun _ => uses_pure _

theorem uses_createUser {token : Option String} {body : UserCreateRequest}
    (h : ∀ u : User, u.email = normal env (body.email.getD "") →
      u.username = trim (body.username.getD "") → trim u.username ≠ "" → P u) :
    (AdminResource.createUser env token body).Uses (Creates P) := by
  unfold AdminResource.createUser
  refine uses_bind (uses_creates Footprint.uses rfl) fun _ => ?_
  split
  · exact uses_pure _
  · refine uses_if (fun _ => uses_pure _) fun hfilled => ?_
    refine uses_bind (uses_creates Footprint.uses rfl) fun _ => ?_
    split
    · exact uses_pure _
    · refine uses_bind (uses_query (creates_sparing rfl)) fun _ => ?_
      split
      · exact uses_pure _
      · refine uses_bind (uses_insertAccount fun u hemail hname => h u hemail hname fun hempty => ?_)
          fun _ => ?_
        · rw [hname, trim_trim] at hempty
          exact hfilled (.inr (.inl hempty))
        exact uses_bind (uses_query (creates_sparing rfl)) fun _ => uses_pure _

/-- A request creates an account with the lower-cased email and the username it asks for. -/
theorem uses_family {call : Call} (hcall : family call = true)
    (h : ∀ u : User, u.email = normal env (requestedEmail call) → u.username = requested call →
      trim u.username ≠ "" → P u) :
    ((server env).program call).Uses (Creates P) := by
  refine uses_program ?_
  cases call with
  | signup req body =>
    refine uses_bind (uses_creates Footprint.uses rfl) fun _ => ?_
    exact uses_signup h
  | createUser token body => exact uses_createUser h
  | _ => cases hcall

variable {R : Rules} {w₀ : World} {c : State}

/-- What requests give to every new account holds for all accounts, if it is about their
identifiers. -/
theorem users_of_run
    (hP : ∀ u v : User, u.email = v.email → u.username = v.username → P u → P v)
    (huses : ∀ call, R.admits call → ((server env).program call).Uses (Creates P))
    (run : Run (server env) R (Config.start w₀) c) (hw : ∀ u ∈ w₀.pg.tables.users, P u) :
    ∀ u ∈ c.moment.world.pg.tables.users, P u := by
  refine run.keeps (J := fun m => ∀ u ∈ m.world.pg.tables.users, P u) huses ?_ hw
  intro m tid op ch r w hm hop _ he u hu
  rcases World.user_of_exec hop.1 he hu with ⟨u₀, hu₀, -, hemail, hname⟩ | hnew
  · exact hP u₀ u hemail hname (hm u₀ hu₀)
  · exact hop.2 u hnew

/-- Emails are stored trimmed and in lower case, whatever is requested. -/
theorem emails_of_run (hlaws : CaseLaws env) (hadmits : ∀ call, R.admits call → family call = true)
    (run : Run (server env) R (Config.start w₀) c) (hw : Stored env w₀) :
    ∀ u ∈ c.moment.world.pg.tables.users, normal env u.email = u.email := by
  refine users_of_run (fun u v hemail _ h => hemail ▸ h)
    (fun call hcall => uses_family (hadmits call hcall) fun u hemail _ _ => ?_) run
    fun u hu => (hw u hu).1
  rw [hemail]
  exact hlaws.idem _

/-- Usernames are stored as they are requested. -/
theorem usernames_of_run (run : Run (server env) (lowerCased env) (Config.start w₀) c)
    (hw : Stored env w₀) :
    ∀ u ∈ c.moment.world.pg.tables.users, normal env u.username = u.username := by
  refine users_of_run (fun u v _ hname h => hname ▸ h)
    (fun call (hcall : _ ∧ _) => uses_family hcall.1 fun u _ hname _ => ?_) run
    fun u hu => (hw u hu).2
  rw [hname]
  exact hcall.2

variable {t : Tables}

/-- The unique constraints are as good as the normal forms that are stored. -/
theorem unambiguous_of_stored (hemails : ∀ u ∈ t.users, normal env u.email = u.email)
    (hnames : ∀ u ∈ t.users, normal env u.username = u.username) : Unambiguous env t := by
  constructor
  · intro u hu v hv heq
    rw [hemails u hu, hemails v hv] at heq
    exact Table.eq_of_clash hu hv (by simp [Keyed.clash, heq])
  · intro u hu v hv heq
    rw [hnames u hu, hnames v hv] at heq
    exact Table.eq_of_clash hu hv (by simp [Keyed.clash, heq])

/-! ## Lookups -/

theorem normal_trim (s : String) : normal env (trim s) = normal env s := by
  unfold normal
  rw [trim_trim]

theorem byEmail_congr {i j : String} (h : normal env i = normal env j) :
    byEmail env t i = byEmail env t j := by
  have hsame : env.toLowercase (trim i) = env.toLowercase (trim j) := h
  unfold byEmail
  rw [hsame]

/-- An identifier that is like an email is looked up as one. -/
theorem byIdentifier_of_emailLike (hlaws : CaseLaws env) {i : String} (h : emailLike env t i) :
    byIdentifier env t (trim i) = byEmail env t i := by
  unfold byIdentifier
  rw [byEmail_congr (normal_trim i), ← hlaws.at_sign]
  split
  · rfl
  · next hat =>
    have hnone : (t.users.find? fun u => u.username == trim i) = none := by
      refine Table.find?_eq_none.mpr fun u hu => ?_
      rcases h with hat' | hnobody
      · exact absurd hat' hat
      · refine Bool.eq_false_iff.mpr fun heq => hnobody u hu ?_
        rw [beq_iff_eq.mp heq, normal_trim]
    rw [hnone, Option.none_or]

/-- What a login with such an identifier answers. -/
theorem answer_of_emailLike (hlaws : CaseLaws env) {i : String} (h : emailLike env t i)
    (password : Option String) :
    LoginService.answer env t (some i) password =
      (password.filter fun p => p != "").bind fun p =>
        (byEmail env t i).filter fun u => LoginService.admits env t u p := by
  unfold LoginService.answer
  rw [Option.map_some, Option.filter_some]
  by_cases hempty : trim i = ""
  · have hnone : byEmail env t i = none := by
      refine if_pos ?_
      rw [hempty]
      exact hlaws.empty
    rw [if_neg (by simp [hempty]), hnone]
    cases password.filter fun p => p != "" with
    | none => rfl
    | some p => rfl
  · rw [if_pos (by simp [hempty]), Option.bind_some, byIdentifier_of_emailLike hlaws h]

theorem emailLike_congr {i j : String} (h : normal env i = normal env j) (hi : emailLike env t i)
    : emailLike env t j := by
  unfold emailLike at hi ⊢
  rwa [← h]

end Proof

/-! ## Usernames are taken as they are -/

section Counterexample

open Scenario

/-- A signup with a username. -/
def signUp (username : String) : Call :=
  .signup {} { email := some "Bob@example.com", username := some username, password := some "password" }

/-- A signup and its steps. -/
def signingUp (username : String) : List (Label Call Choice) :=
  [.spawn (signUp username)] ++ steps 0 4 ++ [drawUuid 0 10, drawUuid 0 11] ++ steps 0 1 ++
    [drawText 0 "token-a", drawUuid 0 12] ++ steps 0 1

/-- Next to `alice`, `Alice` can sign up. -/
theorem not_caseBlind : ¬ CaseBlind Scenario.env interleaved fun _ _ => True := by
  intro h
  have hplay : (Config.start (world tables) : State).reaches (server Scenario.env) family succeeds
      (signingUp "Alice") (fun c =>
        (c.moment.world.pg.tables.users.rows.any fun u => u.username == "alice") &&
        c.moment.world.pg.tables.users.rows.any fun u => u.username == "Alice") = true := by
    decide +kernel
  obtain ⟨c, run, hc⟩ := Config.run_of_reaches (R := interleaved) (fun _ hcall => hcall)
    (fun _ _ _ _ _ => trivial) hplay
  rw [Bool.and_eq_true, List.any_eq_true, List.any_eq_true] at hc
  obtain ⟨⟨u, hu, hname⟩, v, hv, hname'⟩ := hc
  have hstored : Stored Scenario.env (world tables) := by
    intro u hu
    rw [List.mem_singleton.mp hu]
    decide +kernel
  have hsame : u = v := by
    refine (h (world tables) hstored c run).1.usernames u hu v hv ?_
    rw [beq_iff_eq.mp hname, beq_iff_eq.mp hname']
    decide +kernel
  rw [hsame, beq_iff_eq.mp hname'] at hname
  exact absurd hname (by decide)

end Counterexample

/-- Where usernames are requested trimmed and in lower case, identifiers are unique up to case, and
identifiers that are like an email are resolved without case. -/
theorem case_blind (env : Env) (hlaws : CaseLaws env) :
    CaseBlind env (lowerCased env) (emailLike env) := by
  intro w hw c run
  constructor
  · exact unambiguous_of_stored (emails_of_run hlaws (fun _ => And.left) run hw)
      (usernames_of_run run hw)
  · intro i j heq hi tid password y y' m₁ m₂ ha ha'
    rw [(alone_authenticate ha).1, (alone_authenticate ha').1, answer_of_emailLike hlaws hi,
      answer_of_emailLike hlaws (emailLike_congr heq hi), byEmail_congr heq]

section Witness

open Scenario

theorem toLower_toLower (c : Char) : c.toLower.toLower = c.toLower := by
  rcases toLower_cases c.toLower with ⟨h, -⟩ | ⟨hlow, hhigh, -⟩
  · exact h
  · rcases toLower_cases c with ⟨h, hnot⟩ | ⟨hlow', -, heq⟩
    · rw [h] at hlow hhigh
      exact absurd ⟨hlow, hhigh⟩ hnot
    · omega

theorem isWhitespace_toLower (c : Char) : isWhitespace c.toLower = isWhitespace c := by
  rcases toLower_cases c with ⟨h, -⟩ | ⟨hlow, hhigh, heq⟩
  · rw [h]
  · have hletter : ∀ d : Char, 65 ≤ d.toNat → d.toNat ≤ 122 → isWhitespace d = false := by
      intro d hd hd'
      simp only [isWhitespace, Bool.or_eq_false_iff, Bool.and_eq_false_iff, decide_eq_false_iff_not,
        beq_eq_false_iff_ne]
      omega
    rw [hletter c.toLower (by omega) (by omega), hletter c hlow (by omega)]

theorem dropWhile_toLower (l : List Char) :
    (l.map Char.toLower).dropWhile isWhitespace =
      (l.dropWhile isWhitespace).map Char.toLower := by
  rw [List.dropWhile_map]
  congr 2
  exact funext isWhitespace_toLower

theorem trim_toAsciiLowercase (s : String) :
    trim (toAsciiLowercase s) = toAsciiLowercase (trim s) := by
  unfold trim toAsciiLowercase trimChars
  simp only [String.toList_ofList, dropWhile_toLower, ← List.map_reverse]

theorem caseLaws_env : CaseLaws Scenario.env where
  empty := rfl
  idem s := by
    change toAsciiLowercase (trim (toAsciiLowercase (trim s))) =
      toAsciiLowercase (trim s)
    rw [trim_toAsciiLowercase, trim_trim]
    unfold toAsciiLowercase
    rw [String.toList_ofList, List.map_map]
    exact congrArg String.ofList (List.map_congr_left fun c _ => toLower_toLower c)
  at_sign s := by
    change (String.ofList _).toList.contains '@' = s.toList.contains '@'
    rw [String.toList_ofList, Bool.eq_iff_iff, List.contains_iff_mem, List.contains_iff_mem,
      List.mem_map]
    constructor
    · rintro ⟨c, hc, heq⟩
      exact (toLower_eq_iff (by decide)).mp heq ▸ hc
    · exact fun h => ⟨'@', h, rfl⟩

/-- `bob` signs up, and logs in without case. -/
theorem case_blind_signingUp :
    ∃ c, Run (server Scenario.env) (lowerCased Scenario.env) (Config.start (world tables)) c ∧
      c.moment.world.pg.tables.users.rows.length = 2 ∧
      Unambiguous Scenario.env c.moment.world.pg.tables ∧
      Alike Scenario.env c.moment "BOB@EXAMPLE.COM" " bob@example.com " := by
  have hplay : (Config.start (world tables) : State).reaches (server Scenario.env)
      (fun call => family call && decide (normal Scenario.env (requested call) = requested call))
      succeeds (signingUp "bob")
      (fun c => c.moment.world.pg.tables.users.rows.length == 2) = true := by
    decide +kernel
  obtain ⟨c, run, hc⟩ := Config.run_of_reaches (R := lowerCased Scenario.env)
    (fun call hcall => by
      rw [Bool.and_eq_true, decide_eq_true_eq] at hcall
      exact hcall) (fun _ _ _ _ _ => trivial) hplay
  have hstored : Stored Scenario.env (world tables) := by
    intro u hu
    rw [List.mem_singleton.mp hu]
    decide +kernel
  obtain ⟨hunique, halike⟩ := case_blind Scenario.env caseLaws_env (world tables) hstored c run
  exact ⟨c, run, beq_iff_eq.mp hc, hunique,
    halike _ _ (by decide +kernel) (.inl (by decide +kernel))⟩

end Witness

end Identifiers

end AuthServer
