import AuthServer.Alone
import AuthServer.Common.TextLaws
import AuthServer.Scenario

/-!
# The device store

A user code is found again however its letters are cased and wherever blanks and dashes are put,
and no other code is found with it. A device authorization is read back as it was last written,
although `HSET` merges the new fields into the old ones.
-/

namespace AuthServer

open Concurrent Handler Storage DeviceAuthorizationRepository

/-! ## User codes -/

/-- The characters that the lookup keeps. -/
def isCodeChar (c : Char) : Bool := !Text.isWhitespace c && c != '-'

/-- What `str::to_uppercase` does to ASCII text. -/
def UppercasesAscii (env : Env) : Prop :=
  ∀ l : List Char, (∀ c ∈ l, c.toNat < 128) →
    env.toUppercase (String.ofList l) = String.ofList (l.map Char.toUpper)

/-- One change to a text: a letter in the other case, or a blank or dash more or less. -/
inductive Retyped : List Char → List Char → Prop
  | recase {a b : List Char} {x y : Char} (hx : x.isAlpha = true) (hy : y.isAlpha = true)
      (h : x.toUpper = y.toUpper) : Retyped (a ++ x :: b) (a ++ y :: b)
  | insert {a b : List Char} {x : Char} (h : Text.isWhitespace x = true ∨ x = '-') :
      Retyped (a ++ b) (a ++ x :: b)
  | delete {a b : List Char} {x : Char} (h : Text.isWhitespace x = true ∨ x = '-') :
      Retyped (a ++ x :: b) (a ++ b)

variable {c : Char}

theorem ascii_all {p : Char → Bool} (h : ((List.range 128).all fun n => p (Char.ofNat n)) = true)
    (hc : c.toNat < 128) : p c = true := by
  have hp := List.all_eq_true.mp h c.toNat (List.mem_range.mpr hc)
  rwa [Char.ofNat_toNat] at hp

theorem isCodeChar_toUpper (hc : c.toNat < 128) : isCodeChar c.toUpper = isCodeChar c := by
  have h := ascii_all (p := fun c => isCodeChar c.toUpper == isCodeChar c) (by decide +kernel) hc
  exact beq_iff_eq.mp h

theorem toUpper_toUpper (hc : c.toNat < 128) :
    c.toUpper.toUpper = c.toUpper ∧ c.toUpper.toNat < 128 := by
  have h := ascii_all (p := fun c => c.toUpper.toUpper == c.toUpper && decide (c.toUpper.toNat < 128))
    (by decide +kernel) hc
  simpa using h

theorem isCodeChar_of_isAlpha (h : c.isAlpha = true) :
    c.toNat < 128 ∧ isCodeChar c = true := by
  have hc : c.toNat < 128 := by
    have hletter := isAlpha_iff.mp h
    omega
  have hall := ascii_all (p := fun c => !c.isAlpha || isCodeChar c) (by decide +kernel) hc
  simp only [h, Bool.not_true, Bool.false_or] at hall
  exact ⟨hc, hall⟩

theorem isCodeChar_eq_false (h : Text.isWhitespace c = true ∨ c = '-') :
    isCodeChar c = false := by
  rcases h with h | rfl
  · simp [isCodeChar, h]
  · rfl

/-- A change keeps the letters up to case. -/
theorem Retyped.kept {l l' : List Char} (h : Retyped l l')
    (hl : ∀ c ∈ l.filter isCodeChar, c.toNat < 128) :
    (l'.filter isCodeChar).map Char.toUpper = (l.filter isCodeChar).map Char.toUpper ∧
      ∀ c ∈ l'.filter isCodeChar, c.toNat < 128 := by
  cases h with
  | @recase a b x y hx hy h =>
    obtain ⟨hy128, hy⟩ := isCodeChar_of_isAlpha hy
    have hx := (isCodeChar_of_isAlpha hx).2
    simp only [List.filter_append, List.filter_cons, hx, hy, if_true, List.map_append,
      List.map_cons, h, true_and]
    intro c hc
    rcases List.mem_append.mp hc with hc | hc
    · exact hl c (by simp only [List.filter_append, List.mem_append, hc, true_or])
    · rcases List.mem_cons.mp hc with rfl | hc
      · exact hy128
      · exact hl c (by simp [List.filter_append, hx, hc, (List.mem_filter.mp hc).2])
  | insert h =>
    have hx := isCodeChar_eq_false h
    simp only [List.filter_append, List.filter_cons, hx] at hl ⊢
    exact ⟨rfl, hl⟩
  | delete h =>
    have hx := isCodeChar_eq_false h
    simp only [List.filter_append, List.filter_cons, hx] at hl ⊢
    exact ⟨rfl, hl⟩

theorem filter_dropWhile (l : List Char) :
    (l.dropWhile Text.isWhitespace).filter isCodeChar = l.filter isCodeChar := by
  induction l with
  | nil => rfl
  | cons c l ih =>
    rw [List.dropWhile_cons]
    split
    · next h => rw [ih, List.filter_cons_of_neg (by simp [isCodeChar, h])]
    · rfl

/-- Trimming is no more than what the lookup does itself. -/
theorem filter_trim (s : String) :
    (Text.trim s).toList.filter isCodeChar = s.toList.filter isCodeChar := by
  rw [Text.trim, String.toList_ofList, Text.trimChars, List.filter_reverse, filter_dropWhile,
    List.filter_reverse, List.reverse_reverse, filter_dropWhile]

/-- The characters of a user code around its dash. -/
theorem userCode_cases {s : String} (h : Text.isUserCode s = true) :
    s.toList = s.toList.take 4 ++ '-' :: s.toList.drop 5 ∧ (s.toList.take 4).length = 4 ∧
      s.toList.filter isCodeChar = s.toList.take 4 ++ s.toList.drop 5 ∧
      ∀ c ∈ s.toList.filter isCodeChar, c.toNat < 128 ∧ c.toUpper = c := by
  simp only [Text.isUserCode, Bool.and_eq_true, beq_iff_eq] at h
  obtain ⟨⟨hlen, hdash⟩, hall⟩ := h
  generalize s.toList = l at hlen hdash hall ⊢
  have hsplit : l = l.take 4 ++ '-' :: l.drop 5 := by
    obtain ⟨hlt, hget⟩ := List.getElem?_eq_some_iff.mp hdash
    rw [← hget, ← List.drop_eq_getElem_cons, List.take_append_drop]
  have hchar : ∀ c ∈ l.take 4 ++ l.drop 5, isCodeChar c = true ∧ c.toNat < 128 ∧ c.toUpper = c := by
    intro c hc
    have hmem := List.all_eq_true.mp hall c hc
    have halphabet : (Text.userCodeAlphabet.all fun c =>
        isCodeChar c && decide (c.toNat < 128) && c.toUpper == c) = true := by decide +kernel
    simpa [and_assoc] using List.all_eq_true.mp halphabet c (by simpa using hmem)
  have hkept : l.filter isCodeChar = l.take 4 ++ l.drop 5 := by
    conv_lhs => rw [hsplit]
    rw [List.filter_append, List.filter_cons_of_neg (by decide), ← List.filter_append]
    exact List.filter_eq_self.mpr fun c hc => (hchar c hc).1
  refine ⟨hsplit, by simp [hlen], hkept, fun c hc => ?_⟩
  rw [hkept] at hc
  exact (hchar c hc).2

section UserCodes

variable {env : Env}

theorem normalizeUserCode_eq (hupper : UppercasesAscii env) {s : String}
    (hs : ∀ c ∈ s.toList.filter isCodeChar, c.toNat < 128) :
    normalizeUserCode env s = String.ofList ((s.toList.filter isCodeChar).map Char.toUpper) :=
  hupper _ hs

/-- A retyped code has the characters of the code. -/
theorem kept_of_retyped {s t : String} (hs : Text.isUserCode s = true)
    (h : Relation.ReflTransGen Retyped s.toList t.toList) :
    (t.toList.filter isCodeChar).map Char.toUpper = s.toList.filter isCodeChar ∧
      ∀ c ∈ t.toList.filter isCodeChar, c.toNat < 128 := by
  obtain ⟨-, -, -, hchars⟩ := userCode_cases hs
  generalize t.toList = l at h ⊢
  induction h with
  | refl =>
    refine ⟨?_, fun c hc => (hchars c hc).1⟩
    exact List.map_congr_left (g := id) (fun c hc => (hchars c hc).2) |>.trans (List.map_id _)
  | tail _ hstep ih =>
    obtain ⟨hsame, hascii⟩ := hstep.kept ih.2
    exact ⟨hsame.trans ih.1, hascii⟩

/-- Lookups by user code are tolerant and unambiguous. -/
structure UserCodesMatch (env : Env) : Prop where
  /-- A retyped code is not refused as blank, and is looked up under the pointer of the code. -/
  tolerant : ∀ c t, Text.isUserCode c = true → Relation.ReflTransGen Retyped c.toList t.toList →
    Text.trim t ≠ "" ∧ normalizeUserCode env (Text.trim t) = normalizeUserCode env c ∧
      DeviceFlow.verifyUserCode env t = DeviceFlow.verifyUserCode env c
  /-- Codes with one pointer are equal. -/
  injective : ∀ c c', Text.isUserCode c = true → Text.isUserCode c' = true →
    normalizeUserCode env c = normalizeUserCode env c' → c = c'
  /-- A normalized text stays as it is. -/
  idempotent : ∀ s : String, (∀ c ∈ s.toList, c.toNat < 128) →
    normalizeUserCode env (normalizeUserCode env s) = normalizeUserCode env s

theorem normalizeUserCode_of_retyped (hupper : UppercasesAscii env) {c t : String}
    (hc : Text.isUserCode c = true) (ht : Relation.ReflTransGen Retyped c.toList t.toList) :
    Text.trim t ≠ "" ∧ normalizeUserCode env (Text.trim t) =
      String.ofList (c.toList.filter isCodeChar) := by
  obtain ⟨-, hfour, hkept, -⟩ := userCode_cases hc
  obtain ⟨hsame, hascii⟩ := kept_of_retyped hc ht
  rw [← filter_trim t] at hsame hascii
  refine ⟨fun hblank => ?_, ?_⟩
  · rw [hblank, hkept] at hsame
    have hnil := List.append_eq_nil_iff.mp hsame.symm
    rw [hnil.1] at hfour
    cases hfour
  · rw [normalizeUserCode_eq hupper hascii, hsame]

theorem user_codes_match (hupper : UppercasesAscii env) : UserCodesMatch env where
  tolerant c t hc ht := by
    obtain ⟨hblank, hkey⟩ := normalizeUserCode_of_retyped hupper hc ht
    obtain ⟨hblank', hkey'⟩ := normalizeUserCode_of_retyped hupper hc .refl
    have hself : normalizeUserCode env (Text.trim c) = normalizeUserCode env c := by
      change env.toUppercase (String.ofList ((Text.trim c).toList.filter isCodeChar)) = _
      rw [filter_trim]
      rfl
    refine ⟨hblank, hkey.trans (hkey'.symm.trans hself), ?_⟩
    have hfind : findByUserCode env (Text.trim t) = findByUserCode env (Text.trim c) := by
      unfold findByUserCode
      rw [if_neg hblank, if_neg hblank', hkey, hkey']
    funext token approve
    unfold DeviceFlow.verifyUserCode
    rw [if_neg hblank, if_neg hblank', hfind]
  injective c c' hc hc' heq := by
    obtain ⟨hsplit, hfour, hkept, hchars⟩ := userCode_cases hc
    obtain ⟨hsplit', hfour', hkept', hchars'⟩ := userCode_cases hc'
    have hupper' : ∀ s : String, (∀ c ∈ s.toList.filter isCodeChar, c.toNat < 128 ∧ c.toUpper = c) →
        normalizeUserCode env s = String.ofList (s.toList.filter isCodeChar) := by
      intro s hs
      rw [normalizeUserCode_eq hupper fun c hc => (hs c hc).1]
      congr 1
      exact (List.map_congr_left (g := id) fun c hc => (hs c hc).2).trans (List.map_id _)
    rw [hupper' c hchars, hupper' c' hchars', String.ofList_inj, hkept, hkept'] at heq
    obtain ⟨hfront, hback⟩ := List.append_inj heq (hfour.trans hfour'.symm)
    rw [← String.toList_inj, hsplit, hsplit', hfront, hback]
  idempotent s hs := by
    have hascii : ∀ c ∈ s.toList.filter isCodeChar, c.toNat < 128 :=
      fun c hc => hs c (List.mem_filter.mp hc).1
    have hkept : ((s.toList.filter isCodeChar).map Char.toUpper).filter isCodeChar =
        (s.toList.filter isCodeChar).map Char.toUpper := by
      refine List.filter_eq_self.mpr fun c hc => ?_
      obtain ⟨d, hd, rfl⟩ := List.mem_map.mp hc
      rw [isCodeChar_toUpper (hascii d hd)]
      exact (List.mem_filter.mp hd).2
    rw [normalizeUserCode_eq hupper hascii]
    rw [normalizeUserCode_eq hupper, String.toList_ofList, hkept, List.map_map]
    · congr 1
      exact List.map_congr_left fun c hc => (toUpper_toUpper (hascii c hc)).1
    · rw [String.toList_ofList, hkept]
      intro c hc
      obtain ⟨d, hd, rfl⟩ := List.mem_map.mp hc
      exact (toUpper_toUpper (hascii d hd)).2

end UserCodes

/-- An environment that upper-cases ASCII text letter by letter. -/
def upperEnv : Env :=
  { Scenario.deviceEnv with toUppercase := fun s => String.ofList (s.toList.map Char.toUpper) }

theorem user_codes_match_upperEnv : UserCodesMatch upperEnv :=
  user_codes_match fun l _ => by simp [upperEnv]

/-! ## Records -/

/-- The fields of a hash are those of an authorization. -/
structure Exact (env : Env) (m : Fields String String) (a : DeviceAuthorization) : Prop where
  id : m.get "id" = some (env.showUuid a.id)
  deviceCode : m.get "deviceCode" = some a.deviceCode
  userCode : m.get "userCode" = some a.userCode
  clientId : m.get "clientId" = some a.clientId
  scope : m.get "scope" = a.scope
  status : m.get "status" = some a.status
  userId : m.get "userId" = a.userId.map env.showUuid
  sessionId : m.get "sessionId" = a.sessionId.map env.showUuid
  expiresAt : m.get "expiresAt" = some (env.showDateTime a.expiresAt)
  createdAt : m.get "createdAt" = a.createdAt.map env.showDateTime

/-- What the requests do to an authorization they have loaded. -/
inductive Edited : DeviceAuthorization → DeviceAuthorization → Prop
  | resolve (a : DeviceAuthorization) (session : SessionWithUser) (approve : Bool) :
      Edited a (DeviceFlow.resolve a session approve)
  | consume (a : DeviceAuthorization) :
      Edited a { a with status := DeviceAuthorization.statusConsumed }

/-- The texts of ids and instants are read back. -/
structure CodesLawful (env : Env) : Prop where
  uuid : ∀ u, env.parseUuid (env.showUuid u) = some u
  dateTime : ∀ t, env.parseDateTime (env.showDateTime t) = some t

section Records

variable {env : Env} {a b : DeviceAuthorization} {m : Fields String String}

theorem exact_toFields (env : Env) (a : DeviceAuthorization) : Exact env (toFields env a) a := by
  obtain ⟨_, _, _, _, scope, _, userId, sessionId, _, createdAt⟩ := a
  cases scope <;> cases userId <;> cases sessionId <;> cases createdAt <;>
    constructor <;> simp [toFields]

theorem Exact.fromFields (hlaw : CodesLawful env) (h : Exact env m a) :
    fromFields env m = .ok a := by
  have huuid : ∀ o : Option Uuid, (o.map env.showUuid).bind env.parseUuid = o := by
    intro o
    cases o with
    | none => rfl
    | some u => exact hlaw.uuid u
  have htime : ∀ o : Option NaiveDateTime, (o.map env.showDateTime).bind env.parseDateTime = o := by
    intro o
    cases o with
    | none => rfl
    | some t => exact hlaw.dateTime t
  unfold DeviceAuthorizationRepository.fromFields
  rw [h.id, h.deviceCode, h.userCode, h.clientId, h.status, h.expiresAt, h.scope, h.userId,
    h.sessionId, h.createdAt, huuid, huuid, htime, Option.bind_some, hlaw.dateTime]
  change (required (env.parseUuid (env.showUuid a.id)) "invalid id" >>= _) = _
  rw [hlaw.uuid]
  rfl

/-- An edit never takes a field away. -/
theorem Edited.adds (h : Edited a b) : b.deviceCode = a.deviceCode ∧ b.scope = a.scope ∧
    b.createdAt = a.createdAt ∧ (b.userId = none → a.userId = none) ∧
    (b.sessionId = none → a.sessionId = none) := by
  cases h with
  | resolve session approve =>
    cases approve with
    | true => simp [DeviceFlow.resolve]
    | false => exact ⟨rfl, rfl, rfl, id, id⟩
  | consume => exact ⟨rfl, rfl, rfl, id, id⟩

/-- Merging the fields of an edited authorization into those of the one before leaves no others. -/
theorem Exact.merge (h : Exact env m a) (hedit : Edited a b) :
    Exact env (m.setAll (toFields env b)) b := by
  obtain ⟨-, hscope, hcreated, huser, hsession⟩ := hedit.adds
  have hnew := exact_toFields env b
  have hget := fun k => Fields.get_setAll (m := m) (k := k) (nodup_toFields env b)
  constructor
  · rw [hget, hnew.id, Option.some_or]
  · rw [hget, hnew.deviceCode, Option.some_or]
  · rw [hget, hnew.userCode, Option.some_or]
  · rw [hget, hnew.clientId, Option.some_or]
  · rw [hget, hnew.scope, h.scope, hscope, Option.or_self]
  · rw [hget, hnew.status, Option.some_or]
  · rw [hget, hnew.userId, h.userId]
    cases hb : b.userId with
    | none => simp [huser hb]
    | some u => rfl
  · rw [hget, hnew.sessionId, h.sessionId]
    cases hb : b.sessionId with
    | none => simp [hsession hb]
    | some s => rfl
  · rw [hget, hnew.expiresAt, Option.some_or]
  · rw [hget, hnew.createdAt, h.createdAt, hcreated, Option.or_self]

theorem exact_setAll_nil (env : Env) (a : DeviceAuthorization) :
    Exact env (Fields.setAll [] (toFields env a)) a := by
  have hget : ∀ k, (Fields.setAll [] (toFields env a)).get k = Fields.get (toFields env a) k := by
    intro k
    rw [Fields.get_setAll (nodup_toFields env a), Fields.get_nil, Option.or_none]
  have h := exact_toFields env a
  constructor
  all_goals rw [hget]
  exacts [h.id, h.deviceCode, h.userCode, h.clientId, h.scope, h.status, h.userId, h.sessionId,
    h.expiresAt, h.createdAt]

end Records

/-! ## Chains of writes -/

/-- The moments after which an authorization is the last one that has been written: a new one, or an
edit of the one that was loaded. -/
inductive Written (env : Env) (R : Rules) : Instant → DeviceAuthorization → Prop
  | persist {m m' : Instant} {tid : Nat} {a : DeviceAuthorization} (hcode : a.deviceCode ≠ "")
      (habsent : m.world.redis.devices.get m.world.now a.deviceCode = none)
      (h : Alone (server env) R tid (persist env a).run m (.ok true) m') : Written env R m' a
  | update {m m₁ m' : Instant} {tid tid' : Nat} {a b c : DeviceAuthorization} (hw : Written env R m a)
      (hload : Alone (server env) R tid (findByDeviceCode env a.deviceCode).run m (.ok (some b)) m₁)
      (hedit : Edited b c) (h : Alone (server env) R tid' (update env c).run m₁ (.ok ()) m') :
      Written env R m' c

section Chains

variable {env : Env} {R : Rules} {tid : Nat} {m m' : Instant} {a b : DeviceAuthorization}

/-- What is visible under the code of an authorization are its fields. -/
def Stored (env : Env) (m : Instant) (a : DeviceAuthorization) : Prop :=
  ∀ fields, m.world.redis.devices.get m.world.now a.deviceCode = some fields → Exact env fields a

theorem Stored.later (h : Stored env m a) (hnow : m.world.now ≤ m'.world.now)
    (hdevices : m'.world.redis.devices = m.world.redis.devices) : Stored env m' a := by
  intro fields hget
  rw [hdevices] at hget
  exact h fields (Expiring.get_of_le hnow hget)

theorem alone_device {c : HashCmd String String String} {y : Except Failure c.Res}
    (h : Alone (server env) R tid (redis (.device c)).run m y m') : m.world.now ≤ m'.world.now ∧
      ((∃ e, y = .error (.redis e)) ∧ m'.world.redis = m.world.redis ∨
        y = .ok (c.exec m'.world.now m.world.redis.devices).1 ∧
          m'.world.redis.devices = (c.exec m'.world.now m.world.redis.devices).2) := by
  obtain ⟨hnow, herr | ⟨hy, hredis⟩⟩ := alone_redis h
  · exact ⟨hnow, .inl herr⟩
  · exact ⟨hnow, .inr ⟨hy, congrArg Redis.devices hredis⟩⟩

/-- The fields visible after an `HSET` are the merged ones. -/
theorem Stored.hset (hm : ∀ fields, m.world.redis.devices.get m.world.now b.deviceCode = some fields →
      Exact env (fields.setAll (toFields env b)) b)
    (h : Alone (server env) R tid (redis (.device (.hset b.deviceCode (toFields env b)))).run m
      (.ok ()) m') : Stored env m' b := by
  obtain ⟨hnow, ⟨⟨e, he⟩, -⟩ | ⟨-, hdevices⟩⟩ := alone_device h
  · cases he
  intro fields hget
  rw [hdevices] at hget
  rcases HashCmd.get_exec hget with ⟨extra, hc, rfl⟩ | ⟨hne, -⟩
  · cases hc
    cases hold : m.world.redis.devices.get m'.world.now b.deviceCode with
    | none => exact exact_setAll_nil env b
    | some old => exact hm old (Expiring.get_of_le hnow hold)
  · exact absurd rfl (hne _)

theorem stored_of_persist (habsent : m.world.redis.devices.get m.world.now a.deviceCode = none)
    (h : Alone (server env) R tid (persist env a).run m (.ok true) m') : Stored env m' a := by
  obtain ⟨at_, m₁, hclock, h₁⟩ := h.seq
  obtain ⟨ch, _, _, -, he, -, rfl⟩ := alone_perform.mp hclock
  cases he
  dsimp only at h₁
  split at h₁
  · cases h₁.ret.1
  obtain ⟨claimed, m₂, hclaim, h₂⟩ := h₁.seq
  obtain ⟨hnow₂, ⟨⟨e, he⟩, -⟩ | ⟨-, hredis₂⟩⟩ := alone_redis hclaim
  · cases he
  cases claimed with
  | false => cases h₂.ret.1
  | true =>
    obtain ⟨_, m₃, hset, h₃⟩ := h₂.seq
    obtain ⟨_, m₄, hexpire, h₄⟩ := h₃.seq
    obtain ⟨-, rfl⟩ := h₄.ret
    have hstored : Stored env m₃ a := by
      refine Stored.hset (fun fields hget => ?_) hset
      rw [congrArg Redis.devices hredis₂] at hget
      have hle : m.world.now ≤ m₂.world.now :=
        Int.le_trans (Int.le_add_of_nonneg_right (Int.natCast_nonneg _)) hnow₂
      cases habsent.symm.trans (Expiring.get_of_le hle hget)
    obtain ⟨hnow, ⟨⟨e, he⟩, -⟩ | ⟨-, hdevices⟩⟩ := alone_device hexpire
    · cases he
    intro fields hget
    rw [hdevices] at hget
    rcases HashCmd.get_exec hget with ⟨_, hc, -⟩ | ⟨-, hold⟩
    · cases hc
    · exact hstored fields (Expiring.get_of_le hnow hold)

theorem stored_of_update (hm : Stored env m a) (hedit : Edited a b)
    (h : Alone (server env) R tid (update env b).run m (.ok ()) m') : Stored env m' b := by
  have hcode := hedit.adds.1
  obtain ⟨present, m₁, hexists, h₁⟩ := h.seq
  obtain ⟨hnow, ⟨⟨e, he⟩, -⟩ | ⟨hpresent, hdevices⟩⟩ := alone_device hexists
  · cases he
  cases present with
  | false =>
    obtain ⟨-, rfl⟩ := h₁.ret
    intro fields hget
    rw [hdevices] at hget
    have hnone : m.world.redis.devices.peek m'.world.now b.deviceCode = none :=
      Option.isSome_eq_false_iff.mp (Except.ok.inj hpresent).symm |> Option.isNone_iff_eq_none.mp
    rw [HashCmd.exec, Expiring.get, hnone] at hget
    cases hget
  | true =>
    refine Stored.hset (fun fields hget => ?_) h₁
    rw [hdevices, hcode] at hget
    exact (hm fields (Expiring.get_of_le hnow hget)).merge hedit

/-- The authorization is found as it was written, unless it has expired or Redis fails. -/
theorem found_of_stored (hlaw : CodesLawful env) (hm : Stored env m a) (hcode : a.deviceCode ≠ "")
    {y : Except Failure (Option DeviceAuthorization)}
    (h : Alone (server env) R tid (findByDeviceCode env a.deviceCode).run m y m') :
    Stored env m' a ∧ (y = .ok (some a) ∨
      (y = .ok none ∧ m'.world.redis.devices.get m'.world.now a.deviceCode = none) ∨
      ∃ e, y = .error (.redis e)) := by
  unfold findByDeviceCode loadHash at h
  rw [if_neg hcode] at h
  rcases h.bindE with ⟨e, rfl, hread⟩ | ⟨fields, m₁, hread, hret⟩
  · obtain ⟨hnow, ⟨⟨text, htext⟩, hredis⟩ | ⟨hy, -⟩⟩ := alone_device hread
    · exact ⟨hm.later hnow (congrArg _ hredis), .inr (.inr ⟨text, congrArg _ (Except.error.inj htext)⟩)⟩
    · cases hy
  obtain ⟨hnow, ⟨⟨e, he⟩, -⟩ | ⟨hfields, hdevices⟩⟩ := alone_device hread
  · cases he
  have hget : fields = (m.world.redis.devices.get m₁.world.now a.deviceCode).getD [] :=
    Except.ok.inj hfields
  have hm₁ := hm.later hnow hdevices
  cases hold : m.world.redis.devices.get m₁.world.now a.deviceCode with
  | none =>
    rw [hold] at hget
    subst hget
    obtain ⟨rfl, rfl⟩ := hret.ret
    refine ⟨hm₁, .inr (.inl ⟨rfl, ?_⟩)⟩
    rw [hdevices]
    exact hold
  | some old =>
    rw [hold] at hget
    subst hget
    have hexact := hm₁ fields (by rw [hdevices]; exact hold)
    have hne : fields.isEmpty = false := by
      cases fields with
      | nil => cases hexact.id
      | cons => rfl
    simp only [hne, hexact.fromFields hlaw] at hret
    obtain ⟨rfl, rfl⟩ := hret.ret
    exact ⟨hm₁, .inl rfl⟩

end Chains

/-- The codec of device authorizations. -/
structure DeviceCodec (env : Env) : Prop where
  /-- The fields of an authorization are read back as the authorization. -/
  roundTrip : ∀ a, fromFields env (toFields env a) = .ok a
  /-- The authorization that was written last is the one that is found, until it expires. -/
  lastWritten : ∀ (R : Rules) m a, Written env R m a → ∀ tid y m',
    Alone (server env) R tid (findByDeviceCode env a.deviceCode).run m y m' →
    y = .ok (some a) ∨
      (y = .ok none ∧ m'.world.redis.devices.get m'.world.now a.deviceCode = none) ∨
      ∃ e, y = .error (.redis e)

end AuthServer
