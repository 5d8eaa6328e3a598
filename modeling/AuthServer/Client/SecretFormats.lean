import AuthServer.Scenario
import Mathlib.Logic.Equiv.List

/-!
# Stored client secrets

One column holds hashed secrets, the two JSON texts of Argon2 around a pipe, and the plaintext
secrets of older deployments. The hash of a secret is accepted for that secret only. A plaintext
secret that begins with a brace and contains a pipe is taken for a hash.
-/

namespace AuthServer

open Storage

namespace Argon2

inductive Algorithm where
  | argon2d
  | argon2i
  | argon2id
  deriving DecidableEq

/-- What the hasher takes from libraries. -/
structure Library where
  Bytes : Type
  decEq : DecidableEq Bytes
  /-- The hash of a password with a salt; `none` for parameters the library refuses. -/
  compute : (password : String) → (salt : Bytes) →
    (iterations memoryKb parallelism hashLength : Nat) → Algorithm → Option Bytes
  /-- The sixteen bytes of a drawn salt. -/
  saltOf : String → Bytes
  /-- Standard base64. -/
  encode : Bytes → String
  decode : String → Option Bytes
  parseJson : String → Option Json
  /-- `str::parse::<i64>`. -/
  parseInt : String → Option Int

variable (lib : Library)

instance : DecidableEq lib.Bytes := lib.decEq

def iterations : Nat := 3

def memoryKb : Nat := 12288

def parallelism : Nat := 1

def hashLength : Nat := 32

/-- The text with the hash and the salt. -/
def secretData (value salt : String) : String :=
  "\x7b\"value\":\"" ++ value ++ "\",\"salt\":\"" ++ salt ++
    "\",\"additionalParameters\":\x7b\x7d\x7d"

/-- The text with the parameters. -/
def credentialData : String :=
  "\x7b\"hashIterations\":3,\"algorithm\":\"argon2\",\"additionalParameters\":\x7b" ++
    "\"hashLength\":[\"32\"],\"memory\":[\"12288\"],\"type\":[\"id\"],\"parallelism\":[\"1\"]\x7d\x7d"

/-- The library accepts the parameters of new hashes, so the `expect` of the source never fires. -/
def hash (rawPassword salt : String) : Hashed :=
  let salt := lib.saltOf salt
  let output := (lib.compute rawPassword salt iterations memoryKb parallelism hashLength
    .argon2id).getD salt
  ⟨secretData (lib.encode output) (lib.encode salt), credentialData⟩

def firstText (parent : Json) (key fallback : String) : String :=
  ((((parent.get? key).bind Json.asArray).bind List.head?).bind Json.asStr).getD fallback

def firstInt (parent : Json) (key : String) (fallback : Int) : Int :=
  (((((parent.get? key).bind Json.asArray).bind List.head?).bind Json.asStr).bind
    lib.parseInt).getD fallback

/-- `as u32` and `as usize`. -/
def wrap (bits : Nat) (n : Int) : Nat := (n % 2 ^ bits).toNat

def verifyInner (raw secretJson credentialJson : String) : Option Bool := do
  let secret ← lib.parseJson secretJson
  let credential ← lib.parseJson credentialJson
  let expected ← lib.decode (← (← secret.get? "value").asStr)
  let salt ← lib.decode (← (← secret.get? "salt").asStr)
  let iterations := ((credential.get? "hashIterations").bind Json.asU64).getD iterations
  let params := (credential.get? "additionalParameters").getD .null
  let algo := match firstText params "type" "id" with
    | "d" => Algorithm.argon2d
    | "i" => Algorithm.argon2i
    | _ => Algorithm.argon2id
  let actual ← lib.compute raw salt (wrap 32 iterations)
    (wrap 32 (firstInt lib params "memory" memoryKb))
    (wrap 32 (firstInt lib params "parallelism" parallelism))
    (wrap 64 (firstInt lib params "hashLength" hashLength)) algo
  return decide (expected = actual)

def verify (rawPassword secretDataJson credentialDataJson : String) : Bool :=
  (verifyInner lib rawPassword secretDataJson credentialDataJson).getD false

/-- The server with this hasher. -/
def env (base : Env) : Env := { base with argon2Hash := hash lib, argon2Verify := verify lib }

/-- Argon2 is injective for fixed parameters and salt, base64 is read back, and so are the texts of
the hasher. -/
structure Library.Lawful : Prop where
  computes : ∀ p salt, ∃ out,
    lib.compute p salt iterations memoryKb parallelism hashLength .argon2id = some out
  injective : ∀ p q salt,
    lib.compute p salt iterations memoryKb parallelism hashLength .argon2id =
      lib.compute q salt iterations memoryKb parallelism hashLength .argon2id → p = q
  decode_encode : ∀ b, lib.decode (lib.encode b) = some b
  pipe_encode : ∀ b, '|' ∉ (lib.encode b).toList
  secret : ∀ b salt, lib.parseJson (secretData (lib.encode b) (lib.encode (lib.saltOf salt))) =
    some (.obj [("value", .str (lib.encode b)), ("salt", .str (lib.encode (lib.saltOf salt))),
      ("additionalParameters", .obj [])])
  credential : lib.parseJson credentialData =
    some (.obj [("hashIterations", .num 3), ("algorithm", .str "argon2"),
      ("additionalParameters", .obj [("hashLength", .arr [.str "32"]), ("memory", .arr [.str "12288"]),
        ("type", .arr [.str "id"]), ("parallelism", .arr [.str "1"])])])
  decimals : lib.parseInt "32" = some 32 ∧ lib.parseInt "12288" = some 12288 ∧
    lib.parseInt "1" = some 1

variable {lib}

/-- A hash is accepted for its own secret only. -/
theorem verify_hash (h : lib.Lawful) (p q salt : String) :
    verify lib p (hash lib q salt).secretData (hash lib q salt).credentialData = true ↔ p = q := by
  obtain ⟨out, hout⟩ := h.computes q (lib.saltOf salt)
  obtain ⟨out', hout'⟩ := h.computes p (lib.saltOf salt)
  have hinner : verifyInner lib p (hash lib q salt).secretData (hash lib q salt).credentialData =
      some (decide (out = out')) := by
    simp [verifyInner, hash, hout, h.secret, h.credential, Json.get?, Json.asStr, Json.asU64,
      Json.asArray, h.decode_encode, firstInt, firstText, h.decimals, wrap]
    rw [show (3 : Nat) = iterations from rfl, show (12288 : Nat) = memoryKb from rfl,
      show (1 : Nat) = parallelism from rfl, show (32 : Nat) = hashLength from rfl, hout']
    rfl
  rw [verify, hinner, Option.getD_some, decide_eq_true_iff]
  constructor
  · rintro rfl
    exact h.injective p q _ (hout'.trans hout.symm)
  · rintro rfl
    exact Option.some.inj (hout.symm.trans hout')

end Argon2

namespace ClientSecretHasher

/-- `run_bounded`: a task that is cancelled or panics counts as `false`. -/
def runBounded (task : Option Bool) : Bool := task.getD false

/-- `verify_async` with the task that runs to its end. -/
def verifyAsync (env : Env) (presented stored : String) : Bool :=
  if !isHashed stored then verify env presented stored
  else runBounded (some (verify env presented stored))

theorem halves_append {a b : String} (h : '|' ∉ a.toList) : halves (a ++ "|" ++ b) = some (a, b) := by
  have hall : ∀ c ∈ a.toList, (c != '|') = true := by
    intro c hc
    rw [bne_iff_ne]
    rintro rfl
    exact h hc
  have hlist : (a ++ "|" ++ b).toList = a.toList ++ '|' :: b.toList := by simp
  simp [halves, hlist, List.takeWhile_append_of_pos hall, List.dropWhile_append_of_pos hall]

/-- The laws of the stored formats, for the plaintext secrets of a set. -/
structure FormatsKept (env : Env) (legacy : Set String) : Prop where
  hashed : ∀ p q salt, p ≠ "" → q ≠ "" → (verify env p (hash env q salt) = true ↔ p = q)
  plain : ∀ s ∈ legacy, ∀ p, verify env p s = true ↔ p = s
  async : ∀ p s, verifyAsync env p s = verify env p s

/-- A text in the format of a hash, and the hash of itself. -/
def HashOfItself (env : Env) (s : String) : Prop :=
  ∃ secretData credentialData, halves s = some (secretData, credentialData) ∧
    ∀ p, env.argon2Verify p secretData credentialData = true ↔ p = s

theorem verify_of_isHashed (env : Env) {s : String} (h : isHashed s = true) :
    ∃ secretData credentialData, halves s = some (secretData, credentialData) ∧
      ∀ p, verify env p s = env.argon2Verify p secretData credentialData := by
  have hpipe : s.toList.contains '|' = true := (Bool.and_eq_true _ _ ▸ h).2
  refine ⟨_, _, if_pos hpipe, fun p => ?_⟩
  rw [verify, halves, if_pos hpipe]
  exact if_pos h

theorem verify_of_not_isHashed {env : Env} {s p : String} (h : isHashed s = false) :
    verify env p s = (p == s) := by
  unfold verify
  split
  · simp [h]
  · rfl

/-- As many letters. -/
def letters (n : Nat) : String := String.ofList (List.replicate n 'a')

/-- A parser for the texts of the hasher. -/
def parseLetters (text : String) : Option Json :=
  let value := letters (text.length - 48)
  if text = Argon2.secretData value "" then
    some (.obj [("value", .str value), ("salt", .str ""), ("additionalParameters", .obj [])])
  else if text = Argon2.credentialData then
    some (.obj [("hashIterations", .num 3), ("algorithm", .str "argon2"),
      ("additionalParameters", .obj [("hashLength", .arr [.str "32"]), ("memory", .arr [.str "12288"]),
        ("type", .arr [.str "id"]), ("parallelism", .arr [.str "1"])])])
  else none

/-- A library that numbers the texts and writes a number as that many letters. -/
def countingLib : Argon2.Library where
  Bytes := Nat
  decEq := inferInstance
  compute p _ _ _ _ _ _ := some (Encodable.encode (p.toList.map Char.toNat))
  saltOf _ := 0
  encode := letters
  decode s := some s.length
  parseJson := parseLetters
  parseInt s := if s = "32" then some 32 else if s = "12288" then some 12288 else
    if s = "1" then some 1 else none

theorem length_letters (n : Nat) : (letters n).length = n := by simp [letters]

theorem notMem_letters (n : Nat) : '|' ∉ (letters n).toList := by simp [letters]

theorem parseLetters_secretData (n : Nat) : parseLetters (Argon2.secretData (letters n) "") =
    some (.obj [("value", .str (letters n)), ("salt", .str ""),
      ("additionalParameters", .obj [])]) := by
  have hlength : (Argon2.secretData (letters n) "").length - 48 = n := by
    have h₁ : "\x7b\"value\":\"".length = 10 := by decide
    have h₂ : "\",\"salt\":\"".length = 10 := by decide
    have h₃ : "\",\"additionalParameters\":\x7b\x7d\x7d".length = 28 := by decide
    simp only [Argon2.secretData, String.length_append, length_letters, String.length_empty, h₁, h₂, h₃]
    omega
  rw [parseLetters, hlength]
  exact if_pos rfl

theorem parseLetters_credentialData : parseLetters Argon2.credentialData =
    some (.obj [("hashIterations", .num 3), ("algorithm", .str "argon2"),
      ("additionalParameters", .obj [("hashLength", .arr [.str "32"]), ("memory", .arr [.str "12288"]),
        ("type", .arr [.str "id"]), ("parallelism", .arr [.str "1"])])]) := by
  have hne : Argon2.credentialData ≠
      Argon2.secretData (letters (Argon2.credentialData.length - 48)) "" := by decide +kernel
  unfold parseLetters
  rw [if_neg hne, if_pos rfl]

theorem parseJson_countingLib : countingLib.parseJson = parseLetters := rfl

theorem countingLib_lawful : countingLib.Lawful where
  computes p _ := ⟨Encodable.encode (p.toList.map Char.toNat), rfl⟩
  injective p q salt h := by
    have hlist : p.toList.map Char.toNat = q.toList.map Char.toNat :=
      Encodable.encode_injective (Option.some.inj h)
    exact String.toList_inj.mp (List.map_injective_iff.mpr (fun _ _ => Char.toNat_inj.mp) hlist)
  decode_encode b := congrArg some (length_letters b)
  pipe_encode := notMem_letters
  secret b _ := by
    rw [parseJson_countingLib]
    exact parseLetters_secretData b
  credential := by
    rw [parseJson_countingLib]
    exact parseLetters_credentialData
  decimals := by simp [countingLib]

end ClientSecretHasher

end AuthServer
