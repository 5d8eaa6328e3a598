import AuthServer.Common.Environment
import Mathlib.Data.List.Dedup

/-!
# Scopes, PKCE and requested claims

Sets of strings are lists without repetition; their order carries no meaning.
-/

namespace AuthServer

namespace Scopes

/-- Scopes are separated by white space or commas. -/
def isSeparator (c : Char) : Bool := Text.isWhitespace c || c == ','

/-- The set of scopes in a scope parameter. -/
def parse (raw : Option String) : List String :=
  match raw with
  | none => []
  | some s => if Text.trim s = "" then [] else (Text.pieces isSeparator s).dedup

/-- Nothing requested is always allowed; nothing allowed allows nothing else. -/
def isSubsetOf (requested allowed : Option String) : Bool :=
  let req := (requested.map Text.trim).getD ""
  if req = "" then true
  else
    let allow := (allowed.map Text.trim).getD ""
    if allow = "" then false
    else (parse (some req)).all fun s => (parse (some allow)).contains s

end Scopes

namespace Pkce

def supportedMethods : List String := ["S256"]

def isMethodSupported (method : Option String) : Bool :=
  method.any fun m => supportedMethods.contains m

def verify (env : Env) (codeVerifier codeChallenge method : String) : Bool :=
  if codeVerifier = "" || codeChallenge = "" then false
  else if !Text.eqIgnoreAsciiCase method "S256" then false
  else env.sha256 codeVerifier == codeChallenge

/-- The method is compared without case, the digest exactly. -/
theorem verify_eq_true_iff {env : Env} {verifier challenge method : String} :
    verify env verifier challenge method = true ↔
      verifier ≠ "" ∧ challenge ≠ "" ∧ Text.eqIgnoreAsciiCase method "S256" = true ∧
        env.sha256 verifier = challenge := by
  unfold verify
  split
  · simp_all
    tauto
  · split
    · simp_all
    · simp_all

end Pkce

/-- The OIDC `claims` parameter: the names requested for each target. -/
structure ClaimsRequest where
  idTokenClaims : List String
  userinfoClaims : List String
  deriving DecidableEq

namespace ClaimsRequest

def empty : ClaimsRequest := ⟨[], []⟩

def parse (env : Env) (json : Option String) : ClaimsRequest :=
  match json with
  | none => empty
  | some s =>
    if Text.trim s = "" then empty
    else match env.parseJson s with
      | none => empty
      | some node => ⟨node.sectionNames "id_token", node.sectionNames "userinfo"⟩

end ClaimsRequest

end AuthServer
