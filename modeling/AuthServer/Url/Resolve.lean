import Mathlib.Data.List.DropRight

/-!
# Where a browser goes for a reference

The part of the WHATWG URL standard that decides scheme, host and port when a reference is
resolved against the URL of a page of the web: the input is cleaned, a scheme is looked for, and
without one the reference is relative. A relative reference keeps the host of the base unless it
begins with two slashes, and a backslash counts as a slash.

## Implementation notes

The states of the standard's parser that only collect the path, the query and the fragment
cannot change the three values and are left out. The host parser (percent-decoding, IDNA and
addresses) is a parameter, and the result for a scheme other than `http` and `https` is only
its name.
-/

namespace Url

/-- The schemes of the web. -/
inductive Web where
  | http
  | https
  deriving DecidableEq

namespace Web

def name : Web → List Char
  | .http => "http".toList
  | .https => "https".toList

def defaultPort : Web → Nat
  | .http => 80
  | .https => 443

/-- The scheme with a given name. -/
def ofName? (scheme : List Char) : Option Web :=
  if scheme = Web.name .http then some .http
  else if scheme = Web.name .https then some .https
  else none

end Web

/-- Scheme, host and port of a URL; the default port of the scheme is no port. -/
structure Origin where
  scheme : Web
  host : String
  port : Option Nat
  deriving DecidableEq

/-- What a reference resolves to. -/
inductive Target where
  | failure
  | foreign (scheme : String)
  | url (origin : Origin)
  deriving DecidableEq

/-- C0 controls and the space. -/
def isC0OrSpace (c : Char) : Bool := decide (c.toNat ≤ 32)

/-- The characters that are removed wherever they stand. -/
def isTabOrNewline (c : Char) : Bool := c == '\t' || c == '\n' || c == '\r'

def isSlash (c : Char) : Bool := c == '/' || c == '\\'

/-- The input without controls and spaces at its ends, and without tabs and newlines. -/
def clean (input : List Char) : List Char :=
  ((input.dropWhile isC0OrSpace).rdropWhile isC0OrSpace).filter fun c => !isTabOrNewline c

/-- The scheme before the first colon, in lower case, and what follows the colon. -/
def scheme? (text : List Char) : Option (List Char × List Char) :=
  match text with
  | [] => none
  | c :: _ =>
    if c.isAlpha then
      let scheme := text.takeWhile fun c => c.isAlphanum || c == '+' || c == '-' || c == '.'
      match text.drop scheme.length with
      | ':' :: rest => some (scheme.map Char.toLower, rest)
      | _ => none
    else none

/-- The host and the port around the first colon outside of brackets. -/
def splitPort (inside : Bool) : List Char → List Char × Option (List Char)
  | [] => ([], none)
  | c :: cs =>
    if c = ':' ∧ inside = false then ([], some cs)
    else
      let y := splitPort (if c = '[' then true else if c = ']' then false else inside) cs
      (c :: y.1, y.2)

/-- The value of a port; the default one is dropped. -/
def parsePort (scheme : Web) : Option (List Char) → Option (Option Nat)
  | none | some [] => some none
  | some digits =>
    if digits.all Char.isDigit then
      let n := digits.foldl (fun n c => 10 * n + (c.toNat - 48)) 0
      if 65535 < n then none
      else if n = scheme.defaultPort then some none
      else some (some n)
    else none

section

variable (parseHost : String → Option String)

/-- The authority at the beginning of a text: credentials are dropped, a host is required. -/
def authority (scheme : Web) (text : List Char) : Target :=
  let whole := text.takeWhile fun c => !(isSlash c || c == '?' || c == '#')
  let parts := splitPort false (whole.rtakeWhile fun c => c != '@')
  if parts.1 = [] then .failure
  else match parseHost (String.ofList parts.1), parsePort scheme parts.2 with
    | some host, some port => .url ⟨scheme, host, port⟩
    | _, _ => .failure

/-- A reference without a scheme. -/
def relative (base : Origin) : List Char → Target
  | c :: d :: rest =>
    if isSlash c && isSlash d then authority parseHost base.scheme (rest.dropWhile isSlash)
    else .url base
  | _ => .url base

/-- Resolve a reference against a URL of the web. -/
def resolve (base : Origin) (input : String) : Target :=
  let text := clean input.toList
  match scheme? text with
  | none => relative parseHost base text
  | some (scheme, rest) =>
    if scheme = base.scheme.name then
      match rest with
      | '/' :: '/' :: rest => authority parseHost base.scheme (rest.dropWhile isSlash)
      | _ => relative parseHost base rest
    else match Web.ofName? scheme with
      | some web => authority parseHost web (rest.dropWhile isSlash)
      | none => .foreign (String.ofList scheme)

end

/-! ## References that begin with a slash -/

/-- The first character that is not removed. -/
def firstKept (text : List Char) : Option Char := text.find? fun c => !isTabOrNewline c

variable {t : List Char} {d : Char}

/-- Cutting controls and spaces off the end does not change which other character comes first. -/
theorem head?_filter_rdropWhile (hd : isC0OrSpace d = false) :
    ((t.rdropWhile isC0OrSpace).filter fun c => !isTabOrNewline c).head? = some d ↔
      firstKept t = some d := by
  have hsplit : firstKept t =
      ((t.rdropWhile isC0OrSpace).find? fun c => !isTabOrNewline c).or
        ((t.rtakeWhile isC0OrSpace).find? fun c => !isTabOrNewline c) := by
    rw [← List.find?_append, List.rdropWhile_append_rtakeWhile, firstKept]
  rw [List.head?_filter, hsplit]
  cases (t.rdropWhile isC0OrSpace).find? fun c => !isTabOrNewline c with
  | some c => exact Iff.rfl
  | none =>
    refine ⟨fun h => (by cases h), fun h => ?_⟩
    -- what was cut off consists of controls and spaces
    have hcut := List.mem_rtakeWhile_imp (List.mem_of_find?_eq_some h)
    rw [hd] at hcut
    cases hcut

theorem rdropWhile_cons_of_neg {p : Char → Bool} {c : Char} (hc : p c = false) (t : List Char) :
    (c :: t).rdropWhile p = c :: t.rdropWhile p := by
  induction t using List.reverseRecOn with
  | nil => rw [List.rdropWhile_singleton, hc, List.rdropWhile_nil, if_neg Bool.false_ne_true]
  | append_singleton t d ih =>
    rw [← List.cons_append, List.rdropWhile_concat, List.rdropWhile_concat, ih]
    split
    · rfl
    · rfl

theorem clean_cons_slash (t : List Char) : clean ('/' :: t) =
    '/' :: (t.rdropWhile isC0OrSpace).filter fun c => !isTabOrNewline c := by
  have hslash : isC0OrSpace '/' = false := rfl
  rw [clean, List.dropWhile_cons_of_neg (by rw [hslash]; exact Bool.false_ne_true),
    rdropWhile_cons_of_neg hslash]
  rfl

theorem isC0OrSpace_of_isSlash (h : isSlash d = true) : isC0OrSpace d = false := by
  rcases Bool.or_eq_true_iff.mp h with h | h
  · rw [beq_iff_eq.mp h]
    rfl
  · rw [beq_iff_eq.mp h]
    rfl

variable {parseHost : String → Option String} {base : Origin}

/-- A reference that begins with a slash is relative. -/
theorem resolve_cons_slash (t : List Char) : resolve parseHost base (String.ofList ('/' :: t)) =
    relative parseHost base
      ('/' :: (t.rdropWhile isC0OrSpace).filter fun c => !isTabOrNewline c) := by
  rw [resolve, String.toList_ofList, clean_cons_slash]
  rfl

/-- It keeps the origin when the next character that is kept is no slash. -/
theorem resolve_eq_base (h : ∀ d, firstKept t = some d → isSlash d = false) :
    resolve parseHost base (String.ofList ('/' :: t)) = .url base := by
  rw [resolve_cons_slash]
  cases hkept : (t.rdropWhile isC0OrSpace).filter fun c => !isTabOrNewline c with
  | nil => rfl
  | cons d rest =>
    have hd : isSlash d = false := by
      cases hslash : isSlash d with
      | false => rfl
      | true =>
        have hfirst : firstKept t = some d :=
          (head?_filter_rdropWhile (isC0OrSpace_of_isSlash hslash)).mp (by rw [hkept]; rfl)
        exact hslash ▸ h d hfirst
    rw [relative, hd, Bool.and_false, if_neg Bool.false_ne_true]

/-- Otherwise it goes to an authority of its own, whatever the base is. -/
theorem resolve_eq_authority (h : firstKept t = some d) (hd : isSlash d = true)
    : ∃ rest, ∀ (parseHost : String → Option String) (base : Origin),
      resolve parseHost base (String.ofList ('/' :: t)) =
        authority parseHost base.scheme rest := by
  have hhead := (head?_filter_rdropWhile (isC0OrSpace_of_isSlash hd)).mpr h
  obtain ⟨rest, hrest⟩ := List.head?_eq_some_iff.mp hhead
  refine ⟨rest.dropWhile isSlash, fun parseHost base => ?_⟩
  rw [resolve_cons_slash, hrest, relative, hd]
  rfl

/-- No text names the authority of every base. -/
theorem exists_authority_ne (parseHost : String → Option String) (text : List Char) :
    ∃ base : Origin, authority parseHost base.scheme text ≠ .url base := by
  cases hauth : authority parseHost .https text with
  | failure => exact ⟨⟨.https, "", none⟩, by rw [hauth]; exact fun h => (by cases h)⟩
  | foreign scheme => exact ⟨⟨.https, "", none⟩, by rw [hauth]; exact fun h => (by cases h)⟩
  | url origin =>
    refine ⟨⟨.https, origin.host.push 'x', none⟩, ?_⟩
    rw [hauth]
    intro h
    have hhost := congrArg (fun o => o.host.toList.length) (Target.url.inj h)
    simp at hhost

end Url
