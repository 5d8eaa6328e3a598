import AuthServer.Admin
import AuthServer.Common.TextLaws

/-!
# Registering clients and their redirect URIs

The admin endpoints that create and delete clients, and add and remove redirect URIs. What
makes a text acceptable as a redirect URI is decided by its scheme alone: `checkRedirectUri`
is the part of `add_redirect_uri` that decides it, and `checkRedirectUri_eq_ok` says which
texts pass.
-/

namespace AuthServer

open Handler

/-- The body of `POST /admin/clients`. -/
structure ClientCreateRequest extends ClientRequest where
  clientId : Option String := none
  deriving DecidableEq

namespace AdminResource

/-- The character class after the first letter of a scheme. -/
def isSchemeChar (c : Char) : Bool := c.isAlphanum || c == '+' || c == '.' || c == '-'

/-- A scheme followed by `://`. -/
def isCustomScheme (lower : String) : Bool :=
  match Text.splitFirst "://".toList lower.toList with
  | none => false
  | some ([], _) => false
  | some (first :: chars, _) => first.isAlpha && chars.all isSchemeChar

def blockedScheme (lower : String) : Bool :=
  Text.startsWith lower "javascript:" || Text.startsWith lower "data:" ||
    Text.startsWith lower "file:" || Text.startsWith lower "vbscript:"

def allowedScheme (lower : String) : Bool :=
  Text.startsWith lower "http://" || Text.startsWith lower "https://" || isCustomScheme lower

/-- The text that would be registered, or why it is rejected. -/
def checkRedirectUri (raw : Option String) : Except AdminResponse String :=
  let uri := Text.trim (raw.getD "")
  if uri = "" then .error (.badRequest "uri is required")
  else
    let lower := Text.toAsciiLowercase uri
    if !allowedScheme lower || blockedScheme lower then
      .error (.badRequest "redirect_uri must use http(s) or a registered native scheme")
    else .ok uri

variable (env : Env)

def addRedirectUri (token : Option String) (path : String) (raw : Option String) :
    Handler (Except AdminResponse ClientSummary) := do
  match ← requireAdmin env token with
  | .error r => return .error r
  | .ok _ =>
    match env.parseUuid path with
    | none => return .error (.badRequest "invalid id")
    | some id =>
      match checkRedirectUri raw with
      | .error r => return .error r
      | .ok uri =>
        match ← ClientRepository.findById id with
        | none => return .error (.notFound "client not found")
        | some _ =>
          let uriId ← newUuid
          let createdAt ← now
          ClientRepository.addRedirectUri { id := uriId, clientId := id, uri, createdAt }
          match ← ClientRepository.findById id with
          | some c => return .ok (.fromClient env c)
          | none => return .error (.notFound "client not found")

/-- The client in the path is not looked at. -/
def removeRedirectUri (token : Option String) (uriPath : String) : Handler AdminResponse := do
  match ← requireAdmin env token with
  | .error r => return r
  | .ok _ =>
    match env.parseUuid uriPath with
    | none => return .badRequest "invalid uriId"
    | some uriId =>
      let _ ← ClientRepository.removeRedirectUri uriId
      return .noContent

def createClient (token : Option String) (body : ClientCreateRequest) :
    Handler (Except AdminResponse ClientSummary) := do
  match ← requireAdmin env token with
  | .error r => return .error r
  | .ok _ =>
    let cid := Text.trim (body.clientId.getD "")
    if cid = "" then return .error (.badRequest "clientId is required")
    match ← ClientRepository.findByClientId env cid with
    | some _ => return .error (.conflict "clientId already exists")
    | none =>
      let at_ ← now
      let id ← newUuid
      let secret ← newSecret env body.toClientRequest
      let row : ClientRow :=
        { id, clientId := cid, clientSecret := secret, name := body.name
          clientType := some (body.clientType.getD "public"), grantTypes := body.grantTypes
          responseTypes := body.responseTypes, scopes := body.scopes
          pkceRequired := body.pkceRequired.getD true, enabled := body.enabled.getD true
          baseUrl := body.baseUrl, description := body.description, accessTokenTtl := none
          refreshTokenTtl := none, frontchannelLogoutUri := body.frontchannelLogoutUri
          backchannelLogoutUri := body.backchannelLogoutUri, createdAt := at_
          updatedAt := at_ }
      ClientRepository.persist row
      let fresh ← ClientRepository.findById id
      return .ok (.fromClient env (fresh.getD ⟨row, []⟩))

def deleteClient (token : Option String) (path : String) : Handler AdminResponse := do
  match ← requireAdmin env token with
  | .error r => return r
  | .ok _ =>
    match env.parseUuid path with
    | none => return .badRequest "invalid id"
    | some id =>
      let _ ← ClientRepository.delete id
      return .noContent

end AdminResource

/-! ## The grammar of accepted redirect URIs -/

/-- The production `scheme` of RFC 3986: a letter, then letters, digits, `+`, `.` and `-`. -/
def IsScheme : List Char → Prop
  | [] => False
  | first :: chars => first.isAlpha = true ∧ ∀ c ∈ chars, AdminResource.isSchemeChar c = true

instance : DecidablePred IsScheme
  | [] => .isFalse id
  | _ :: _ => @instDecidableAnd _ _ _ (List.decidableBAll _ _)

/-- The schemes that run scripts or read files. -/
def dangerousSchemes : List String := ["javascript", "data", "file", "vbscript"]

/-- The text is `scheme://rest` with a scheme that is not dangerous in any case. -/
def SafeUri (uri : String) : Prop :=
  ∃ scheme rest : String, uri = scheme ++ "://" ++ rest ∧ IsScheme scheme.toList ∧
    Text.toAsciiLowercase scheme ∉ dangerousSchemes

namespace AdminResource

theorem ne_colon_of_isAlpha {c : Char} (h : c.isAlpha = true) : c ≠ ':' := by
  rintro rfl
  revert h
  decide

theorem ne_colon_of_isSchemeChar {c : Char} (h : isSchemeChar c = true) : c ≠ ':' := by
  rintro rfl
  revert h
  decide

theorem colon_notMem_of_isScheme {l : List Char} (h : IsScheme l) : ':' ∉ l := by
  intro hm
  cases l with
  | nil => cases hm
  | cons first chars =>
    rcases List.mem_cons.mp hm with heq | hm
    · exact ne_colon_of_isAlpha h.1 heq.symm
    · exact ne_colon_of_isSchemeChar (h.2 _ hm) rfl

/-- The custom scheme test is the grammar: the scheme has no colon, so the first `://` of the
text ends it. -/
theorem isCustomScheme_iff {lower : String} : isCustomScheme lower = true ↔
    ∃ scheme rest, lower.toList = scheme ++ "://".toList ++ rest ∧ IsScheme scheme := by
  constructor
  · intro h
    unfold isCustomScheme at h
    split at h
    · cases h
    · cases h
    · next first chars rest hsplit =>
      obtain ⟨hfirst, hchars⟩ := Bool.and_eq_true_iff.mp h
      exact ⟨first :: chars, rest, Text.eq_of_splitFirst hsplit, hfirst,
        List.all_eq_true.mp hchars⟩
  · rintro ⟨scheme, rest, hl, hs⟩
    have hsplit : Text.splitFirst "://".toList lower.toList = some (scheme, rest) := by
      rw [hl]
      exact Text.splitFirst_append (colon_notMem_of_isScheme hs)
    cases scheme with
    | nil => exact hs.elim
    | cons first chars =>
      rw [isCustomScheme, hsplit]
      exact Bool.and_eq_true_iff.mpr ⟨hs.1, List.all_eq_true.mpr hs.2⟩

theorem isSchemeChar_toLower (c : Char) : isSchemeChar c.toLower = isSchemeChar c := by
  have hdigit : c.toLower.isDigit = c.isDigit := by
    rcases toLower_cases c with ⟨h, -⟩ | ⟨hlow, hhigh, heq⟩
    · rw [h]
    · rw [Bool.eq_iff_iff, isDigit_iff, isDigit_iff]
      omega
  have hother : ∀ d : Char, d.isAlpha = false → (c.toLower == d) = (c == d) := by
    intro d hd
    rw [Bool.eq_iff_iff, beq_iff_eq, beq_iff_eq, toLower_eq_iff hd]
  rw [isSchemeChar, isSchemeChar, Char.isAlphanum, Char.isAlphanum, isAlpha_toLower, hdigit,
    hother '+' rfl, hother '.' rfl, hother '-' rfl]

theorem isScheme_map_toLower {l : List Char} : IsScheme (l.map Char.toLower) ↔ IsScheme l := by
  cases l with
  | nil => exact Iff.rfl
  | cons first chars =>
    simp only [List.map_cons, IsScheme, isAlpha_toLower, List.forall_mem_map,
      isSchemeChar_toLower]

variable {uri : String}

/-- The grammar does not depend on the case of the text. -/
theorem isCustomScheme_toAsciiLowercase :
    isCustomScheme (Text.toAsciiLowercase uri) = true ↔
      ∃ scheme rest, uri.toList = scheme ++ "://".toList ++ rest ∧ IsScheme scheme := by
  rw [isCustomScheme_iff, Text.toAsciiLowercase, String.toList_ofList]
  constructor
  · rintro ⟨scheme, rest, hl, hs⟩
    obtain ⟨head, tail, huri, hhead, rfl⟩ := List.map_eq_append_iff.mp hl
    obtain ⟨scheme, mark, rfl, rfl, hmark⟩ := List.map_eq_append_iff.mp hhead
    have hmark : mark = "://".toList := (map_toLower_eq_iff (by simp)).mp hmark
    exact ⟨scheme, tail, hmark ▸ huri, isScheme_map_toLower.mp hs⟩
  · rintro ⟨scheme, rest, hl, hs⟩
    refine ⟨scheme.map Char.toLower, rest.map Char.toLower, ?_, isScheme_map_toLower.mpr hs⟩
    rw [hl, List.map_append, List.map_append]
    rfl

/-- The two schemes of the web need no rule of their own. -/
theorem allowedScheme_eq (lower : String) : allowedScheme lower = isCustomScheme lower := by
  have hweb : ∀ scheme : List Char, IsScheme scheme →
      (scheme ++ "://".toList).isPrefixOf lower.toList = true → isCustomScheme lower = true := by
    intro scheme hs hp
    obtain ⟨rest, hrest⟩ := List.isPrefixOf_iff_prefix.mp hp
    exact isCustomScheme_iff.mpr ⟨scheme, rest, hrest.symm, hs⟩
  rw [Bool.eq_iff_iff, allowedScheme, Bool.or_eq_true, Bool.or_eq_true]
  constructor
  · rintro ((h | h) | h)
    · exact hweb "http".toList (by decide) h
    · exact hweb "https".toList (by decide) h
    · exact h
  · exact .inr

/-- The blocked beginnings are the dangerous schemes. -/
theorem blockedScheme_iff {lower : String} {scheme rest : List Char}
    (hl : lower.toList = scheme ++ "://".toList ++ rest) (hs : ':' ∉ scheme) :
    blockedScheme lower = true ↔ String.ofList scheme ∈ dangerousSchemes := by
  have hcut : Text.splitFirst [':'] lower.toList = some (scheme, '/' :: '/' :: rest) := by
    have hl' : lower.toList = scheme ++ [':'] ++ '/' :: '/' :: rest := by
      rw [hl]
      simp
    exact hl' ▸ Text.splitFirst_append hs
  have hstart : ∀ b start : String, start.toList = b.toList ++ [':'] → ':' ∉ b.toList →
      (Text.startsWith lower start = true ↔ String.ofList scheme = b) := by
    intro b start heq hb
    rw [Text.startsWith, heq, List.isPrefixOf_iff_prefix]
    constructor
    · rintro ⟨t, ht⟩
      have hcut' : Text.splitFirst [':'] lower.toList = some (b.toList, t) :=
        ht ▸ Text.splitFirst_append hb
      rw [(Prod.mk.inj (Option.some.inj (hcut.symm.trans hcut'))).1, String.ofList_toList]
    · rintro rfl
      rw [hl, String.toList_ofList]
      exact ⟨'/' :: '/' :: rest, by simp⟩
  rw [blockedScheme, Bool.or_eq_true, Bool.or_eq_true, Bool.or_eq_true,
    hstart "javascript" "javascript:" (by decide) (by decide),
    hstart "data" "data:" (by decide) (by decide), hstart "file" "file:" (by decide) (by decide),
    hstart "vbscript" "vbscript:" (by decide) (by decide)]
  simp only [dangerousSchemes, List.mem_cons, List.not_mem_nil, or_false, or_assoc]

/-- What the two tests on the lower-cased text come to. -/
theorem passes_iff :
    (allowedScheme (Text.toAsciiLowercase uri) = true ∧
      blockedScheme (Text.toAsciiLowercase uri) = false) ↔ SafeUri uri := by
  rw [allowedScheme_eq, isCustomScheme_toAsciiLowercase, ← Bool.not_eq_true]
  have hblocked : ∀ {scheme rest : List Char}, uri.toList = scheme ++ "://".toList ++ rest →
      IsScheme scheme → (blockedScheme (Text.toAsciiLowercase uri) = true ↔
        String.ofList (scheme.map Char.toLower) ∈ dangerousSchemes) := by
    intro scheme rest hl hs
    refine @blockedScheme_iff _ _ (rest.map Char.toLower) ?_
      (colon_notMem_of_isScheme (isScheme_map_toLower.mpr hs))
    rw [Text.toAsciiLowercase, String.toList_ofList, hl, List.map_append, List.map_append]
    rfl
  constructor
  · rintro ⟨⟨scheme, rest, hl, hs⟩, hb⟩
    refine ⟨String.ofList scheme, String.ofList rest, ?_, ?_, ?_⟩
    · rw [← String.toList_inj, String.toList_append, String.toList_append, hl]
      simp only [String.toList_ofList]
    · rwa [String.toList_ofList]
    · rw [Text.toAsciiLowercase, String.toList_ofList]
      exact fun hm => hb ((hblocked hl hs).mpr hm)
  · rintro ⟨scheme, rest, rfl, hs, hsafe⟩
    have hl : (scheme ++ "://" ++ rest).toList =
        scheme.toList ++ "://".toList ++ rest.toList := by
      rw [String.toList_append, String.toList_append]
    exact ⟨⟨_, _, hl, hs⟩, fun hb => hsafe ((hblocked hl hs).mp hb)⟩

/-- The texts that pass are exactly the trimmed ones of the grammar. -/
theorem checkRedirectUri_eq_ok {raw : Option String} :
    checkRedirectUri raw = .ok uri ↔
      uri = Text.trim (raw.getD "") ∧ uri ≠ "" ∧ SafeUri uri := by
  unfold checkRedirectUri
  dsimp only
  split
  · next hempty =>
    refine ⟨fun h => (by cases h), ?_⟩
    rintro ⟨rfl, hne, -⟩
    exact absurd hempty hne
  · next hne =>
    split
    · next hbad =>
      refine ⟨fun h => (by cases h), ?_⟩
      rintro ⟨rfl, -, hsafe⟩
      obtain ⟨hallowed, hblocked⟩ := passes_iff.mpr hsafe
      rw [hallowed, hblocked] at hbad
      cases hbad
    · next hgood =>
      have hgood := Bool.or_eq_false_iff.mp (Bool.not_eq_true _ ▸ hgood)
      have hsafe : SafeUri (Text.trim (raw.getD "")) :=
        passes_iff.mp ⟨Bool.not_eq_false' .. ▸ hgood.1, hgood.2⟩
      constructor
      · intro h
        cases h
        exact ⟨rfl, hne, hsafe⟩
      · rintro ⟨rfl, -, -⟩
        rfl

example : checkRedirectUri (some " com.example.app://callback ") =
    .ok "com.example.app://callback" := by decide +kernel

example : checkRedirectUri (some "JavaScript://%0aalert(1)") =
    .error (.badRequest "redirect_uri must use http(s) or a registered native scheme") := by
  decide +kernel

end AdminResource

end AuthServer
