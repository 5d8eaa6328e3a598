import AuthServer.Account.ReturnPath
import AuthServer.Oauth.RedirectText
import AuthServer.Url.Script

/-!
# Where a logout sends the browser

With clients that log out over the front channel the answer of `/oauth/logout` is a page, whose
script goes on to the validated redirect URI; otherwise it is a redirect. The page writes the URI
as HTML into a string of the script, so the two agree only on URIs without characters that HTML
escapes.
-/

namespace AuthServer

namespace LogoutPage

open ReturnPath (Sendable)

/-- The responses of the logout handler. -/
inductive Response where
  /-- The page with its front-channel frames. -/
  | page (frontchannelUris : List String) (finalRedirect : Option String)
  | seeOther (location : String)
  /-- The redirect cannot be written into a header. -/
  | failed
  | message (text : String)
  deriving DecidableEq

/-- The validated URI with the state appended. -/
def finalRedirect (validated state : Option String) : Option String :=
  match validated, state with
  | some redir, some stateParam =>
    if stateParam ≠ "" then
      some (redir ++ (if Text.containsChar redir '?' then "&" else "?") ++ "state=" ++
        Text.urlEncode stateParam)
    else some redir
  | validated, _ => validated

def logout (result : LogoutResult) (state : Option String) : Response :=
  let redirect := finalRedirect result.validatedPostLogoutRedirectUri state
  if result.frontchannelLogoutUris ≠ [] then .page result.frontchannelLogoutUris redirect
  else
    match redirect with
    | some redir => if Sendable redir then .seeOther redir else .failed
    | none => .message (if result.terminated then "logged out" else "no active session")

/-- Where the browser goes: to the location of a redirect, and from the page to the value of the
script's variable if that is not the empty text. -/
def destination (esc : Script.Escapes) : Response → Option String
  | .seeOther location => some location
  | .page _ (some redir) =>
    ((Script.embedded esc redir.toList).filter fun v => v != []).map String.ofList
  | _ => none

/-- A redirect to the URI and a page that goes on to it lead to the same place. -/
def SamePlace (esc : Script.Escapes) (uri : String) (state : Option String) : Prop :=
  ∀ r₁ r₂ : LogoutResult, r₁.validatedPostLogoutRedirectUri = some uri →
    r₂.validatedPostLogoutRedirectUri = some uri → r₁.frontchannelLogoutUris = [] →
    r₂.frontchannelLogoutUris ≠ [] → ∀ location, logout r₁ state = .seeOther location →
      destination esc (logout r₂ state) = some location

/-- The URI has none of the characters that HTML escapes and no backslash, and a state does not
have to be appended to a query. -/
def Plain (uri : String) (state : Option String) : Prop :=
  (∀ c ∈ uri.toList, Script.isMarked c = false) ∧
    ((∃ s, state = some s ∧ s ≠ "") → '?' ∉ uri.toList)

/-- The characters that the encoder writes. -/
def isEncoded (c : Char) : Bool :=
  !Script.isMarked c && decide (32 ≤ c.toNat ∧ c.toNat ≠ 127)

theorem isEncoded_urlEncode {s : String} {c : Char} (h : c ∈ (Text.urlEncode s).toList) :
    isEncoded c = true := by
  have hall : ∀ n : Fin 256, (RedirectText.encodeByte (UInt8.ofNat n)).all isEncoded = true := by
    decide +kernel
  rw [RedirectText.toList_urlEncode] at h
  obtain ⟨b, -, hc⟩ := List.mem_flatMap.mp h
  have hb := hall ⟨b.toNat, b.toNat_lt⟩
  rw [UInt8.ofNat_toNat] at hb
  exact List.all_eq_true.mp hb c hc

/-- What is appended to the URI: nothing, or one separator and then harmless characters. -/
theorem toList_finalRedirect (uri : String) (state : Option String) :
    ∃ redir, finalRedirect (some uri) state = some redir ∧
      (¬ (∃ s, state = some s ∧ s ≠ "") ∧ redir = uri ∨
        (∃ s, state = some s ∧ s ≠ "") ∧ ∃ rest, (∀ c ∈ rest, isEncoded c = true) ∧
          redir.toList = uri.toList ++ (if '?' ∈ uri.toList then '&' else '?') :: rest) := by
  cases state with
  | none => exact ⟨uri, rfl, .inl ⟨fun ⟨_, h, _⟩ => (by cases h), rfl⟩⟩
  | some s =>
    by_cases hs : s = ""
    · refine ⟨uri, if_neg (not_not.mpr hs), .inl ⟨?_, rfl⟩⟩
      rintro ⟨_, h, hne⟩
      exact hne ((Option.some.inj h).symm.trans hs)
    · refine ⟨_, if_pos hs, .inr ⟨⟨s, rfl, hs⟩, "state=".toList ++ (Text.urlEncode s).toList,
        fun c hc => ?_, ?_⟩⟩
      · rcases List.mem_append.mp hc with hc | hc
        · exact List.all_eq_true.mp (by decide : "state=".toList.all isEncoded = true) c hc
        · exact isEncoded_urlEncode hc
      · by_cases hq : '?' ∈ uri.toList <;> simp [Text.containsChar, hq]

variable {uri redir : String} {state : Option String}

/-- The final redirect has no marked character exactly when the URI is plain. -/
theorem not_marked_iff (h : finalRedirect (some uri) state = some redir) :
    (∀ c ∈ redir.toList, Script.isMarked c = false) ↔ Plain uri state := by
  obtain ⟨redir', h', hcases⟩ := toList_finalRedirect uri state
  cases h'.symm.trans h
  rcases hcases with ⟨hnone, rfl⟩ | ⟨hsome, rest, hrest, hlist⟩
  · exact ⟨fun hm => ⟨hm, fun hs => absurd hs hnone⟩, And.left⟩
  · have hplain : ∀ c ∈ rest, Script.isMarked c = false := fun c hc =>
      Bool.not_eq_true' _ ▸ (Bool.and_eq_true_iff.mp (hrest c hc)).1
    rw [hlist, List.forall_mem_append, List.forall_mem_cons, Plain]
    by_cases hq : '?' ∈ uri.toList
    · rw [if_pos hq]
      refine ⟨fun hm => absurd hm.2.1 (by decide), fun hm => absurd hq (hm.2 hsome)⟩
    · rw [if_neg hq]
      exact ⟨fun hm => ⟨hm.1, fun _ => hq⟩, fun hm => ⟨hm.1, by decide, hplain⟩⟩

theorem sendable_finalRedirect (h : finalRedirect (some uri) state = some redir)
    : Sendable redir ↔ Sendable uri := by
  obtain ⟨redir', h', hcases⟩ := toList_finalRedirect uri state
  cases h'.symm.trans h
  rcases hcases with ⟨-, rfl⟩ | ⟨-, rest, hrest, hlist⟩
  · exact Iff.rfl
  · have hsend : ∀ c ∈ rest, c = '\t' ∨ 32 ≤ c.toNat ∧ c.toNat ≠ 127 := fun c hc =>
      .inr (of_decide_eq_true (Bool.and_eq_true_iff.mp (hrest c hc)).2)
    rw [Sendable, hlist, List.forall_mem_append, List.forall_mem_cons]
    refine ⟨And.left, fun hm => ⟨hm, ?_, hsend⟩⟩
    by_cases hq : '?' ∈ uri.toList
    · rw [if_pos hq]
      decide
    · rw [if_neg hq]
      decide

theorem ne_empty_finalRedirect (huri : uri ≠ "") (h : finalRedirect (some uri) state = some redir)
    : redir.toList ≠ [] := by
  obtain ⟨redir', h', hcases⟩ := toList_finalRedirect uri state
  cases h'.symm.trans h
  rcases hcases with ⟨-, rfl⟩ | ⟨-, rest, -, hlist⟩
  · exact fun hnil => huri (String.toList_inj.mp hnil)
  · simp [hlist]

/-- The two answers to a logout lead to the same place exactly when the URI is plain. A URI that a
header cannot carry is not redirected to, and an empty one is never validated. -/
theorem samePlace_iff (esc : Script.Escapes) {uri : String} (huri : uri ≠ "")
    (state : Option String) : SamePlace esc uri state ↔ (Sendable uri → Plain uri state) := by
  obtain ⟨redir, hredir, -⟩ := toList_finalRedirect uri state
  have hne := ne_empty_finalRedirect huri hredir
  rw [← not_marked_iff hredir, ← sendable_finalRedirect hredir]
  have hline (hsend : Sendable redir) : ∀ c ∈ redir.toList, c ≠ '\n' ∧ c ≠ '\r' := by
    intro c hc
    constructor
    all_goals
      rintro rfl
      exact absurd (hsend _ hc) (by decide)
  constructor
  · intro h hsend
    refine (Script.embedded_eq_self_iff (hline hsend)).mp (?_ : Script.embedded esc _ = _)
    have hgo := h ⟨true, [], some uri⟩ ⟨true, ["f"], some uri⟩ rfl rfl rfl (List.cons_ne_nil _ _)
      redir (by simp [logout, hredir, hsend])
    rw [logout, if_pos (List.cons_ne_nil _ _), hredir] at hgo
    obtain ⟨v, hv, hlist⟩ := Option.map_eq_some_iff.mp hgo
    obtain rfl : v = redir.toList := by rw [← hlist, String.toList_ofList]
    exact (Option.filter_eq_some_iff.mp hv).1
  · intro h r₁ r₂ h₁ h₂ hnone hsome location hlocation
    rw [logout, h₁, hredir, hnone, if_neg (not_not.mpr rfl)] at hlocation
    change (if Sendable redir then _ else _) = _ at hlocation
    by_cases hsend : Sendable redir
    · rw [if_pos hsend] at hlocation
      obtain rfl := Response.seeOther.inj hlocation
      rw [logout, if_pos hsome, h₂, hredir, destination,
        (Script.embedded_eq_self_iff (hline hsend)).mpr (h hsend)]
      simp [hne]
    · rw [if_neg hsend] at hlocation
      cases hlocation

/-- Escape sequences that stand for the character after the backslash. -/
def literalEscapes : Script.Escapes where
  read
    | [] => none
    | c :: rest => some (some c, rest)
  consumes := by
    intro text c rest h
    cases text with
    | nil => cases h
    | cons d text =>
      cases h
      exact ⟨[d], rfl, List.cons_ne_nil _ _, Nat.le_refl _⟩

theorem samePlace_callback : Sendable "https://app.example/bye" ∧
    SamePlace literalEscapes "https://app.example/bye" (some "a&b") := by
  have hall : "https://app.example/bye".toList.all (fun c => !Script.isMarked c) = true := by
    decide
  refine ⟨by decide, (samePlace_iff literalEscapes (by decide) _).mpr fun _ => ⟨?_, ?_⟩⟩
  · exact fun c hc => Bool.not_eq_true' _ ▸ List.all_eq_true.mp hall c hc
  · exact fun _ => by decide

/-- A URI that an admin can register: the state is appended with an ampersand, which the page turns
into the text of its entity. -/
theorem not_samePlace :
    AdminResource.checkRedirectUri (some "https://app.example/bye?x=1") =
        .ok "https://app.example/bye?x=1" ∧
      ¬ SamePlace literalEscapes "https://app.example/bye?x=1" (some "s") ∧
      destination literalEscapes
          (logout ⟨true, ["f"], some "https://app.example/bye?x=1"⟩ (some "s")) =
        some "https://app.example/bye?x=1&amp;state=s" := by
  refine ⟨by decide +kernel, fun h => ?_, by decide +kernel⟩
  have hgo := h ⟨true, [], some "https://app.example/bye?x=1"⟩
    ⟨true, ["f"], some "https://app.example/bye?x=1"⟩ rfl rfl rfl (List.cons_ne_nil _ _)
    "https://app.example/bye?x=1&state=s" (by decide +kernel)
  exact absurd hgo (by decide +kernel)

end LogoutPage

end AuthServer
