import AuthServer.Client.Registration
import AuthServer.Replies
import AuthServer.Scenario
import AuthServer.Url.Form

/-!
# What a client reads from a redirect

The authorize endpoint and the consent page send the browser back to a redirect URI with
parameters appended. The client takes the query of the URL and decodes it as a form. It finds the
parameters of its own query and then the appended ones, unless the redirect URI has a fragment;
and it finds a `state` it never sent when the answer is a code.
-/

namespace AuthServer

open Concurrent AuthorizeFlow

namespace RedirectText

/-- Why the browser is sent back. -/
inductive Reason where
  | code (value : String)
  | error (kind description : String)
  | denied
  deriving DecidableEq

/-- The parameters that a redirect is about. -/
def Reason.params : Reason → List (String × String)
  | .code value => [("code", value)]
  | .error kind description =>
    [("error", kind)] ++
      if description = "" then [] else [("error_description", description)]
  | .denied => [("error", "access_denied"), ("error_description", "user denied consent")]

def Reason.isCode : Reason → Bool
  | .code _ => true
  | _ => false

/-- A state is handed back when the request carried one. -/
def stateParam (state : Option String) : List (String × String) :=
  (state.filter fun s => s != "").toList.map fun s => ("state", s)

/-- The redirects of `issue_code` with the code it has drawn, of `error_redirect`, and of a denied
consent. -/
inductive Sends (env : Env) : Reason → String → Option String → String → Prop
  | code {g : AuthorizeFlow.Grant} {es : Replies} {value location : String}
      (h : Returns (AuthorizeFlow.issueCode env g).run
        (⟨.urlSafe AuthorizeFlow.authCodeBytes, value⟩ :: es) (.ok (.success location))) :
      Sends env (.code value) g.redirectUri g.state location
  | error {uri location kind description : String} {state : Option String}
      (h : AuthorizeFlow.errorRedirect uri state kind description =
        .errorRedirect location kind description) :
      Sends env (.error kind description) uri state location
  | denied (pending : PendingAuthorization) :
      Sends env .denied pending.redirectUri pending.state (ConsentResource.deniedLocation pending)

/-- The client reads the parameters of its own query and the appended ones, and a state exactly
when it sent one. -/
def ParsesBack (lossy : List UInt8 → String) (reason : Reason) (uri : String)
    (state : Option String) (location : String) : Prop :=
  Url.form lossy (Url.query location.toList) =
    Url.form lossy (Url.query uri.toList) ++ reason.params ++ stateParam state

/-! ## Encoding -/

/-- How `urlEncode` writes a byte. -/
def encodeByte (b : UInt8) : List Char :=
  let n := b.toNat
  let c := Char.ofNat n
  if n < 128 && (c.isAlphanum || c == '-' || c == '_' || c == '.' || c == '~') then [c]
  else ['%', Text.hexDigit (n / 16), Text.hexDigit (n % 16)]

theorem toList_urlEncode (s : String) :
    (Text.urlEncode s).toList = s.toByteArray.data.toList.flatMap encodeByte :=
  String.toList_ofList

/-- The byte is written by itself or by two digits, and never as a separator. -/
def wellEncoded (b : UInt8) : Bool :=
  (encodeByte b).all (fun c => c != '&' && c != '=' && c != '#') &&
    match encodeByte b with
    | [c] => c != '%' && c != '+' && String.utf8EncodeChar c == [b]
    | ['%', hi, lo] =>
      match Url.hexValue? hi, Url.hexValue? lo with
      | some x, some y => b.toNat == 16 * x + y
      | _, _ => false
    | _ => false

theorem wellEncoded_all (b : UInt8) : wellEncoded b = true := by
  have hall : ∀ n : Fin 256, wellEncoded (UInt8.ofNat n) = true := by decide +kernel
  have hb := hall ⟨b.toNat, b.toNat_lt⟩
  rwa [UInt8.ofNat_toNat] at hb

theorem escapes_encodeByte : Url.Escapes encodeByte := by
  intro b
  obtain ⟨-, hread⟩ := Bool.and_eq_true_iff.mp (wellEncoded_all b)
  split at hread
  · next c henc =>
    simp only [Bool.and_eq_true, bne_iff_ne, beq_iff_eq] at hread
    exact .inl ⟨c, henc, hread.1.1, hread.1.2, hread.2⟩
  · next hi lo henc =>
    split at hread
    · next x y hx hy => exact .inr ⟨hi, lo, x, y, henc, hx, hy, beq_iff_eq.mp hread⟩
    · cases hread
  · cases hread

/-- Encoded texts have no separators. -/
theorem ne_of_mem_urlEncode {s : String} {c : Char} (h : c ∈ (Text.urlEncode s).toList) :
    c ≠ '&' ∧ c ≠ '=' ∧ c ≠ '#' := by
  rw [toList_urlEncode] at h
  obtain ⟨b, -, hc⟩ := List.mem_flatMap.mp h
  have hall := List.all_eq_true.mp (Bool.and_eq_true_iff.mp (wellEncoded_all b)).1 c hc
  simpa [and_assoc] using hall

section

variable {lossy : List UInt8 → String}

theorem component_urlEncode (s : String) :
    Url.component lossy (Text.urlEncode s).toList = s := by
  rw [toList_urlEncode, Url.component_flatMap escapes_encodeByte]

/-- One parameter as it is appended. -/
def piece (p : String × String) : List Char :=
  (Text.urlEncode p.1).toList ++ '=' :: (Text.urlEncode p.2).toList

theorem pair_piece (p : String × String) : Url.pair lossy (piece p) = p := by
  rw [piece, Url.pair_append fun h => (ne_of_mem_urlEncode h).2.1 rfl, component_urlEncode,
    component_urlEncode]

theorem notMem_piece (p : String × String) : piece p ≠ [] ∧ '&' ∉ piece p ∧ '#' ∉ piece p := by
  refine ⟨by simp [piece], ?_, ?_⟩
  · intro h
    rcases List.mem_append.mp h with h | h
    · exact (ne_of_mem_urlEncode h).1 rfl
    · rcases List.mem_cons.mp h with h | h
      · cases h
      · exact (ne_of_mem_urlEncode h).1 rfl
  · intro h
    rcases List.mem_append.mp h with h | h
    · exact (ne_of_mem_urlEncode h).2.2 rfl
    · rcases List.mem_cons.mp h with h | h
      · cases h
      · exact (ne_of_mem_urlEncode h).2.2 rfl

theorem toList_buildRedirect (uri : String) (ps : List (String × String)) :
    (buildRedirect uri ps).toList =
      uri.toList ++ (if Text.containsChar uri '?' then '&' else '?') ::
        ['&'].intercalate (ps.map piece) := by
  have hpieces : (ps.map fun p => Text.urlEncode p.1 ++ "=" ++ Text.urlEncode p.2).map
      String.toList = ps.map piece := by
    rw [List.map_map]
    refine List.map_congr_left fun p _ => ?_
    simp [piece]
  rw [buildRedirect, String.toList_append, String.toList_append,
    String.toList_intercalate, hpieces, List.append_assoc]
  split
  · rfl
  · rfl

theorem notMem_pieces (ps : List (String × String)) :
    '#' ∉ ['&'].intercalate (ps.map piece) := by
  induction ps with
  | nil => exact List.not_mem_nil
  | cons p ps ih =>
    cases ps with
    | nil =>
      rw [List.map_singleton, List.intercalate_singleton]
      exact (notMem_piece p).2.2
    | cons p' ps =>
      rw [List.map_cons, List.map_cons, List.intercalate_cons_cons]
      intro h
      rcases List.mem_append.mp h with h | h
      · rcases List.mem_append.mp h with h | h
        · exact (notMem_piece p).2.2 h
        · exact absurd h (by decide)
      · exact ih h

/-- Without a fragment the appended parameters are read after those of the redirect URI. -/
theorem form_buildRedirect {uri : String} (huri : '#' ∉ uri.toList) (ps : List (String × String)) :
    Url.form lossy (Url.query (buildRedirect uri ps).toList) =
      Url.form lossy (Url.query uri.toList) ++ ps := by
  have hps : Url.form lossy (['&'].intercalate (ps.map piece)) = ps := by
    rw [Url.form_intercalate, List.map_map]
    · exact (List.map_congr_left fun p _ => pair_piece p).trans (List.map_id ps)
    · intro l hl
      obtain ⟨p, -, rfl⟩ := List.mem_map.mp hl
      exact ⟨(notMem_piece p).1, (notMem_piece p).2.1⟩
  rw [toList_buildRedirect]
  by_cases hq : '?' ∈ uri.toList
  · rw [Text.containsChar, if_pos (List.contains_iff_mem.mpr hq), Url.query_append hq huri,
      Url.form_append, hps]
    exact List.not_mem_cons_of_ne_of_not_mem (by decide) (notMem_pieces ps)
  · rw [Text.containsChar, if_neg (fun h => hq (List.contains_iff_mem.mp h)),
      Url.query_append_mark huri hq (notMem_pieces ps), Url.query_of_notMem hq, Url.form_nil, hps]
    rfl

/-- With a fragment they are not in the query at all. -/
theorem form_buildRedirect_of_fragment {uri : String} (huri : '#' ∈ uri.toList)
    (ps : List (String × String)) :
    Url.form lossy (Url.query (buildRedirect uri ps).toList) =
      Url.form lossy (Url.query uri.toList) := by
  rw [toList_buildRedirect, Url.query_append_of_fragment huri]

end

/-! ## The three builders -/

/-- What is appended for a reason: the two error paths leave an empty state out, the success path
does not. -/
def appended (reason : Reason) (state : Option String) : List (String × String) :=
  reason.params ++
    if reason.isCode then [("state", state.getD "")] else stateParam state

/-- The builders agree on everything else. -/
theorem location_of_sends {env : Env} {reason : Reason} {uri location : String}
    {state : Option String} (h : Sends env reason uri state location) :
    location = buildRedirect uri (appended reason state) := by
  cases h with
  | @code g es value location h =>
    unfold issueCode at h
    obtain ⟨es₁, es₂, drawn, heq, hdraw, h⟩ := h.seq
    obtain ⟨_, _, _, -, -, h⟩ := h.seq
    obtain ⟨_, _, _, -, -, h⟩ := h.seq
    obtain ⟨-, hlocation⟩ := h.ret
    rw [returns_perform.mp hdraw] at heq
    obtain rfl : value = drawn := by
      have hhead := (List.cons.inj heq).1
      cases hhead
      rfl
    exact AuthorizeResult.success.inj hlocation
  | @error uri location kind description state h =>
    exact (AuthorizeResult.errorRedirect.inj h).1.symm
  | denied pending =>
    have hnames : Text.urlEncode "error" = "error" ∧
        Text.urlEncode "access_denied" = "access_denied" ∧
        Text.urlEncode "error_description" = "error_description" ∧
        Text.urlEncode "state" = "state" := by decide +kernel
    obtain ⟨herror, hdenied, hdescription, hstate⟩ := hnames
    unfold ConsentResource.deniedLocation buildRedirect appended stateParam
    cases pending.state.filter fun s => s != "" with
    | none =>
      rw [← String.toList_inj]
      simp [Reason.params, Reason.isCode, herror, hdenied, hdescription,
        String.intercalate_cons_cons]
    | some s =>
      rw [← String.toList_inj]
      simp [Reason.params, Reason.isCode, herror, hdenied, hdescription, hstate,
        String.intercalate_cons_cons]

/-- The state that a success appends is the one to append exactly when there is one. -/
theorem state_eq_stateParam_iff {state : Option String} :
    [("state", state.getD "")] = stateParam state ↔ ∃ s, state = some s ∧ s ≠ "" := by
  cases state with
  | none => exact ⟨fun h => (by cases h), fun ⟨_, h, _⟩ => (by cases h)⟩
  | some s =>
    by_cases hs : s = ""
    · subst hs
      refine ⟨fun h => (by cases h), ?_⟩
      rintro ⟨s, h, hne⟩
      exact absurd (Option.some.inj h).symm hne
    · have hfilter : (some s).filter (fun s => s != "") = some s := by simp [hs]
      rw [stateParam, hfilter]
      exact ⟨fun _ => ⟨s, rfl, hs⟩, fun _ => rfl⟩

theorem params_ne_nil (reason : Reason) : reason.params ≠ [] := by
  cases reason with
  | code => exact List.cons_ne_nil _ _
  | error => exact List.cons_ne_nil _ _
  | denied => exact List.cons_ne_nil _ _

/-- A client reads back what was sent exactly when its redirect URI has no fragment and, for a
code, its request carried a state. -/
theorem parsesBack_iff (env : Env) (lossy : List UInt8 → String) {reason : Reason}
    {uri location : String} {state : Option String} (h : Sends env reason uri state location) :
    ParsesBack lossy reason uri state location ↔
      '#' ∉ uri.toList ∧ (reason.isCode = true → ∃ s, state = some s ∧ s ≠ "") := by
  rw [ParsesBack, location_of_sends h]
  by_cases huri : '#' ∈ uri.toList
  · rw [form_buildRedirect_of_fragment huri, List.append_assoc]
    refine ⟨fun heq => ?_, fun hcond => absurd huri hcond.1⟩
    have hnil := List.append_right_eq_self.mp heq.symm
    exact absurd (List.append_eq_nil_iff.mp hnil).1 (params_ne_nil reason)
  · rw [form_buildRedirect huri, List.append_assoc, List.append_cancel_left_eq, appended,
      List.append_cancel_left_eq]
    cases hcode : reason.isCode with
    | true =>
      rw [if_pos rfl, state_eq_stateParam_iff]
      exact ⟨fun hstate => ⟨huri, fun _ => hstate⟩, fun hcond => hcond.2 rfl⟩
    | false =>
      rw [if_neg Bool.false_ne_true]
      exact ⟨fun _ => ⟨huri, fun h => (by cases h)⟩, fun _ => rfl⟩

section Samples

open Scenario

/-- A denied request of a client with a query in its redirect URI. -/
def deniedRequest : PendingAuthorization where
  requestId := "request-a"
  sessionId := 1
  userId := 1
  clientId := "app"
  redirectUri := "https://app.example/cb?x=1"
  responseType := "code"
  scope := none
  state := some "a&b=c"
  nonce := none
  prompt := none
  maxAge := none
  codeChallenge := none
  codeChallengeMethod := none
  claimsRequested := none
  expiresAt := 0

theorem parsesBack_deniedRequest :
    ParsesBack (fun _ => "") .denied "https://app.example/cb?x=1" (some "a&b=c")
      (ConsentResource.deniedLocation deniedRequest) :=
  (parsesBack_iff Scenario.env (fun _ => "") (.denied deniedRequest)).mpr
    ⟨by decide, fun h => (by cases h)⟩

/-- The grant of a request without a state. -/
def grant (redirectUri : String) : AuthorizeFlow.Grant where
  sessionId := 1
  userId := 1
  clientId := "app"
  redirectUri
  scope := none
  state := none
  nonce := none
  codeChallenge := none
  codeChallengeMethod := none
  claimsRequested := none

/-- The replies to the commands of `issue_code`: the code, the time twice, and that the code has
been stored. -/
theorem sends_grant (uri : String) :
    Sends Scenario.env (.code "code-a") uri none
      (buildRedirect uri [("code", "code-a"), ("state", "")]) := by
  have hreturns : Returns (issueCode Scenario.env (grant uri)).run
      [⟨.urlSafe authCodeBytes, "code-a"⟩, ⟨.now, (0 : Int)⟩, ⟨.now, (0 : Int)⟩,
        ⟨.redis (.authCode (.setnx (Scenario.env.sha256 "code-a")
          { (grant uri).code "code-a" (seconds 180) with createdAt := some 0 } (seconds 180))),
          (.ok true : Except String Bool)⟩]
      (.ok (.success (buildRedirect uri [("code", "code-a"), ("state", "")]))) :=
    .call (.call (.call (.call (.refl _))))
  exact .code hreturns

/-- Redirect URIs that an admin can register: with a code the client finds a `state` it never
sent, and behind a fragment it finds no code. -/
theorem not_parsesBack :
    (AdminResource.checkRedirectUri (some "https://app.example/cb") =
        .ok "https://app.example/cb" ∧
      ∃ location, Sends Scenario.env (.code "code-a") "https://app.example/cb" none location ∧
        ¬ ParsesBack (fun _ => "") (.code "code-a") "https://app.example/cb" none location) ∧
    AdminResource.checkRedirectUri (some "https://app.example/cb#top") =
        .ok "https://app.example/cb#top" ∧
      ∃ location,
        Sends Scenario.env (.error "invalid_scope" "") "https://app.example/cb#top" (some "s")
          location ∧
        ¬ ParsesBack (fun _ => "") (.error "invalid_scope" "") "https://app.example/cb#top"
          (some "s") location := by
  refine ⟨⟨by decide +kernel, _, sends_grant _, ?_⟩, by decide +kernel, _, .error rfl, ?_⟩
  · intro h
    rw [ParsesBack, form_buildRedirect (by decide)] at h
    exact absurd (congrArg List.length h) (by decide +kernel)
  · intro h
    rw [ParsesBack, form_buildRedirect_of_fragment (by decide)] at h
    exact absurd (congrArg List.length h) (by decide +kernel)

end Samples

end RedirectText

end AuthServer
