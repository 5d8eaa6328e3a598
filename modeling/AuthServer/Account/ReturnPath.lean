import AuthServer.Account.LoginResource
import AuthServer.Url.Resolve

/-!
# Where the login page sends the browser

After a login the browser is sent to `return_to` if it is a path of this server. The check looks
at the second character as it stands; the browser removes tabs before it looks.
-/

namespace AuthServer

namespace ReturnPath

/-- A text that a `Location` header can carry: no control characters other than the tab. -/
def Sendable (s : String) : Prop :=
  ∀ c ∈ s.toList, c = '\t' ∨ 32 ≤ c.toNat ∧ c.toNat ≠ 127

instance (s : String) : Decidable (Sendable s) := List.decidableBAll _ _

/-- The browser stays on the server after a login with this `return_to`, whatever the URL of the
server is. -/
def StaysHome (parseHost : String → Option String) (returnTo : Option String) : Prop :=
  ∀ base : Url.Origin,
    Url.resolve parseHost base (LoginPage.safeRedirect returnTo) = .url base

/-- A slash that only tabs separate from another slash or backslash. -/
def Hidden (returnTo : Option String) : Prop :=
  ∃ tabs d rest, returnTo.map String.toList = some ('/' :: (tabs ++ d :: rest)) ∧ tabs ≠ [] ∧
    (∀ c ∈ tabs, c = '\t') ∧ Url.isSlash d = true

/-- A text that begins with a slash is not blank. -/
theorem trim_ne_empty {s : String} {t : List Char} (hs : s.toList = '/' :: t) :
    Text.trim s ≠ "" := by
  intro htrim
  have hnil : Text.trimChars ('/' :: t) = [] := by
    rw [← hs, ← String.toList_ofList (l := Text.trimChars _)]
    exact congrArg String.toList htrim
  have hblank := List.dropWhile_eq_nil_iff.mp (List.reverse_eq_nil_iff.mp hnil)
  have hslash : Text.isWhitespace '/' = true := hblank '/' (List.mem_reverse.mpr List.mem_cons_self)
  cases hslash

/-- The check passes a path on when its second character is no slash; otherwise it answers with
the root. -/
theorem safeRedirect_cases (s : String) :
    (∃ t, s.toList = '/' :: t ∧ (∀ d, t.head? = some d → Url.isSlash d = false) ∧
        LoginPage.safeRedirect (some s) = s) ∨
      (∀ t, s.toList = '/' :: t → ∃ d, t.head? = some d ∧ Url.isSlash d = true) ∧
        LoginPage.safeRedirect (some s) = "/" := by
  by_cases htrim : Text.trim s = ""
  · refine .inr ⟨fun t hs => absurd htrim (trim_ne_empty hs), ?_⟩
    rw [LoginPage.safeRedirect, if_pos htrim]
  · rw [LoginPage.safeRedirect, if_neg htrim]
    cases hs : s.toList with
    | nil => exact .inr ⟨fun t h => (by cases h), rfl⟩
    | cons c t =>
      by_cases hc : c = '/'
      · subst hc
        cases t with
        | nil => exact .inl ⟨[], rfl, fun d h => (by cases h), rfl⟩
        | cons d t =>
          cases hd : Url.isSlash d with
          | true =>
            refine .inr ⟨fun t' h => ⟨d, ?_, hd⟩, ?_⟩
            · rw [← (List.cons.inj h).2]
              rfl
            · rcases Bool.or_eq_true_iff.mp hd with h | h
              · rw [beq_iff_eq.mp h]
                rfl
              · rw [beq_iff_eq.mp h]
                rfl
          | false =>
            refine .inl ⟨d :: t, rfl, fun e he => ?_, ?_⟩
            · rw [← Option.some.inj he, hd]
            · split
              · next heq =>
                rw [(List.cons.inj (List.cons.inj heq).2).1] at hd
                cases hd
              · next heq =>
                rw [(List.cons.inj (List.cons.inj heq).2).1] at hd
                cases hd
              · rfl
              · next h => exact absurd rfl (h _)
      · refine .inr ⟨fun t h => absurd (List.cons.inj h).1 hc, ?_⟩
        split
        · rfl
        · rfl
        · next heq => exact absurd (List.cons.inj heq).1 hc
        · rfl

/-- The root of the server is at home. -/
theorem resolve_root (parseHost : String → Option String) (base : Url.Origin) :
    Url.resolve parseHost base "/" = .url base :=
  @Url.resolve_eq_base [] parseHost base fun _ h => (by cases h)

/-- In a text that can be sent, only tabs are removed. -/
theorem firstKept_eq_some_iff {t : List Char} {d : Char}
    (hsend : ∀ c ∈ t, c = '\t' ∨ 32 ≤ c.toNat ∧ c.toNat ≠ 127) (hd : Url.isSlash d = true) :
    Url.firstKept t = some d ↔ ∃ tabs rest, t = tabs ++ d :: rest ∧ ∀ c ∈ tabs, c = '\t' := by
  have hkept : Url.isTabOrNewline d = false := by
    rcases Bool.or_eq_true_iff.mp hd with h | h
    · rw [beq_iff_eq.mp h]
      rfl
    · rw [beq_iff_eq.mp h]
      rfl
  have htab : ∀ c ∈ t, Url.isTabOrNewline c = true ↔ c = '\t' := by
    intro c hc
    constructor
    · intro h
      rcases hsend c hc with rfl | ⟨hlow, -⟩
      · rfl
      · rcases Bool.or_eq_true_iff.mp h with h | h
        · rcases Bool.or_eq_true_iff.mp h with h | h
          · exact beq_iff_eq.mp h
          · rw [beq_iff_eq.mp h] at hlow
            exact absurd hlow (by decide)
        · rw [beq_iff_eq.mp h] at hlow
          exact absurd hlow (by decide)
    · rintro rfl
      rfl
  rw [Url.firstKept, List.find?_eq_some_iff_append]
  constructor
  · rintro ⟨-, tabs, rest, rfl, htabs⟩
    refine ⟨tabs, rest, rfl, fun c hc => ?_⟩
    exact (htab c (List.mem_append_left _ hc)).mp (by simpa using htabs c hc)
  · rintro ⟨tabs, rest, rfl, htabs⟩
    refine ⟨by rw [hkept]; rfl, tabs, rest, rfl, fun c hc => ?_⟩
    rw [(htab c (List.mem_append_left _ hc)).mpr (htabs c hc)]
    rfl

section

variable {parseHost : String → Option String} {s : String}

/-- A hidden slash gets past the check, and the browser finds it. -/
theorem leaves_of_hidden (hsend : Sendable s) (h : Hidden (some s)) :
    ¬ StaysHome parseHost (some s) := by
  obtain ⟨tabs, d, rest, hmap, hne, htabs, hd⟩ := h
  have hs : s.toList = '/' :: (tabs ++ d :: rest) := Option.some.inj hmap
  have htab : (tabs ++ d :: rest).head? = some '\t' := by
    cases tabs with
    | nil => exact absurd rfl hne
    | cons c tabs => rw [htabs c List.mem_cons_self]; rfl
  have hsafe : LoginPage.safeRedirect (some s) = String.ofList ('/' :: (tabs ++ d :: rest)) := by
    rcases safeRedirect_cases s with ⟨-, -, -, hsafe⟩ | ⟨hhead, -⟩
    · rw [hsafe, ← hs, String.ofList_toList]
    · obtain ⟨e, he, hslash⟩ := hhead _ hs
      cases htab.symm.trans he
      cases hslash
  have hfirst := (firstKept_eq_some_iff
    (fun c hc => hsend c (hs ▸ List.mem_cons_of_mem _ hc)) hd).mpr ⟨tabs, rest, rfl, htabs⟩
  obtain ⟨text, hauth⟩ := Url.resolve_eq_authority hfirst hd
  obtain ⟨base, hbase⟩ := Url.exists_authority_ne parseHost text
  intro hhome
  have hurl := hhome base
  rw [hsafe, hauth] at hurl
  exact hbase hurl

/-- Without a hidden slash the first slash that the browser looks for is the one that the check
has looked for. -/
theorem staysHome_of_not_hidden (hsend : Sendable s) (h : ¬ Hidden (some s)) :
    StaysHome parseHost (some s) := by
  intro base
  rcases safeRedirect_cases s with ⟨t, hs, hhead, hsafe⟩ | ⟨-, hsafe⟩
  · have htext : s = String.ofList ('/' :: t) := by rw [← hs, String.ofList_toList]
    rw [hsafe, htext]
    refine Url.resolve_eq_base fun d hfirst => ?_
    cases hd : Url.isSlash d with
    | false => rfl
    | true =>
      obtain ⟨tabs, rest, rfl, htabs⟩ := (firstKept_eq_some_iff
        (fun c hc => hsend c (hs ▸ List.mem_cons_of_mem _ hc)) hd).mp hfirst
      refine absurd ⟨tabs, d, rest, congrArg some hs, ?_, htabs, hd⟩ h
      rintro rfl
      rw [hhead d rfl] at hd
      cases hd
  · rw [hsafe]
    exact resolve_root parseHost base

end

/-- A text that is sent after a login leads off the server exactly when a slash is hidden. -/
theorem staysHome_iff (parseHost : String → Option String) (returnTo : Option String)
    (hsend : ∀ s, returnTo = some s → Sendable s) :
    StaysHome parseHost returnTo ↔ ¬ Hidden returnTo := by
  cases returnTo with
  | none =>
    refine ⟨?_, fun _ base => resolve_root parseHost base⟩
    rintro - ⟨tabs, d, rest, h, -⟩
    cases h
  | some s =>
    constructor
    · exact fun hhome hhidden => leaves_of_hidden (hsend s rfl) hhidden hhome
    · exact staysHome_of_not_hidden (hsend s rfl)

/-- A path with a tab in a later place is no way out. -/
theorem staysHome_account : Sendable "/account\t/x" ∧ StaysHome some (some "/account\t/x") := by
  have hsend : Sendable "/account\t/x" := by decide +kernel
  refine ⟨hsend, (staysHome_iff some (some "/account\t/x") fun s hs => ?_).mpr ?_⟩
  · rwa [← Option.some.inj hs]
  · rintro ⟨tabs, d, rest, hmap, hne, htabs, -⟩
    have hs := (List.cons.inj (Option.some.inj hmap)).2
    cases tabs with
    | nil => exact hne rfl
    | cons c tabs =>
      rw [htabs c List.mem_cons_self] at hs
      cases hs

/-- The browser leaves for `evil.com`. -/
theorem not_staysHome :
    Sendable "/\t/evil.com" ∧
      Url.resolve some ⟨.https, "auth.example.com", none⟩
        (LoginPage.safeRedirect (some "/\t/evil.com")) = .url ⟨.https, "evil.com", none⟩ ∧
      ∀ parseHost, ¬ StaysHome parseHost (some "/\t/evil.com") := by
  have hsend : Sendable "/\t/evil.com" := by decide +kernel
  have hhidden : Hidden (some "/\t/evil.com") :=
    ⟨['\t'], '/', "evil.com".toList, by decide, by decide, by simp, rfl⟩
  exact ⟨hsend, by decide +kernel, fun _ => leaves_of_hidden hsend hhidden⟩

end ReturnPath

end AuthServer
