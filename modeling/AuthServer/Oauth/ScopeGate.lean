import AuthServer.Oauth.ScopeText
import AuthServer.Replies

/-!
# The scope gates and the consent check

The gates of `/authorize`, `/token` and device authorization test the two texts for blanks before
they compare the sets, the consent check compares the sets only. A text of commas is not blank and
asks for nothing: where no scope is allowed, the gates refuse what the consent check lets pass.
-/

namespace AuthServer

namespace Text

variable {sep : Char → Bool} {l ws piece : List Char}

/-- Separators in front add empty pieces only. -/
theorem mem_splitOnP_append_left (hws : ∀ c ∈ ws, sep c = true) (hne : piece ≠ []) :
    piece ∈ (ws ++ l).splitOnP sep ↔ piece ∈ l.splitOnP sep := by
  induction ws with
  | nil => rfl
  | cons c ws ih =>
    have hc : sep c = true := hws c List.mem_cons_self
    rw [List.cons_append, List.splitOnP_cons_eq_if_modifyHead, if_pos hc, List.mem_cons,
      ih fun d hd => hws d (List.mem_cons_of_mem _ hd)]
    exact or_iff_right hne

/-- So do separators at the end. -/
theorem mem_splitOnP_append_right (hws : ∀ c ∈ ws, sep c = true) (hne : piece ≠ []) :
    piece ∈ (l ++ ws).splitOnP sep ↔ piece ∈ l.splitOnP sep := by
  cases ws with
  | nil => rw [List.append_nil]
  | cons c ws =>
    have hblank : piece ∉ ws.splitOnP sep := by
      intro h
      rw [← List.append_nil ws,
        mem_splitOnP_append_left (fun d hd => hws d (List.mem_cons_of_mem _ hd)) hne] at h
      exact hne (List.mem_singleton.mp h)
    rw [List.splitOnP_append_cons l ws (hws c List.mem_cons_self), List.mem_append]
    exact or_iff_left hblank

/-- What is trimmed is white space at the ends. -/
theorem trimChars_spec (l : List Char) :
    ∃ front back, l = front ++ (trimChars l ++ back) ∧ (∀ c ∈ front, isWhitespace c = true) ∧
      ∀ c ∈ back, isWhitespace c = true := by
  refine ⟨l.takeWhile isWhitespace,
    ((l.dropWhile isWhitespace).reverse.takeWhile isWhitespace).reverse, ?_,
    fun c => List.mem_takeWhile_imp, fun c hc => List.mem_takeWhile_imp (List.mem_reverse.mp hc)⟩
  rw [trimChars, ← List.reverse_append, List.takeWhile_append_dropWhile, List.reverse_reverse,
    List.takeWhile_append_dropWhile]

end Text

namespace Scopes

open Text Concurrent

variable {r a : Option String} {s raw : String}

/-- The scopes of a text are those of the trimmed text. -/
theorem mem_parse_trim : s ∈ parse (some (trim raw)) ↔ s ∈ parse (some raw) := by
  rw [mem_parse, mem_parse, mem_pieces, mem_pieces]
  refine and_congr_right fun hne => ?_
  have hpiece : s.toList ≠ [] := by simpa using hne
  have hsep : ∀ c, isWhitespace c = true → isSeparator c = true := fun c hc => by
    rw [isSeparator, hc, Bool.true_or]
  obtain ⟨front, back, heq, hfront, hback⟩ := trimChars_spec raw.toList
  rw [trim, String.toList_ofList, splitChars_eq, splitChars_eq]
  conv_rhs => rw [heq]
  rw [mem_splitOnP_append_left (fun c hc => hsep c (hfront c hc)) hpiece,
    mem_splitOnP_append_right (fun c hc => hsep c (hback c hc)) hpiece]

/-- The text is missing or blank. -/
def Blank (raw : Option String) : Prop := (raw.map trim).getD "" = ""

theorem parse_of_blank (h : Blank r) : parse r = [] := by
  cases r with
  | none => rfl
  | some s => exact if_pos h

/-- The comparison of the sets, behind the tests of the texts. -/
theorem isSubsetOf_eq_true :
    isSubsetOf r a = true ↔ Blank r ∨ ¬ Blank a ∧ parse r ⊆ parse a := by
  have hall : ∀ s t : String, ((parse (some (trim s))).all fun x =>
      (parse (some (trim t))).contains x) = true ↔ parse (some s) ⊆ parse (some t) := by
    intro s t
    simp only [List.all_eq_true, List.contains_iff_mem, mem_parse_trim]
    rfl
  unfold isSubsetOf Blank
  dsimp only
  split
  · next hr => exact iff_of_true rfl (.inl hr)
  next hr =>
  split
  · next ha => exact iff_of_false Bool.false_ne_true fun h => h.elim hr fun h => h.1 ha
  next ha =>
  cases r with
  | none => exact absurd rfl hr
  | some s =>
    cases a with
    | none => exact absurd rfl ha
    | some t =>
      rw [Option.map_some, Option.map_some, Option.getD_some, Option.getD_some, hall]
      exact ⟨fun h => .inr ⟨ha, h⟩, fun h => h.elim (absurd · hr) And.right⟩

/-- The gates let the request pass whatever the client may ask for. -/
def GateAsksNothing (r : Option String) : Prop := ∀ allowed, isSubsetOf r allowed = true

/-- The consent check lets the request pass whatever is stored. -/
def ConsentAsksNothing (r : Option String) : Prop :=
  ∀ userId clientId es b,
    Returns (ConsentService.hasConsent userId clientId r).run es (.ok b) → b = true

theorem consentAsksNothing_iff : ConsentAsksNothing r ↔ parse r = [] := by
  constructor
  · intro h
    by_contra hne
    -- without a stored consent the answer is no
    have hno : Returns (ConsentService.hasConsent 0 0 r).run
        [⟨.sql (.query (.consent 0 0)), (.ok none : Except DbError (Option UserConsent))⟩]
        (.ok false) := by
      unfold ConsentService.hasConsent
      rw [if_neg (by simpa using hne)]
      exact .call (.refl _)
    exact Bool.false_ne_true (h 0 0 _ false hno)
  · intro h userId clientId es b hret
    unfold ConsentService.hasConsent at hret
    rw [if_pos (by simp [h])] at hret
    exact hret.ret.2

/-- The text has separators only, some of them commas. -/
def OnlySeparators (r : Option String) : Prop := ¬ Blank r ∧ parse r = []

/-- Scope checking is set inclusion, and the gates and the consent check agree on which requests
ask for nothing. -/
structure SetInclusion : Prop where
  subset : ∀ r a, isSubsetOf r a = true ↔ parse r ⊆ parse a
  agree : ∀ r, GateAsksNothing r ↔ ConsentAsksNothing r

/-- A comma asks for nothing, and is refused to a client without scopes. -/
theorem not_setInclusion : ¬ SetInclusion := by
  intro h
  have hnone : parse (some ",") = [] := by decide +kernel
  have hgate : isSubsetOf (some ",") none = true := (h.subset _ _).mpr (by simp [hnone])
  exact absurd hgate (by decide +kernel)

/-- The check is set inclusion except for separators only where nothing is allowed, and the gates
and the consent check agree except on separators only. -/
theorem subset_and_agree_iff (r a : Option String) :
    ((isSubsetOf r a = true ↔ parse r ⊆ parse a) ↔ ¬ (OnlySeparators r ∧ Blank a)) ∧
      ((GateAsksNothing r ↔ ConsentAsksNothing r) ↔ ¬ OnlySeparators r) := by
  constructor
  · rw [isSubsetOf_eq_true]
    by_cases hr : Blank r
    · have hsub : parse r ⊆ parse a := by simp [parse_of_blank hr]
      exact iff_of_true (iff_of_true (.inl hr) hsub) fun h => h.1.1 hr
    by_cases ha : Blank a
    · -- nothing is allowed, so the set of the request decides
      rw [parse_of_blank ha, List.subset_nil]
      simp only [hr, ha, OnlySeparators]
      tauto
    · simp only [hr, ha]
      tauto
  · rw [consentAsksNothing_iff]
    by_cases hr : Blank r
    · have hgate : GateAsksNothing r := fun a => isSubsetOf_eq_true.mpr (.inl hr)
      exact iff_of_true (iff_of_true hgate (parse_of_blank hr)) fun h => h.1 hr
    · have hgate : ¬ GateAsksNothing r := by
        intro h
        rcases isSubsetOf_eq_true.mp (h none) with h | h
        · exact hr h
        · exact h.1 rfl
      simp only [hgate, OnlySeparators]
      tauto

end Scopes

end AuthServer
