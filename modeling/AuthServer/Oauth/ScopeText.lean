import AuthServer.Oauth.Authorize
import Mathlib.Data.List.TakeWhile

/-!
# Sets of scopes as text

Consents store a set of scopes as one text. What is stored is read back as the same set.
-/

namespace AuthServer

namespace Text

/-- A list of characters is split as `List.splitOnP` splits it. -/
theorem splitChars_eq (sep : Char → Bool) (l : List Char) : splitChars sep l = l.splitOnP sep := by
  induction l with
  | nil => rfl
  | cons c l ih =>
    rw [List.splitOnP_cons_eq_if_modifyHead, splitChars, ih]
    cases h : l.splitOnP sep with
    | nil => exact absurd h (List.splitOnP_ne_nil _ _)
    | cons piece rest => rfl

/-- The pieces of a split have no separator in them. -/
theorem mem_splitChars {sep : Char → Bool} {l piece : List Char} (h : piece ∈ splitChars sep l) :
    ∀ c ∈ piece, sep c = false ∧ c ∈ l := by
  induction l generalizing piece with
  | nil =>
    obtain rfl := List.mem_singleton.mp h
    nofun
  | cons c l ih =>
    have ih : ∀ piece ∈ splitChars sep l, ∀ d ∈ piece, sep d = false ∧ d ∈ c :: l :=
      fun piece hp d hd => (ih hp d hd).imp_right (List.mem_cons_of_mem _)
    rw [splitChars] at h
    split at h
    · next hnil => exact absurd ((splitChars_eq sep l).symm.trans hnil) (List.splitOnP_ne_nil _ _)
    · next first rest hrest =>
      rw [hrest] at ih
      split at h
      · rcases List.mem_cons.mp h with rfl | h
        · nofun
        · exact ih piece h
      · next hc =>
        rcases List.mem_cons.mp h with rfl | h
        · intro d hd
          rcases List.mem_cons.mp hd with rfl | hd
          · exact ⟨Bool.eq_false_iff.mpr hc, List.mem_cons_self⟩
          · exact ih first List.mem_cons_self d hd
        · exact ih piece (List.mem_cons_of_mem _ h)

/-- Nothing is trimmed from a list without white space. -/
theorem trimChars_of_free {l : List Char} (h : ∀ c ∈ l, isWhitespace c = false) :
    trimChars l = l := by
  have hdrop : ∀ l' : List Char, (∀ c ∈ l', isWhitespace c = false) →
      l'.dropWhile isWhitespace = l' := by
    intro l' h'
    cases l' with
    | nil => rfl
    | cons c l' => exact List.dropWhile_cons_of_neg (by simp [h' c])
  rw [trimChars, hdrop l h, hdrop _ fun c hc => h c (List.mem_reverse.mp hc), List.reverse_reverse]

/-- Everything is trimmed from white space only. -/
theorem isWhitespace_of_trimChars {l : List Char} (h : trimChars l = []) :
    ∀ c ∈ l, isWhitespace c = true := by
  have hback : ∀ c ∈ l.dropWhile isWhitespace, isWhitespace c = true := by
    intro c hc
    exact List.dropWhile_eq_nil_iff.mp (List.reverse_eq_nil_iff.mp h) c (List.mem_reverse.mpr hc)
  apply List.dropWhile_eq_nil_iff.mp
  cases hd : l.dropWhile isWhitespace with
  | nil => rfl
  | cons c rest =>
    have hne : l.dropWhile isWhitespace ≠ [] := by
      rw [hd]
      nofun
    have hhead := List.head_dropWhile_not isWhitespace hne
    rw [hback _ (List.head_mem hne)] at hhead
    cases hhead

end Text

namespace Scopes

open Text

/-- A single scope: not empty, and without separators. -/
structure IsScope (s : String) : Prop where
  nonempty : s ≠ ""
  free : ∀ c ∈ s.toList, isSeparator c = false

theorem isWhitespace_of_free {c : Char} (h : isSeparator c = false) : isWhitespace c = false :=
  (Bool.or_eq_false_iff.mp h).1

/-- The pieces of a scope parameter. -/
theorem mem_pieces {s raw : String} :
    s ∈ pieces isSeparator raw ↔ s ≠ "" ∧ s.toList ∈ splitChars isSeparator raw.toList := by
  have htrim : ∀ piece ∈ splitChars isSeparator raw.toList, trimChars piece = piece := fun piece hp =>
    trimChars_of_free fun c hc => isWhitespace_of_free (mem_splitChars hp c hc).1
  simp only [pieces, List.mem_filterMap, List.mem_map, exists_exists_and_eq_and]
  constructor
  · rintro ⟨piece, hp, hs⟩
    rw [htrim piece hp] at hs
    split at hs
    · cases hs
    · next hne =>
      cases hs
      refine ⟨fun h => hne ?_, by rwa [String.toList_ofList]⟩
      simpa using h
  · rintro ⟨hne, hp⟩
    refine ⟨s.toList, hp, ?_⟩
    rw [htrim _ hp, if_neg (by simpa using hne), String.ofList_toList]

theorem mem_parse {s raw : String} : s ∈ parse (some raw) ↔ s ∈ pieces isSeparator raw := by
  unfold parse
  dsimp only
  split
  · next htrim =>
    refine ⟨nofun, fun h => ?_⟩
    obtain ⟨hne, hp⟩ := mem_pieces.mp h
    obtain ⟨c, hc⟩ := List.exists_mem_of_ne_nil s.toList (by simpa using hne)
    have hblank : isWhitespace c = true :=
      isWhitespace_of_trimChars (by simpa [trim] using htrim) c (mem_splitChars hp c hc).2
    rw [isWhitespace_of_free (mem_splitChars hp c hc).1] at hblank
    cases hblank
  · exact List.mem_dedup

theorem isScope_of_mem_parse {raw : Option String} {s : String} (h : s ∈ parse raw) : IsScope s := by
  cases raw with
  | none => cases h
  | some raw =>
    obtain ⟨hne, hp⟩ := mem_pieces.mp (mem_parse.mp h)
    exact ⟨hne, fun c hc => (mem_splitChars hp c hc).1⟩

theorem splitChars_intercalate {l : List String} (hl : ∀ s ∈ l, IsScope s) (hne : l ≠ []) :
    splitChars isSeparator (String.intercalate " " l).toList = l.map String.toList := by
  rw [splitChars_eq]
  induction l with
  | nil => exact absurd rfl hne
  | cons s l ih =>
    cases l with
    | nil =>
      rw [String.intercalate_singleton]
      exact List.splitOnP_eq_singleton (hl s List.mem_cons_self).free
    | cons t l =>
      rw [String.intercalate_cons_cons, String.toList_append, String.toList_append,
        List.append_assoc, show " ".toList = [' '] from rfl, List.singleton_append,
        List.splitOnP_append_cons_of_forall_mem (hl s List.mem_cons_self).free ' ' rfl,
        ih (fun u hu => hl u (List.mem_cons_of_mem _ hu)) nofun]
      rfl

/-- What is joined is read back. -/
theorem mem_parse_intercalate {l : List String} (hl : ∀ s ∈ l, IsScope s) {s : String} :
    s ∈ parse (some (String.intercalate " " l)) ↔ s ∈ l := by
  rw [mem_parse, mem_pieces]
  by_cases hne : l = []
  · subst hne
    simp [splitChars]
  · rw [splitChars_intercalate hl hne, List.mem_map]
    constructor
    · rintro ⟨-, t, ht, heq⟩
      rwa [← String.toList_inj.mp heq]
    · exact fun hs => ⟨(hl s hs).nonempty, s, hs, rfl⟩

end Scopes

theorem ConsentService.mem_parse_joinScopes {l : List String} (hl : ∀ s ∈ l, Scopes.IsScope s)
    {s : String} : s ∈ Scopes.parse (some (joinScopes l)) ↔ s ∈ l := by
  rw [joinScopes, Scopes.mem_parse_intercalate fun s hs => hl s (by simpa using hs)]
  simp

end AuthServer
