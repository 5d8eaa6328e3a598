import AuthServer.Common.Text

/-!
# Case and separators of texts

Lower-casing moves the capital letters only. `str::find` cuts a text at the first occurrence
of a pattern; a piece that lacks the first character of the pattern cannot hide an earlier
occurrence.
-/

namespace AuthServer

/-! ## Case -/

/-- Lower-casing moves the capital letters and no other characters. -/
theorem toLower_cases (c : Char) :
    c.toLower = c ∧ ¬ (65 ≤ c.toNat ∧ c.toNat ≤ 90) ∨
      65 ≤ c.toNat ∧ c.toNat ≤ 90 ∧ c.toLower.toNat = c.toNat + 32 := by
  unfold Char.toLower
  split
  · next h =>
    right
    have hlow : 65 ≤ c.toNat := h.1
    have hhigh : c.toNat ≤ 90 := h.2
    refine ⟨hlow, hhigh, ?_⟩
    have hval : c.val.toNat ≤ 90 := hhigh
    change (c.val + 32).toNat = c.val.toNat + 32
    rw [UInt32.toNat_add]
    exact Nat.mod_eq_of_lt (by change _ + 32 < _; omega)
  · next h =>
    left
    exact ⟨rfl, fun h' => h ⟨h'.1, h'.2⟩⟩

theorem isAlpha_iff {c : Char} : c.isAlpha = true ↔
    65 ≤ c.toNat ∧ c.toNat ≤ 90 ∨ 97 ≤ c.toNat ∧ c.toNat ≤ 122 := by
  change (decide (65 ≤ c.val ∧ c.val ≤ 90) || decide (97 ≤ c.val) && decide (c.val ≤ 122)) = true ↔ _
  simp only [Bool.or_eq_true, Bool.and_eq_true, decide_eq_true_eq, UInt32.le_iff_toNat_le]
  rfl

theorem isAlpha_toLower (c : Char) : c.toLower.isAlpha = c.isAlpha := by
  rw [Bool.eq_iff_iff, isAlpha_iff, isAlpha_iff]
  rcases toLower_cases c with ⟨h, -⟩ | ⟨hlow, hhigh, heq⟩
  · rw [h]
  · omega

/-- Only a letter is moved, and only to a letter. -/
theorem toLower_eq_iff {c d : Char} (hd : d.isAlpha = false) : c.toLower = d ↔ c = d := by
  rcases toLower_cases c with ⟨h, -⟩ | ⟨hlow, hhigh, -⟩
  · rw [h]
  · have hc : c.isAlpha = true := isAlpha_iff.mpr (.inl ⟨hlow, hhigh⟩)
    constructor
    · rintro rfl
      rw [isAlpha_toLower, hc] at hd
      cases hd
    · rintro rfl
      rw [hc] at hd
      cases hd

theorem map_toLower_eq_iff {l m : List Char} (hl : ∀ d ∈ l, d.isAlpha = false) :
    m.map Char.toLower = l ↔ m = l := by
  induction l generalizing m with
  | nil => exact List.map_eq_nil_iff
  | cons d l ih =>
    cases m with
    | nil => exact ⟨fun h => (by cases h), fun h => (by cases h)⟩
    | cons c m =>
      rw [List.map_cons, List.cons_eq_cons, List.cons_eq_cons,
        toLower_eq_iff (hl d List.mem_cons_self),
        ih fun e he => hl e (List.mem_cons_of_mem _ he)]

theorem isDigit_iff {c : Char} : c.isDigit = true ↔ 48 ≤ c.toNat ∧ c.toNat ≤ 57 := by
  simp only [Char.isDigit, Bool.and_eq_true, decide_eq_true_eq, ge_iff_le, UInt32.le_iff_toNat_le]
  rfl

namespace Text

/-! ## Separators -/

/-- `str::starts_with`. -/
def startsWith (s pat : String) : Bool := pat.toList.isPrefixOf s.toList

/-- What stands before and after the first occurrence of a pattern. -/
def splitFirst (pat : List Char) : List Char → Option (List Char × List Char)
  | [] => if pat = [] then some ([], []) else none
  | c :: cs =>
    if pat.isPrefixOf (c :: cs) then some ([], (c :: cs).drop pat.length)
    else (splitFirst pat cs).map fun y => (c :: y.1, y.2)

variable {pat l before rest : List Char} {p : Char}

theorem eq_of_splitFirst (h : splitFirst pat l = some (before, rest)) :
    l = before ++ pat ++ rest := by
  induction l generalizing before with
  | nil =>
    rw [splitFirst] at h
    split at h
    · next hpat =>
      cases h
      rw [hpat]
      rfl
    · cases h
  | cons c cs ih =>
    rw [splitFirst] at h
    split at h
    · next hpat =>
      cases h
      obtain ⟨t, ht⟩ := List.isPrefixOf_iff_prefix.mp hpat
      rw [← ht, List.drop_left, List.nil_append]
    · obtain ⟨y, hy, heq⟩ := Option.map_eq_some_iff.mp h
      cases heq
      rw [ih hy]
      rfl

/-- A text without the first character of the pattern stays whole. -/
theorem splitFirst_append (h : p ∉ before) :
    splitFirst (p :: pat) (before ++ p :: pat ++ rest) = some (before, rest) := by
  induction before with
  | nil =>
    have hpre : (p :: pat).isPrefixOf (p :: (pat ++ rest)) = true :=
      List.isPrefixOf_iff_prefix.mpr ⟨rest, rfl⟩
    simp only [List.nil_append, List.cons_append, splitFirst, hpre, if_true]
    rw [← List.cons_append, List.drop_left]
  | cons c cs ih =>
    have hne : p ≠ c := fun heq => h (heq ▸ List.mem_cons_self)
    have hcs : p ∉ cs := fun hm => h (List.mem_cons_of_mem _ hm)
    have hpre : ¬ (p :: pat).isPrefixOf (c :: (cs ++ p :: pat ++ rest)) = true := by
      intro hp
      obtain ⟨t, ht⟩ := List.isPrefixOf_iff_prefix.mp hp
      exact hne (List.cons.inj ht).1
    simp only [List.cons_append, splitFirst] at hpre ⊢
    rw [if_neg hpre, ih hcs]
    rfl

end Text

end AuthServer
