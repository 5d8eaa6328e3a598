import Mathlib.Data.List.Count

/-!
# Texts inside a script

A text is written into a JavaScript string literal between single quotes, after it has been escaped
for HTML. A browser does not decode entities inside a script, so it reads the text back only if
neither the escaping nor the literal gives a meaning to one of its characters.
-/

namespace Script

/-- How a character is written in HTML, attribute values included. -/
def escapeChar : Char → List Char
  | '<' => "&lt;".toList
  | '>' => "&gt;".toList
  | '&' => "&amp;".toList
  | '"' => "&quot;".toList
  | '\'' => "&#x27;".toList
  | c => [c]

def escapeHtml (text : List Char) : List Char := text.flatMap escapeChar

/-- The characters that HTML escapes. -/
def isEscaped (c : Char) : Bool := ['<', '>', '&', '"', '\''].contains c

theorem escapeChar_of_not_isEscaped {c : Char} (h : isEscaped c = false) : escapeChar c = [c] := by
  unfold escapeChar
  split
  case h_6 => rfl
  all_goals exact absurd h (by decide)

/-- Every entity brings a semicolon of its own. -/
theorem count_escapeChar (c : Char) :
    (escapeChar c).count ';' = [c].count ';' + if isEscaped c then 1 else 0 := by
  cases h : isEscaped c with
  | false => simp [escapeChar_of_not_isEscaped h]
  | true =>
    have hc : c ∈ ['<', '>', '&', '"', '\''] := List.contains_iff_mem.mp h
    simp only [List.mem_cons, List.not_mem_nil, or_false] at hc
    rcases hc with rfl | rfl | rfl | rfl | rfl <;> decide

theorem count_escapeHtml (text : List Char) :
    (escapeHtml text).count ';' = text.count ';' + text.countP isEscaped := by
  induction text with
  | nil => rfl
  | cons c text ih =>
    have hsplit : escapeHtml (c :: text) = escapeChar c ++ escapeHtml text := rfl
    have hcount : (c :: text).count ';' = [c].count ';' + text.count ';' := by
      rw [← List.singleton_append, List.count_append]
    rw [hsplit, List.count_append, count_escapeChar, ih, List.countP_cons, hcount]
    omega

variable {text : List Char}

theorem escapeHtml_of_countP (h : text.countP isEscaped = 0) :
    escapeHtml text = text := by
  induction text with
  | nil => rfl
  | cons c text ih =>
    have hc := List.countP_eq_zero.mp h c (List.mem_cons_self ..)
    have hrest : text.countP isEscaped = 0 :=
      List.countP_eq_zero.mpr fun d hd => List.countP_eq_zero.mp h d (List.mem_cons_of_mem _ hd)
    have hsplit : escapeHtml (c :: text) = escapeChar c ++ escapeHtml text := rfl
    rw [hsplit, ih hrest, escapeChar_of_not_isEscaped (Bool.not_eq_true _ ▸ hc)]
    rfl

/-- How a script reads what follows a backslash: at most one character for at least one, and a
semicolon only by itself. This holds for every escape sequence of the language. -/
structure Escapes where
  read : List Char → Option (Option Char × List Char)
  consumes : ∀ {text c rest}, read text = some (c, rest) → ∃ used, text = used ++ rest ∧
    used ≠ [] ∧ used.count ';' ≤ c.toList.count ';'

/-- The value of a literal between single quotes; none where the literal is broken. -/
def value (esc : Escapes) : Nat → List Char → Option (List Char)
  | _, [] => some []
  | 0, _ :: _ => none
  | n + 1, c :: text =>
    if c = '\\' then
      match esc.read text with
      | none => none
      | some (d, rest) => (value esc n rest).map (d.toList ++ ·)
    else if c = '\'' ∨ c = '\n' ∨ c = '\r' then none
    else (value esc n text).map (c :: ·)

variable {esc : Escapes}

/-- The value keeps the semicolons of the text and is no longer than it, and shorter when the text
has a backslash. -/
theorem value_bounds {n : Nat} {text v : List Char} (h : value esc n text = some v) :
    text.count ';' ≤ v.count ';' ∧ v.length ≤ text.length ∧
      ('\\' ∈ text → v.length < text.length) := by
  fun_induction value esc n text generalizing v with
  | case1 =>
    cases h
    exact ⟨Nat.le_refl _, Nat.le_refl _, fun hm => by cases hm⟩
  | case2 | case3 | case5 => cases h
  | case4 n text d rest hread ih =>
    obtain ⟨v', hv', rfl⟩ := Option.map_eq_some_iff.mp h
    obtain ⟨used, rfl, hne, hcount⟩ := esc.consumes hread
    obtain ⟨hsemi, hlen, -⟩ := ih hv'
    have hused : 0 < used.length := List.length_pos_iff.mpr hne
    have hd : d.toList.length ≤ 1 := by cases d <;> simp
    have hbs : ('\\' :: (used ++ rest)).count ';' = used.count ';' + rest.count ';' := by
      rw [List.count_cons_of_ne (by decide), List.count_append]
    refine ⟨?_, ?_, fun _ => ?_⟩
    · rw [hbs, List.count_append]
      omega
    all_goals
      simp only [List.length_append, List.length_cons]
      omega
  | case6 n c text hc hend ih =>
    obtain ⟨v', hv', rfl⟩ := Option.map_eq_some_iff.mp h
    obtain ⟨hsemi, hlen, hlt⟩ := ih hv'
    refine ⟨?_, Nat.succ_le_succ hlen, fun hm => Nat.succ_lt_succ (hlt ?_)⟩
    · rw [List.count_cons, List.count_cons]
      omega
    · exact (List.mem_cons.mp hm).resolve_left fun heq => hc heq.symm

theorem value_of_plain {n : Nat} (hn : text.length ≤ n)
    (hplain : ∀ c ∈ text, c ≠ '\\' ∧ c ≠ '\'' ∧ c ≠ '\n' ∧ c ≠ '\r') :
    value esc n text = some text := by
  induction text generalizing n with
  | nil => cases n <;> rfl
  | cons c text ih =>
    obtain ⟨h₁, h₂, h₃, h₄⟩ := hplain c (List.mem_cons_self ..)
    cases n with
    | zero => exact absurd hn (Nat.not_succ_le_zero _)
    | succ n =>
      rw [value, if_neg h₁, if_neg (by simp [h₂, h₃, h₄]),
        ih (Nat.le_of_succ_le_succ hn) fun d hd => hplain d (List.mem_cons_of_mem _ hd)]
      rfl

/-- What a script reads from a text that was escaped for HTML and put between single quotes. -/
def embedded (esc : Escapes) (text : List Char) : Option (List Char) :=
  value esc (escapeHtml text).length (escapeHtml text)

/-- The characters that HTML escapes or that begin an escape sequence of the script. -/
def isMarked (c : Char) : Bool := isEscaped c || c == '\\'

/-- A text on one line is read back exactly when it has none of the marked characters. Entities add
semicolons, which are never lost again; without them every escape sequence shortens the text. -/
theorem embedded_eq_self_iff (hline : ∀ c ∈ text, c ≠ '\n' ∧ c ≠ '\r') :
    embedded esc text = some text ↔ ∀ c ∈ text, isMarked c = false := by
  constructor
  · intro h
    have hcount := (value_bounds h).1
    rw [count_escapeHtml] at hcount
    have hzero : text.countP isEscaped = 0 := by omega
    have hshort := (value_bounds h).2.2
    rw [escapeHtml_of_countP hzero] at hshort
    intro c hc
    rw [isMarked, Bool.or_eq_false_iff, beq_eq_false_iff_ne]
    refine ⟨Bool.eq_false_iff.mpr (List.countP_eq_zero.mp hzero c hc), ?_⟩
    rintro rfl
    exact absurd (hshort hc) (Nat.lt_irrefl _)
  · intro h
    have hzero : text.countP isEscaped = 0 := List.countP_eq_zero.mpr fun c hc => by
      rw [(Bool.or_eq_false_iff.mp (h c hc)).1]
      exact Bool.false_ne_true
    rw [embedded, escapeHtml_of_countP hzero]
    refine value_of_plain (Nat.le_refl _) fun c hc => ⟨?_, ?_, hline c hc⟩
    all_goals
      rintro rfl
      exact absurd (h _ hc) (by decide)

end Script
