import Mathlib.Data.List.TakeWhile

/-!
# Query components and form decoding

The query of a URL, and the list of names and values that form decoding
(`application/x-www-form-urlencoded`) reads from it: pieces between ampersands, empty ones
skipped, cut at the first equals sign, plus signs as spaces, percent-decoded, and read as UTF-8.

## Implementation notes

What a decoder makes of bytes that are not UTF-8 is a parameter. Percent-decoding works on the
characters of the text instead of its bytes, which is the same because `%` and the hexadecimal
digits are ASCII.
-/

namespace Url

/-- What stands between the first question mark and the fragment. -/
def query (url : List Char) : List Char :=
  ((url.takeWhile fun c => c != '#').dropWhile fun c => c != '?').drop 1

/-- The value of a hexadecimal digit. -/
def hexValue? (c : Char) : Option Nat :=
  if 48 ≤ c.toNat ∧ c.toNat ≤ 57 then some (c.toNat - 48)
  else if 65 ≤ c.toNat ∧ c.toNat ≤ 70 then some (c.toNat - 55)
  else if 97 ≤ c.toNat ∧ c.toNat ≤ 102 then some (c.toNat - 87)
  else none

/-- The bytes of a text in which `%XX` stands for a byte. -/
def percentDecode : List Char → List UInt8
  | [] => []
  | '%' :: a :: b :: rest =>
    match hexValue? a, hexValue? b with
    | some x, some y => UInt8.ofNat (16 * x + y) :: percentDecode rest
    | _, _ => 37 :: percentDecode (a :: b :: rest)
  | c :: rest => String.utf8EncodeChar c ++ percentDecode rest

section

variable (lossy : List UInt8 → String)

/-- The text with the given bytes. -/
def utf8Decode (bytes : List UInt8) : String :=
  (String.fromUTF8? ⟨bytes.toArray⟩).getD (lossy bytes)

/-- A name or a value. -/
def component (l : List Char) : String :=
  utf8Decode lossy (percentDecode (l.map fun c => if c = '+' then ' ' else c))

/-- A piece is cut at its first equals sign. -/
def pair (piece : List Char) : String × String :=
  (component lossy (piece.takeWhile fun c => c != '='),
    component lossy ((piece.dropWhile fun c => c != '=').drop 1))

/-- The names and values of a query. -/
def form (q : List Char) : List (String × String) :=
  ((q.splitOn '&').filter fun piece => !piece.isEmpty).map (pair lossy)

end

/-! ## Cutting at a character -/

section

variable {l r : List Char} {c : Char}

theorem bne_of_notMem (h : c ∉ l) : ∀ d ∈ l, (d != c) = true := by
  intro d hd
  refine bne_iff_ne.mpr fun heq => h ?_
  rwa [← heq]

theorem takeWhile_ne_of_notMem (h : c ∉ l) : l.takeWhile (fun d => d != c) = l :=
  List.takeWhile_eq_self_iff.mpr (bne_of_notMem h)

theorem takeWhile_ne_append (h : c ∉ l) : (l ++ c :: r).takeWhile (fun d => d != c) = l := by
  rw [List.takeWhile_append_of_pos (bne_of_notMem h), List.takeWhile_cons_of_neg (by simp),
    List.append_nil]

theorem dropWhile_ne_append (h : c ∉ l) :
    (l ++ c :: r).dropWhile (fun d => d != c) = c :: r := by
  rw [List.dropWhile_append_of_pos (bne_of_notMem h), List.dropWhile_cons_of_neg (by simp)]

end

/-! ## Queries -/

section

variable {base t : List Char}

theorem query_append_mark (hbase : '#' ∉ base) (hq : '?' ∉ base) (ht : '#' ∉ t) :
    query (base ++ '?' :: t) = t := by
  have hhash : '#' ∉ base ++ '?' :: t := by
    simp [hbase, ht]
  rw [query, takeWhile_ne_of_notMem hhash, dropWhile_ne_append hq]
  rfl

theorem query_of_notMem (h : '?' ∉ base) : query base = [] := by
  have hq : '?' ∉ base.takeWhile fun c => c != '#' := fun hm =>
    h ((List.takeWhile_prefix _).subset hm)
  rw [query, List.dropWhile_eq_nil_iff.mpr (bne_of_notMem hq)]
  rfl

/-- The query of a URL without a fragment is extended. -/
theorem query_append (hq : '?' ∈ base) (hbase : '#' ∉ base) (ht : '#' ∉ t) :
    query (base ++ t) = query base ++ t := by
  obtain ⟨path, q, rfl, hpath⟩ := List.eq_append_cons_of_mem hq
  obtain ⟨hhash, hrest⟩ := not_or.mp (fun h => hbase (List.mem_append.mpr h))
  have hqhash : '#' ∉ q := fun h => hrest (List.mem_cons_of_mem _ h)
  have hqt : '#' ∉ q ++ t := fun h => (List.mem_append.mp h).elim hqhash ht
  rw [List.append_assoc, List.cons_append, query_append_mark hhash hpath hqt,
    query_append_mark hhash hpath hqhash]

/-- What is appended to a URL with a fragment goes to the fragment. -/
theorem query_append_of_fragment (h : '#' ∈ base) : query (base ++ t) = query base := by
  obtain ⟨front, back, rfl, hfront⟩ := List.eq_append_cons_of_mem h
  rw [query, query, List.append_assoc, List.cons_append, takeWhile_ne_append hfront,
    takeWhile_ne_append hfront]

end

/-! ## Forms -/

section

variable {lossy : List UInt8 → String}

theorem form_nil : form lossy [] = [] := rfl

theorem form_append (q q' : List Char) :
    form lossy (q ++ '&' :: q') = form lossy q ++ form lossy q' := by
  have hsplit : (q ++ '&' :: q').splitOn '&' = q.splitOn '&' ++ q'.splitOn '&' :=
    List.splitOnP_append_cons q q' (beq_self_eq_true '&')
  rw [form, hsplit, List.filter_append, List.map_append, form, form]

/-- Pieces that are joined are read one after the other. -/
theorem form_intercalate {pieces : List (List Char)} (h : ∀ l ∈ pieces, l ≠ [] ∧ '&' ∉ l) :
    form lossy (['&'].intercalate pieces) = pieces.map (pair lossy) := by
  cases pieces with
  | nil => rfl
  | cons l ls =>
    have hsplit := List.splitOn_intercalate '&' (fun l hl => (h l hl).2) (List.cons_ne_nil l ls)
    have hfull : (l :: ls).filter (fun piece => !piece.isEmpty) = l :: ls :=
      List.filter_eq_self.mpr fun piece hp => by
        rw [Bool.not_eq_true', List.isEmpty_eq_false_iff]
        exact (h piece hp).1
    rw [form, hsplit, hfull]

theorem pair_append {name value : List Char} (h : '=' ∉ name) :
    pair lossy (name ++ '=' :: value) = (component lossy name, component lossy value) := by
  rw [pair, takeWhile_ne_append h, dropWhile_ne_append h]
  rfl

theorem utf8Decode_toByteArray (s : String) : utf8Decode lossy s.toByteArray.data.toList = s := by
  have hvalid : s.toByteArray.IsValidUTF8 := s.isValidUTF8
  have hbytes : (⟨s.toByteArray.data.toList.toArray⟩ : ByteArray) = s.toByteArray := rfl
  rw [utf8Decode, hbytes, String.fromUTF8?, dif_pos hvalid]
  rfl

/-- A way to write bytes as characters that percent-decoding reads. -/
def Escapes (enc : UInt8 → List Char) : Prop :=
  ∀ b, (∃ c, enc b = [c] ∧ c ≠ '%' ∧ c ≠ '+' ∧ String.utf8EncodeChar c = [b]) ∨
    ∃ hi lo x y, enc b = ['%', hi, lo] ∧ hexValue? hi = some x ∧ hexValue? lo = some y ∧
      b.toNat = 16 * x + y

theorem ne_plus_of_hexValue? {c : Char} {x : Nat} (h : hexValue? c = some x) : c ≠ '+' := by
  rintro rfl
  cases h

/-- One written byte is read as that byte. -/
theorem percentDecode_escape {enc : UInt8 → List Char} (h : Escapes enc) (b : UInt8)
    (rest : List Char) :
    percentDecode ((enc b).map (fun c => if c = '+' then ' ' else c) ++ rest) =
      b :: percentDecode rest := by
  rcases h b with ⟨c, henc, hpercent, hplus, hbyte⟩ | ⟨hi, lo, x, y, henc, hhi, hlo, hb⟩
  · simp only [henc, List.map_cons, List.map_nil, if_neg hplus, List.cons_append, List.nil_append]
    rw [percentDecode, hbyte]
    · rfl
    · exact fun _ _ _ hc _ => hpercent hc
  · simp only [henc, List.map_cons, List.map_nil, if_neg (ne_plus_of_hexValue? hhi),
      if_neg (ne_plus_of_hexValue? hlo), List.cons_append, List.nil_append]
    have hmark : (if '%' = '+' then ' ' else '%') = '%' := rfl
    rw [hmark, percentDecode, hhi, hlo]
    simp only [← hb, UInt8.ofNat_toNat]

/-- What is written so is read back. -/
theorem component_flatMap {enc : UInt8 → List Char} (h : Escapes enc) (s : String) :
    component lossy (s.toByteArray.data.toList.flatMap enc) = s := by
  have hbytes : ∀ bytes : List UInt8,
      percentDecode ((bytes.flatMap enc).map fun c => if c = '+' then ' ' else c) = bytes := by
    intro bytes
    induction bytes with
    | nil => rfl
    | cons b bytes ih =>
      rw [List.flatMap_cons, List.map_append, percentDecode_escape h, ih]
  rw [component, hbytes, utf8Decode_toByteArray]

end

end Url
