import AuthServer.Storage.Fields
import Mathlib.Algebra.Group.Int.Defs
import Mathlib.Algebra.Group.Nat.Defs
import Mathlib.Data.Finset.Basic
import Mathlib.Data.Finset.Dedup

/-!
# Text, time and JSON values of the server

The string functions of the source that the server applies to request parameters
and stored columns. Strings are processed as lists of Unicode scalar values, as the
source's `char` iterators do.
-/

namespace AuthServer

/-- `Uuid` of the source: 128 bits. -/
abbrev Uuid := BitVec 128

/-- `NaiveDateTime` in UTC, counted in microseconds. -/
abbrev NaiveDateTime := Int

/-- Microseconds of a whole number of seconds. -/
def seconds (n : Int) : Int := n * 1000000

/-- `Duration::num_seconds`: whole seconds, rounded toward zero. -/
def numSeconds (d : Int) : Int := d.tdiv 1000000

namespace Text

/-- `char::is_whitespace`: the Unicode property White_Space. -/
def isWhitespace (c : Char) : Bool :=
  let n := c.toNat
  (9 ≤ n && n ≤ 13) || n == 32 || n == 0x85 || n == 0xA0 || n == 0x1680 ||
    (0x2000 ≤ n && n ≤ 0x200A) || n == 0x2028 || n == 0x2029 || n == 0x202F ||
    n == 0x205F || n == 0x3000

/-- Remove white space at both ends of a list of characters. -/
def trimChars (l : List Char) : List Char :=
  ((l.dropWhile isWhitespace).reverse.dropWhile isWhitespace).reverse

/-- `str::trim`. -/
def trim (s : String) : String := String.ofList (trimChars s.toList)

/-- `str::to_ascii_lowercase`. -/
def toAsciiLowercase (s : String) : String := String.ofList (s.toList.map Char.toLower)

/-- `str::eq_ignore_ascii_case`. -/
def eqIgnoreAsciiCase (s t : String) : Bool := toAsciiLowercase s == toAsciiLowercase t

/-- `str::split` by a character class: the pieces between separators, empty ones included. -/
def splitChars (sep : Char → Bool) : List Char → List (List Char)
  | [] => [[]]
  | c :: cs =>
    match splitChars sep cs with
    | [] => [[c]]
    | piece :: rest => if sep c then [] :: piece :: rest else (c :: piece) :: rest

/-- The non-empty trimmed pieces of a split, as the source's `split … map trim … filter` chain. -/
def pieces (sep : Char → Bool) (s : String) : List String :=
  ((splitChars sep s.toList).map trimChars).filterMap fun p =>
    if p.isEmpty then none else some (String.ofList p)

/-- `str::contains` for a single character. -/
def containsChar (s : String) (c : Char) : Bool := s.toList.contains c

/-- The letters and digits of device user codes. -/
def userCodeAlphabet : List Char := "BCDFGHJKLMNPQRSTVWXZ23456789".toList

/-- What `generate_user_code` can return: four characters, a dash, four characters. -/
def isUserCode (s : String) : Bool :=
  let l := s.toList
  l.length == 9 && l[4]? == some '-' && (l.take 4 ++ l.drop 5).all userCodeAlphabet.contains

/-- One upper-case hexadecimal digit. -/
def hexDigit (n : Nat) : Char :=
  if n < 10 then Char.ofNat (48 + n) else Char.ofNat (55 + n)

/-- `urlencoding::encode`: every byte outside `[A-Za-z0-9-_.~]` becomes `%XX`. -/
def urlEncode (s : String) : String :=
  String.ofList (s.toByteArray.data.toList.flatMap fun b =>
    let n := b.toNat
    let c := Char.ofNat n
    if n < 128 && (c.isAlphanum || c == '-' || c == '_' || c == '.' || c == '~') then [c]
    else ['%', hexDigit (n / 16), hexDigit (n % 16)])

end Text

/-- `serde_json::Value`, with the integers the server writes. -/
inductive Json where
  | null
  | bool (b : Bool)
  | num (n : Int)
  | str (s : String)
  | arr (items : List Json)
  | obj (fields : List (String × Json))
  deriving Inhabited

/-- `serde_json::Map`: at most one value for each name. -/
abbrev JsonMap := Storage.Fields String Json

namespace Json

/-- `Value::get`. -/
def get? : Json → String → Option Json
  | .obj fields, key => Storage.Fields.get fields key
  | _, _ => none

/-- `Value::as_str`. -/
def asStr : Json → Option String
  | .str s => some s
  | _ => none

/-- `Value::as_array`. -/
def asArray : Json → Option (List Json)
  | .arr items => some items
  | _ => none

/-- `Value::as_u64`. -/
def asU64 : Json → Option Nat
  | .num n => if 0 ≤ n ∧ n < 2 ^ 64 then some n.toNat else none
  | _ => none

end Json

/-- `Value::get` on an object, then `Value::as_object`: the names of a section. -/
def Json.sectionNames (root : Json) (name : String) : List String :=
  match root with
  | .obj fields =>
    match Storage.Fields.get fields name with
    | some (.obj entries) => entries.map Prod.fst
    | _ => []
  | _ => []

end AuthServer
