import Mathlib.Algebra.Group.Nat.Defs
import Mathlib.Data.List.Perm.Basic

/-!
# Bytes, character classes and dictionaries

The vocabulary of `algorithm.hpp` and of the `unordered_multimap` that holds
headers, cookies and query parameters. A `char` is a `UInt8`: the character
classes of the source take an `int`, but none of their ranges reaches above 127
or below 0, so it does not matter whether the platform's `char` is signed.
-/

namespace Pion

/-- A `std::string`, a `std::vector<char>` or a span of a read buffer. -/
abbrev Bytes := List UInt8

/-- Over the bytes of a string, not over all 256. -/
instance (priority := high) decidableAllBytes (p : UInt8 → Prop) [DecidablePred p] (s : Bytes) :
    Decidable (∀ c ∈ s, p c) := List.decidableBAll p s

/-- The bytes of an ASCII literal. -/
def str (s : String) : Bytes := s.toList.map fun c => UInt8.ofNat c.toNat

abbrev sp : UInt8 := 32
abbrev tab : UInt8 := 9
abbrev cr : UInt8 := 13
abbrev lf : UInt8 := 10
abbrev colon : UInt8 := 58
abbrev semicolon : UInt8 := 59
abbrev comma : UInt8 := 44
abbrev equals : UInt8 := 61
abbrev ampersand : UInt8 := 38
abbrev question : UInt8 := 63
abbrev slash : UInt8 := 47
abbrev dot : UInt8 := 46
abbrev dash : UInt8 := 45
abbrev quote : UInt8 := 34
abbrev apostrophe : UInt8 := 39
abbrev dollar : UInt8 := 36

/-- `STRING_CRLF`. -/
abbrev stringCrlf : Bytes := [cr, lf]

/-! ## Character classes -/

def isChar (c : UInt8) : Bool := c.toNat ≤ 127

def isControl (c : UInt8) : Bool := c.toNat ≤ 31 || c.toNat == 127

def isSpecial (c : UInt8) : Bool :=
  (str "()<>@,;:\\\"/[]?=\x7b\x7d \t").contains c

/-- The test in front of every method and header name byte. -/
def notToken (c : UInt8) : Bool := !isChar c || isControl c || isSpecial c

def isDigit (c : UInt8) : Bool := 48 ≤ c.toNat && c.toNat ≤ 57

def isHexDigit (c : UInt8) : Bool :=
  (48 ≤ c.toNat && c.toNat ≤ 57) || (97 ≤ c.toNat && c.toNat ≤ 102) ||
    (65 ≤ c.toNat && c.toNat ≤ 70)

/-- `std::toupper` in the C locale. -/
def toUpper (c : UInt8) : UInt8 := if 97 ≤ c.toNat ∧ c.toNat ≤ 122 then c - 32 else c

/-- `sl::utils::iequals`: equality up to the case of ASCII letters. -/
def iequals (x y : Bytes) : Bool := x.map toUpper == y.map toUpper

theorem iequals_iff {a b : Bytes} : iequals a b = true ↔ a.map toUpper = b.map toUpper := beq_iff_eq

/-- `std::isspace` in the C locale. -/
def isSpace (c : UInt8) : Bool := c.toNat == 32 || (9 ≤ c.toNat && c.toNat ≤ 13)

/-- `sl::utils::trim`. -/
def trim (s : Bytes) : Bytes := ((s.dropWhile isSpace).reverse.dropWhile isSpace).reverse

/-- `std::string::find` of a substring, from the front. -/
def findSub (needle : Bytes) : Bytes → Option Nat
  | [] => if needle = [] then some 0 else none
  | c :: cs =>
    if needle.isPrefixOf (c :: cs) then some 0 else (findSub needle cs).map (· + 1)

/-- `std::string::find(needle) != npos`. -/
def contains (s needle : Bytes) : Bool := (findSub needle s).isSome

/-! ## Dictionaries -/

/-- An `unordered_multimap` with `ihash` and `iequal_to`, in its iteration order. -/
abbrev Dict := List (Bytes × Bytes)

/-- `dict.find(key)`, as the value found. -/
def Dict.lookup (d : Dict) (key : Bytes) : Option Bytes :=
  (d.find? fun e => iequals e.1 key).map Prod.snd

/-- The values of `dict.equal_range(key)`. -/
def Dict.equalRange (d : Dict) (key : Bytes) : List Bytes :=
  (d.filter fun e => iequals e.1 key).map Prod.snd

/-- Code that is not part of the repository, and what is relied on of it. -/
structure Externals where
  /-- `sl::utils::url_decode`. -/
  urlDecode : Bytes → Bytes
  /-- `sl::utils::parse_uint64`; `none` when it throws. -/
  parseUint64 : Bytes → Option UInt64
  /-- `unordered_multimap::insert`. Where the new entry goes is up to the library. -/
  insert : Dict → Bytes × Bytes → Dict
  /-- Inserting adds the entry and keeps all others, in whatever order. -/
  insert_perm : ∀ d e, (insert d e).Perm (e :: d)

/-- `change_value` when the key is present: the first value becomes the new one,
the others are erased. -/
def Dict.replace (key value : Bytes) : Dict → Dict
  | [] => []
  | e :: d =>
    if iequals e.1 key then (e.1, value) :: d.filter fun f => !iequals f.1 key
    else e :: Dict.replace key value d

/-- `http_message::change_value`. -/
def Dict.changeValue (x : Externals) (d : Dict) (key value : Bytes) : Dict :=
  if (d.lookup key).isNone then x.insert d (key, value) else d.replace key value

/-- `http_message::delete_value`. -/
def Dict.deleteValue (d : Dict) (key : Bytes) : Dict := d.filter fun e => !iequals e.1 key

/-- `http_message::get_value`. -/
def Dict.getValue (d : Dict) (key : Bytes) : Bytes := (d.lookup key).getD []

/-! ## Numbers as text -/

/-- The digits of a number, most significant first, in the letters of `%x`. -/
def toText (base n : Nat) : Bytes :=
  (Nat.toDigits base n).map fun c => UInt8.ofNat c.toNat

/-- `sl::support::to_string` of an unsigned number. -/
def toString (n : Nat) : Bytes := toText 10 n

/-- The value of one hexadecimal digit. -/
def hexValue (c : UInt8) : Nat :=
  if c.toNat ≤ 57 then c.toNat - 48 else if c.toNat ≤ 70 then c.toNat - 55 else c.toNat - 87

/-- The number a string of hexadecimal digits writes. -/
def hexNumber (s : Bytes) : Nat := s.foldl (fun n c => n * 16 + hexValue c) 0

/-- `strtol(s, 0, 16)` on a string of hexadecimal digits: saturates at the largest `long`. -/
def strtol (s : Bytes) : Nat := min (hexNumber s) (2 ^ 63 - 1)

/-- A string of decimal digits as a number, if it fits. -/
def parseDecimal (s : Bytes) : Option UInt64 :=
  let n := s.foldl (fun n c => n * 10 + (c.toNat - 48)) 0
  if s ≠ [] ∧ s.all isDigit ∧ n < 2 ^ 64 then some (UInt64.ofNat n) else none

/-- The externals at their plainest, to run the model: text without escapes, decimal
numbers, and a map that keeps the order of insertion. -/
def plainExternals : Externals where
  urlDecode := id
  parseUint64 := parseDecimal
  insert d e := d ++ [e]
  insert_perm d e := List.perm_append_singleton e d

end Pion
