import Pion.Lib.Recogniser
import Pion.Proof.Clean
import Pion.Proof.Terminators

/-!
# The grammar of a head

What `parse_headers` takes for the head of a request, as a grammar that does not
mention its states.

A head is a request line and a block of lines. The lines are headers, or hold nothing
but blanks; each is ended by CRLF, LF, CR or LFCR, and the block by an empty line. Not
all of it is what one expects: a CR or an LF may stand for the `H` of `HTTP`, digits
behind a blank still belong to the minor version, and a request of version zero ends at
its first CRLF.
-/

namespace Pion.Proof

open Pion Lib

/-! ## Request lines -/

/-- White space in front of a request. -/
def LeadingByte (c : UInt8) : Prop := c = sp ∨ c = cr ∨ c = lf

/-- A blank in front of a header. -/
def Blank (c : UInt8) : Prop := c = tab ∨ c = sp

instance (c : UInt8) : Decidable (LeadingByte c) := inferInstanceAs (Decidable (_ ∨ _))

instance (c : UInt8) : Decidable (Blank c) := inferInstanceAs (Decidable (_ ∨ _))

/-- The version of a request line. -/
structure VersionWord where
  /-- What stands in the place of the `H`. -/
  first : UInt8 := 72
  major : Bytes
  minor : Bytes

namespace VersionWord

def text (v : VersionWord) : Bytes := v.first :: (str "TTP/" ++ (v.major ++ dot :: v.minor))

structure Ok (v : VersionWord) : Prop where
  first : v.first = 72 ∨ v.first = cr ∨ v.first = lf
  major_ne : v.major ≠ []
  major : ∀ c ∈ v.major, isDigit c = true
  minor_first : ∃ c cs, v.minor = c :: cs ∧ isDigit c = true
  minor : ∀ c ∈ v.minor, isDigit c = true ∨ c = sp

/-- The two numbers. Blanks among the digits do not count. -/
def numbers (v : VersionWord) : UInt16 × UInt16 :=
  (readDigits v.major, readDigits (v.minor.filter isDigit))

end VersionWord

/-- A request line with its end. -/
structure RequestLine where
  leading : Bytes := []
  method : Bytes
  resource : Bytes
  query : Option Bytes := none
  version : Option VersionWord
  lineEnd : LineEnd := .crlf

def queryPart : Option Bytes → Bytes
  | none => []
  | some q => question :: q

def versionPart : Option VersionWord → Bytes
  | none => []
  | some v => sp :: v.text

/-- A request line without a version is of version zero. -/
def versionNumbers : Option VersionWord → UInt16 × UInt16
  | none => (0, 0)
  | some v => v.numbers

namespace RequestLine

def text (l : RequestLine) : Bytes :=
  l.leading ++ (l.method ++ sp :: (l.resource ++
    (queryPart l.query ++ (versionPart l.version ++ l.lineEnd.text))))

def numbers (l : RequestLine) : UInt16 × UInt16 := versionNumbers l.version

structure Ok (l : RequestLine) : Prop where
  leading : ∀ c ∈ l.leading, LeadingByte c
  method_ne : l.method ≠ []
  method : Text TokenByte methodMax l.method
  resource : Text ResourceByte resourceMax l.resource
  query : ∀ q, l.query = some q → Text QueryByte queryStringMax q
  version : ∀ v, l.version = some v → v.Ok
  lineEnd : l.lineEnd = .crlf → l.numbers.1 ≠ 0

end RequestLine

/-! ## Blocks -/

/-- A header without the end of its line. -/
def HeaderLine.fieldText (l : HeaderLine) : Bytes :=
  l.name ++ colon :: ((if l.blank then [sp] else []) ++ l.value)

/-- The empty line behind a line that ended like this, with what comes behind it. Of two
bytes that end a line together, the second may be missing: then another byte has to
come first. -/
inductive Closes (version : UInt16) : LineEnd → Bytes → Bytes → Prop
  | cr (rest : Bytes) : Closes version .cr [Pion.cr] rest
  | lf (rest : Bytes) : Closes version .lf [Pion.lf] rest
  | simple (rest : Bytes) : version = 0 → Closes version .cr [Pion.lf] rest
  | crlf {e : LineEnd} (rest : Bytes) : e = .crlf ∨ e = .lfcr → Closes version e [Pion.cr, Pion.lf] rest
  | lfcr {e : LineEnd} (rest : Bytes) : e = .crlf ∨ e = .lfcr → Closes version e [Pion.lf, Pion.cr] rest
  | crOnly {e : LineEnd} {c : UInt8} (cs : Bytes) : e = .crlf ∨ e = .lfcr → c ≠ Pion.lf →
      Closes version e [Pion.cr] (c :: cs)
  | lfOnly {e : LineEnd} {c : UInt8} (cs : Bytes) : e = .crlf ∨ e = .lfcr → c ≠ Pion.cr →
      Closes version e [Pion.lf] (c :: cs)

/-- The lines behind a line that ended like this, up to the empty one: the headers on them, and
their bytes with all that comes behind. -/
inductive HeaderBlock (version : UInt16) (rest : Bytes) : LineEnd → List HeaderLine → Bytes → Prop
  | close {e : LineEnd} {final : Bytes} : Closes version e final rest →
      HeaderBlock version rest e [] (final ++ rest)
  | blanks {e e' : LineEnd} {ws buf : Bytes} {ls : List HeaderLine} : ws ≠ [] → (∀ c ∈ ws, Blank c) →
      (e' = .crlf → version ≠ 0) → HeaderBlock version rest e' ls buf →
      HeaderBlock version rest e ls (ws ++ (e'.text ++ buf))
  | header {e e' : LineEnd} {ws buf : Bytes} {l : HeaderLine} {ls : List HeaderLine} :
      (∀ c ∈ ws, Blank c) → l.Readable → (e' = .crlf → version ≠ 0) → HeaderBlock version rest e' ls buf →
      HeaderBlock version rest e (l :: ls) (ws ++ (l.fieldText ++ (e'.text ++ buf)))

end Pion.Proof
