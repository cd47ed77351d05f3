import PackageRisk.Script.Escape
import PackageRisk.Text.Utf8

/-!
# Documents as octets

A document comes in UTF-8, UTF-16 or UTF-32. A mark at its start tells which of them, and which
octet of a unit comes first; without a mark it is told by which of the first octets are zero. Half
a character that stands alone is no reason to refuse a document: it is replaced.
-/

namespace PackageRisk.Json

/-- How octets stand for characters: one by one, or in pairs or fours with the highest octet of a
unit at one end. -/
inductive Encoding where
  | utf8
  | utf16 (highFirst : Bool)
  | utf32 (highFirst : Bool)
  deriving DecidableEq, Repr

/-- The encoding that the zeros among the first octets tell of. -/
def Encoding.ofZeros : List UInt8 → Encoding
  | a :: b :: c :: d :: _ =>
    if a == 0 then (if b == 0 then .utf32 true else .utf16 true)
    else if b == 0 then (if c == 0 && d == 0 then .utf32 false else .utf16 false)
    else .utf8
  | [a, b] => if a == 0 then .utf16 true else if b == 0 then .utf16 false else .utf8
  | _ => .utf8

/-- The marks that documents may start with; a longer one comes before its own beginning. -/
def Encoding.marks : List (List UInt8 × Encoding) :=
  [([0x00, 0x00, 0xFE, 0xFF], .utf32 true), ([0xFF, 0xFE, 0x00, 0x00], .utf32 false),
   ([0xFE, 0xFF], .utf16 true), ([0xFF, 0xFE], .utf16 false), ([0xEF, 0xBB, 0xBF], .utf8)]

/-- The encoding of octets, and the octets behind its mark. -/
def Encoding.detect (bytes : List UInt8) : Encoding × List UInt8 :=
  match marks.find? fun mark => mark.1.isPrefixOf bytes with
  | some (mark, encoding) => (encoding, bytes.drop mark.length)
  | none => (.ofZeros bytes, bytes)

/-- Neighbours as the digits of one number, two by two; none if one is left over. -/
def joinPairs? (highFirst : Bool) (base : Nat) : List Nat → Option (List Nat)
  | [] => some []
  | [_] => none
  | a :: b :: rest =>
    (joinPairs? highFirst base rest).map
      ((if highFirst then a * base + b else b * base + a) :: ·)

/-- Octets of UTF-8 with a replacement for each half of a character. -/
def replaceHalves : List UInt8 → List UInt8
  | a :: b :: c :: rest =>
    if a == 0xED && 0xA0 ≤ b && b ≤ 0xBF && 0x80 ≤ c && c ≤ 0xBF then
      0xEF :: 0xBF :: 0xBD :: replaceHalves rest
    else a :: replaceHalves (b :: c :: rest)
  | bytes => bytes

/-- The text that octets stand for in an encoding. -/
def Encoding.decode? (bytes : List UInt8) : Encoding → Option String
  | .utf8 => Text.ofUtf8? (replaceHalves bytes)
  | .utf16 highFirst => do
    let units ← joinPairs? highFirst 0x100 (bytes.map UInt8.toNat)
    return String.ofList (Script.textOf units)
  | .utf32 highFirst => do
    let units ← joinPairs? highFirst 0x100 (bytes.map UInt8.toNat)
    let points ← joinPairs? highFirst 0x10000 units
    if points.all (· < 0x110000) then some (String.ofList (points.map Script.textOf.half))
    else none

/-- The text of a document, without the mark that it may start with. -/
def textOf? (bytes : List UInt8) : Option String :=
  let (encoding, rest) := Encoding.detect bytes
  encoding.decode? rest

end PackageRisk.Json
