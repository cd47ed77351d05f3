/-!
# UTF-8

Octets as text. What is no character is cut into its longest well-formed beginnings: each of
them counts as one unreadable part, and so does each octet that begins nothing.
-/

namespace PackageRisk.Text

/-- What an octet begins: how many octets follow it, and the bounds of the first of them. -/
def lead? (b : UInt8) : Option (Nat × UInt8 × UInt8) :=
  if 0xC2 ≤ b && b ≤ 0xDF then some (1, 0x80, 0xBF)
  else if b == 0xE0 then some (2, 0xA0, 0xBF)
  else if b == 0xED then some (2, 0x80, 0x9F)
  else if 0xE1 ≤ b && b ≤ 0xEF then some (2, 0x80, 0xBF)
  else if b == 0xF0 then some (3, 0x90, 0xBF)
  else if b == 0xF4 then some (3, 0x80, 0x8F)
  else if 0xF1 ≤ b && b ≤ 0xF3 then some (3, 0x80, 0xBF)
  else none

/-- Up to `n` octets that go on with a character, the first of them within bounds. -/
def followers (low high : UInt8) : Nat → List UInt8 → List UInt8
  | n + 1, b :: rest =>
    if low ≤ b && b ≤ high then b :: followers 0x80 0xBF n rest else []
  | _, _ => []

/-- The code point of a first octet with `n` octets after it. -/
def joinOctets (n : Nat) (first : UInt8) (rest : List UInt8) : Nat :=
  rest.foldl (fun acc b => acc * 64 + (b.toNat - 0x80)) (first.toNat % Nat.pow 2 (6 - n))

/-- The characters of octets; `none` stands for an unreadable part. -/
def readUtf8 (bytes : List UInt8) : List (Option Char) :=
  match bytes with
  | [] => []
  | b :: rest =>
    if b < 0x80 then some (Char.ofNat b.toNat) :: readUtf8 rest
    else match lead? b with
      | none => none :: readUtf8 rest
      | some (n, low, high) =>
        let more := followers low high n rest
        let here := if more.length = n then some (Char.ofNat (joinOctets n b more)) else none
        here :: readUtf8 (rest.drop more.length)
  termination_by bytes.length
  decreasing_by all_goals simp only [List.length_cons, List.length_drop]; omega

/-- Octets as text, with a replacement for each unreadable part. -/
def ofUtf8Lossy (bytes : List UInt8) : String :=
  String.ofList ((readUtf8 bytes).map fun c => c.getD '\uFFFD')

/-- Octets as text if all of it can be read. -/
def ofUtf8? (bytes : List UInt8) : Option String :=
  ((readUtf8 bytes).mapM id).map String.ofList

/-- Line ends of every kind as line feeds. -/
def plainLineEnds : List Char → List Char
  | [] => []
  | '\r' :: '\n' :: cs => '\n' :: plainLineEnds cs
  | '\r' :: cs => '\n' :: plainLineEnds cs
  | c :: cs => c :: plainLineEnds cs

end PackageRisk.Text
