import PackageRisk.Failure
import PackageRisk.Script.Token
import PackageRisk.Value.Json

/-!
# Escapes in strings

What an escape in a string stands for. The result is a list of code points, because an escape
may stand for one half of a character; two halves side by side make one character when a text
is built from the list.
-/

namespace PackageRisk.Script

/-- A numeral in a base: blanks around it, a sign, the mark of its base and single low lines
between digits are allowed. -/
def integerIn? (base : Nat) (mark : Char) (cs : List Char) : Option Int :=
  let (negative, body) := Numeral.splitSign (Text.trim cs)
  let digits := match body with
    | '0' :: m :: rest =>
      if m.toLower == mark then (match rest with
        | '_' :: more => more
        | _ => rest)
      else body
    | _ => body
  match Numeral.dropLowLines? digits with
  | none => none
  | some ds =>
    if ds.isEmpty then none
    else
      let values := ds.map fun c => (Json.hexDigit? c).getD base
      if values.all (· < base) then
        let n : Int := Int.ofNat (values.foldl (fun n d => n * base + d) 0)
        some (if negative then -n else n)
      else none

/-- The control characters that escapes name by a letter. -/
def letterEscapes : List (Char × Nat) :=
  [('n', 10), ('t', 9), ('r', 13), ('b', 8), ('f', 12), ('v', 11)]

/-- The bodies of escapes that continue a line. -/
def lineContinuations : List (List Char) :=
  [['\n'], ['\r', '\n'], ['\r'], ['\u2028'], ['\u2029']]

/-- The code points of characters as they are. -/
def codePoints (cs : List Char) : List Nat :=
  cs.map Char.toNat

/-- A code point, or the escape as written when there is no such point. -/
def pointOr (written : List Char) : Option Int → Except Fault (List Nat)
  | none => .ok (codePoints written)
  | some n =>
    if n < -0x80000000 ∨ 0x80000000 ≤ n then
      .error (.overflow "Python int too large to convert to C int")
    else if n < 0 ∨ 0x10FFFF < n then .ok (codePoints written)
    else .ok [n.toNat]

/-- What an escape stands for, from its body behind the backslash. -/
def decodeEscape (body : List Char) : Except Fault (List Nat) :=
  let written := '\\' :: body
  if lineContinuations.contains body then .ok []
  else match body with
    | [] => .error (.outOfRange "string index out of range")
    | 'u' :: '{' :: rest => pointOr written (integerIn? 16 'x' rest.dropLast)
    | c :: rest =>
      if (c == 'x' || c == 'u') && !rest.isEmpty then pointOr written (integerIn? 16 'x' rest)
      else if isOctal c then pointOr written (integerIn? 8 'o' body)
      else match rest, letterEscapes.lookup c with
        | [], some n => .ok [n]
        | _, _ => .ok (codePoints body)

/-- The code points that the pieces of a string stand for. -/
def decodePieces : List Piece → Except Fault (List Nat)
  | [] => .ok []
  | .plain cs :: rest => (decodePieces rest).map (codePoints cs ++ ·)
  | .escape e :: rest => do
    let here ← decodeEscape e.body
    return here ++ (← decodePieces rest)

/-- A text from code points; two halves of a character are joined. -/
def textOf : List Nat → List Char
  | [] => []
  | [n] => [half n]
  | m :: n :: rest =>
    if 0xD800 ≤ m ∧ m < 0xDC00 ∧ 0xDC00 ≤ n ∧ n < 0xE000 then Json.joinHalves m n :: textOf rest
    else half m :: textOf (n :: rest)
where
  /-- A character of its own; a lone half has none and is replaced. -/
  half (n : Nat) : Char :=
    if 0xD800 ≤ n ∧ n < 0xE000 then '\uFFFD' else Char.ofNat n

end PackageRisk.Script
