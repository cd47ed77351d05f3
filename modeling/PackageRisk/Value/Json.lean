import PackageRisk.Number.Numeral
import PackageRisk.Value.Basic

/-!
# Documents as JSON text

`Json.read` accepts the JSON grammar with three additions: `NaN`, `Infinity` and `-Infinity`.
Whole numbers keep all their digits, a repeated key keeps its first place and its last value,
and nesting beyond a given depth is refused. Every reader returns what it leaves unread, and
is bounded by the length of its text.
-/

namespace PackageRisk.Json

open PackageRisk

/-- Why a text is not a document. -/
inductive Fault where
  | malformed
  | tooDeep
  | tooManyDigits
  deriving DecidableEq, Repr

/-- The most digits that a whole number may have. -/
def maxDigits : Nat := 4300

def isSpace (c : Char) : Bool :=
  c == ' ' || c == '\t' || c == '\n' || c == '\r'

def skipSpace (cs : List Char) : List Char :=
  cs.dropWhile isSpace

/-- The value of a hexadecimal digit. -/
def hexDigit? (c : Char) : Option Nat :=
  if c.isDigit then some (c.toNat - '0'.toNat)
  else if 'a' ≤ c ∧ c ≤ 'f' then some (c.toNat - 'a'.toNat + 10)
  else if 'A' ≤ c ∧ c ≤ 'F' then some (c.toNat - 'A'.toNat + 10)
  else none

/-- The value of four hexadecimal digits and the rest. -/
def hex4? : List Char → Option (Nat × List Char)
  | a :: b :: c :: d :: rest => do
    return ((((← hexDigit? a) * 16 + (← hexDigit? b)) * 16 + (← hexDigit? c)) * 16 +
      (← hexDigit? d), rest)
  | _ => none

/-- The character of an escape by one letter. -/
def simpleEscape? : Char → Option Char
  | '"' => some '"'
  | '\\' => some '\\'
  | '/' => some '/'
  | 'b' => some '\x08'
  | 'f' => some '\x0c'
  | 'n' => some '\n'
  | 'r' => some '\r'
  | 't' => some '\t'
  | _ => none

/-- The character of a pair of surrogate halves. -/
def joinHalves (high low : Nat) : Char :=
  Char.ofNat (0x10000 + (high - 0xD800) * 0x400 + (low - 0xDC00))

/-- The character of an escaped code unit and the rest; two halves make one character. -/
def unicodeEscape? (cs : List Char) : Option (Char × List Char) :=
  match hex4? cs with
  | none => none
  | some (u, rest) =>
    if 0xD800 ≤ u ∧ u < 0xDC00 then
      match rest with
      | '\\' :: 'u' :: more =>
        match hex4? more with
        | some (v, rest) =>
          if 0xDC00 ≤ v ∧ v < 0xE000 then some (joinHalves u v, rest)
          else some ('\uFFFD', '\\' :: 'u' :: more)
        | none => none
      | _ => some ('\uFFFD', rest)
    else if 0xDC00 ≤ u ∧ u < 0xE000 then some ('\uFFFD', rest)
    else some (Char.ofNat u, rest)

/-- The characters of a string up to its closing quote; `acc` holds those read, last first. -/
def stringBody (fuel : Nat) (acc : List Char) (cs : List Char) :
    Except Fault (String × List Char) :=
  match fuel, cs with
  | 0, _ | _, [] => .error .malformed
  | fuel + 1, c :: rest =>
    if c == '"' then .ok (String.ofList acc.reverse, rest)
    else if c.toNat < 32 then .error .malformed
    else if c == '\\' then
      match rest with
      | 'u' :: more =>
        match unicodeEscape? more with
        | some (u, rest) => stringBody fuel (u :: acc) rest
        | none => .error .malformed
      | e :: more =>
        match simpleEscape? e with
        | some u => stringBody fuel (u :: acc) more
        | none => .error .malformed
      | [] => .error .malformed
    else stringBody fuel (c :: acc) rest

/-- The digits of a whole part: a zero alone, or digits that start with none. -/
def wholeDigits : List Char → List Char × List Char
  | '0' :: rest => (['0'], rest)
  | cs => (cs.takeWhile Char.isDigit, cs.dropWhile Char.isDigit)

/-- A point and the digits after it. -/
def fractionDigits : List Char → Option (List Char) × List Char
  | '.' :: c :: rest =>
    if c.isDigit then
      (some (c :: rest.takeWhile Char.isDigit), rest.dropWhile Char.isDigit)
    else (none, '.' :: c :: rest)
  | cs => (none, cs)

/-- The exponent letter, an optional sign and digits. -/
def exponentDigits (cs : List Char) : Option Int × List Char :=
  match cs with
  | c :: rest =>
    if c == 'e' || c == 'E' then
      let (negative, ds) := Numeral.splitSign rest
      let digits := ds.takeWhile Char.isDigit
      if digits.isEmpty then (none, cs)
      else
        let n : Int := Numeral.digitsValue digits
        (some (if negative then -n else n), ds.dropWhile Char.isDigit)
    else (none, cs)
  | [] => (none, [])

/-- A number; one with neither fraction nor exponent is whole. -/
def number (cs : List Char) : Except Fault (Number × List Char) :=
  let (negative, body) := match cs with
    | '-' :: rest => (true, rest)
    | cs => (false, cs)
  let (whole, rest) := wholeDigits body
  if whole.isEmpty then .error .malformed
  else
    let (fraction, rest) := fractionDigits rest
    let (exponent, rest) := exponentDigits rest
    match fraction, exponent with
    | none, none =>
      if maxDigits < whole.length then .error .tooManyDigits
      else
        let n : Int := Numeral.digitsValue whole
        .ok (.int (if negative then -n else n), rest)
    | _, _ =>
      let d : Numeral.Decimal := ⟨whole, fraction.getD [], exponent.getD 0⟩
      .ok (.float (d.toBinary negative), rest)

/-- The rest of a text after a word that it starts with. -/
def dropWord? (word : String) (cs : List Char) : Option (List Char) :=
  if word.toList.isPrefixOf cs then some (cs.drop word.length) else none

/-- The named values. -/
def named : List (String × Value) :=
  [("null", .null), ("true", .bool true), ("false", .bool false),
   ("NaN", .number (.float .nan)), ("Infinity", .number (.float (.infinite false))),
   ("-Infinity", .number (.float (.infinite true)))]

/-- A named value or a number. -/
def scalar (cs : List Char) : Except Fault (Value × List Char) :=
  match named.findSome? fun (w, v) => (dropWord? w cs).map (v, ·) with
  | some r => .ok r
  | none => (number cs).map fun (n, rest) => (.number n, rest)

mutual

/-- One value at the head of a text without leading space. -/
def value (fuel depth : Nat) (cs : List Char) : Except Fault (Value × List Char) :=
  match fuel with
  | 0 => .error .malformed
  | fuel + 1 =>
    match cs with
    | '"' :: rest => (stringBody rest.length.succ [] rest).map fun (s, r) => (.text s, r)
    | '[' :: rest =>
      if depth = 0 then .error .tooDeep
      else match skipSpace rest with
        | ']' :: r => .ok (.list [], r)
        | r => items fuel (depth - 1) [] r
    | '{' :: rest =>
      if depth = 0 then .error .tooDeep
      else match skipSpace rest with
        | '}' :: r => .ok (.object [], r)
        | r => members fuel (depth - 1) [] r
    | _ => scalar cs

/-- The values of a list up to its closing bracket. -/
def items (fuel depth : Nat) (acc : List Value) (cs : List Char) :
    Except Fault (Value × List Char) :=
  match fuel with
  | 0 => .error .malformed
  | fuel + 1 =>
    match value fuel depth cs with
    | .error e => .error e
    | .ok (v, rest) =>
      match skipSpace rest with
      | ',' :: r => items fuel depth (v :: acc) (skipSpace r)
      | ']' :: r => .ok (.list (v :: acc).reverse, r)
      | _ => .error .malformed

/-- The fields of an object up to its closing brace. -/
def members (fuel depth : Nat) (acc : Fields) (cs : List Char) :
    Except Fault (Value × List Char) :=
  match fuel with
  | 0 => .error .malformed
  | fuel + 1 =>
    match cs with
    | '"' :: rest =>
      match stringBody rest.length.succ [] rest with
      | .error e => .error e
      | .ok (key, rest) =>
        match skipSpace rest with
        | ':' :: rest =>
          match value fuel depth (skipSpace rest) with
          | .error e => .error e
          | .ok (v, rest) =>
            match skipSpace rest with
            | ',' :: r => members fuel depth (Fields.put key v acc) (skipSpace r)
            | '}' :: r => .ok (.object (Fields.put key v acc), r)
            | _ => .error .malformed
        | _ => .error .malformed
    | _ => .error .malformed

end

/-- The document that a whole text spells. -/
def read (maxDepth : Nat) (s : String) : Except Fault Value :=
  let cs := s.toList
  match value (cs.length + 1) maxDepth (skipSpace cs) with
  | .error e => .error e
  | .ok (v, rest) => if (skipSpace rest).isEmpty then .ok v else .error .malformed

/-- A character inside a written string: ASCII only. -/
def escapedChar (c : Char) : List Char :=
  let n := c.toNat
  if c == '"' then ['\\', '"']
  else if c == '\\' then ['\\', '\\']
  else if c == '\n' then ['\\', 'n']
  else if c == '\r' then ['\\', 'r']
  else if c == '\t' then ['\\', 't']
  else if 32 ≤ n ∧ n < 127 then [c]
  else if n < 0x10000 then '\\' :: 'u' :: Text.hex 4 n
  else
    let m := n - 0x10000
    '\\' :: 'u' :: Text.hex 4 (0xD800 + m / 0x400) ++
      '\\' :: 'u' :: Text.hex 4 (0xDC00 + m % 0x400)

/-- A text as a JSON string. -/
def escaped (s : String) : String :=
  String.ofList ('"' :: s.toList.flatMap escapedChar ++ ['"'])

/-- A number as JSON; what is not finite is null. -/
def numberText (n : Number) : String :=
  if n.isFinite then n.text else "null"

mutual

/-- A document written on one line. -/
def compact : Value → String
  | .null => "null"
  | .bool b => if b then "true" else "false"
  | .number n => numberText n
  | .text s => escaped s
  | .bytes b => escaped (Value.quotedBytes b)
  | .list items => "[" ++ Text.join "," (compactItems items) ++ "]"
  | .object fields => "\x7b" ++ Text.join "," (compactFields fields) ++ "\x7d"

def compactItems : List Value → List String
  | [] => []
  | v :: rest => compact v :: compactItems rest

def compactFields : List (String × Value) → List String
  | [] => []
  | (k, v) :: rest => (escaped k ++ ":" ++ compact v) :: compactFields rest

end

mutual

/-- A document written with one item a line, two spaces a level. -/
def indented (margin : String) : Value → String
  | .list (v :: rest) =>
    let inner := margin ++ "  "
    "[\n" ++ Text.join ",\n" (indentedItems inner (v :: rest)) ++ "\n" ++ margin ++ "]"
  | .object (f :: rest) =>
    let inner := margin ++ "  "
    "\x7b\n" ++ Text.join ",\n" (indentedFields inner (f :: rest)) ++ "\n" ++ margin ++ "\x7d"
  | v => compact v

def indentedItems (margin : String) : List Value → List String
  | [] => []
  | v :: rest => (margin ++ indented margin v) :: indentedItems margin rest

def indentedFields (margin : String) : List (String × Value) → List String
  | [] => []
  | (k, v) :: rest =>
    (margin ++ escaped k ++ ": " ++ indented margin v) :: indentedFields margin rest

end

end PackageRisk.Json
