import PackageRisk.Text.Category

/-!
# Tokens of scripts

The smallest parts of a script: blanks and comments, words, numbers, strings and regular
expressions. Every reader takes the characters from its position on and returns what it leaves.

A statement may end without a semicolon. `endsHere` decides whether it does at a position: at
the end of the text, before a closing brace, or at a line break after which no operator goes
on with the expression.
-/

namespace PackageRisk.Script

/-- A reader of the characters from a position on. -/
abbrev Reader (α : Type) := List Char → Option (α × List Char)

/-- Line ends of comments. -/
def isLineEnd (c : Char) : Bool :=
  c == '\n' || c == '\u2028' || c == '\u2029'

/-- Space separators. -/
def isSpaceSeparator (c : Char) : Bool :=
  c == ' ' || c == '\u00A0' || c == '\u1680' || ('\u2000' ≤ c && c ≤ '\u200A') ||
    c == '\u202F' || c == '\u205F' || c == '\u3000'

/-- Blanks between tokens. -/
def isGap (c : Char) : Bool :=
  ('\t' ≤ c && c ≤ '\r') || isSpaceSeparator c || c == '\uFEFF' || c == '\u2028' ||
    c == '\u2029' || c == '\u2060' || c == '\u200B'

/-- Blanks that may stand before a missing semicolon. -/
def isPlainSpace (c : Char) : Bool :=
  ('\t' ≤ c && c ≤ '\r') || c == ' ' || c == '\u1680' || ('\u2000' ≤ c && c ≤ '\u2006') ||
    ('\u2008' ≤ c && c ≤ '\u200A') || c == '\u2028' || c == '\u2029' || c == '\u205F' ||
    c == '\u3000'

/-- What follows the end of a block comment, if it has an end. -/
def afterBlock? : List Char → Option (List Char)
  | '*' :: '/' :: rest => some rest
  | _ :: rest => afterBlock? rest
  | [] => none

/-- What follows a comment, if there is one at a position. -/
def afterComment? : List Char → Option (List Char)
  | '/' :: '/' :: rest => some (rest.dropWhile fun c => !(isLineEnd c || c == '\r'))
  | '/' :: '*' :: rest => afterBlock? rest
  | _ => none

/-- What follows a comment in the manner of a page, if there is one at a position. -/
def afterPageComment? : List Char → Option (List Char)
  | '<' :: '!' :: '-' :: '-' :: rest => some (rest.dropWhile (!isLineEnd ·))
  | '-' :: '-' :: '>' :: rest => some (rest.dropWhile (!isLineEnd ·))
  | _ => none

/-- What the characters at a position belong to. -/
inductive Stretch where
  | gap
  | line
  | opening
  | block

/-- The text after blanks and comments, and whether a page comment was among them. Page
comments count only where `page` is set; a block comment without an end is none. -/
def skipFrom (page : Bool) : Stretch → Bool → List Char → Bool × List Char
  | _, seen, [] => (seen, [])
  | .line, seen, c :: cs => skipFrom page (if isLineEnd c then .gap else .line) seen cs
  | .opening, seen, _ :: cs => skipFrom page .block seen cs
  | .block, seen, '*' :: '/' :: cs => skipFrom page .gap seen cs
  | .block, seen, _ :: cs => skipFrom page .block seen cs
  | .gap, seen, c :: cs =>
    if isGap c then skipFrom page .gap seen cs
    else if "//".toList.isPrefixOf (c :: cs) then skipFrom page .line seen cs
    else if "/*".toList.isPrefixOf (c :: cs) && (afterBlock? (cs.drop 1)).isSome then
      skipFrom page .opening seen cs
    else if page && (afterPageComment? (c :: cs)).isSome then skipFrom page .line true cs
    else (seen, c :: cs)

/-- The text after blanks and comments. -/
def skip (cs : List Char) : List Char :=
  (skipFrom false .gap false cs).2

/-- The text after blanks and comments of both kinds. -/
def skipPage (cs : List Char) : List Char :=
  (skipFrom true .gap false cs).2

/-- The text after a mark at its head. -/
def dropMark? (mark : List Char) (cs : List Char) : Option (List Char) :=
  if mark.isPrefixOf cs then some (cs.drop mark.length) else none

/-- The text after blanks, comments and one character. -/
def punct (c : Char) (cs : List Char) : Option (List Char) :=
  match skip cs with
  | d :: rest => if d == c then some rest else none
  | [] => none

/-! ## Statements without a semicolon -/

/-- What a look over blanks and comments found. -/
inductive Look where
  | slash
  | sameLine (rest : List Char)
  | newLine (rest : List Char)

/-- A look over blanks and comments; `seen` says whether a block comment held a line end.
Unless `all` is set the look stops behind a block comment. -/
def lookOver (all : Bool) : Stretch → Bool → List Char → Look
  | _, _, [] => .newLine []
  | .line, seen, c :: cs => lookOver all (if isLineEnd c then .gap else .line) seen cs
  | .opening, seen, _ :: cs => lookOver all .block seen cs
  | .block, seen, '*' :: '/' :: cs =>
    if cs.head? != some '/' && !all then (if seen then .newLine cs else .sameLine cs)
    else lookOver all .gap seen cs
  | .block, seen, c :: cs => lookOver all .block (seen || isLineEnd c) cs
  | .gap, seen, c :: cs =>
    if isPlainSpace c then lookOver all .gap seen cs
    else if c != '/' then .newLine (c :: cs)
    else match cs.head? with
      | some '/' => lookOver all .line seen cs
      | some '*' => lookOver all .opening seen cs
      | _ => .slash

/-- A letter of any script. -/
def isLetter (c : Char) : Bool :=
  if c.toNat < 128 then c.isAlpha else Text.isWord c

/-- Whether a line that starts so begins a new statement. -/
def beginsStatement : List Char → Bool
  | [] => true
  | c :: rest =>
    if "\x60,:;*%<>=[(?^|&/".toList.contains c then false
    else match c with
      | '.' => (rest.head?.map Char.isDigit).getD false
      | '+' => rest.head? == some '+'
      | '-' => rest.head? == some '-'
      | '!' => rest.head? != some '='
      | 'i' =>
        match rest with
        | 'n' :: more =>
          if !(more.head?.map isLetter).getD false then false
          else match dropMark? "stanceof".toList more with
            | some more => (more.head?.map isLetter).getD false
            | none => true
        | _ => true
      | _ => true

/-- Whether a statement ends at a line break from here on. -/
def endsAtBreak (cs : List Char) : Bool :=
  match lookOver true .gap false cs with
  | .slash => false
  | .sameLine rest | .newLine rest => beginsStatement rest

/-- Whether a statement ends before the next comment. `operator` says that an operator may
follow; only where none can does a line break in a comment count. The first text bounds the
rounds. -/
def endsBefore (operator : Bool) : List Char → List Char → Bool
  | _, [] => true
  | [], _ => false
  | _ :: bound, c :: cs =>
    let atSpace (c : Char) (cs : List Char) : Bool :=
      if c == '}' then true
      else if isLineEnd c then endsAtBreak cs
      else if isPlainSpace c then endsBefore operator bound cs
      else false
    if c == '/' then
      match lookOver false .gap false (c :: cs) with
      | .slash | .sameLine [] => false
      | .sameLine (d :: rest) => atSpace d rest
      | .newLine rest =>
        if !operator && rest.head? != some ',' && rest.head? != some '=' then true
        else match rest with
          | [] => false
          | d :: rest => atSpace d rest
    else atSpace c cs

/-- Whether a statement ends at a position, before or after some comments. The first text bounds
the rounds. -/
def endsAfterComments (operator : Bool) (bound cs : List Char) : Bool :=
  endsBefore operator cs cs ||
    match bound with
    | [] => false
    | _ :: bound =>
      match afterComment? (cs.dropWhile isGap) with
      | some rest => endsAfterComments operator bound rest
      | none => false

/-- Whether a statement ends at a position without a semicolon. -/
def endsHere (operator : Bool) (cs : List Char) : Bool :=
  endsAfterComments operator cs cs

/-! ## Words -/

/-- The characters of words after the first. -/
def isWordPart (c : Char) : Bool :=
  32 < c.toNat && !isSpaceSeparator c && !":;\x60\"'@#.,|^&<=>+-*/\\%?!~()[]\x7b\x7d".toList.contains c &&
    c != '\uFEFF' && c != '\u2060' && c != '\u200B' && c != '\u2028' && c != '\u2029'

/-- A code point escape behind its backslash: four digits, or digits in braces. -/
def codePoint? : List Char → Option (List Char × List Char)
  | 'u' :: '{' :: rest =>
    let digits := rest.takeWhile Text.isHexDigit
    match digits, rest.drop digits.length with
    | _ :: _, '}' :: more => some ('u' :: '{' :: digits ++ ['}'], more)
    | _, _ => none
  | 'u' :: a :: b :: c :: d :: rest =>
    if [a, b, c, d].all Text.isHexDigit then some (['u', a, b, c, d], rest) else none
  | _ => none

/-- The characters of a word from a position on, and the rest. The number counts the characters
of an escape that are still to come. -/
def wordFrom : Nat → List Char → List Char × List Char
  | _, [] => ([], [])
  | n + 1, c :: cs =>
    let (w, rest) := wordFrom n cs
    (c :: w, rest)
  | 0, c :: cs =>
    if isWordPart c then
      let (w, rest) := wordFrom 0 cs
      (c :: w, rest)
    else if c == '\\' then
      match codePoint? cs with
      | some (body, _) =>
        let (w, rest) := wordFrom body.length cs
        (c :: w, rest)
      | none => ([], c :: cs)
    else ([], c :: cs)

/-- A word at a position. -/
def word : Reader String := fun cs =>
  if (cs.head?.map Char.isDigit).getD true then none
  else match wordFrom 0 cs with
    | ([], _) => none
    | (w, rest) => some (String.ofList w, rest)

/-- The words that are never names. -/
def reservedWords : List String :=
  ["break", "case", "catch", "class", "const", "continue", "debugger", "default", "delete",
   "do", "else", "export", "extends", "false", "finally", "for", "function", "if", "import",
   "in", "instanceof", "new", "null", "return", "super", "switch", "this", "throw", "true",
   "try", "typeof", "var", "void", "while", "with"]

/-- A word that can be a name. -/
def name : Reader String := fun cs =>
  match word cs with
  | some (w, rest) => if reservedWords.contains w then none else some (w, rest)
  | none => none

/-- The text after blanks, comments and a certain word. -/
def keyword (w : String) (cs : List Char) : Option (List Char) :=
  match word (skip cs) with
  | some (v, rest) => if v == w then some rest else none
  | none => none

/-- A private name, with the sign in front of it. -/
def privateName : Reader String
  | '#' :: cs => (word cs).map fun (w, rest) => ("#" ++ w, rest)
  | _ => none

/-! ## Literals -/

/-- Digits with single low lines between them. -/
def digitRun (isDigit : Char → Bool) : List Char → Option (List Char)
  | [] => none
  | c :: cs =>
    if isDigit c then
      match cs with
      | '_' :: d :: rest =>
        if isDigit d then digitRun isDigit (d :: rest) else some ('_' :: d :: rest)
      | d :: rest => if isDigit d then digitRun isDigit (d :: rest) else some (d :: rest)
      | [] => some []
    else none

/-- What follows a whole exponent, if there is one. -/
def exponent? : List Char → Option (List Char)
  | c :: rest =>
    if c == 'e' || c == 'E' then
      digitRun Char.isDigit (match rest with
        | s :: more => if s == '+' || s == '-' then more else rest
        | [] => rest)
    else none
  | [] => none

/-- What follows an exponent or none. -/
def afterExponent (cs : List Char) : List Char :=
  (exponent? cs).getD cs

/-- A whole part that a point or an exponent may follow: zero, or digits without a second
leading zero. -/
def afterWhole? (cs : List Char) : Option (List Char) :=
  match cs with
  | '0' :: c :: rest =>
    if c.isDigit && c != '0' then digitRun Char.isDigit (c :: rest) else some (c :: rest)
  | '0' :: [] => some []
  | _ => digitRun Char.isDigit cs

/-- Digits of one base behind their letter, with or without the mark of large numbers. -/
def afterBased? (isDigit : Char → Bool) (cs : List Char) : Option (List Char) :=
  (digitRun isDigit cs).map fun rest => match rest with
    | 'n' :: more => more
    | rest => rest

/-- What follows a decimal with a point or an exponent. -/
def afterFraction? (cs : List Char) : Option (List Char) :=
  match cs with
  | '.' :: rest => (digitRun Char.isDigit rest).map afterExponent
  | _ => match afterWhole? cs with
    | some ('.' :: rest) => some (afterExponent ((digitRun Char.isDigit rest).getD rest))
    | some rest => exponent? rest
    | none => none

/-- What follows digits in another base than ten. -/
def afterOtherBase? : List Char → Option (List Char)
  | '0' :: b :: rest =>
    if b == 'x' || b == 'X' then afterBased? Text.isHexDigit rest
    else if b == 'b' || b == 'B' then afterBased? (fun c => c == '0' || c == '1') rest
    else if b == 'o' || b == 'O' then afterBased? (fun c => '0' ≤ c && c ≤ '7') rest
    else none
  | _ => none

/-- What follows the number at a position. -/
def afterNumber? (cs : List Char) : Option (List Char) :=
  match afterOtherBase? cs with
  | some rest => some rest
  | none => match afterFraction? cs with
    | some rest => some rest
    | none => afterBased? Char.isDigit cs

/-- Octal digits. -/
def isOctal (c : Char) : Bool := '0' ≤ c && c ≤ '7'

/-- What an escape can be behind its backslash. -/
inductive IsEscape : List Char → Prop
  | byte {a b : Char} (first : Text.isHexDigit a = true) (second : Text.isHexDigit b = true) :
    IsEscape ['x', a, b]
  | unit {a b c d : Char} (digits : [a, b, c, d].all Text.isHexDigit = true) :
    IsEscape ['u', a, b, c, d]
  | point {digits : List Char} (some : digits ≠ []) (hex : digits.all Text.isHexDigit = true) :
    IsEscape ('u' :: '{' :: digits ++ ['}'])
  | octal {digits : List Char} (some : digits ≠ []) (few : digits.length ≤ 3)
    (octal : digits.all isOctal = true) : IsEscape digits
  | lineEnd {c d : Char} (mark : c = '\r' ∨ c = '?') (ends : isLineEnd d = true) :
    IsEscape [c, d]
  | single {c : Char} (noByte : c ≠ 'x') (noPoint : c ≠ 'u') (noOctal : isOctal c = false) :
    IsEscape [c]

/-- An escape behind its backslash. -/
structure Escape where
  body : List Char
  isEscape : IsEscape body
  deriving DecidableEq, Repr

/-- A part of a string: plain characters, or an escape. -/
inductive Piece where
  | plain (cs : List Char)
  | escape (e : Escape)
  deriving DecidableEq, Repr

/-- The body of an escape behind its backslash. -/
def escapeBody : Reader (List Char)
  | 'x' :: a :: b :: rest =>
    if Text.isHexDigit a && Text.isHexDigit b then some (['x', a, b], rest) else none
  | 'x' :: _ => none
  | 'u' :: rest => codePoint? ('u' :: rest)
  | c :: d :: rest =>
    if isOctal c then
      let digits := (c :: d :: rest).takeWhile isOctal |>.take 3
      some (digits, (c :: d :: rest).drop digits.length)
    else if (c == '\r' || c == '?') && isLineEnd d then some ([c, d], rest)
    else some ([c], d :: rest)
  | [c] => some ([c], [])
  | [] => none

theorem isEscape_of_codePoint? {cs body rest : List Char}
    (read : codePoint? cs = some (body, rest)) : IsEscape body := by
  unfold codePoint? at read
  split at read
  · dsimp only at read
    split at read
    · next digits _ =>
      cases read
      exact .point (by simp [digits]) List.all_takeWhile
    · cases read
  · split at read
    · next digits =>
      cases read
      exact .unit digits
    · cases read
  · cases read

theorem isEscape_of_escapeBody {cs body rest : List Char}
    (read : escapeBody cs = some (body, rest)) : IsEscape body := by
  unfold escapeBody at read
  split at read
  · split at read
    · next digits =>
      cases read
      rw [Bool.and_eq_true] at digits
      exact .byte digits.1 digits.2
    · cases read
  · cases read
  · exact isEscape_of_codePoint? read
  · next c d rest noByte noPoint =>
    split at read
    · next octal =>
      cases read
      refine .octal ?_ (List.length_take_le 3 _) (List.all_eq_true.2 fun digit mem => ?_)
      · simp [octal]
      · exact List.all_eq_true.1 List.all_takeWhile digit (List.mem_of_mem_take mem)
    · next octal =>
      split at read
      · next ends =>
        cases read
        simp only [Bool.and_eq_true, Bool.or_eq_true, beq_iff_eq] at ends
        exact .lineEnd ends.1 ends.2
      · cases read
        exact .single noByte noPoint (by simpa using octal)
  · next c noByte noPoint =>
    cases read
    by_cases octal : isOctal c = true
    · exact .octal (by simp) (by simp) (by simp [octal])
    · exact .single noByte noPoint (by simpa using octal)
  · cases read

/-- The pieces of a string up to its closing quote; `acc` holds those read, last first. The
first text bounds the rounds. -/
def stringPieces (quote : Char) : List Char → List Piece → Reader (List Piece)
  | [], _, _ | _, _, [] => none
  | _ :: bound, acc, c :: rest =>
    if c == quote then some (acc.reverse, rest)
    else if c == '\\' then
      match read : escapeBody rest with
      | some (body, more) =>
        stringPieces quote bound (.escape ⟨body, isEscape_of_escapeBody read⟩ :: acc) more
      | none => none
    else if c == '\n' || c == '\r' then none
    else
      let isPlain (d : Char) : Bool := d != quote && d != '\\' && d != '\n' && d != '\r'
      stringPieces quote bound (.plain ((c :: rest).takeWhile isPlain) :: acc)
        ((c :: rest).dropWhile isPlain)

/-- A string at a position. -/
def string : Reader (List Piece)
  | c :: rest => if c == '"' || c == '\'' then stringPieces c (c :: rest) [] rest else none
  | [] => none

/-- What follows a class in a regular expression. -/
def afterClass? : List Char → Option (List Char)
  | '\\' :: c :: rest => if c == '\n' then none else afterClass? rest
  | ']' :: rest => some rest
  | '\n' :: _ | [] => none
  | _ :: rest => afterClass? rest

/-- What follows the body of a regular expression and its closing slash. The first text bounds
the rounds. -/
def afterPattern? : List Char → List Char → Option (List Char)
  | [], _ | _, [] => none
  | _ :: bound, c :: rest =>
    match c with
    | '/' => some rest
    | '\n' => none
    | '[' => (afterClass? rest).bind (afterPattern? bound)
    | '\\' => match rest with
      | '\n' :: _ | [] => none
      | _ :: more => afterPattern? bound more
    | _ => afterPattern? bound rest

/-- What follows a regular expression with its flags. -/
def afterRegex? : List Char → Option (List Char)
  | '/' :: c :: rest =>
    if c == '/' then none
    else (afterPattern? ('/' :: c :: rest) (c :: rest)).map
      (·.dropWhile fun f => 'a' ≤ f && f ≤ 'z')
  | _ => none

end PackageRisk.Script
