import PackageRisk.Text.Blank
import PackageRisk.Text.Category

/-!
# Patterns of text

Patterns over single lines of script and over file names: characters of a set, runs of them,
alternatives, and three tests of a position. `Pattern.source` writes a pattern in the usual
notation, which is how findings quote it.
-/

namespace PackageRisk

/-- A set of characters. -/
inductive CharSet where
  | only (c : Char)
  | oneOf (cs : List Char)
  | ranges (rs : List (Char × Char))
  | blank
  | notBlank
  | notNewline
  deriving DecidableEq, Repr

/-- A pattern of text. -/
inductive Pattern where
  | nothing
  | one (set : CharSet)
  | many (set : CharSet) (least : Nat) (greedy : Bool)
  | start
  | finish
  | boundary
  | seq (p q : Pattern)
  | alt (p q : Pattern)
  | opt (p : Pattern)
  deriving DecidableEq, Repr

/-- The lower-case form of a character. Beyond ASCII, the long s, the kelvin sign and the two
special forms of i count as the letters that they are forms of. -/
def foldChar (c : Char) : Char :=
  if c == '\u017F' then 's'
  else if c == '\u212A' then 'k'
  else if c == '\u0131' || c == '\u0130' then 'i'
  else c.toLower

/-- Membership in a set; `fold` makes single characters stand for all their case forms. -/
def CharSet.holds (fold : Bool) (set : CharSet) (c : Char) : Bool :=
  match set with
  | .only d => if fold then foldChar c == foldChar d else c == d
  | .oneOf cs => cs.contains c
  | .ranges rs => rs.any fun r => decide (r.1 ≤ c) && decide (c ≤ r.2)
  | .blank => Text.isBlank c
  | .notBlank => !Text.isBlank c
  | .notNewline => c != '\n'

namespace Pattern

instance : Append Pattern := ⟨.seq⟩
instance : OrElse Pattern := ⟨fun p q => .alt p (q ())⟩

/-- The characters of a text one after the other. -/
def chars : List Char → Pattern
  | [] => .nothing
  | [c] => .one (.only c)
  | c :: cs => .seq (.one (.only c)) (chars cs)

/-- A text that is matched as it is. -/
def lit (s : String) : Pattern :=
  chars s.toList

/-- One of several patterns, the first that fits. -/
def anyOf : List Pattern → Pattern
  | [] => .nothing
  | [p] => p
  | p :: ps => .alt p (anyOf ps)

/-- Patterns one after the other. -/
def all : List Pattern → Pattern
  | [] => .nothing
  | [p] => p
  | p :: ps => .seq p (all ps)

/-- Any number of blanks. -/
def blanks : Pattern := .many .blank 0 true

/-- At least one blank. -/
def gap : Pattern := .many .blank 1 true

/-- A quotation mark of either kind. -/
def quote : Pattern := .one (.oneOf ['\'', '"'])

/-- The characters that stand for something else in written patterns. -/
def special : List Char := ".^$*+?()[]|\\".toList

/-- A character of a pattern in writing. -/
def sourceChar (c : Char) : List Char :=
  if special.contains c then ['\\', c] else [c]

/-- A character of a set in writing. -/
def setChar (c : Char) : List Char :=
  if c == '"' || c == '\\' || c == ']' then ['\\', c] else [c]

def setSource : CharSet → List Char
  | .only c => sourceChar c
  | .oneOf cs => '[' :: cs.flatMap setChar ++ [']']
  | .ranges rs =>
    '[' :: (rs.flatMap fun r => if r.1 == r.2 then [r.1] else [r.1, '-', r.2]) ++ [']']
  | .blank => ['\\', 's']
  | .notBlank => "[^\\s]".toList
  | .notNewline => ['.']

/-- Whether a pattern in writing is a single unit, so that a mark after it applies to all of
it. -/
def isUnit : Pattern → Bool
  | .one _ => true
  | _ => false

/-- The alternatives of a pattern in writing. -/
def sourceOf : Pattern → List Char
  | .nothing => []
  | .one set => setSource set
  | .many set least greedy =>
    setSource set ++ (if least = 0 then ['*'] else ['+']) ++ (if greedy then [] else ['?'])
  | .start => ['^']
  | .finish => ['$']
  | .boundary => ['\\', 'b']
  | .seq p q => unit p ++ unit q
  | .alt p q => sourceOf p ++ '|' :: sourceOf q
  | .opt p => (if p.isUnit then sourceOf p else "(?:".toList ++ sourceOf p ++ [')']) ++ ['?']
where
  /-- A part of a sequence in writing, alternatives in brackets. -/
  unit : Pattern → List Char
    | .alt p q => "(?:".toList ++ sourceOf p ++ '|' :: sourceOf q ++ [')']
    | p => sourceOf p

/-- A pattern in writing. -/
def source (p : Pattern) : String :=
  String.ofList (sourceOf p)

end Pattern

end PackageRisk
