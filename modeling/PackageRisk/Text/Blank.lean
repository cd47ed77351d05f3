/-!
# Blanks and words

Which characters separate words, and a text as the list of its words. `collapse` trims a text
and turns each run of blanks into one space in a single pass.
-/

namespace PackageRisk.Text

/-- The characters that separate words. -/
def isBlank (c : Char) : Bool :=
  let n := c.toNat
  (9 ≤ n && n ≤ 13) || (28 ≤ n && n ≤ 32) || n == 0x85 || n == 0xA0 || n == 0x1680 ||
    (0x2000 ≤ n && n ≤ 0x200A) || n == 0x2028 || n == 0x2029 || n == 0x202F || n == 0x205F ||
    n == 0x3000

/-- A text without the blanks at both ends. -/
def trim (cs : List Char) : List Char :=
  ((cs.dropWhile isBlank).reverse.dropWhile isBlank).reverse

/-- Each run of blanks replaced by one space; `inRun` says whether one was just written. -/
def squeeze (inRun : Bool) : List Char → List Char
  | [] => []
  | c :: cs =>
    if isBlank c then (if inRun then squeeze true cs else ' ' :: squeeze true cs)
    else c :: squeeze false cs

/-- A text trimmed, with single spaces between its words. -/
def collapse (cs : List Char) : List Char :=
  squeeze false (trim cs)

/-- The words of a text, in order; `word` holds the letters of an open one, last first. -/
def wordsFrom (word : List Char) : List Char → List (List Char)
  | [] => if word.isEmpty then [] else [word.reverse]
  | c :: cs =>
    if isBlank c then
      (if word.isEmpty then wordsFrom [] cs else word.reverse :: wordsFrom [] cs)
    else wordsFrom (c :: word) cs

/-- The maximal runs of characters that are not blank. -/
def words (cs : List Char) : List (List Char) :=
  wordsFrom [] cs

/-- A text of blanks only. -/
def allBlank (cs : List Char) : Bool :=
  cs.all isBlank

/-- ASCII letters in lower case, all else unchanged. -/
def lower (s : String) : String :=
  String.ofList (s.toList.map Char.toLower)

/-- The characters before the first `c`, or all of them. -/
def before (c : Char) (cs : List Char) : List Char :=
  cs.takeWhile (· != c)

/-- Whether `needle` occurs in a text. -/
def contains (needle : List Char) : List Char → Bool
  | [] => needle.isEmpty
  | c :: cs => needle.isPrefixOf (c :: cs) || contains needle cs

/-- Texts joined by a separator. -/
def join (separator : String) (parts : List String) : String :=
  separator.intercalate parts

end PackageRisk.Text
