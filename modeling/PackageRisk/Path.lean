import PackageRisk.Text.Blank

/-!
# Paths as text

How a path is spelled: its root, its components, its suffix, and the drive that a Windows
reading of the same text finds in it. Nothing here looks at a disk; in particular `..` is a
component like any other.
-/

namespace PackageRisk

/-- A path: the slashes it starts with and its components. -/
structure Path where
  root : String
  parts : List String
  deriving DecidableEq, Repr, Inhabited

namespace Path

/-- The pieces of a text between the characters that satisfy a test. -/
def splitWhere (isCut : Char → Bool) : List Char → List (List Char)
  | [] => [[]]
  | c :: cs =>
    if isCut c then [] :: splitWhere isCut cs
    else match splitWhere isCut cs with
      | [] => [[c]]
      | piece :: rest => (c :: piece) :: rest

/-- The components of a text: the pieces between slashes but empty ones and single dots. -/
def components (s : String) : List String :=
  ((splitWhere (· == '/') s.toList).map String.ofList).filter fun p => p != "" && p != "."

/-- The path that a text spells; exactly two leading slashes are a root of their own. -/
def parse (s : String) : Path :=
  let root := match s.toList with
    | '/' :: '/' :: '/' :: _ => "/"
    | '/' :: '/' :: _ => "//"
    | '/' :: _ => "/"
    | _ => ""
  ⟨root, components s⟩

def isAbsolute (p : Path) : Bool :=
  p.root != ""

/-- The text of a path. -/
def text (p : Path) : String :=
  if p.root == "" && p.parts.isEmpty then "." else p.root ++ Text.join "/" p.parts

/-- The last component, empty if there is none. -/
def name (p : Path) : String :=
  p.parts.getLast?.getD ""

/-- The end of a name from its last dot on, unless the dot starts or ends the name. -/
def nameSuffix (name : String) : String :=
  let reversed := name.toList.reverse
  let tail := reversed.takeWhile (· != '.')
  let rest := reversed.dropWhile (· != '.')
  if tail.isEmpty || rest.length ≤ 1 then "" else String.ofList ('.' :: tail.reverse)

def suffix (p : Path) : String :=
  nameSuffix p.name

/-- A text with backslashes written as slashes. -/
def forwardSlashes (s : String) : String :=
  String.ofList (s.toList.map fun c => if c == '\\' then '/' else c)

/-- A drive letter with its colon at the head of a text. -/
def hasDriveLetter : List Char → Bool
  | c :: ':' :: _ => c.isAlpha
  | _ => false

/-- A host and a share behind two slashes, with one slash between them. -/
def hasShare : List Char → Bool
  | '/' :: '/' :: cs =>
    match cs with
    | '/' :: _ => false
    | _ => match cs.dropWhile (· != '/') with
      | '/' :: rest => rest.head? != some '/'
      | _ => false
  | _ => false

/-- Whether a Windows reading of a text finds a drive, a share or a device in it. -/
def hasDrive (s : String) : Bool :=
  let cs := (forwardSlashes s).toList
  "//?/".toList.isPrefixOf cs || hasShare cs || hasDriveLetter cs

end Path

end PackageRisk
