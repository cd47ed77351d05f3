import PackageRisk.Script.Token

/-!
# Trees of scripts

What remains of a script once it has been read: its calls, constructions and imports with what
is in them, and names and strings. All other constructs are groups of their parts, in the order
of the text.
-/

namespace PackageRisk.Script

/-- A part of a script. -/
inductive Tree where
  | name (word : String)
  | text (pieces : List Piece)
  | call (callee : Tree) (arguments : List Tree)
  | importCall (arguments : List Tree)
  | construct (maker : Tree) (arguments : List Tree)
  | importFrom (source : List Piece) (parts : List Tree)
  | group (parts : List Tree)
  deriving Inhabited

namespace Tree

/-- A part without parts of interest. -/
def leaf : Tree := .group []

/-- Several parts as one. -/
def both (a b : Tree) : Tree := .group [a, b]

/-- The parts of a tree. -/
def parts : Tree → List Tree
  | .name _ | .text _ => []
  | .call callee arguments => callee :: arguments
  | .importCall arguments => arguments
  | .construct maker arguments => maker :: arguments
  | .importFrom _ parts => parts
  | .group parts => parts

end Tree

end PackageRisk.Script
