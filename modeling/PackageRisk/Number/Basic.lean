import PackageRisk.Number.Decimal

/-!
# Whole and fractional numbers

Scores and weights keep the form in which they were given: whole numbers of any size stay
exact, fractional ones are binary64, and an operation on both kinds goes through binary64.
`order?` places numbers of both kinds on one line, so a comparison never rounds.
-/

namespace PackageRisk

/-- A whole number of any size or a binary64 number. -/
inductive Number where
  | int (n : Int)
  | float (x : Binary64)
  deriving DecidableEq, Repr, Inhabited

/-- A place on the extended line. -/
inductive Place where
  | below
  | at (q : Rat)
  | above
  deriving DecidableEq, Inhabited

/-- Strict order of places. -/
def Place.lt : Place → Place → Bool
  | .below, .below => false
  | .below, _ => true
  | .at p, .at q => decide (p < q)
  | .at _, .above => true
  | _, _ => false

namespace Number

instance (n : Nat) : OfNat Number n := ⟨.int n⟩

/-- The place of a number on the line; not-a-number has none. -/
def place? : Number → Option Place
  | .int n => some (.at n)
  | .float .nan => none
  | .float (.infinite s) => some (if s then .below else .above)
  | .float x => x.toRat?.map .at

/-- Strict order; not-a-number is neither below nor above anything. -/
def lt (a b : Number) : Bool :=
  match a.place?, b.place? with
  | some p, some q => p.lt q
  | _, _ => false

/-- Non-strict order; not-a-number is in no relation. -/
def le (a b : Number) : Bool :=
  match a.place?, b.place? with
  | some p, some q => !q.lt p
  | _, _ => false

def isFinite : Number → Bool
  | .int _ => true
  | .float x => x.isFinite

/-- Zero of either form and sign. -/
def isZero : Number → Bool
  | .int n => n == 0
  | .float x => x.isZero

/-- The binary64 form; an integer beyond the finite range has none. -/
def toBinary? : Number → Option Binary64
  | .float x => some x
  | .int n => match Binary64.ofInt n with
    | .infinite _ => none
    | x => some x

/-- A whole operation on whole operands, a binary64 one otherwise; `none` when a whole operand
is too large for binary64. -/
def combine? (whole : Int → Int → Int) (rounded : Binary64 → Binary64 → Binary64) :
    Number → Number → Option Number
  | .int m, .int n => some (.int (whole m n))
  | a, b => do return .float (rounded (← a.toBinary?) (← b.toBinary?))

def add? : Number → Number → Option Number :=
  combine? (· + ·) Binary64.add

def sub? : Number → Number → Option Number :=
  combine? (· - ·) Binary64.sub

/-- The first of two numbers unless the second is below it. -/
def firstMin (a b : Number) : Number :=
  if b.lt a then b else a

/-- The first of two numbers unless the second is above it. -/
def firstMax (a b : Number) : Number :=
  if a.lt b then b else a

/-- A number brought between two bounds; a bound wins over a number it is unordered with. -/
def clamp (low high x : Number) : Number :=
  firstMax low (firstMin high x)

/-- The text of a number as messages show it. -/
def text : Number → String
  | .int n => toString n
  | .float x => x.text

end Number

end PackageRisk
