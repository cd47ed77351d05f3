import PackageRisk.Number.Numeral
import PackageRisk.Validation.Checked

/-!
# Checks of numbers and truth values

Numbers may be given as numbers, truth values or text; what is accepted is converted to the
kind that was asked for.
-/

namespace PackageRisk.Check

open PackageRisk

/-- A whole number given in binary64 is nearer to zero than this. -/
def wholeLimit : Nat := Nat.pow 2 63

/-- The largest number of digits of a whole number given as text. -/
def digitLimit : Nat := 4300

/-- The whole number that a binary64 number is. -/
def wholeOf (x : Binary64) : Checked Int :=
  match x.toRat? with
  | none => .fail .notFinite
  | some q =>
    if q.den ≠ 1 then .fail .fraction
    else if wholeLimit ≤ q.num.natAbs then .fail .wholeSize
    else .valid q.num

/-- Whole numbers, also spelled as text or as a number without a fraction. -/
def whole : Check Int
  | .number (.int n) => .valid n
  | .bool b => .valid (if b then 1 else 0)
  | .number (.float x) => wholeOf x
  | .text s => match Numeral.settingInt? s with
    | some n => if Nat.pow 10 digitLimit ≤ n.natAbs then .fail .wholeSize else .valid n
    | none => .fail .wholeSyntax
  | _ => .fail .notWhole

/-- Numbers as binary64. -/
def binary : Check Binary64
  | .number (.float x) => .valid x
  | .number (.int n) => match (Number.int n).toBinary? with
    | some x => .valid x
    | none => .fail .notNumber
  | .bool b => .valid (.ofInt (if b then 1 else 0))
  | .text s => match Numeral.settingBinary? s with
    | some x => .valid x
    | none => .fail .numberSyntax
  | _ => .fail .notNumber

/-- Numbers in their own form; a text is a whole number if it can be one. -/
def number : Check Number
  | .number n => .valid n
  | v =>
    match whole v, binary v with
    | .valid n, _ => .valid (.int n)
    | .invalid _, .valid x => .valid (.float x)
    | .invalid es, .invalid fs =>
      .invalid (((Checked.invalid es : Checked Unit).inside (.key "int") |> issues) ++
        ((Checked.invalid fs : Checked Unit).inside (.key "float") |> issues))
where
  /-- The faults of a check. -/
  issues : Checked Unit → List Issue
    | .valid _ => []
    | .invalid es => es

def Bound.holds (b : Bound) (n : Number) : Bool :=
  match b with
  | .atLeast m => (Number.int m).le n
  | .above m => (Number.int m).lt n

/-- A number within a bound; not-a-number is within none. -/
def bounded {α : Type} (bound : Bound) (asNumber : α → Number) (check : Check α) : Check α :=
  fun v => (check v).andThen fun a =>
    if Bound.holds bound (asNumber a) then .valid a else .fail (.outOfBounds bound)

/-- The words for the two truth values. -/
def truthWords : List (String × Bool) :=
  [("1", true), ("on", true), ("t", true), ("true", true), ("y", true), ("yes", true),
   ("0", false), ("off", false), ("f", false), ("false", false), ("n", false), ("no", false)]

/-- The truth value that a whole number stands for. -/
def truthOf (n : Int) : Checked Bool :=
  if n = 0 then .valid false
  else if n = 1 then .valid true
  else if -(wholeLimit : Int) ≤ n ∧ n < wholeLimit then .fail .truthSyntax
  else .fail .notTruth

/-- Truth values, also as zero or one or as a word in any letter case. -/
def truth : Check Bool
  | .bool b => .valid b
  | .number (.int n) => truthOf n
  | .number (.float x) => match wholeOf x with
    | .valid n => truthOf n
    | .invalid _ => .fail .notTruth
  | .text s => match truthWords.lookup (Text.lower s) with
    | some b => .valid b
    | none => .fail .truthSyntax
  | _ => .fail .notTruth

/-- Numbers in their own form that are at least zero. -/
def penalty : Check Number :=
  bounded (.atLeast 0) id number

end PackageRisk.Check
