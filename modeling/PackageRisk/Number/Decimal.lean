import PackageRisk.Number.Binary64

/-!
# Decimal text of binary64 numbers

Three ways to write a number: the fewest digits that read back (`text`), a fixed number of
places (`fixedText`) and six significant digits without trailing zeros (`generalText`). All of
them pick a point of a decimal grid with exact arithmetic; `shortestDigits` takes the first
grid that has a point which reads back.
-/

namespace PackageRisk.Binary64

/-- The number of decimal digits of a natural; zero has none. -/
def digitCount (n : Nat) : Nat :=
  if n = 0 then 0 else (Nat.toDigits 10 n).length

/-- The exponent of the greatest power of ten not above the positive quotient `num / den`. -/
def decimalExponent (num den : Nat) : Int :=
  if den ≤ num then (digitCount (num / den) : Int) - 1
  else -(digitCount ((den + num - 1) / num - 1) : Int)

/-- The quotient `num / den` in units of `10 ^ k`, as a numerator and a denominator. -/
def inUnits (num den : Nat) (k : Int) : Nat × Nat :=
  if 0 ≤ k then (num, den * Nat.pow 10 k.toNat) else (num * Nat.pow 10 (-k).toNat, den)

/-- The positive number nearest to `a · 10 ^ k`. -/
def ofDecimal (a : Nat) (k : Int) : Binary64 :=
  if 0 ≤ k then ofQuotient false (a * Nat.pow 10 k.toNat) 1
  else ofQuotient false a (Nat.pow 10 (-k).toNat)

/-- The point of the grid of step `10 ^ k` next to `num / den` that reads back as `x`, the
nearer one if both do. -/
def gridPoint? (x : Binary64) (num den : Nat) (k : Int) : Option Nat :=
  let (n, d) := inUnits num den k
  let low := n / d
  match decide (ofDecimal low k = x), decide (ofDecimal (low + 1) k = x) with
  | true, true => some (roundDiv n d)
  | true, false => some low
  | false, true => some (low + 1)
  | false, false => none

/-- Digits and exponent of the shortest decimal that reads back as `m · 2 ^ e`. -/
def shortestDigits (m : Nat) (e : Int) (form : IsForm m e) : Nat × Int :=
  let (num, den) := magnitude m e
  let top := decimalExponent num den
  let attempt (count : Nat) : Option (Nat × Int) :=
    let k := top - count
    (gridPoint? (.finite false m e form) num den k).map (·, k)
  ((List.range 17).findSome? attempt).getD
    (let (n, d) := inUnits num den (top - 16); (roundDiv n d, top - 16))

/-- Characters without the zeros at their end. -/
def dropTrailingZeros (ds : List Char) : List Char :=
  (ds.reverse.dropWhile (· == '0')).reverse

/-- An exponent with its sign and at least two digits. -/
def exponentText (x : Int) : List Char :=
  let digits := (toString x.natAbs).toList
  'e' :: (if x < 0 then '-' else '+') :: (if digits.length < 2 then '0' :: digits else digits)

/-- Digits with the decimal point after the first `1 + x` of them, zeros filled in. -/
def positional (ds : List Char) (x : Int) : List Char × List Char :=
  if x < 0 then (['0'], List.replicate (-x - 1).toNat '0' ++ ds)
  else
    let whole := (x + 1).toNat
    (ds.take whole ++ List.replicate (whole - ds.length) '0', ds.drop whole)

/-- Whole and fractional part joined by a point, which an empty fraction does without. -/
def joinPoint : List Char × List Char → List Char
  | (whole, []) => whole
  | (whole, fraction) => whole ++ '.' :: fraction

/-- Digits `d.ddd` with an exponent. -/
def scientific (ds : List Char) (x : Int) : List Char :=
  joinPoint (ds.take 1, ds.drop 1) ++ exponentText x

/-- A sign in front of the text of a magnitude. -/
def withSign (negative : Bool) (cs : List Char) : String :=
  String.ofList (if negative then '-' :: cs else cs)

/-- The text of a number by its fewest digits: positional from `0.0001` to below `10 ^ 16`,
there always with a point. -/
def text : Binary64 → String
  | .nan => "nan"
  | .infinite s => withSign s "inf".toList
  | .finite s 0 _ _ => withSign s "0.0".toList
  | .finite s m e form =>
    let (n, k) := shortestDigits m e form
    let ds := (toString n).toList
    let x := ds.length + k - 1
    let ds := dropTrailingZeros ds
    withSign s <|
      if -4 ≤ x ∧ x < 16 then
        match positional ds x with
        | (whole, []) => whole ++ ['.', '0']
        | parts => joinPoint parts
      else scientific ds x

/-- The text of a number with the given number of places. -/
def fixedText (places : Nat) : Binary64 → String
  | .nan => "nan"
  | .infinite s => withSign s "inf".toList
  | .finite s m e _ =>
    let (num, den) := magnitude m e
    let n := roundDiv (num * Nat.pow 10 places) den
    let fraction := (toString (n % Nat.pow 10 places)).toList
    withSign s <|
      if places = 0 then (toString n).toList
      else (toString (n / Nat.pow 10 places)).toList ++
        '.' :: (List.replicate (places - fraction.length) '0' ++ fraction)

/-- The text of a number by six significant digits, trailing zeros left out. -/
def generalText : Binary64 → String
  | .nan => "nan"
  | .infinite s => withSign s "inf".toList
  | .finite s 0 _ _ => withSign s ['0']
  | .finite s m e _ =>
    let (num, den) := magnitude m e
    let top := decimalExponent num den
    let (n, d) := inUnits num den (top - 5)
    let n := roundDiv n d
    let x := if n = Nat.pow 10 6 then top + 1 else top
    let ds := dropTrailingZeros (toString n).toList
    withSign s (if -4 ≤ x ∧ x < 6 then joinPoint (positional ds x) else scientific ds x)

/-- The number nearest to a number rounded to decimal places, a tie to the even digit. -/
def roundPlaces (places : Nat) : Binary64 → Binary64
  | .finite s m e _ =>
    let (num, den) := magnitude m e
    ofQuotient s (roundDiv (num * Nat.pow 10 places) den) (Nat.pow 10 places)
  | x => x

end PackageRisk.Binary64
