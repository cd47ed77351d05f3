import PackageRisk.Number.Basic
import PackageRisk.Text.Blank

/-!
# Reading numerals

Configuration and package documents may spell numbers as text. A numeral is read into its
sign, digits and exponent first and only then rounded, so the nearest binary64 number results
whatever the number of digits.
-/

namespace PackageRisk.Numeral

open PackageRisk

/-- The natural that a list of decimal digits spells. -/
def digitsValue (ds : List Char) : Nat :=
  ds.foldl (fun n c => n * 10 + (c.toNat - '0'.toNat)) 0

/-- An unsigned decimal: digits of the whole part, digits of the fraction, exponent. -/
structure Decimal where
  whole : List Char
  fraction : List Char
  exponent : Int
  deriving Repr

/-- The nearest binary64 number; an exponent far outside the range is decided without
computing the power. -/
def Decimal.toBinary (negative : Bool) (d : Decimal) : Binary64 :=
  let digits := (d.whole ++ d.fraction).dropWhile (· == '0')
  let top : Int := d.exponent + digits.length - d.fraction.length
  if digits.isEmpty ∨ top < -400 then .signedZero negative
  else if 400 < top then .infinite negative
  else
    let k := d.exponent - d.fraction.length
    let n := digitsValue digits
    if 0 ≤ k then Binary64.ofQuotient negative (n * Nat.pow 10 k.toNat) 1
    else Binary64.ofQuotient negative n (Nat.pow 10 (-k).toNat)

/-- An optional sign, read as "is negative". -/
def splitSign : List Char → Bool × List Char
  | '-' :: cs => (true, cs)
  | '+' :: cs => (false, cs)
  | cs => (false, cs)

/-- An exponent part, if the text is one from its first character to its last. -/
def exponent? : List Char → Option Int
  | [] => some 0
  | c :: cs =>
    if c == 'e' || c == 'E' then
      let (negative, ds) := splitSign cs
      if ds.isEmpty || !ds.all Char.isDigit then none
      else some (if negative then -(digitsValue ds : Int) else digitsValue ds)
    else none

/-- An unsigned decimal with digits on at least one side of the point. -/
def decimal? (cs : List Char) : Option Decimal :=
  let whole := cs.takeWhile Char.isDigit
  let rest := cs.dropWhile Char.isDigit
  let fraction := match rest with
    | '.' :: r => r.takeWhile Char.isDigit
    | _ => []
  let tail := match rest with
    | '.' :: r => r.dropWhile Char.isDigit
    | r => r
  if whole.isEmpty && fraction.isEmpty then none
  else (exponent? tail).map fun e => { whole, fraction, exponent := e }

/-- A binary64 numeral: a decimal, an infinity or not-a-number, in any letter case. -/
def binary? (cs : List Char) : Option Binary64 :=
  let (negative, body) := splitSign cs
  let word := String.ofList (body.map Char.toLower)
  if word = "inf" ∨ word = "infinity" then some (.infinite negative)
  else if word = "nan" then some .nan
  else (decimal? body).map (·.toBinary negative)

/-- The margins that numerals may have. -/
def isMargin (c : Char) : Bool :=
  Text.isBlank c && !(28 ≤ c.toNat && c.toNat ≤ 31)

def trimMargin (cs : List Char) : List Char :=
  ((cs.dropWhile isMargin).reverse.dropWhile isMargin).reverse

/-- A text without its low lines, if each of them stands alone between other characters. -/
def dropLowLines? (cs : List Char) : Option (List Char) :=
  if cs.head? == some '_' || cs.getLast? == some '_' || Text.contains ['_', '_'] cs then none
  else some (cs.filter (· != '_'))

/-- The binary64 number that a setting spells. -/
def settingBinary? (s : String) : Option Binary64 :=
  match binary? (trimMargin s.toList) with
  | some x => some x
  | none => (dropLowLines? s.toList).bind fun cs => binary? (trimMargin cs)

/-- Whether each low line of a text stands between two digits; `after` tells that the text
continues a digit. -/
def separatesDigits (after : Bool) : List Char → Bool
  | [] => true
  | '_' :: c :: cs => after && c.isDigit && separatesDigits true cs
  | ['_'] => false
  | c :: cs => separatesDigits c.isDigit cs

/-- The binary64 number that an argument spells. -/
def argumentBinary? (s : String) : Option Binary64 :=
  let cs := Text.trim s.toList
  if separatesDigits false cs then binary? (cs.filter (· != '_')) else none

/-- A text without a fraction of zeros only; any other fraction stays. -/
def dropZeroFraction (cs : List Char) : List Char :=
  if ((cs.dropWhile (· != '.')).drop 1).all (· == '0') then cs.takeWhile (· != '.') else cs

/-- The whole number that a setting spells. -/
def settingInt? (s : String) : Option Int :=
  let (negative, body) := splitSign (trimMargin s.toList)
  match dropLowLines? (dropZeroFraction body) with
  | none => none
  | some ds =>
    if ds.isEmpty || !ds.all Char.isDigit then none
    else some (if negative then -(digitsValue ds : Int) else digitsValue ds)

end PackageRisk.Numeral
