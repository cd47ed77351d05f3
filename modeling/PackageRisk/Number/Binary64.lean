/-!
# Binary64 numbers as data

Scores, weights and thresholds may be fractional, and their last bit is visible in a report.
A `Binary64` is a sign, a significand and an exponent, so every operation here is exact
rational arithmetic followed by one rounding, `ofQuotient`: to nearest, a tie to the even
significand. Nothing depends on the machine's floating point; `ofBits` and `toBits` are the
two bridges to it.
-/

namespace PackageRisk

/-- The exponent of the subnormal numbers, the smallest there is. -/
def Binary64.minExponent : Int := -1074

/-- The exponent of the largest finite numbers. -/
def Binary64.maxExponent : Int := 971

/-- The significand and the exponent of a finite number in their only form: 53 bits, of which
the first is set unless the exponent is the smallest one. -/
structure Binary64.IsForm (significand : Nat) (exponent : Int) : Prop where
  lt_bits : significand < Nat.pow 2 53
  min_le : Binary64.minExponent ≤ exponent
  le_max : exponent ≤ Binary64.maxExponent
  leading : exponent = Binary64.minExponent ∨ Nat.pow 2 52 ≤ significand

instance (m : Nat) (e : Int) : Decidable (Binary64.IsForm m e) :=
  decidable_of_iff
    (m < Nat.pow 2 53 ∧ Binary64.minExponent ≤ e ∧ e ≤ Binary64.maxExponent ∧
      (e = Binary64.minExponent ∨ Nat.pow 2 52 ≤ m))
    ⟨fun ⟨a, b, c, d⟩ => ⟨a, b, c, d⟩, fun ⟨a, b, c, d⟩ => ⟨a, b, c, d⟩⟩

/-- A binary64 value: `finite s m e` stands for `m · 2 ^ e`, negated when `s` is set. -/
inductive Binary64 where
  | nan
  | infinite (negative : Bool)
  | finite (negative : Bool) (significand : Nat) (exponent : Int)
      (form : Binary64.IsForm significand exponent)
  deriving DecidableEq, Repr, Inhabited

/-- The quotient of two naturals rounded to nearest, a tie to the even neighbour. -/
def roundDiv (num den : Nat) : Nat :=
  let q := num / den
  let r := num % den
  if 2 * r < den then q
  else if den < 2 * r then q + 1
  else if q % 2 = 0 then q else q + 1

namespace Binary64

/-- Zero of the given sign. -/
def signedZero (negative : Bool) : Binary64 :=
  .finite negative 0 minExponent ⟨by decide, by decide, by decide, .inl rfl⟩

/-- The number of a significand and an exponent, infinite when they have no form. -/
def ofParts (negative : Bool) (m : Nat) (e : Int) : Binary64 :=
  if h : IsForm m e then .finite negative m e h else .infinite negative

/-- The quotient `num / (den · 2 ^ e)` as a numerator and a denominator. -/
def scaleBy (num den : Nat) (e : Int) : Nat × Nat :=
  if 0 ≤ e then (num, den * Nat.pow 2 e.toNat) else (num * Nat.pow 2 (-e).toNat, den)

/-- The exponent at which `num / den` has a significand of 53 bits, or the smallest one. -/
def exponentFor (num den : Nat) : Int :=
  let low : Int := (Nat.log2 num : Int) - (Nat.log2 den : Int) - 53
  let q := scaleBy num den low
  max minExponent (if q.2 * Nat.pow 2 53 ≤ q.1 then low + 1 else low)

/-- A significand that was rounded up to 54 bits is carried over to the exponent. -/
def ofRounded (negative : Bool) (m : Nat) (e : Int) : Binary64 :=
  if m = Nat.pow 2 53 then ofParts negative (Nat.pow 2 52) (e + 1) else ofParts negative m e

/-- The binary64 number nearest to `num / den`. -/
def ofQuotient (negative : Bool) (num den : Nat) : Binary64 :=
  if num = 0 then signedZero negative
  else
    let e := exponentFor num den
    let q := scaleBy num den e
    ofRounded negative (roundDiv q.1 q.2) e

/-- The binary64 number nearest to a rational; `negativeZero` is the sign given to zero. -/
def ofRat (q : Rat) (negativeZero : Bool) : Binary64 :=
  if q = 0 then signedZero negativeZero
  else ofQuotient (decide (q < 0)) q.num.natAbs q.den

/-- The binary64 number nearest to an integer, infinite when none is near enough. -/
def ofInt (n : Int) : Binary64 :=
  ofQuotient (decide (n < 0)) n.natAbs 1

/-- The magnitude `m · 2 ^ e` as a numerator and a denominator. -/
def magnitude (m : Nat) (e : Int) : Nat × Nat :=
  if 0 ≤ e then (m * Nat.pow 2 e.toNat, 1) else (m, Nat.pow 2 (-e).toNat)

/-- The rational that a finite number stands for. -/
def toRat? : Binary64 → Option Rat
  | .finite s m e _ =>
    let (n, d) := magnitude m e
    some (if s then -mkRat n d else mkRat n d)
  | _ => none

def isFinite : Binary64 → Bool
  | .finite .. => true
  | _ => false

def isNegative : Binary64 → Bool
  | .nan => false
  | .infinite s => s
  | .finite s _ _ _ => s

def isZero : Binary64 → Bool
  | .finite _ 0 _ _ => true
  | _ => false

def zero : Binary64 := signedZero false

def neg : Binary64 → Binary64
  | .nan => .nan
  | .infinite s => .infinite (!s)
  | .finite s m e form => .finite (!s) m e form

/-- Addition; zero is negative only as a sum of negative zeros. -/
def add : Binary64 → Binary64 → Binary64
  | .nan, _ | _, .nan => .nan
  | .infinite s, .infinite t => if s = t then .infinite s else .nan
  | .infinite s, _ | _, .infinite s => .infinite s
  | x@(.finite s ..), y@(.finite t ..) =>
    ofRat ((x.toRat?.getD 0) + (y.toRat?.getD 0)) (s && t)

def sub (x y : Binary64) : Binary64 :=
  x.add y.neg

def mul : Binary64 → Binary64 → Binary64
  | .nan, _ | _, .nan => .nan
  | .infinite s, y => if y.isZero then .nan else .infinite (s != y.isNegative)
  | x, .infinite t => if x.isZero then .nan else .infinite (x.isNegative != t)
  | x@(.finite s ..), y@(.finite t ..) =>
    ofRat ((x.toRat?.getD 0) * (y.toRat?.getD 0)) (s != t)

/-- A power of two times a number, exact unless the result is subnormal or too large. -/
def scaleTwo (k : Int) : Binary64 → Binary64
  | .finite s m e _ =>
    let (n, d) := magnitude m (e + k)
    ofQuotient s n d
  | x => x

/-- The greatest integer not above a finite number. -/
def floor? (x : Binary64) : Option Int :=
  x.toRat?.map Rat.floor

/-- The nearest integer of a finite number, a tie to the even neighbour. -/
def round? : Binary64 → Option Int
  | .finite s m e _ =>
    let (n, d) := magnitude m e
    let r := Int.ofNat (roundDiv n d)
    some (if s then -r else r)
  | _ => none

/-- The number with the given sign, exponent and fraction fields. -/
def ofBits (bits : UInt64) : Binary64 :=
  let b := bits.toNat
  let s := decide (Nat.pow 2 63 ≤ b)
  let field : Nat := b / Nat.pow 2 52 % Nat.pow 2 11
  let fraction : Nat := b % Nat.pow 2 52
  if field = 2047 then (if fraction = 0 then .infinite s else .nan)
  else if field = 0 then ofParts s fraction minExponent
  else ofParts s (fraction + Nat.pow 2 52) ((field : Int) - 1075)

/-- The bit pattern of a number. -/
def toBits : Binary64 → UInt64
  | .nan => .ofNat (2047 * Nat.pow 2 52 + Nat.pow 2 51)
  | .infinite s => .ofNat ((if s then Nat.pow 2 63 else 0) + 2047 * Nat.pow 2 52)
  | .finite s m e _ =>
    let field : Nat := if m < Nat.pow 2 52 then 0 else (e + 1075).toNat
    UInt64.ofNat ((if s then Nat.pow 2 63 else 0 : Nat) + field * Nat.pow 2 52 + m % Nat.pow 2 52)

end Binary64

end PackageRisk
