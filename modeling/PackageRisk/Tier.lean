import PackageRisk.Failure
import PackageRisk.Report.Basic

/-!
# Tiers of accumulated risk

The risks of single observations are multiples of a quarter, so a rule adds them up as a
`Risk` in whole quarters and nothing is rounded on the way. Three units of risk deduct the
whole weight of a rule, two units three quarters of it and one unit a half, both rounded
down; below one unit nothing is deducted. A report shows the risk with one decimal place.
-/

namespace PackageRisk

/-- An accumulated risk in quarters of a unit. -/
structure Risk where
  quarters : Nat
  deriving DecidableEq, Repr, Inhabited

namespace Risk

def zero : Risk := ⟨0⟩
def quarter : Risk := ⟨1⟩
def half : Risk := ⟨2⟩
def one : Risk := ⟨4⟩

instance : Add Risk := ⟨fun a b => ⟨a.quarters + b.quarters⟩⟩

/-- A risk counted several times. -/
def times (n : Nat) (r : Risk) : Risk := ⟨n * r.quarters⟩

/-- The sum of risks. -/
def total (rs : List Risk) : Risk := rs.foldr (· + ·) zero

/-- The risk as a binary64 number. -/
def toBinary (r : Risk) : Binary64 := .ofQuotient false r.quarters 4

/-- The risk in tenths of a unit, a tie to the even tenth. -/
def tenths (r : Risk) : Nat := roundDiv (r.quarters * 10) 4

/-- The risk as reports show it. -/
def shown (r : Risk) : Value := .number (.float (.ofQuotient false r.tenths 10))

end Risk

/-- How much of its weight a rule deducts. -/
inductive Tier where
  | nothing
  | half
  | threeQuarters
  | whole
  deriving DecidableEq, Repr

namespace Tier

/-- The tier of a risk. -/
def ofRisk (r : Risk) : Tier :=
  if 12 ≤ r.quarters then .whole
  else if 8 ≤ r.quarters then .threeQuarters
  else if 4 ≤ r.quarters then .half
  else .nothing

/-- The tier of any number; what is in no order is below every tier. -/
def ofNumber (n : Number) : Tier :=
  if Number.le 3 n then .whole
  else if Number.le 2 n then .threeQuarters
  else if Number.le 1 n then .half
  else .nothing

def level : Tier → RiskLevel
  | .nothing => .none
  | .half => .low
  | .threeQuarters => .medium
  | .whole => .high

end Tier

/-- Which part of a weight is taken. -/
inductive Share where
  | half
  | threeQuarters
  deriving DecidableEq, Repr

/-- The part as a binary64 number. -/
def Share.factor : Share → Binary64
  | .half => .ofQuotient false 1 2
  | .threeQuarters => .ofQuotient false 3 4

/-- A part of a number rounded down; the product is rounded to binary64 first. -/
def Share.floorOf (share : Share) (weight : Number) : Except Fault Int :=
  match weight.toBinary? with
  | none => .error (.overflow "int too large to convert to float")
  | some x => match x.mul share.factor with
    | .nan => .error (.wrongValue "cannot convert float NaN to integer")
    | y => match y.floor? with
      | some n => .ok n
      | none => .error (.overflow "cannot convert float infinity to integer")

/-- A part of a weight that may be no number at all. -/
def Share.floorOfValue (share : Share) (weight : Value) : Except Fault Int :=
  match weight.number? with
  | some n => share.floorOf n
  | none => .error <| .wrongKind <| match weight with
    | .text _ | .list _ | .bytes _ => "can't multiply sequence by non-int of type 'float'"
    | v => "unsupported operand type(s) for *: '" ++ v.kindName ++ "' and 'float'"

/-- What a weight deducts at a tier. -/
def Tier.deduction (weight : Value) : Tier → Except Fault Value
  | .nothing => .ok (.number 0)
  | .half => (Share.half.floorOfValue weight).map .int
  | .threeQuarters => (Share.threeQuarters.floorOfValue weight).map .int
  | .whole => .ok weight

/-- What a number as weight deducts at a tier. -/
def Tier.deductionOf (weight : Number) : Tier → Except Fault Number
  | .nothing => .ok 0
  | .half => (Share.half.floorOf weight).map .int
  | .threeQuarters => (Share.threeQuarters.floorOf weight).map .int
  | .whole => .ok weight

/-- A number in tenths, rounded to the even one, and divided by ten again. -/
def roundTenths (n : Number) : Except Fault Binary64 :=
  match n with
  | .int m =>
    match Binary64.ofRat (m : Rat) false with
    | .infinite _ => .error (.overflow "integer division result too large for a float")
    | x => .ok x
  | .float x =>
    let scaled := x.mul (.ofInt 10)
    match scaled.round? with
    | none => .error <| if scaled = .nan then .wrongValue "cannot convert float NaN to integer"
        else .overflow "cannot convert float infinity to integer"
    | some m =>
      if m = 0 then .ok .zero else .ok (.ofQuotient (decide (m < 0)) m.natAbs 10)

end PackageRisk
