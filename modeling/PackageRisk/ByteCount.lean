import PackageRisk.Failure

/-!
# Numbers of bytes

A number of bytes is shown in the largest unit of which there is at least one, with two
decimal places and six significant digits at most. The unit is chosen before the number is
rounded.
-/

namespace PackageRisk.ByteCount

/-- The units, each 1024 times the one before it. -/
def units : List String := ["Bytes", "KB", "MB", "GB", "TB"]

/-- A number in the largest of some units that it reaches. -/
def inUnit : List String → Binary64 → Binary64 × String
  | [], x => (x, "")
  | [unit], x => (x, unit)
  | unit :: larger, x =>
    if Number.le 1024 (.float x) then inUnit larger (x.scaleTwo (-10)) else (x, unit)

/-- A number in its unit as text. -/
def inUnitText (x : Binary64) : String :=
  let (value, unit) := inUnit units x
  (value.roundPlaces 2).generalText ++ " " ++ unit

/-- A number of bytes as text; what is not above zero counts as zero. -/
def text (n : Number) : Except Fault String :=
  if n.isZero || n.le 0 then .ok "0 Bytes"
  else match n.toBinary? with
    | some x => .ok (inUnitText x)
    | none => .error (.overflow "int too large to convert to float")

/-- A number of bytes of any kind as text; what is not given counts as zero. -/
def textOf (v : Value) : Except Fault String :=
  if !v.isGiven then .ok "0 Bytes"
  else match v.number? with
    | some n => text n
    | none => .error <| .wrongKind <|
        "'<=' not supported between instances of '" ++ v.kindName ++ "' and 'int'"

end PackageRisk.ByteCount
