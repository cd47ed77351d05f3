import PackageRisk.Failure
import PackageRisk.Package.Document
import Std.Data.HashMap

/-!
# Entropy

The Shannon entropy of a sequence of symbols in bits per symbol, from how often each symbol
occurs. Symbols are counted in the order of their first occurrence, and the sum is taken in
that order, so the result depends on the pattern of repetition only.
-/

namespace PackageRisk

/-- How often symbols occur; `order` holds each once, the latest new one first. -/
structure Tally (α : Type) [BEq α] [Hashable α] where
  order : List α
  counts : Std.HashMap α Nat

namespace Tally

variable {α : Type} [BEq α] [Hashable α]

def empty : Tally α := ⟨[], {}⟩

/-- One more occurrence of a symbol. -/
def add (t : Tally α) (a : α) : Tally α :=
  match t.counts[a]? with
  | some n => { t with counts := t.counts.insert a (n + 1) }
  | none => ⟨a :: t.order, t.counts.insert a 1⟩

def ofList (as : List α) : Tally α :=
  as.foldl add empty

/-- The number of occurrences of each symbol, in the order of first occurrence. -/
def toCounts (t : Tally α) : List Nat :=
  t.order.reverse.map fun a => (t.counts[a]?).getD 0

end Tally

/-- The entropy that shares of a whole give, summed from the first to the last. -/
def shareEntropy (length : Float) (shares : List Float) : Float :=
  shares.foldl (fun e n => let p := n / length; e - p * p.log2) 0

/-- The entropy of a sequence with the given numbers of occurrences. -/
def countEntropy (length : Nat) (counts : List Nat) : Binary64 :=
  .ofBits (shareEntropy length.toFloat (counts.map Nat.toFloat)).toBits

/-- The entropy of a sequence in bits per symbol. -/
def entropy {α : Type} [BEq α] [Hashable α] (symbols : List α) : Binary64 :=
  if symbols.isEmpty then .zero else countEntropy symbols.length (Tally.ofList symbols).toCounts

/-- What tells the items of a list apart: numbers and truth values by amount. -/
def Value.symbol (index : Nat) (v : Value) : Except Fault String :=
  match v with
  | .list _ | .object _ => .error (.wrongKind ("unhashable type: '" ++ v.kindName ++ "'"))
  | v => match v.number? with
    | some (.float .nan) => .ok ("nan " ++ toString index)
    | some (.int n) => .ok ("number " ++ toString n)
    | some (.float x) => match x.toRat? with
      | some q => .ok (if q.den = 1 then "number " ++ toString q.num else "number " ++ x.text)
      | none => .ok ("number " ++ x.text)
    | none => .ok ("other " ++ v.shown)

/-- The entropy of amounts that are given as such. -/
def amountEntropy (fields : Fields) : Except Fault Binary64 := do
  let shares ← fields.mapM fun f => match f.2.number? with
    | none => .error (.wrongKind
        ("unsupported operand type(s) for /: '" ++ f.2.kindName ++ "' and 'int'"))
    | some n => match n.toBinary? with
      | none => .error (.overflow "int too large to convert to float")
      | some x =>
        if x.isZero || (x.isNegative && x != .nan) then .error (.wrongValue "math domain error")
        else .ok (Float.ofBits x.toBits)
  return .ofBits (shareEntropy fields.length.toFloat shares).toBits

/-- The entropy of any content: a text over its characters, bytes over byte values. -/
def contentEntropy : Value → Except Fault Binary64
  | .text s => .ok (entropy (s.toList.map Char.toNat))
  | .bytes b => .ok (entropy b.toList)
  | .list items => do
    let symbols ← (items.zipIdx.mapM fun (v, i) => v.symbol i)
    return entropy symbols
  | .object fields => if fields.isEmpty then .ok .zero else amountEntropy fields
  | v => if v.isGiven then .error (.wrongKind ("object of type '" ++ v.kindName ++
      "' has no len()")) else .ok .zero

end PackageRisk
