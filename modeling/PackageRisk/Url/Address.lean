import PackageRisk.Path
import PackageRisk.Text.Category

/-!
# Numeric addresses

A host may be given by number: four numbers below 256 between dots, or eight groups of digits
in base sixteen between colons. In the long form one run of zero groups may be left out, which
two colons then stand for, and the last two groups may be spelled in the short form.
-/

namespace PackageRisk.Url

/-- A number below 256 in its shortest form. -/
def isAddressPart (digits : List Char) : Bool :=
  match (String.ofList digits).toNat? with
  | some n => n < 256 && Nat.toDigits 10 n == digits
  | none => false

/-- Four numbers between dots. -/
def isShortAddress (cs : List Char) : Bool :=
  let parts := Path.splitWhere (· == '.') cs
  parts.length == 4 && parts.all isAddressPart

/-- A group of a long address. -/
def isGroup (cs : List Char) : Bool :=
  !cs.isEmpty && cs.length ≤ 4 && cs.all Text.isHexDigit

/-- The groups that a part of a long address spells; an empty part has none. -/
def groups (cs : List Char) : List (List Char) :=
  if cs.isEmpty then [] else Path.splitWhere (· == ':') cs

/-- Groups of which the last ones may be spelled in the short form. -/
def closingGroups (cs : List Char) : List (List Char) :=
  let parts := groups cs
  match parts.getLast? with
  | some last => if isShortAddress last then parts.dropLast ++ [['0'], ['0']] else parts
  | none => parts

/-- A text cut at the first two colons in a row. -/
def cutAtGap? : List Char → Option (List Char × List Char)
  | ':' :: ':' :: cs => some ([], cs)
  | c :: cs => (cutAtGap? cs).map fun (before, after) => (c :: before, after)
  | [] => none

/-- Eight groups, or fewer around a gap. -/
def isLongAddress (cs : List Char) : Bool :=
  match cutAtGap? cs with
  | none => let all := closingGroups cs
    all.length == 8 && all.all isGroup
  | some (before, after) => let all := groups before ++ closingGroups after
    all.length < 8 && all.all isGroup

/-- A long address, which may name a zone behind a percent sign. -/
def isZonedAddress (cs : List Char) : Bool :=
  let address := cs.takeWhile (· != '%')
  isLongAddress address && match cs.drop address.length with
    | [] => true
    | _ :: zone => !zone.isEmpty && !zone.contains '%'

/-- An address of a version to come: the version behind a `v`, a dot and any text. -/
def isFutureAddress : List Char → Bool
  | 'v' :: cs =>
    let version := cs.takeWhile Text.isHexDigit
    !version.isEmpty && match cs.drop version.length with
      | '.' :: _ :: _ => true
      | _ => false
  | _ => false

end PackageRisk.Url
