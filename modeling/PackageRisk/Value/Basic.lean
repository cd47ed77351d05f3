import PackageRisk.Number.Basic
import PackageRisk.Text.Blank
import PackageRisk.Text.Quoted

/-!
# Values of package documents

Registry documents, configuration files and the results of foreign rules are trees of values
whose shape is known only after they have been checked. Objects keep the order of their keys,
which decides the order of findings.
-/

namespace PackageRisk

/-- A value of a document. -/
inductive Value where
  | null
  | bool (b : Bool)
  | number (n : Number)
  | text (s : String)
  | bytes (b : ByteArray)
  | list (items : List Value)
  | object (fields : List (String × Value))
  deriving Inhabited

/-- The fields of an object, in order. -/
abbrev Fields := List (String × Value)

namespace Fields

/-- The value under a key. -/
def get? {α : Type} (fields : List (String × α)) (key : String) : Option α :=
  fields.lookup key

/-- A key set to a value, in its old place if it had one. -/
def put {α : Type} (key : String) (v : α) : List (String × α) → List (String × α)
  | [] => [(key, v)]
  | (k, w) :: rest => if k = key then (key, v) :: rest else (k, w) :: put key v rest

/-- The fields of one object over those of another. -/
def merge {α : Type} (base later : List (String × α)) : List (String × α) :=
  later.foldl (fun acc f => put f.1 f.2 acc) base

end Fields

namespace Value

instance : Coe String Value := ⟨.text⟩
instance : Coe Bool Value := ⟨.bool⟩
instance : Coe Number Value := ⟨.number⟩

/-- A whole number as a value. -/
def int (n : Int) : Value := .number (.int n)

/-- A field of an object; other values have none. -/
def field? (v : Value) (key : String) : Option Value :=
  match v with
  | .object fields => Fields.get? fields key
  | _ => none

/-- Whether a value counts as given: null, false, zero and all that is empty do not. -/
def isGiven : Value → Bool
  | .null => false
  | .bool b => b
  | .number n => !n.isZero
  | .text s => !s.isEmpty
  | .bytes b => !b.isEmpty
  | .list items => !items.isEmpty
  | .object fields => !fields.isEmpty

/-- The first of two values that is given, or the second. -/
def orElse (v w : Value) : Value :=
  if v.isGiven then v else w

/-- The name of a value's kind in messages. -/
def kindName : Value → String
  | .null => "NoneType"
  | .bool _ => "bool"
  | .number (.int _) => "int"
  | .number (.float _) => "float"
  | .text _ => "str"
  | .bytes _ => "bytes"
  | .list _ => "list"
  | .object _ => "dict"

/-- A value as a number; the truth values count as zero and one. -/
def number? : Value → Option Number
  | .number n => some n
  | .bool b => some (.int (if b then 1 else 0))
  | _ => none

def text? : Value → Option String
  | .text s => some s
  | _ => none

/-- The text of a byte inside quotes. -/
def quotedByte (quote : Char) (b : UInt8) : List Char :=
  let c := Char.ofNat b.toNat
  if b < 128 then Text.quotedChar quote c else '\\' :: 'x' :: Text.hex 2 b.toNat

/-- Bytes between quotes. -/
def quotedBytes (b : ByteArray) : String :=
  let quote := Text.quoteFor (b.toList.map fun x => Char.ofNat x.toNat)
  String.ofList ('b' :: quote :: b.toList.flatMap (quotedByte quote) ++ [quote])

mutual

/-- A value as messages show it. -/
def shown : Value → String
  | .null => "None"
  | .bool b => if b then "True" else "False"
  | .number n => n.text
  | .text s => Text.quoted s
  | .bytes b => quotedBytes b
  | .list items => "[" ++ Text.join ", " (shownItems items) ++ "]"
  | .object fields => "\x7b" ++ Text.join ", " (shownFields fields) ++ "\x7d"

/-- The items of a list as messages show them. -/
def shownItems : List Value → List String
  | [] => []
  | v :: rest => shown v :: shownItems rest

/-- The fields of an object as messages show them. -/
def shownFields : List (String × Value) → List String
  | [] => []
  | (k, v) :: rest => (Text.quoted k ++ ": " ++ shown v) :: shownFields rest

end

/-- A value inside a sentence: a text as it is, all else as `shown`. -/
def plain : Value → String
  | .text s => s
  | v => v.shown

end Value

end PackageRisk
