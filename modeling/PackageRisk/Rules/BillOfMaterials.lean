import PackageRisk.Pattern.Search
import PackageRisk.Rules.Result

/-!
# Bills of materials

A package that ships or names a bill of materials earns the weight of the rule as a bonus.
Bills are known by the names of their files.
-/

namespace PackageRisk.BillOfMaterials

open Pattern

/-- The name of the rule. -/
def ruleName : String := "sbom-detection"

/-- What the rule is about. -/
def about : String := "Rewards packages that publish a CycloneDX or SPDX SBOM"

def standardWeight : Number := 5

/-- The start of a path or of a name in it. -/
def nameStart : Pattern := .alt .start (.one (.only '/'))

/-- The names of bills; letter case does not count. -/
def patterns : List Pattern :=
  [.all [nameStart, lit "sbom.json", .finish], .all [nameStart, lit "bom.json", .finish],
   .all [lit ".cdx.json", .finish], .all [lit ".spdx", .opt (lit ".json"), .finish],
   .all [nameStart, lit "bom.xml", .finish]]

/-- Whether a path names a bill of materials. -/
def isBill (path : String) : Bool :=
  patterns.any fun p => p.occursIn true path

/-- The field of an object if it names a bill. -/
def namedIn? (fields : Fields) (key : String) : Option String :=
  match Fields.get? fields key with
  | some (.text s) => if isBill s then some s else none
  | _ => none

/-- The bill that the manifest names, if it names one. -/
def reference? : Option TextOrObject → Option String
  | some (.text s) => if isBill s then some s else none
  | some (.object fields) => ["path", "file", "url"].findSome? (namedIn? fields)
  | none => none

/-- The bills of a package: those among its files, and the one that the manifest names. -/
def billsOf (p : Package) : List String :=
  p.files.filter isBill ++ (reference? p.sbom).toList

/-- The result for a package. -/
def evaluate (weight : Value) (p : Package) : Except Failure RuleResult :=
  let bills := billsOf p
  let details : Fields :=
    [("has_sbom", .bool !bills.isEmpty), ("sbom_files", .list (bills.map .text))]
  if bills.isEmpty then .ok ⟨0, 0, details, .none⟩ else RuleResult.rewarding weight details

end PackageRisk.BillOfMaterials
