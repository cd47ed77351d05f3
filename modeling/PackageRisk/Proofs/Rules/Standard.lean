import Mathlib.Tactic.Common
import PackageRisk.Proofs.Session
import PackageRisk.StandardRules

/-!
# What standard rules are

A standard rule is made in one of six ways, and each evaluates packages only while it is switched
on (`StandardRule.isStandard_of_configured`). What it answers then is what its evaluation says
(`Rule.answer_of_whileEnabled`). Results about all standard rules are proved from these two.
-/

namespace PackageRisk

/-- What a standard rule says with a weight and options, if it needs nothing but the package. -/
inductive StandardRule.Judges (n : Number) (options : Fields) :
    StandardRule → (Package → Except Failure RuleResult) → Prop
  | networkAccess {rule : NetworkAccess}
      (made : NetworkAccess.ofOptions (.number n) options = .ok rule) :
      Judges n options .networkAccess rule.evaluate
  | installScripts : Judges n options .installScripts (InstallScripts.evaluate (.number n))
  | publication : Judges n options .publication (Publication.evaluate (.number n))
  | signing : Judges n options .signing (Signing.evaluate (.number n))
  | billOfMaterials : Judges n options .billOfMaterials (BillOfMaterials.evaluate (.number n))

/-- How a standard rule evaluates packages with a weight and options. -/
inductive StandardRule.Runs (n : Number) (options : Fields) (inspect : Inspector) :
    StandardRule → (Package → Session RuleResult) → Prop
  | ofPackage {rule : StandardRule} {judge : Package → Except Failure RuleResult}
      (judges : rule.Judges n options judge) :
      Runs n options inspect rule fun p => Session.lift (judge p)
  | ofArchive :
      Runs n options inspect .hiddenCode
        (HiddenCode.evaluate ⟨.number n, .ofOptions options, inspect⟩)

/-- A rule under the name of a standard one that evaluates packages as that does. -/
structure Rule.IsStandard (made : Rule) (rule : StandardRule) (n : Number) (options : Fields)
    (inspect : Inspector) : Prop where
  name : made.name = rule.name
  weight : made.weight = .number n
  runs : ∃ run, made.evaluation = .whileEnabled run ∧ rule.Runs n options inspect run

theorem NetworkAccess.weight_ofOptions {weight : Value} {options : Fields} {rule : NetworkAccess}
    (made : NetworkAccess.ofOptions weight options = .ok rule) : rule.weight = weight := by
  obtain ⟨modules, -, made⟩ := bind_eq_ok.1 made
  split at made
  · cases made
  · cases made
    rfl

namespace StandardRule

variable {n : Number} {options : Fields} {inspect : Inspector} {rule : StandardRule} {made : Rule}

theorem isStandard_of_make (ok : rule.make (.number n) options inspect = .ok made) :
    made.IsStandard rule n options inspect := by
  cases rule with
  | networkAccess =>
    obtain ⟨found, configured, ⟨⟩⟩ := bind_eq_ok.1 ok
    have configured := ofFault_eq_ok.1 configured
    exact ⟨rfl, NetworkAccess.weight_ofOptions configured, _, rfl,
      .ofPackage (.networkAccess configured)⟩
  | hiddenCode =>
    cases ok
    exact ⟨rfl, rfl, _, rfl, .ofArchive⟩
  | installScripts =>
    cases ok
    exact ⟨rfl, rfl, _, rfl, .ofPackage .installScripts⟩
  | publication =>
    cases ok
    exact ⟨rfl, rfl, _, rfl, .ofPackage .publication⟩
  | signing =>
    cases ok
    exact ⟨rfl, rfl, _, rfl, .ofPackage .signing⟩
  | billOfMaterials =>
    cases ok
    exact ⟨rfl, rfl, _, rfl, .ofPackage .billOfMaterials⟩

theorem isStandard_of_configured {settings : RuleSettings}
    (configured : rule.configured settings inspect = .ok made) :
    made.IsStandard rule (settings.weight.getD rule.standardWeight) settings.options inspect := by
  obtain ⟨plain, ok, ⟨⟩⟩ := bind_eq_ok.1 configured
  have is := isStandard_of_make ok
  split_ifs
  · exact is
  · exact ⟨is.name, is.weight, is.runs⟩

end StandardRule

namespace Rule

variable {made : Rule} {run : Package → Session RuleResult} {rule : StandardRule} {n : Number}
  {options : Fields} {inspect : Inspector}

/-- While it is switched on, a rule of the library answers what its evaluation says. -/
theorem answer_of_whileEnabled (library : made.evaluation = .whileEnabled run) (p : Package) :
    made.answer p = if made.enabled then run p else Pure.pure .disabled := by
  funext net w
  unfold answer evaluate
  rw [library]
  dsimp only
  split_ifs
  · rw [Session.run_bind, Session.run_bind]
    rcases run p net w with ⟨e | r, w'⟩ <;> rfl
  · rfl

theorem IsStandard.answer (is : made.IsStandard rule n options inspect) (p : Package) :
    (∃ run, rule.Runs n options inspect run ∧ made.answer p = run p) ∨
      made.answer p = Pure.pure .disabled := by
  obtain ⟨run, library, runs⟩ := is.runs
  rw [answer_of_whileEnabled library]
  split_ifs
  · exact .inl ⟨run, runs, rfl⟩
  · exact .inr rfl

end Rule

end PackageRisk
