import PackageRisk.Proofs.Recordable
import PackageRisk.Proofs.Rules.Weights
import PackageRisk.Proofs.Scoring.Sum

/-!
# Scores by the standard rules

A registry of the standard rules asks each of the six in its place. Whatever settings were
accepted, and whatever the package and its archive are, each report stays within the weight of its
rule, so the sum of all stays within the weights of the rules that may move it
(`standard_reports_within`).
-/

namespace PackageRisk

/-! ## Accepted weights -/

namespace Settings

variable {settings : Settings} {document : Value} {rule : StandardRule}

/-- The weight of a standard rule under settings. -/
def weightOf (settings : Settings) (rule : StandardRule) : Number :=
  (settings.rule rule.name).weight.getD rule.standardWeight

/-- No rule has an infinite weight. -/
def HasFiniteWeights (settings : Settings) : Prop :=
  ∀ rule, (settings.weightOf rule).isFinite = true

theorem isWeight_standardWeight :
    (rule : StandardRule) → rule.standardWeight.IsWeight rule.standardWeight.value := by
  have isWeight (k : Nat) (small : k < 2 ^ 53) : (Number.int k).IsWeight k :=
    ⟨rfl, Number.Is.isKept (k := k) rfl small, Nat.cast_nonneg k⟩
  rintro (_ | _ | _ | _ | _ | _) <;> exact isWeight _ (by decide)

/-- Every accepted weight that is finite is that of a rule. -/
theorem isWeight_of_check (accepted : Settings.check document = .valid settings)
    (finite : settings.HasFiniteWeights) (rule : StandardRule) :
    (settings.weightOf rule).IsWeight (settings.weightOf rule).value := by
  have finite := finite rule
  unfold weightOf at finite ⊢
  rcases given : (settings.rule rule.name).weight with _ | n
  · exact isWeight_standardWeight rule
  · rw [given, Option.getD_some] at finite
    rw [Option.getD_some]
    rcases rule_of_check accepted rule.name with standard | ⟨v, checked⟩
    · rw [standard] at given
      cases given
    · obtain ⟨x, rfl, nonneg⟩ := weight_of_check checked given
      obtain ⟨q, value⟩ : ∃ q, x.toRat? = some q := by
        rcases x with _ | s | ⟨s, m, e, form⟩
        · cases finite
        · cases finite
        · exact ⟨_, Binary64.toRat?_finite s form⟩
      have is : (Number.float x).Is q := Number.is_float.2 value
      rw [is.value]
      refine ⟨is, ⟨x, rfl, rfl⟩, ?_⟩
      rwa [RuleResult.zero_is.le_eq is, decide_eq_true_eq] at nonneg

end Settings

/-! ## The registry -/

namespace Registry

theorem foldlM_add {rules : List Rule} {r final : Registry}
    (added : rules.foldlM Registry.add r = .ok final) : final.rules = r.rules ++ rules := by
  induction rules generalizing r with
  | nil =>
    cases added
    rw [List.append_nil]
  | cons rule rest ih =>
    rw [List.foldlM_cons] at added
    obtain ⟨next, one, added⟩ := bind_eq_ok.1 added
    unfold Registry.add at one
    split_ifs at one
    cases one
    rw [ih added, List.append_assoc, List.singleton_append]

variable {settings : Settings} {inspect : Inspector} {registry : Registry}

/-- The standard registry holds the standard rules, each as it is configured. -/
theorem rules_standard (built : Registry.standard settings inspect = .ok registry) :
    List.Forall₂
      (fun rule made => rule.configured (settings.rule rule.name) inspect = .ok made)
      StandardRule.all registry.rules := by
  obtain ⟨rules, made, added⟩ := bind_eq_ok.1 built
  rw [foldlM_add added]
  exact mapM_eq_ok made

/-- Rules that are made as the standard ones have their names, in order. -/
theorem map_name_of_configured {rules : List Rule}
    (configured : List.Forall₂
      (fun rule made => rule.configured (settings.rule rule.name) inspect = .ok made)
      StandardRule.all rules) :
    rules.map (·.name) = StandardRule.all.map StandardRule.name := by
  have same : List.Forall₂ (· = ·) (rules.map (·.name))
      (StandardRule.all.map StandardRule.name) := by
    rw [List.forall₂_map_left_iff, List.forall₂_map_right_iff]
    exact configured.flip.imp fun _ _ one => (StandardRule.isStandard_of_configured one).name
  rwa [List.forall₂_eq_eq_eq] at same

end Registry

/-! ## Reports -/

/-- A report of a standard rule: under its name, with its weight, and within that. -/
structure Report.IsOf (report : Report) (settings : Settings) (rule : StandardRule) : Prop where
  name : report.rule = rule.name
  weight : report.weight.Is (settings.weightOf rule).value
  within : report.result.Within rule (settings.weightOf rule).value

namespace Scoring

variable {settings : Settings} {document : Value} {inspect : Inspector} {registry : Registry}
  {net : Network} {p : Package} {w : Workspace} {rules : List Rule}

/-- A weight that counts as not given is zero, so a report shows the weight in any case. -/
theorem reportedWeight_is {made : Rule} {n : Number} {q : ℚ} (weight : made.weight = .number n)
    (value : n.Is q) : (made.reportedWeight.toOption.getD 0).Is q := by
  unfold Rule.reportedWeight
  rw [weight]
  rcases zero : n.isZero with _ | _
  · rw [Value.isGiven, zero]
    exact value
  · rw [Value.isGiven, zero, Number.Is, ← value, Number.is_zero_of_isZero zero]
    rfl

/-- What a standard rule reports is within its weight, also if it is switched off or fails. -/
theorem recordedReport_isOf {made : Rule} {rule : StandardRule}
    (isWeight : (settings.weightOf rule).IsWeight (settings.weightOf rule).value)
    (configured : rule.configured (settings.rule rule.name) inspect = .ok made) :
    (recordedReport (made, (made.answer p net w).1)).IsOf settings rule := by
  have is : made.IsStandard rule (settings.weightOf rule) _ inspect :=
    StandardRule.isStandard_of_configured configured
  refine ⟨is.name, reportedWeight_is is.weight isWeight.value, ?_⟩
  show (Rule.recorded (made.answer p net w).1).Within _ _
  obtain ⟨run, runs, answers⟩ | off := is.answer p
  · rw [answers]
    rcases ends : (run p net w).1 with e | r
    · exact .of_neutral isWeight.nonneg rfl rfl
    · exact runs.within isWeight ends
  · rw [off]
    exact .of_neutral isWeight.nonneg rfl rfl

/-- What holds of the report of each standard rule holds of all reports in their order. -/
theorem forall₂_recordedReport {P : StandardRule → Report → Prop} {standard : List StandardRule}
    (each : ∀ rule made w, rule.configured (settings.rule rule.name) inspect = .ok made →
      P rule (recordedReport (made, (made.answer p net w).1)))
    (configured : List.Forall₂
      (fun rule made => rule.configured (settings.rule rule.name) inspect = .ok made)
      standard rules) :
    List.Forall₂ P standard ((asked net p w rules).map recordedReport) := by
  induction configured generalizing w with
  | nil => exact .nil
  | cons one _ ih => exact .cons (each _ _ _ one) ih

/-- A report can be made of every answer of a standard rule. -/
theorem reportable_standard (inspected : inspect.Recordable)
    (built : Registry.standard settings inspect = .ok registry) :
    ∀ a ∈ asked net p w registry.rules, Reportable a := by
  refine forall_mem_asked fun made mem w => ?_
  obtain ⟨rule, -, one⟩ := exists_of_mem_right (Registry.rules_standard built) made mem
  have is := StandardRule.isStandard_of_configured one
  refine ⟨?_, Rule.reportedWeight_of_number is.weight⟩
  rintro ⟨kind, ends⟩
  exact is.recordable_answer inspected p net w kind ends

/-- One report moves a sum by no more than the weight of its rule, and only the way that the rule
may move it. -/
theorem sumOf_between {standard : List StandardRule} {reports : List Report}
    (isOf : List.Forall₂ (fun rule report => report.IsOf settings rule) standard reports)
    (base : ℚ) :
    base - ((standard.filter (· ∈ StandardRule.deducting)).map
          fun rule => (settings.weightOf rule).value).sum ≤
        sumOf base (reports.map (·.result)) ∧
      sumOf base (reports.map (·.result)) ≤
        base + ((standard.filter (· ∈ StandardRule.rewarding)).map
          fun rule => (settings.weightOf rule).value).sum := by
  induction isOf generalizing base with
  | nil => simp [sumOf]
  | @cons rule report standard reports one _ ih =>
    obtain ⟨low, high⟩ := ih (base - report.result.deduction.value + report.result.bonus.value)
    have deduction := one.within.deduction.value
    have bonus := one.within.bonus.value
    rw [List.map_cons, sumOf_cons]
    constructor
    · by_cases may : rule ∈ StandardRule.deducting
      · rw [List.filter_cons_of_pos (by simpa using may), List.map_cons, List.sum_cons]
        linarith
      · rw [List.filter_cons_of_neg (by simpa using may)]
        have none := (one.within.deducts may).value
        linarith
    · by_cases may : rule ∈ StandardRule.rewarding
      · rw [List.filter_cons_of_pos (by simpa using may), List.map_cons, List.sum_cons]
        linarith
      · rw [List.filter_cons_of_neg (by simpa using may)]
        have none := (one.within.rewards may).value
        linarith

/-- Whatever settings are accepted, with finite weights, and whatever a package and its archive
are: each of the six reports has a deduction and a bonus between zero and the weight of its rule, of
which one is zero, only two rules give a bonus, and one of these never deducts. So the exact sum
stays within the weights of the rules that deduct, and of those that give a bonus. -/
theorem standard_reports_within (accepted : Settings.check document = .valid settings)
    (finite : settings.HasFiniteWeights)
    (built : Registry.standard settings inspect = .ok registry) (net : Network) (p : Package)
    (w : Workspace) :
    List.Forall₂ (fun rule report => report.IsOf settings rule) StandardRule.all
        ((asked net p w registry.rules).map recordedReport) ∧
      (∀ bounds s, (score bounds registry.rules p net w).1 = .ok s →
        s.reports = (asked net p w registry.rules).map recordedReport) ∧
      ∀ base : ℚ,
        base - (StandardRule.deducting.map fun rule => (settings.weightOf rule).value).sum ≤
            sumOf base (recordedResults (asked net p w registry.rules)) ∧
          sumOf base (recordedResults (asked net p w registry.rules)) ≤
            base + (StandardRule.rewarding.map fun rule => (settings.weightOf rule).value).sum := by
  have isOf : List.Forall₂ (fun rule report => report.IsOf settings rule) _
      ((asked net p w registry.rules).map recordedReport) :=
    forall₂_recordedReport
      (fun rule _ _ is => recordedReport_isOf (Settings.isWeight_of_check accepted finite rule) is)
      (Registry.rules_standard built)
  refine ⟨isOf, fun bounds s scored => ?_, fun base => ?_⟩
  · obtain ⟨total, tallied, -⟩ := score_eq_ok_iff.1 scored
    exact (tally_eq_ok_iff.1 tallied).2.1
  · have between := sumOf_between isOf base
    have deducting : StandardRule.all.filter (· ∈ StandardRule.deducting) =
        StandardRule.deducting := by decide
    have rewarding : StandardRule.all.filter (· ∈ StandardRule.rewarding) =
        StandardRule.rewarding := by decide
    rwa [deducting, rewarding, List.map_map] at between

/-- Settings with another weight for one rule and with one rule switched off. -/
def tunedSettings : Value :=
  .object [("rules", .object [("signed-releases", .object [("weight", .int 3)]),
    ("verified-publisher", .object [("enabled", .bool false)])])]

/-- Each report stays within its weight, be that its own, another one, or that of a rule that is
switched off. -/
theorem standard_reports_tunedSettings :
    ∃ settings registry, Settings.check tunedSettings = .valid settings ∧
      Registry.standard settings (fun _ _ _ => Session.fail .missingUrl) = .ok registry ∧
      (settings.weightOf .signing).value = 3 ∧
      List.Forall₂ (fun rule report => Report.IsOf report settings rule) StandardRule.all
        ((asked Network.unreachable default default registry.rules).map recordedReport) := by
  refine ⟨_, _, rfl, rfl, ?_, ?_⟩
  · have three : (Number.float (.ofInt 3)).Is (3 : Int) :=
      Number.is_float.2 (Binary64.toRat?_ofInt (by decide))
    exact three.value
  · have accepted : Settings.check tunedSettings = _ := rfl
    refine (standard_reports_within accepted ?_ rfl _ _ _).1
    rintro (_ | _ | _ | _ | _ | _) <;> decide +kernel

end Scoring

end PackageRisk
