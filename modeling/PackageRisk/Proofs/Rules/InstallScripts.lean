import PackageRisk.Proofs.Package.Scripts
import PackageRisk.Proofs.Rules.Accounting

/-!
# The accounts of the rule about install scripts

A script counts the units of the patterns that match it, each pattern once, and one unit more if
its hook runs on installation (`amount_risk_ofScript`). The hooks that are left out of the report
count nothing, so the reported findings add up to the risk of the package (`sum_riskOf_reported`).
Each of them has the gravest severity of its patterns and of its hook (`isGravest_severity`). The
tier of the risk decides what the result deducts and its level (`evaluate_tally`).
-/

namespace PackageRisk

/-! ## Patterns of commands -/

/-- The units of risk of an observation in a script. -/
def Severity.units : Severity → ℚ
  | .critical => 2
  | .high => 1
  | .medium => 1 / 2
  | .low => 1 / 4

theorem Severity.amount_commandRisk (s : Severity) : s.commandRisk.amount = s.units := by
  cases s <;> norm_num [commandRisk, units, Risk.amount, Risk.times, Risk.one, Risk.half,
    Risk.quarter]

theorem Severity.quarters_commandRisk_le (s : Severity) : s.commandRisk.quarters ≤ 8 := by
  cases s <;> decide

namespace CommandPattern

variable {p : CommandPattern} {script : String} {f : Finding}

/-- Whether a pattern matches somewhere in a script. -/
def occursIn (p : CommandPattern) (script : String) : Bool :=
  p.pattern.occursIn false script

/-- The patterns that match a script, each once. -/
def matching (script : String) : List CommandPattern := all.filter (·.occursIn script)

theorem isSome_finding? : (p.finding? script).isSome = p.occursIn script := by
  rw [finding?, Option.isSome_map, Pattern.search?, Option.isSome_map]
  rfl

theorem severity_of_finding? (found : p.finding? script = some f) : f.severity = p.severity := by
  obtain ⟨_, -, rfl⟩ := Option.map_eq_some_iff.1 found
  rfl

theorem severities_filterMap (patterns : List CommandPattern) :
    (patterns.filterMap (·.finding? script)).map (·.severity) =
      (patterns.filter (·.occursIn script)).map (·.severity) := by
  induction patterns with
  | nil => rfl
  | cons p rest ih =>
    rw [List.filterMap_cons, List.filter_cons, ← isSome_finding?]
    cases found : p.finding? script with
    | none => exact ih
    | some f => exact congrArg₂ List.cons (severity_of_finding? found) ih

end CommandPattern

/-! ## Scripts of hooks -/

/-- The severity that a hook has without any pattern. -/
def hookSeverity (hook : String) : Severity := if isInstallHook hook then .medium else .low

/-- A severity is the gravest of some. -/
def Severity.IsGravest (s : Severity) (among : List Severity) : Prop :=
  s ∈ among ∧ ∀ other ∈ among, other.rank ≤ s.rank

theorem Severity.isGravest_foldl (first : Severity) (others : List Severity) :
    (others.foldl graver first).IsGravest (first :: others) := by
  induction others generalizing first with
  | nil => exact ⟨List.mem_singleton_self first, by simp⟩
  | cons s rest ih =>
    obtain ⟨mem, gravest⟩ := ih (first.graver s)
    have step : first.rank ≤ (first.graver s).rank ∧ s.rank ≤ (first.graver s).rank := by
      unfold graver
      split_ifs <;> omega
    have either : first.graver s = first ∨ first.graver s = s := by
      unfold graver
      split_ifs
      · exact .inr rfl
      · exact .inl rfl
    have top := gravest _ List.mem_cons_self
    constructor
    · obtain here | later := List.mem_cons.1 mem
      · rw [List.foldl_cons, here]
        obtain same | same := either <;> simp [same]
      · exact List.mem_cons_of_mem _ (List.mem_cons_of_mem _ later)
    · intro other among
      rw [List.mem_cons, List.mem_cons] at among
      obtain rfl | rfl | later := among
      · exact step.1.trans top
      · exact step.2.trans top
      · exact gravest other (List.mem_cons_of_mem _ later)

namespace HookScript

open CommandPattern (matching)

variable {hook script : String}

/-- The units of risk of a script under its hook. -/
def unitsIn (hook script : String) : ℚ :=
  ((matching script).map (·.severity.units)).sum + if isInstallHook hook then 1 else 0

theorem severities_scan (script : String) :
    (scan script).map (·.severity) = (matching script).map (·.severity) :=
  CommandPattern.severities_filterMap CommandPattern.all

theorem amount_risk_ofScript (hook script : String) :
    (ofScript hook script).risk.amount = unitsIn hook script := by
  have patterns : ((scan script).map fun f => f.severity.commandRisk.amount) =
      (matching script).map fun p => p.severity.units := by
    simp only [Severity.amount_commandRisk]
    have severities := congrArg (List.map Severity.units) (severities_scan script)
    rwa [List.map_map, List.map_map] at severities
  rw [risk, Risk.amount_add, Risk.amount_total, List.map_map, unitsIn, ← patterns]
  congr 1
  exact (apply_ite Risk.amount _ _ _).trans (by simp [runsOnInstall, ofScript])

theorem quarters_risk_lt (hook script : String) :
    (ofScript hook script).risk.quarters < 2 ^ 53 := by
  have patterns : (scan script).length ≤ 10 := List.length_filterMap_le _ CommandPattern.all
  have observed : (Risk.total ((scan script).map fun f => f.severity.commandRisk)).quarters ≤
      (scan script).length * 8 := by
    rw [← List.length_map fun f : Finding => f.severity.commandRisk]
    refine Risk.quarters_total_le fun r mem => ?_
    obtain ⟨f, -, rfl⟩ := List.mem_map.1 mem
    exact f.severity.quarters_commandRisk_le
  have own : (if isInstallHook hook then Risk.one else .zero).quarters ≤ 4 := by
    split_ifs <;> decide
  have sum : (ofScript hook script).risk.quarters =
      (Risk.total ((scan script).map fun f => f.severity.commandRisk)).quarters +
        (if isInstallHook hook then Risk.one else .zero).quarters := rfl
  omega

/-- A risk of whole units is shown as such. -/
theorem dvd_quarters_risk (whole : (ofScript hook script).countsWhole = true) :
    4 ∣ (ofScript hook script).risk.quarters := by
  refine Nat.dvd_add (Risk.dvd_quarters_total fun r mem => ?_) ?_
  · obtain ⟨f, listed, rfl⟩ := List.mem_map.1 mem
    have grave := List.all_eq_true.1 whole f listed
    rw [Bool.or_eq_true, beq_iff_eq, beq_iff_eq] at grave
    obtain critical | high := grave
    · rw [critical]
      decide
    · rw [high]
      decide
  · split_ifs <;> decide

theorem riskOf_finding (hook script : String) :
    NetworkAccess.riskOf (ofScript hook script).finding = unitsIn hook script := by
  have field : NetworkAccess.riskOf (ofScript hook script).finding =
      (((ofScript hook script).shownRisk.number?).map Number.value).getD 0 := rfl
  rw [field, ← amount_risk_ofScript, shownRisk]
  split_ifs with whole
  · have exact := Nat.cast_div (K := ℚ) (dvd_quarters_risk whole) (by norm_num)
    exact exact
  · exact (Number.is_float.2 (Risk.toRat?_toBinary (quarters_risk_lt hook script))).value

theorem isGravest_severity (hook script : String) :
    (ofScript hook script).severity.IsGravest
      (hookSeverity hook :: (matching script).map (·.severity)) := by
  rw [← severities_scan]
  exact Severity.isGravest_foldl _ _

theorem isReported_ofScript : (ofScript hook script).isReported = true ↔
    isInstallHook hook = true ∨ ∃ p ∈ CommandPattern.all, p.occursIn script = true := by
  have lengths := congrArg List.length (severities_scan script)
  rw [List.length_map, List.length_map] at lengths
  have found : (scan script).isEmpty = false ↔ (matching script) ≠ [] := by
    rw [← List.length_pos_iff, ← lengths, List.length_pos_iff, ← Bool.not_eq_true,
      List.isEmpty_iff]
  rw [isReported, Bool.or_eq_true, Bool.not_eq_true']
  refine or_congr Iff.rfl (found.trans ?_)
  simp [matching, List.filter_eq_nil_iff]

/-- A hook that is not reported counts nothing. -/
theorem unitsIn_of_not_isReported (none : (ofScript hook script).isReported = false) :
    unitsIn hook script = 0 := by
  obtain ⟨publishes, free⟩ := not_or.1 (mt isReported_ofScript.2 (Bool.not_eq_true _ ▸ none))
  have unmatched : matching script = [] := by
    refine List.filter_eq_nil_iff.2 fun p mem occurs => free ⟨p, mem, occurs⟩
  rw [unitsIn, unmatched, if_neg publishes]
  simp

end HookScript

/-! ## Results -/

namespace InstallScripts

open CommandPattern (matching)
open HookScript (unitsIn)
open NetworkAccess (riskOf)

variable {p : Package}

/-- What a finding tells about the script of a hook: the hook, what was found in the script, the
units of risk, and the gravest severity. -/
structure Describes (hook script : String) (f : Finding) : Prop where
  named : Fields.get? f.extras "hook" = some (.text hook)
  findings : Fields.get? f.extras "findings" = some (.ofFindings (HookScript.scan script))
  risk : riskOf f = unitsIn hook script
  severity : f.severity.IsGravest (hookSeverity hook :: (matching script).map (·.severity))

theorem describes_finding (hook script : String) :
    Describes hook script (HookScript.ofScript hook script).finding :=
  ⟨rfl, rfl, HookScript.riskOf_finding hook script, HookScript.isGravest_severity hook script⟩

/-- The scripts that are reported, under their hooks. -/
def reportedScripts (p : Package) : List (String × String) :=
  p.lifecycleScripts.filter fun h =>
    isInstallHook h.1 || CommandPattern.all.any (·.occursIn h.2)

theorem reported_eq (p : Package) :
    reported p = (reportedScripts p).map fun h => HookScript.ofScript h.1 h.2 := by
  rw [reported, List.filter_map, reportedScripts]
  refine congrArg _ (List.filter_congr fun h _ => Bool.eq_iff_iff.2 ?_)
  rw [Function.comp_apply, HookScript.isReported_ofScript, Bool.or_eq_true, List.any_eq_true]

theorem sum_unitsIn_reportedScripts :
    ((reportedScripts p).map fun h => unitsIn h.1 h.2).sum =
      (p.lifecycleScripts.map fun h => unitsIn h.1 h.2).sum := by
  refine sum_filter_of_zero fun h _ free => HookScript.unitsIn_of_not_isReported ?_
  rw [← Bool.not_eq_true, HookScript.isReported_ofScript, ← List.any_eq_true, ← Bool.or_eq_true,
    Bool.not_eq_true]
  exact free

theorem sum_riskOf_reported :
    (((reported p).map (·.finding)).map riskOf).sum =
      (p.lifecycleScripts.map fun h => unitsIn h.1 h.2).sum := by
  rw [reported_eq, List.map_map, List.map_map, ← sum_unitsIn_reportedScripts]
  simp only [Function.comp_def, HookScript.riskOf_finding]

theorem amount_risk :
    (risk p).amount = (p.lifecycleScripts.map fun h => unitsIn h.1 h.2).sum := by
  rw [risk, Risk.amount_total, reported_eq, List.map_map, List.map_map,
    ← sum_unitsIn_reportedScripts]
  simp only [Function.comp_def, HookScript.amount_risk_ofScript]

theorem forall₂_reported :
    List.Forall₂ (fun h f => Describes h.1 h.2 f) (reportedScripts p)
      ((reported p).map (·.finding)) := by
  rw [reported_eq, List.map_map, List.forall₂_map_right_iff, List.forall₂_same]
  exact fun h _ => describes_finding h.1 h.2

theorem sorted_installHooksAmong (hooks : List String) :
    (installHooksAmong hooks).Pairwise (· < ·) :=
  List.Pairwise.filter _ (by decide +kernel)

theorem mem_installHooksAmong {hook : String} {hooks : List String} :
    hook ∈ installHooksAmong hooks ↔ isInstallHook hook = true ∧ hook ∈ hooks := by
  have same : hook ∈ ["install", "postinstall", "preinstall"] ↔ isInstallHook hook = true := by
    simp only [isInstallHook, installHooks, List.contains_iff_mem, List.mem_cons,
      List.not_mem_nil, or_false]
    tauto
  rw [installHooksAmong, List.mem_filter, same, List.contains_iff_mem]

/-- The accounts of the rule. The risk of a package is the units of the scripts that its hooks run.
The reported findings describe, in the order of the hooks, the scripts of those that run on
installation or that some pattern matches, and add up to the same risk. The install hooks that run
a script are listed in alphabetical order. There is a result just when the tier of that risk
deducts a number from zero on, and it deducts that number and has the level of the tier. -/
theorem evaluate_tally (weight : Value) (p : Package) (net : Network) (w : Workspace) :
    let risk := (p.lifecycleScripts.map fun h => unitsIn h.1 h.2).sum
    ∃ (findings : List Finding) (hooks : List String) (total : Risk),
      List.Forall₂ (fun h f => Describes h.1 h.2 f) (reportedScripts p) findings ∧
      (findings.map riskOf).sum = risk ∧
      hooks.Pairwise (· < ·) ∧
      (∀ hook, hook ∈ hooks ↔
        isInstallHook hook = true ∧ hook ∈ p.lifecycleScripts.map Prod.fst) ∧
      total.amount = risk ∧
      ∀ r, ((rule weight).evaluate p net w).1 = .ok (.result r) ↔
        ∃ d n, (Tier.ofAmount risk).deduction weight = .ok d ∧ Check.penalty d = .valid n ∧
          r = ⟨n, 0, [("findings", .ofFindings findings), ("total_risk", total.shown),
            ("install_hooks", .list (hooks.map .text)),
            ("has_install_scripts", .bool !hooks.isEmpty)], (Tier.ofAmount risk).level⟩ := by
  intro units
  have amount : (risk p).amount = units := amount_risk
  refine ⟨(reported p).map (·.finding), installHooksAmong (p.lifecycleScripts.map Prod.fst), risk p,
    forall₂_reported, sum_riskOf_reported, sorted_installHooksAmong _,
    fun hook => mem_installHooksAmong, amount, fun r => ?_⟩
  rw [rule, Rule.evaluate_pure_eq_ok_iff, ← amount, ← Tier.ofRisk_eq]
  exact RuleResult.deducting_eq_ok_iff

/-- A package with a script that runs on installation, which is one unit of risk, and the rule with
a weight below zero: the half of that weight is no deduction, and there is no result. -/
theorem negativeWeight_ends_evaluation :
    let p : Package := { (default : Package) with scripts := [("install", .text "make")] }
    (p.lifecycleScripts.map fun h => unitsIn h.1 h.2).sum = 1 ∧
      (Tier.ofAmount 1).deduction (.int (-4)) = .ok (.int (-2)) ∧
      ¬∃ r, evaluate (.int (-4)) p = .ok r := by
  intro p
  refine ⟨?_, Tier.deduction_ofAmount_one, ?_⟩
  · have scripts : p.lifecycleScripts = [("install", "make")] := by decide +kernel
    have unmatched : matching "make" = [] := by
      have none : (matching "make").length = 0 := by decide +kernel
      exact List.length_eq_zero_iff.1 none
    have installs : isInstallHook "install" = true := by decide
    rw [scripts, List.map_singleton, List.sum_singleton, unitsIn, unmatched, if_pos installs]
    norm_num
  · have failed : (evaluate (.int (-4)) p).toOption = none := by decide +kernel
    rintro ⟨r, result⟩
    rw [result] at failed
    cases failed

end InstallScripts

end PackageRisk
