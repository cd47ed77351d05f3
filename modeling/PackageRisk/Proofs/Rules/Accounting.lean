import PackageRisk.Proofs.Rules.Amounts
import PackageRisk.Proofs.Rules.Evidence

/-!
# The accounts of the rule about network access

The risk that the rule finds in a package is one unit for each sign in a script that a hook runs and
half a unit for each dependency that names a module (`amount_risk`). What it reports adds up to the
same (`sum_risk_findings`): one finding for each script with signs, in the order of the hooks, and
one for all dependencies. The tier of that amount decides what the result deducts and its level
(`evaluate_accounts`).
-/

namespace PackageRisk

/-! ## Signs -/

namespace NetworkAccess

variable {search : String → List Finding} {modules : List String} {weight : Value} {p : Package}

/-- The rule with an analyzer that always answers and modules that have names. -/
def searching (weight : Value) (modules : List String) (search : String → List Finding) :
    NetworkAccess :=
  ⟨weight, modules.map .text, fun script => .ok (search script)⟩

/-- The signs in a script. -/
def signsIn (search : String → List Finding) (script : String) : List Finding :=
  (networkPatterns.filter (·.occursIn script)).map NetworkPattern.finding ++ search script

/-- The number of patterns that match a script and of findings of the analyzer. -/
def signCount (search : String → List Finding) (script : String) : Nat :=
  networkPatterns.countP (·.occursIn script) + (search script).length

/-- The dependencies of a package that name a module, each with the first one that it names. -/
def namedDependencies (modules : List String) (p : Package) : List Finding :=
  (dependenciesOf p).filterMap fun d =>
    (modules.find? fun m => Text.contains m.toList d.1.toList).map
      fun m => dependencyFinding d.1 d.2 (.text m)

theorem length_signsIn (script : String) :
    (signsIn search script).length = signCount search script := by
  rw [signsIn, List.length_append, List.length_map, signCount, List.countP_eq_length_filter]

theorem scriptSigns_eq (script : String) :
    (searching weight modules search).scriptSigns script = .ok (signsIn search script) := rfl

/-- The scripts of a package that have signs, under their hooks. -/
def signedScripts (search : String → List Finding) (p : Package) : List (String × String) :=
  p.lifecycleScripts.filter fun h => 0 < signCount search h.2

theorem hookSigns_eq (scripts : List (String × String)) :
    (searching weight modules search).hookSigns scripts =
      .ok ((scripts.filter fun h => 0 < signCount search h.2).map
        fun h => (h.1, h.2, signsIn search h.2)) := by
  induction scripts with
  | nil => rfl
  | cons h rest ih =>
    refine hookSigns_cons_eq_ok_iff.2 ⟨_, _, scriptSigns_eq h.2, ih, ?_⟩
    rw [List.filter_cons, ← length_signsIn]
    by_cases none : signsIn search h.2 = []
    · rw [none]
      rfl
    · rw [if_pos (decide_eq_true (List.length_pos_iff.2 none)),
        if_neg (mt List.isEmpty_iff.1 none), List.map_cons]

theorem signs_eq : (searching weight modules search).signs p =
    .ok ⟨(signedScripts search p).map fun h => (h.1, h.2, signsIn search h.2),
      namedDependencies modules p⟩ :=
  bind_eq_ok.2 ⟨_, hookSigns_eq _, bind_eq_ok.2 ⟨_, dependencySigns_eq _ _, rfl⟩⟩

/-! ## What is found and what is reported -/

/-- The units of risk in a package. -/
def riskIn (search : String → List Finding) (modules : List String) (p : Package) : ℚ :=
  (p.lifecycleScripts.map fun h => (signCount search h.2 : ℚ)).sum +
    (namedDependencies modules p).length / 2

/-- What is reported: a finding for each script with signs, and one for the dependencies if there
are any that name a module. -/
def reportsOf (search : String → List Finding) (modules : List String) (p : Package) :
    List Finding :=
  (signedScripts search p).map (fun h => hookFinding h.1 h.2 (signsIn search h.2)) ++
    if (namedDependencies modules p).isEmpty then []
    else [groupFinding (namedDependencies modules p)]

/-- The risk that a finding states. -/
def riskOf (f : Finding) : ℚ :=
  (((Fields.get? f.extras "risk").bind Value.number?).map Number.value).getD 0

/-- Scripts without signs add nothing. -/
theorem sum_signedScripts :
    ((signedScripts search p).map fun h => (signCount search h.2 : ℚ)).sum =
      (p.lifecycleScripts.map fun h => (signCount search h.2 : ℚ)).sum := by
  refine sum_filter_of_zero fun h _ unsigned => ?_
  have none : signCount search h.2 = 0 := by simpa using unsigned
  rw [none, Nat.cast_zero]

theorem riskOf_hookFinding (hook script : String) (signs : List Finding) :
    riskOf (hookFinding hook script signs) = signs.length := rfl

theorem riskOf_groupFinding {signs : List Finding} (few : signs.length < 2 ^ 53) :
    riskOf (groupFinding signs) = signs.length / 2 := by
  have value := Risk.toRat?_half_times few
  exact (Number.is_float.2 value).value

theorem amount_risk {found : Signs} (told : (searching weight modules search).signs p = .ok found) :
    found.risk.amount = riskIn search modules p := by
  cases signs_eq.symm.trans told
  rw [Signs.risk, Risk.amount_add, Risk.amount_total, Risk.amount_half_times, riskIn,
    ← sum_signedScripts, List.map_map, List.map_map]
  simp [Function.comp_def, length_signsIn]

theorem findings_eq {found : Signs} (told : (searching weight modules search).signs p = .ok found) :
    found.findings = reportsOf search modules p := by
  cases signs_eq.symm.trans told
  rw [Signs.findings, List.map_map]
  rfl

theorem sum_risk_findings (few : (namedDependencies modules p).length < 2 ^ 53) :
    ((reportsOf search modules p).map riskOf).sum = riskIn search modules p := by
  have scripts : (((signedScripts search p).map
      fun h => hookFinding h.1 h.2 (signsIn search h.2)).map riskOf).sum =
      (p.lifecycleScripts.map fun h => (signCount search h.2 : ℚ)).sum := by
    rw [← sum_signedScripts, List.map_map]
    simp only [Function.comp_def, riskOf_hookFinding, length_signsIn]
  rw [reportsOf, List.map_append, List.sum_append, scripts, riskIn]
  congr 1
  split_ifs with none
  · rw [List.isEmpty_iff.1 none]
    simp
  · rw [List.map_singleton, List.sum_singleton, riskOf_groupFinding few]

/-- Scripts are reported in the order in which their hooks run. -/
theorem signedScripts_sublist :
    ((signedScripts search p).map Prod.fst).Sublist lifecycleHooks := by
  have hooks : (p.lifecycleScripts.map Prod.fst).Sublist lifecycleHooks := by
    rw [Package.lifecycleScripts, hookScripts_eq, List.map_filterMap]
    have own (hook : String) (found : String)
        (here : (hookScript? p.scripts hook).map Prod.fst = some found) : found = hook := by
      obtain ⟨h, isHook, rfl⟩ := Option.map_eq_some_iff.1 here
      exact (hookScript?_eq_some_iff.1 isHook).1
    generalize lifecycleHooks = all
    induction all with
    | nil => exact .slnil
    | cons hook rest ih =>
      rw [List.filterMap_cons]
      split
      · exact ih.cons _
      · next found here =>
        rw [own hook found here]
        exact ih.cons_cons _
  exact (List.filter_sublist.map _).trans hooks

/-! ## Results -/

theorem evaluate_searching {net : Network} {w : Workspace} {r : RuleResult} :
    ((searching weight modules search).toRule.evaluate p net w).1 = .ok (.result r) ↔
      (searching weight modules search).evaluate p = .ok r :=
  Rule.evaluate_pure_eq_ok_iff

/-- The accounts of the rule. The risk in a package is the number of signs in its scripts and half
the number of its dependencies that name a module, and the reported findings add up to it; the hooks
of those for scripts are in the order of their running. There is a result just when the tier of that
risk deducts a number from zero on, and it deducts that number and has the level of the tier. -/
theorem evaluate_accounts (weight : Value) (modules : List String)
    (search : String → List Finding) (p : Package) (net : Network) (w : Workspace) :
    let risk := (p.lifecycleScripts.map fun h => (signCount search h.2 : ℚ)).sum +
      (namedDependencies modules p).length / 2
    let findings := reportsOf search modules p
    ((signedScripts search p).map Prod.fst).Sublist lifecycleHooks ∧
      ((namedDependencies modules p).length < 2 ^ 53 → (findings.map riskOf).sum = risk) ∧
      ∃ total : Risk, total.amount = risk ∧
        ∀ r, ((searching weight modules search).toRule.evaluate p net w).1 = .ok (.result r) ↔
          ∃ d n, (Tier.ofAmount risk).deduction weight = .ok d ∧ Check.penalty d = .valid n ∧
            r = ⟨n, 0, [("findings", .ofFindings findings), ("total_risk", total.shown),
              ("has_network_calls", .bool !findings.isEmpty)], (Tier.ofAmount risk).level⟩ := by
  intro risk findings
  obtain ⟨found, told⟩ : ∃ found, (searching weight modules search).signs p = .ok found :=
    ⟨_, signs_eq⟩
  have amount : found.risk.amount = risk := amount_risk told
  refine ⟨signedScripts_sublist, sum_risk_findings, found.risk, amount, fun r => ?_⟩
  have evaluated : (searching weight modules search).evaluate p =
      RuleResult.deducting weight found.risk
        [("findings", .ofFindings findings), ("total_risk", found.risk.shown),
          ("has_network_calls", .bool !findings.isEmpty)] := by
    have reported : found.findings = findings := findings_eq told
    rw [evaluate, told, ← reported]
    rfl
  rw [evaluate_searching, evaluated, ← amount, ← Tier.ofRisk_eq]
  exact RuleResult.deducting_eq_ok_iff

/-- A package with two dependencies that name a module, which is one unit of risk, and the rule with
a weight below zero: the half of that weight is no deduction, and there is no result. -/
theorem negativeWeight_ends_rule :
    let p : Package := { (default : Package) with dependencies := [("axios", "1"), ("got", "1")] }
    riskIn (fun _ => []) Script.networkModules p = 1 ∧
      (Tier.ofAmount 1).deduction (.int (-4)) = .ok (.int (-2)) ∧
      ¬∃ r, NetworkAccess.evaluate { standard with weight := .int (-4) } p = .ok r := by
  intro p
  refine ⟨?_, Tier.deduction_ofAmount_one, ?_⟩
  · have named : (namedDependencies Script.networkModules p).length = 2 := by decide +kernel
    have none : p.lifecycleScripts = [] := by decide
    rw [riskIn, none, named]
    norm_num
  · have failed :
        (NetworkAccess.evaluate { standard with weight := .int (-4) } p).toOption = none := by
      decide +kernel
    rintro ⟨r, result⟩
    rw [result] at failed
    cases failed

end NetworkAccess
end PackageRisk
