import PackageRisk.Proofs.Recordable
import PackageRisk.Proofs.Scoring.Banding
import PackageRisk.Proofs.Scoring.Standard

/-!
# What it takes to block a package

With the standard settings every number is whole, so a score is the base less what the six rules
take. The most that each takes is in `StandardRule.mostTaken`; a release without signatures costs
half of its rule, not all of it. All six leave `28`, and all but the rule about install scripts
leave `58`, which is above the lowest score that is not blocked (`standard_score_between`).
-/

namespace PackageRisk

/-! ## Whole numbers -/

/-- A result with a deduction and a bonus in the form of whole numbers. -/
def RuleResult.HasInts (r : RuleResult) : Prop := r.deduction.IsInt ∧ r.bonus.IsInt

variable {n : Number} {options : Fields} {inspect : Inspector} {rule : StandardRule} {p : Package}
  {r : RuleResult} {details : Fields} {net : Network} {w : Workspace}

/-- A standard rule whose weight is in the form of a whole number answers with such numbers. -/
theorem RuleResult.Origin.hasInts (origin : r.Origin n rule) (whole : n.IsInt) : r.HasInts :=
  origin.forall whole fun k => ⟨k, rfl⟩

/-! ## Whole scores -/

namespace Number

theorem clamp_int (low high k : Int) :
    clamp (int low) (int high) (int k) = int (max low (min high k)) := by
  have least : firstMin (int high) (int k) = int (min high k) := by
    rw [firstMin, min_def]
    simp only [lt_int]
    split_ifs <;> congr 1 <;> omega
  rw [clamp, least, firstMax, max_def]
  simp only [lt_int]
  split_ifs <;> congr 1 <;> omega

end Number

/-- A whole score from 50 to 100 is not blocked. -/
theorem Band.ofNumber_int_ne_block {k : Int} (low : 50 ≤ k) (high : k ≤ 100) :
    (ofNumber (.int k)).key ≠ .block := by
  have value : (Number.int k).Is k := rfl
  exact ofNumber_ne_block value (by exact_mod_cast low) (by exact_mod_cast high)

/-! ## What the standard rules take -/

/-- The most that a rule takes with its standard weight. -/
def StandardRule.mostTaken : StandardRule → Int
  | .networkAccess => 20
  | .hiddenCode => 10
  | .installScripts => 30
  | .publication => 10
  | .signing => 2
  | .billOfMaterials => 0

/-- Half of the weight of its rule is the most that an unsigned release costs. -/
theorem Signing.evaluate_takes (ends : Signing.evaluate (.number standardWeight) p = .ok r) :
    r.deduction.value ≤ 2 := by
  unfold evaluate at ends
  dsimp only at ends
  split at ends
  · obtain ⟨-, rfl⟩ := RuleResult.rewarding_eq_ok.1 ends
    norm_num
  · obtain ⟨k, -, ends⟩ := bind_eq_ok.1 ends
    obtain ⟨-, rfl⟩ := RuleResult.rewarding_eq_ok.1 ends
    norm_num
  · obtain ⟨d, taken, -, rfl⟩ := RuleResult.deducting_eq_ok.1 ends
    have half : Share.half.floorOf standardWeight = .ok 2 :=
      toOption_eq_some_iff.1 (by decide +kernel)
    cases taken.symm.trans (Tier.deductionOf_eq_ok_iff.2 (.half half))
    exact le_rfl

/-- With its standard weight the rule about install scripts has a result for every package, and
deducts from the first unit of risk on. -/
theorem InstallScripts.exists_evaluate (p : Package) :
    ∃ r, InstallScripts.evaluate (.number standardWeight) p = .ok r ∧
      (0 < r.deduction.value ↔ Risk.one.quarters ≤ (risk p).quarters) := by
  have half : Share.half.floorOf standardWeight = .ok 15 :=
    toOption_eq_some_iff.1 (by decide +kernel)
  have threeQuarters : Share.threeQuarters.floorOf standardWeight = .ok 22 :=
    toOption_eq_some_iff.1 (by decide +kernel)
  have taken : ∃ k : Nat, (Tier.ofRisk (risk p)).deductionOf standardWeight = .ok (.int k) ∧
      (0 < k ↔ Risk.one.quarters ≤ (risk p).quarters) := by
    unfold Tier.ofRisk
    simp only [Risk.one]
    split_ifs
    · exact ⟨30, Tier.deductionOf_eq_ok_iff.2 .whole, by omega⟩
    · exact ⟨22, Tier.deductionOf_eq_ok_iff.2 (.threeQuarters threeQuarters), by omega⟩
    · exact ⟨15, Tier.deductionOf_eq_ok_iff.2 (.half half), by omega⟩
    · exact ⟨0, Tier.deductionOf_eq_ok_iff.2 .nothing, by omega⟩
  obtain ⟨k, taken, positive⟩ := taken
  refine ⟨_, RuleResult.deducting_eq_ok.2 ⟨_, taken, ?_, rfl⟩, ?_⟩
  · exact Number.le_int.2 (Int.natCast_nonneg k)
  rw [← positive, Number.value_int]
  norm_num

/-- What a standard rule reports with the standard settings. -/
structure Report.IsStandard (report : Report) (p : Package) (rule : StandardRule) : Prop where
  name : report.rule = rule.name
  ints : report.result.HasInts
  taken : report.result.deduction.value ≤ rule.mostTaken
  given : 0 ≤ report.result.bonus.value
  scripts : rule = .installScripts →
    (0 < report.result.deduction.value ↔ Risk.one.quarters ≤ (InstallScripts.risk p).quarters)

theorem Registry.exists_standard (inspect : Inspector) :
    ∃ registry, Registry.standard .standard inspect = .ok registry := ⟨_, rfl⟩

namespace Scoring

/-- What each answer of a standard rule has, and a result without effect, each report of it has. -/
theorem forall_recorded {made : Rule} {P : RuleResult → Prop}
    (is : made.IsStandard rule n options inspect) (p : Package)
    (each : ∀ run, rule.Runs n options inspect run → ∀ r, (run p net w).1 = .ok r → P r)
    (neutral : ∀ r, r.deduction = 0 → r.bonus = 0 → P r) :
    P (Rule.recorded (made.answer p net w).1) := by
  obtain ⟨run, runs, answers⟩ | off := is.answer p
  · rw [answers]
    rcases ends : (run p net w).1 with e | r
    · exact neutral _ rfl rfl
    · exact each run runs r ends
  · rw [off]
    exact neutral _ rfl rfl

theorem deduction_le_mostTaken {made : Rule}
    (is : made.IsStandard rule rule.standardWeight options inspect) :
    (Rule.recorded (made.answer p net w).1).deduction.value ≤ rule.mostTaken := by
  have isWeight := Settings.isWeight_standardWeight rule
  refine forall_recorded (P := fun r => r.deduction.value ≤ rule.mostTaken) is p ?_ ?_
  · intro run runs r ends
    have within := runs.within isWeight ends
    cases rule with
    | signing =>
      cases runs with
      | ofPackage judges =>
        cases judges
        have ends := (congrArg Prod.fst (Session.run_lift _)).symm.trans ends
        exact_mod_cast Signing.evaluate_takes ends
    | billOfMaterials => exact (within.deducts (by decide)).value.le
    | networkAccess => exact within.deduction.value.2
    | hiddenCode => exact within.deduction.value.2
    | installScripts => exact within.deduction.value.2
    | publication => exact within.deduction.value.2
  · intro r none _
    rw [none]
    cases rule <;> norm_num [StandardRule.mostTaken]

theorem deduction_pos_installScripts {made : Rule}
    (configured : StandardRule.installScripts.configured .standard inspect = .ok made) :
    0 < (Rule.recorded (made.answer p net w).1).deduction.value ↔
      Risk.one.quarters ≤ (InstallScripts.risk p).quarters := by
  obtain rfl : InstallScripts.rule (.number InstallScripts.standardWeight) = made :=
    Except.ok.inj configured
  obtain ⟨r, ends, positive⟩ := InstallScripts.exists_evaluate p
  have answers : (InstallScripts.rule (.number InstallScripts.standardWeight)).answer p =
      Session.lift (InstallScripts.evaluate (.number InstallScripts.standardWeight) p) := by
    rw [Rule.answer_of_whileEnabled rfl]
    exact if_pos rfl
  rw [← positive, answers, Session.run_lift, ends]
  rfl

theorem recordedReport_isStandard {made : Rule}
    (configured : rule.configured (Settings.standard.rule rule.name) inspect = .ok made) :
    (recordedReport (made, (made.answer p net w).1)).IsStandard p rule := by
  have is : made.IsStandard rule rule.standardWeight [] inspect :=
    StandardRule.isStandard_of_configured configured
  have whole : rule.standardWeight.IsInt := by cases rule <;> exact ⟨_, rfl⟩
  have isOf : (recordedReport (made, (made.answer p net w).1)).IsOf .standard rule :=
    recordedReport_isOf (Settings.isWeight_standardWeight rule) configured
  refine ⟨is.name, ?_, deduction_le_mostTaken is, isOf.within.bonus.value.1, ?_⟩
  · exact forall_recorded is p (fun run runs r ends => (runs.origin ends).hasInts whole)
      fun r noDeduction noBonus => ⟨⟨0, noDeduction⟩, ⟨0, noBonus⟩⟩
  · rintro rfl
    exact deduction_pos_installScripts configured

/-- Reports that take no more than their caps leave no less than the base less all caps. -/
theorem le_sumOf (cap : StandardRule → ℚ) {standard : List StandardRule} {reports : List Report}
    (each : List.Forall₂ (fun rule report => report.result.deduction.value ≤ cap rule ∧
      0 ≤ report.result.bonus.value) standard reports) (base : ℚ) :
    base - (standard.map cap).sum ≤ sumOf base (reports.map (·.result)) := by
  induction each generalizing base with
  | nil => simp [sumOf]
  | @cons rule report standard reports one _ ih =>
    obtain ⟨taken, given⟩ := one
    calc base - ((rule :: standard).map cap).sum
        ≤ base - report.result.deduction.value + report.result.bonus.value
            - (standard.map cap).sum := by
          rw [List.map_cons, List.sum_cons]
          linarith
      _ ≤ sumOf base ((report :: reports).map (·.result)) := by
          rw [List.map_cons, sumOf_cons]
          exact ih _

variable {registry : Registry}

/-- With the standard settings every package has a score, and its total is a whole number. -/
theorem exists_score_standard (inspected : inspect.Recordable)
    (built : Registry.standard .standard inspect = .ok registry) (net : Network) (p : Package)
    (w : Workspace) :
    ∃ s, (score .standard registry.rules p net w).1 = .ok s ∧
      List.Forall₂ (fun rule report => report.IsStandard p rule) StandardRule.all s.reports ∧
      ∃ total : Int, (total : ℚ) = sumOf 100 (s.reports.map (·.result)) ∧
        s.score = .int (max 0 (min 100 total)) ∧ s.band = Band.ofNumber s.score := by
  have configured := Registry.rules_standard built
  have reports : List.Forall₂ (fun rule (report : Report) => report.IsStandard p rule) _
      ((asked net p w registry.rules).map recordedReport) :=
    forall₂_recordedReport (fun _ _ _ one => recordedReport_isStandard one) configured
  have reportable : ∀ a ∈ asked net p w registry.rules, Reportable a :=
    reportable_standard inspected built
  have ints : ∀ r ∈ recordedResults (asked net p w registry.rules),
      r.deduction.IsInt ∧ r.bonus.IsInt := by
    have shown : recordedResults (asked net p w registry.rules) =
        ((asked net p w registry.rules).map recordedReport).map (·.result) := by
      rw [List.map_map]
      rfl
    rw [shown]
    refine List.forall_mem_map.2 fun report mem => ?_
    obtain ⟨rule, -, is⟩ := exists_of_mem_right reports report mem
    exact is.ints
  obtain ⟨total, sum, value⟩ := totalAfter_int (m := 100) ints
  refine ⟨⟨_, _, _, _, _⟩, score_eq_ok_iff.2 ⟨_, tally_eq_ok_iff.2 ⟨reportable, rfl, sum⟩, rfl,
    ScoreBounds.contain_standard.ofScore_clamp _, rfl, rfl⟩, reports, total, ?_, ?_, rfl⟩
  · rw [value, List.map_map]
    rfl
  · exact Number.clamp_int 0 100 total

/-- With the standard settings every package has a whole score from 28 to 100, whatever its archive
is and however the retrieval of that ends. A package is blocked only for its install scripts: what
the other five rules take leaves 58 at least, and the scripts are charged from one unit of risk
on. -/
theorem standard_score_between (inspected : inspect.Recordable) :
    ∃ registry, Registry.standard .standard inspect = .ok registry ∧
      ∀ net p w, ∃ s k, (score Settings.standard.scoring registry.rules p net w).1 = .ok s ∧
        s.score = .int k ∧ 28 ≤ k ∧ k ≤ 100 ∧
        s.reports.map (·.rule) = StandardRule.all.map StandardRule.name ∧
        ∃ report ∈ s.reports, report.rule = InstallScripts.ruleName ∧
          (0 < report.result.deduction.value ↔
            Risk.one.quarters ≤ (InstallScripts.risk p).quarters) ∧
          (report.result.deduction.value = 0 → 58 ≤ k) ∧
          (s.band.key = .block → 0 < report.result.deduction.value) := by
  obtain ⟨registry, built⟩ := Registry.exists_standard inspect
  refine ⟨registry, built, fun net p w => ?_⟩
  obtain ⟨s, scored, reports, total, sum, score, band⟩ :=
    exists_score_standard inspected built net p w
  have names : s.reports.map (·.rule) = StandardRule.all.map StandardRule.name := by
    rw [← List.forall₂_eq_eq_eq, List.forall₂_map_left_iff, List.forall₂_map_right_iff]
    exact reports.flip.imp fun _ _ is => is.name
  have low : (28 : ℚ) ≤ total := by
    have taken := le_sumOf (fun rule => (rule.mostTaken : ℚ))
      (reports.imp fun _ _ is => ⟨is.taken, is.given⟩) 100
    rw [← sum] at taken
    refine taken.trans' ?_
    norm_num [StandardRule.all, StandardRule.mostTaken]
  obtain ⟨report, mem, is⟩ := exists_of_mem_right reports.flip .installScripts (by decide)
  -- without a deduction for scripts the rule about them takes nothing of the base
  have spared (uncharged : ¬0 < report.result.deduction.value) : (58 : ℚ) ≤ total := by
    have taken := le_sumOf
      (fun rule => if rule = .installScripts then 0 else (rule.mostTaken : ℚ))
      (reports.imp fun rule _ is' => by
        refine ⟨?_, is'.given⟩
        split_ifs with scripts
        · rw [is.scripts rfl, ← is'.scripts scripts] at uncharged
          exact not_lt.1 uncharged
        · exact is'.taken) 100
    rw [← sum] at taken
    refine taken.trans' ?_
    norm_num +decide [StandardRule.all, StandardRule.mostTaken]
  have low : 28 ≤ total := by exact_mod_cast low
  refine ⟨s, _, scored, score, by omega, by omega, names, report, mem, is.name, is.scripts rfl,
    fun none => ?_, fun blocked => ?_⟩
  · have spared : 58 ≤ total := by exact_mod_cast spared (by rw [none]; exact lt_irrefl 0)
    omega
  · by_contra uncharged
    have spared : 58 ≤ total := by exact_mod_cast spared uncharged
    rw [band, score] at blocked
    exact Band.ofNumber_int_ne_block (by omega) (by omega) blocked

/-- A package without scripts is not blocked, also where the archive cannot be retrieved. -/
theorem standard_score_unreachable :
    Inspector.Recordable (Archive.analyze .standard) ∧
      ∃ registry, Registry.standard .standard (Archive.analyze .standard) = .ok registry ∧
        ∃ s k, (score .standard registry.rules default Network.unreachable default).1 = .ok s ∧
          s.score = .int k ∧ 28 ≤ k ∧ k ≤ 100 ∧ s.band.key ≠ .block := by
  have inspected : Inspector.Recordable (Archive.analyze .standard) :=
    Archive.recordable_analyze .standard
  obtain ⟨registry, built, scores⟩ := standard_score_between inspected
  obtain ⟨s, k, scored, score, low, high, -, report, -, -, charged, -, blocked⟩ :=
    scores Network.unreachable default default
  refine ⟨inspected, registry, built, s, k, scored, score, low, high, fun block => ?_⟩
  have risk : Risk.one.quarters ≤ (InstallScripts.risk default).quarters :=
    charged.1 (blocked block)
  exact absurd risk (by decide)

end Scoring

end PackageRisk
