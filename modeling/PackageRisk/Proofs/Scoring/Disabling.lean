import PackageRisk.Proofs.Fields
import PackageRisk.Proofs.Rules.Making
import PackageRisk.Proofs.Scoring.Finite

/-!
# Rules that are switched off

A standard rule that the settings switch off stays in its place and has nothing to say, and no
other rule notices: only the rule about code that resists review works on anything outside of the
package, so what a rule says does not depend on which of the others were asked
(`map_recordedReport_switchedOff`, by induction on the rules). Whether there is a score may depend
on it, since sums of huge numbers do (`heavyWeights_end_scoring`).
-/

namespace PackageRisk

/-! ## Settings -/

namespace Settings

variable {settings : Settings} {rule off : StandardRule} {name : String}

/-- Settings with a standard rule switched off. -/
def disabling (settings : Settings) (off : StandardRule) : Settings :=
  { settings with
    rules := Fields.put off.name { settings.rule off.name with enabled := false } settings.rules }

theorem rule_disabling :
    (settings.disabling off).rule name =
      if name = off.name then { settings.rule off.name with enabled := false }
      else settings.rule name := by
  unfold rule disabling
  rw [Fields.get?_put]
  split_ifs <;> rfl

@[simp]
theorem weightOf_disabling : (settings.disabling off).weightOf rule = settings.weightOf rule := by
  unfold weightOf
  rw [rule_disabling]
  split_ifs with same
  · rw [same]
  · rfl

end Settings

/-! ## The registry -/

/-- A rule, switched off if it has a name. -/
def Rule.switchedOff (name : String) (made : Rule) : Rule :=
  if made.name = name then made.disable else made

namespace StandardRule

variable {settings : Settings} {inspect : Inspector} {rule off : StandardRule} {made : Rule}

theorem configured_disabled {given : RuleSettings}
    (configured : rule.configured given inspect = .ok made) :
    rule.configured { given with enabled := false } inspect = .ok made.disable := by
  obtain ⟨plain, ok, ⟨⟩⟩ := bind_eq_ok.1 configured
  refine bind_eq_ok.2 ⟨plain, ok, congrArg Except.ok ?_⟩
  rcases given.enabled with _ | _ <;> rfl

theorem configured_disabling
    (configured : rule.configured (settings.rule rule.name) inspect = .ok made) :
    rule.configured ((settings.disabling off).rule rule.name) inspect =
      .ok (made.switchedOff off.name) := by
  rw [Settings.rule_disabling, Rule.switchedOff, (isStandard_of_configured configured).name]
  split_ifs with same
  · rw [← same]
    exact configured_disabled configured
  · exact configured

end StandardRule

namespace Registry

variable {settings : Settings} {inspect : Inspector} {registry : Registry}

/-- Switching a rule off in the settings switches it off in its place. -/
theorem standard_disabling (built : Registry.standard settings inspect = .ok registry)
    (off : StandardRule) :
    Registry.standard (settings.disabling off) inspect =
      .ok ⟨registry.rules.map (Rule.switchedOff off.name)⟩ := by
  have made : (settings.disabling off).standardRules inspect =
      .ok (registry.rules.map (Rule.switchedOff off.name)) := by
    refine mapM_of_forall₂ (List.forall₂_map_right_iff.2 ?_)
    exact (rules_standard built).imp fun _ _ => StandardRule.configured_disabling
  obtain ⟨⟨rules⟩, added⟩ := exists_standard_of_rules made
  obtain ⟨_, made', folded⟩ := bind_eq_ok.1 added
  obtain rfl := Except.ok.inj (made.symm.trans made')
  obtain rfl : rules = registry.rules.map (Rule.switchedOff off.name) := foldlM_add folded
  exact added

end Registry

/-! ## Answers -/

namespace Rule

variable {made : Rule} {p : Package} {run : Package → Session RuleResult} {name : String}

/-- A rule that touches nothing and answers the same each time. -/
def IsStill (made : Rule) (p : Package) : Prop :=
  ∃ outcome, ∀ net w, made.answer p net w = (outcome, w)

theorem answer_disable (library : made.evaluation = .whileEnabled run) (p : Package) :
    made.disable.answer p = Pure.pure .disabled :=
  @answer_of_whileEnabled made.disable run library p

theorem isStill_disable (library : made.evaluation = .whileEnabled run) :
    made.disable.IsStill p := by
  refine ⟨.ok .disabled, fun net w => ?_⟩
  rw [answer_disable library]
  rfl

theorem IsStandard.isStill {rule : StandardRule} {n : Number} {options : Fields}
    {inspect : Inspector} (is : made.IsStandard rule n options inspect)
    (other : rule ≠ .hiddenCode) : made.IsStill p := by
  obtain ⟨run, runs, answers⟩ | off := is.answer p
  · cases runs with
    | @ofPackage _ judge judges =>
      refine ⟨judge p, fun net w => ?_⟩
      rw [answers]
      exact Session.run_lift (judge p)
    | ofArchive => exact absurd rfl other
  · refine ⟨.ok .disabled, fun net w => ?_⟩
    rw [off]
    rfl

end Rule

/-- A report, without effect if it is that of a rule with a name. -/
def Report.switchedOff (name : String) (report : Report) : Report :=
  if report.rule = name then { report with result := .disabled } else report

namespace Scoring

variable {net : Network} {p : Package} {w w' : Workspace} {rules : List Rule} {name : String}

/-- A rule that is switched off has nothing to say, and any other says what it says, if that is the
same in both workspaces. -/
theorem recordedReport_switchedOff (net : Network) (name : String) {made : Rule}
    {run : Package → Session RuleResult} (library : made.evaluation = .whileEnabled run)
    (same : w = w' ∨ made.IsStill p) :
    recordedReport (made.switchedOff name, ((made.switchedOff name).answer p net w').1) =
      (recordedReport (made, (made.answer p net w).1)).switchedOff name := by
  have under : (recordedReport (made, (made.answer p net w).1)).rule = made.name := rfl
  rw [Rule.switchedOff, Report.switchedOff, under]
  by_cases named : made.name = name
  · rw [if_pos named, if_pos named, Rule.answer_disable library]
    rfl
  · rw [if_neg named, if_neg named]
    rcases same with rfl | ⟨outcome, answers⟩
    · rfl
    · rw [answers, answers]

theorem isStill_switchedOff {made : Rule} {run : Package → Session RuleResult}
    (library : made.evaluation = .whileEnabled run) (still : made.IsStill p) :
    (made.switchedOff name).IsStill p := by
  unfold Rule.switchedOff
  split_ifs
  · exact Rule.isStill_disable library
  · exact still

/-- Where at most one rule does more than to look at the package, switching off a rule changes its
own report and no other. The two runs may be in different workspaces once that rule was asked. -/
theorem map_recordedReport_switchedOff
    (library : ∀ made ∈ rules, ∃ run, made.evaluation = .whileEnabled run)
    (apart : rules.Pairwise fun a b => a.IsStill p ∨ b.IsStill p)
    (same : w = w' ∨ ∀ made ∈ rules, made.IsStill p) :
    (asked net p w' (rules.map (Rule.switchedOff name))).map recordedReport =
      ((asked net p w rules).map recordedReport).map (Report.switchedOff name) := by
  induction rules generalizing w w' with
  | nil => rfl
  | cons made rest ih =>
    rw [List.forall_mem_cons] at library same
    rw [List.pairwise_cons] at apart
    obtain ⟨⟨run, own⟩, others⟩ := library
    have first := recordedReport_switchedOff net name own (same.imp_right And.left)
    have later : (made.answer p net w).2 = ((made.switchedOff name).answer p net w').2 ∨
        ∀ made ∈ rest, made.IsStill p := by
      by_cases still : made.IsStill p
      · obtain ⟨outcome, answers⟩ := still
        have still' : (made.switchedOff name).IsStill p :=
          isStill_switchedOff own ⟨outcome, answers⟩
        obtain ⟨outcome', answers'⟩ := still'
        rw [answers, answers']
        exact same.imp_right And.right
      · exact .inr fun other mem => (apart.1 other mem).resolve_left still
    rw [List.map_cons, asked, asked, List.map_cons, List.map_cons, List.map_cons, first,
      ih others apart.2 later]

/-- The sum without what one rule says is the sum of what the others say. -/
theorem sumOf_switchedOff (base : ℚ) (reports : List Report) :
    sumOf base ((reports.map (Report.switchedOff name)).map (·.result)) =
      sumOf base ((reports.filter (·.rule ≠ name)).map (·.result)) := by
  induction reports generalizing base with
  | nil => rfl
  | cons report rest ih =>
    rw [List.map_cons, List.map_cons, sumOf_cons, ih, Report.switchedOff]
    by_cases named : report.rule = name
    · have none : base - RuleResult.disabled.deduction.value + RuleResult.disabled.bonus.value =
          base := by
        norm_num [RuleResult.disabled, RuleResult.neutral]
      rw [if_pos named, List.filter_cons_of_neg (by simpa using named), none]
    · rw [if_neg named, List.filter_cons_of_pos (by simpa using named), List.map_cons, sumOf_cons]

/-- Rules that touch nothing leave the workspace as it is, however the scoring ends. -/
theorem run_still (still : ∀ made ∈ rules, made.IsStill p) (total : Number) :
    (run p total rules net w).2 = w := by
  induction rules generalizing total with
  | nil => rfl
  | cons made rest ih =>
    rw [List.forall_mem_cons] at still
    obtain ⟨⟨outcome, answers⟩, others⟩ := still
    have reported : (reportOf made p net w).2 = w := by
      rw [run_reportOf, answers]
    refine Session.workspace_bind reported fun report => ?_
    refine Session.workspace_bind (by rw [Session.run_liftFault]) fun next => ?_
    exact Session.workspace_bind (ih others next) fun _ => rfl

theorem score_still (still : ∀ made ∈ rules, made.IsStill p) (bounds : ScoreBounds) :
    (score bounds rules p net w).2 = w := by
  refine Session.workspace_bind (run_still still bounds.base) fun tallied => ?_
  exact Session.workspace_bind (by rw [Session.run_lift]) fun _ => rfl

end Scoring

/-! ## Whole numbers -/

/-- A base, bounds and weights that all stand for whole numbers. -/
structure Settings.HasWholeNumbers (settings : Settings) : Prop where
  base : settings.scoring.base.IsWhole
  min : settings.scoring.min.IsWhole
  max : settings.scoring.max.IsWhole
  weights : ∀ rule, (settings.weightOf rule).IsWhole

theorem Number.Is.isFinite {n : Number} {q : ℚ} (is : n.Is q) : n.isFinite = true := by
  rcases n with m | _ | s | ⟨s, m, e, form⟩
  · rfl
  · cases is
  · cases s <;> cases is
  · rfl

theorem Settings.HasWholeNumbers.isWeight {settings : Settings} {document : Value}
    (whole : settings.HasWholeNumbers) (accepted : Settings.check document = .valid settings)
    (rule : StandardRule) : (settings.weightOf rule).IsWeight (settings.weightOf rule).value := by
  refine isWeight_of_check accepted (fun rule => ?_) rule
  obtain ⟨k, is⟩ := whole.weights rule
  exact is.isFinite

theorem Settings.HasWholeNumbers.disabling {settings : Settings}
    (whole : settings.HasWholeNumbers) (off : StandardRule) :
    (settings.disabling off).HasWholeNumbers :=
  ⟨whole.base, whole.min, whole.max, fun rule => by
    rw [weightOf_disabling]
    exact whole.weights rule⟩

namespace Scoring

variable {net : Network} {p : Package} {w : Workspace} {settings : Settings} {inspect : Inspector}
  {registry : Registry} {document : Value}

theorem isWhole_standard (whole : settings.HasWholeNumbers)
    (built : Registry.standard settings inspect = .ok registry) :
    ∀ a ∈ asked net p w registry.rules, ∀ r, a.2 = .ok r →
      r.deduction.IsWhole ∧ r.bonus.IsWhole := by
  refine forall_mem_asked fun made mem w r ends => ?_
  obtain ⟨rule, -, configured⟩ := exists_of_mem_right (Registry.rules_standard built) made mem
  obtain ⟨run, runs, answers⟩ | off := (StandardRule.isStandard_of_configured configured).answer p
  · dsimp only at ends
    rw [answers] at ends
    exact (runs.origin ends).forall (whole.weights rule) Number.isWhole_int
  · dsimp only at ends
    rw [off] at ends
    cases ends
    exact ⟨Number.isWhole_int 0, Number.isWhole_int 0⟩

/-- Results that stay within weights keep every total within the base and all weights. -/
theorem totals_lt_of_within {q : StandardRule → ℚ} {standard : List StandardRule}
    {results : List RuleResult} {base bound : ℚ} (nonneg : ∀ rule, 0 ≤ q rule)
    (within : List.Forall₂ (fun rule r => r.Within rule (q rule)) standard results)
    (small : |base| + (standard.map q).sum < bound) :
    ∀ total ∈ base :: totals base results, |total| < bound := by
  induction within generalizing base with
  | nil => simpa [totals] using small
  | @cons rule r standard results one _ ih =>
    have least := nonneg rule
    have others : 0 ≤ (standard.map q).sum :=
      List.sum_nonneg (by simpa using fun rule _ => nonneg rule)
    have deduction := one.deduction.value
    have bonus := one.bonus.value
    rw [List.map_cons, List.sum_cons] at small
    have less : |base - r.deduction.value| ≤ |base| + q rule := by
      refine (abs_sub _ _).trans ?_
      rw [abs_of_nonneg deduction.1]
      linarith
    have more : |base - r.deduction.value + r.bonus.value| ≤ |base| + q rule := by
      rcases one.single with none | none
      · rw [none.value, sub_zero]
        refine (abs_add_le _ _).trans ?_
        rw [abs_of_nonneg bonus.1]
        linarith
      · rwa [none.value, add_zero]
    have left : |base - r.deduction.value + r.bonus.value| + (standard.map q).sum < bound := by
      linarith
    have later := ih left
    rw [List.forall_mem_cons] at later
    rw [totals]
    refine List.forall_mem_cons.2 ⟨by linarith, List.forall_mem_cons.2 ⟨by linarith, ?_⟩⟩
    exact List.forall_mem_cons.2 later

theorem isKept_of_upto {n : Number} {q : ℚ} (whole : n.IsWhole) (upto : n.Upto q)
    (small : q < 2 ^ 53) : n.IsKept := by
  obtain ⟨k, is⟩ := whole
  have between := upto.value
  rw [is.value] at between
  refine is.isKept (natAbs_lt_of_abs_cast ?_)
  rw [abs_of_nonneg between.1]
  exact between.2.trans_lt small

/-- Whole results that stay within weights are summed up without rounding if the base and all
weights together are small. -/
theorem exactSums_of_within {q : StandardRule → ℚ} {standard : List StandardRule}
    {results : List RuleResult} {base : Number} (nonneg : ∀ rule, 0 ≤ q rule)
    (whole : ∀ r ∈ results, r.deduction.IsWhole ∧ r.bonus.IsWhole)
    (within : List.Forall₂ (fun rule r => r.Within rule (q rule)) standard results)
    (small : |base.value| + (standard.map q).sum < 2 ^ 53) : ExactSums base results := by
  refine .inr ⟨totals_lt_of_within nonneg within small, fun r mem => ?_⟩
  obtain ⟨rule, among, one⟩ := exists_of_mem_right within r mem
  have least : q rule < 2 ^ 53 := by
    have part : q rule ≤ (standard.map q).sum :=
      List.single_le_sum (by simpa using fun rule _ => nonneg rule) _ (List.mem_map_of_mem among)
    linarith [abs_nonneg base.value]
  obtain ⟨deduction, bonus⟩ := whole r mem
  exact ⟨isKept_of_upto deduction one.deduction least, isKept_of_upto bonus one.bonus least⟩

/-- What the rules report on a package, if reports can be made of their answers. -/
def recordedReports (net : Network) (p : Package) (w : Workspace) (rules : List Rule) :
    List Report :=
  (asked net p w rules).map recordedReport

theorem map_result_recordedReports {rules : List Rule} :
    (recordedReports net p w rules).map (·.result) = recordedResults (asked net p w rules) := by
  rw [recordedReports, List.map_map]
  rfl

/-- Standard rules with small whole weights are summed up without rounding, whatever they report. -/
theorem exactSums_standard (settings : Settings) (whole : settings.HasWholeNumbers)
    (isWeight : ∀ rule, (settings.weightOf rule).IsWeight (settings.weightOf rule).value)
    (built : Registry.standard settings inspect = .ok registry)
    (small : |settings.scoring.base.value| +
      (StandardRule.all.map fun rule => (settings.weightOf rule).value).sum < 2 ^ 53) :
    ExactSums settings.scoring.base (recordedResults (asked net p w registry.rules)) := by
  have within : List.Forall₂
      (fun rule (r : RuleResult) => r.Within rule (settings.weightOf rule).value)
      StandardRule.all (recordedResults (asked net p w registry.rules)) := by
    rw [← map_result_recordedReports, List.forall₂_map_right_iff]
    exact forall₂_recordedReport
      (fun rule _ _ one => (recordedReport_isOf (isWeight rule) one).within)
      (Registry.rules_standard built)
  refine exactSums_of_within (fun rule => (isWeight rule).nonneg) ?_ within small
  intro r mem
  obtain ⟨a, answered, rfl⟩ := List.mem_map.1 mem
  exact isWhole_recorded (isWhole_standard whole built a answered)

/-! ## The score -/

/-- Of the standard rules only the one about code that resists review does more than to look at the
package. -/
theorem pairwise_isStill (built : Registry.standard settings inspect = .ok registry)
    (p : Package) : registry.rules.Pairwise fun a b => a.IsStill p ∨ b.IsStill p := by
  have distinct : StandardRule.all.Nodup := by decide
  refine pairwise_of_forall₂ ?_ (Registry.rules_standard built) distinct
  intro rule rule' made made' apart one other
  by_cases hidden : rule = .hiddenCode
  · exact .inr ((StandardRule.isStandard_of_configured other).isStill (hidden ▸ apart.symm))
  · exact .inl ((StandardRule.isStandard_of_configured one).isStill hidden)

theorem library_standard (built : Registry.standard settings inspect = .ok registry) :
    ∀ made ∈ registry.rules, ∃ run, made.evaluation = .whileEnabled run := by
  intro made mem
  obtain ⟨rule, -, configured⟩ := exists_of_mem_right (Registry.rules_standard built) made mem
  obtain ⟨run, library, -⟩ := (StandardRule.isStandard_of_configured configured).runs
  exact ⟨run, library⟩

/-- With the rule about code that resists review switched off, all rules touch nothing. -/
theorem isStill_of_hiddenCode_off (built : Registry.standard settings inspect = .ok registry) :
    ∀ made ∈ registry.rules.map (Rule.switchedOff HiddenCode.ruleName), made.IsStill p := by
  refine List.forall_mem_map.2 fun made mem => ?_
  obtain ⟨run, library⟩ := library_standard built made mem
  obtain ⟨rule, -, configured⟩ := exists_of_mem_right (Registry.rules_standard built) made mem
  have is := StandardRule.isStandard_of_configured configured
  by_cases hidden : rule = .hiddenCode
  · have named : made.name = HiddenCode.ruleName := by
      rw [is.name, hidden]
      rfl
    rw [Rule.switchedOff, if_pos named]
    exact Rule.isStill_disable library
  · exact isStill_switchedOff library (is.isStill hidden)

theorem reports_of_score {bounds : ScoreBounds} {rules : List Rule} {s : Score}
    (scored : (score bounds rules p net w).1 = .ok s) :
    s.reports = recordedReports net p w rules := by
  obtain ⟨total, tallied, -⟩ := score_eq_ok_iff.1 scored
  exact (tally_eq_ok_iff.1 tallied).2.1

/-- Whole numbers lead to the sum of what the rules report, brought between accepted bounds, unless
a sum is rounded. -/
theorem exists_score_whole (settings : Settings)
    (accepted : ScoreBounds.check document = .valid settings.scoring)
    (inspected : inspect.Recordable)
    (built : Registry.standard settings inspect = .ok registry) (whole : settings.HasWholeNumbers)
    (exact : ExactSums settings.scoring.base (recordedResults (asked net p w registry.rules))) :
    ∃ s, (score settings.scoring registry.rules p net w).1 = .ok s ∧
      s.score.Is (max settings.scoring.min.value (min settings.scoring.max.value
        (sumOf settings.scoring.base.value (recordedResults (asked net p w registry.rules))))) := by
  obtain ⟨lo, low⟩ := whole.min
  obtain ⟨hi, high⟩ := whole.max
  have contain := ScoreBounds.contain_of_check accepted low high
  obtain ⟨s, scored, -, value, -⟩ := exists_score contain whole.base
    (reportable_standard inspected built) (isWhole_standard whole built) exact
  rw [low.value, high.value]
  exact ⟨s, scored, value⟩

/-- Let settings be accepted and the standard rules be made from them, and switch one of these off.
Then the rules can be made again, and for every package, archive and network the reports are those
without the switch, in the same order and with the same weights, but for the result of that rule,
which is without effect. There is a score just when the reports have a total that the bounds make a
score of; whole numbers of which no sum is rounded have one, and it is the base less the deductions
and more the bonuses of the other rules, brought between the bounds. Without the rule about code
that resists review nothing is requested and nothing is written. -/
theorem score_disabling (accepted : Settings.check document = .valid settings)
    (inspected : inspect.Recordable)
    (built : Registry.standard settings inspect = .ok registry) (off : StandardRule) :
    ∃ registry', Registry.standard (settings.disabling off) inspect = .ok registry' ∧
      ∀ net p w,
        (recordedReports net p w registry.rules).map (·.rule) =
            StandardRule.all.map StandardRule.name ∧
        recordedReports net p w registry'.rules =
          (recordedReports net p w registry.rules).map (Report.switchedOff off.name) ∧
        (∀ s, (score settings.scoring registry.rules p net w).1 = .ok s →
          s.reports = recordedReports net p w registry.rules) ∧
        (∀ s, (score settings.scoring registry'.rules p net w).1 = .ok s →
          s.reports = recordedReports net p w registry'.rules) ∧
        ((∃ s, (score settings.scoring registry'.rules p net w).1 = .ok s) ↔
          ∃ total, totalAfter settings.scoring.base
              ((recordedReports net p w registry'.rules).map (·.result)) = .ok total ∧
            (Number.clamp settings.scoring.min settings.scoring.max total).IsScore) ∧
        (settings.HasWholeNumbers →
          |settings.scoring.base.value| +
              (StandardRule.all.map fun rule => (settings.weightOf rule).value).sum < 2 ^ 53 ∨
            ExactSums settings.scoring.base
              ((recordedReports net p w registry'.rules).map (·.result)) →
          ∃ s, (score settings.scoring registry'.rules p net w).1 = .ok s ∧
            s.score.Is (max settings.scoring.min.value (min settings.scoring.max.value
              (sumOf settings.scoring.base.value (((recordedReports net p w registry.rules).filter
                (·.rule ≠ off.name)).map (·.result)))))) ∧
        (off = .hiddenCode → (score settings.scoring registry'.rules p net w).2 = w) := by
  obtain ⟨fields, rfl, -⟩ := record_eq_valid accepted
  have built' := Registry.standard_disabling built off
  refine ⟨_, built', fun net p w => ?_⟩
  have switched : recordedReports net p w (registry.rules.map (Rule.switchedOff off.name)) =
      (recordedReports net p w registry.rules).map (Report.switchedOff off.name) :=
    map_recordedReport_switchedOff (library_standard built) (pairwise_isStill built p) (.inl rfl)
  refine ⟨?names, switched, fun s => reports_of_score, fun s => reports_of_score, ?ends, ?whole,
    ?still⟩
  case names =>
    rw [recordedReports, map_rule_recordedReport]
    exact Registry.map_name_of_configured (Registry.rules_standard built)
  case ends =>
    rw [exists_score_iff_isScore, map_result_recordedReports]
    exact and_iff_right (reportable_standard inspected built')
  case whole =>
    intro whole unrounded
    have bounds := (Settings.parts_of_check accepted).scoring
    have whole' := whole.disabling off
    have exact : ExactSums settings.scoring.base
        (recordedResults (asked net p w (registry.rules.map (Rule.switchedOff off.name)))) := by
      rcases unrounded with small | exact
      · refine exactSums_standard (settings.disabling off) whole' ?_ built' ?_
        · simp only [Settings.weightOf_disabling]
          exact whole.isWeight accepted
        · simp only [Settings.weightOf_disabling]
          exact small
      · rwa [map_result_recordedReports] at exact
    obtain ⟨s, scored, value⟩ :=
      exists_score_whole (settings.disabling off) bounds inspected built' whole' exact
    refine ⟨s, scored, ?_⟩
    rwa [← sumOf_switchedOff, ← switched, map_result_recordedReports]
  case still =>
    rintro rfl
    exact score_still (isStill_of_hiddenCode_off built) _

/-- The standard settings with the rule about code that resists review switched off. -/
theorem score_disabling_standard :
    ∃ registry, Registry.standard (Settings.standard.disabling .hiddenCode)
        (Archive.analyze .standard) = .ok registry ∧
      ∃ s, (score .standard registry.rules default Network.unreachable default).1 = .ok s ∧
        s.reports.map (·.rule) = StandardRule.all.map StandardRule.name ∧
        (score .standard registry.rules default Network.unreachable default).2 = default := by
  have accepted : Settings.check (.object []) = .valid .standard := rfl
  have whole : Settings.standard.HasWholeNumbers := by
    refine ⟨Number.isWhole_int 100, Number.isWhole_int 0, Number.isWhole_int 100, ?_⟩
    rintro (_ | _ | _ | _ | _ | _) <;> exact Number.isWhole_int _
  have small : |Settings.standard.scoring.base.value| + (StandardRule.all.map fun rule =>
      (Settings.standard.weightOf rule).value).sum < 2 ^ 53 := by decide +kernel
  have built : Registry.standard .standard (Archive.analyze .standard) = _ := rfl
  obtain ⟨registry, built', scores⟩ :=
    score_disabling accepted (Archive.recordable_analyze .standard) built .hiddenCode
  obtain ⟨-, -, -, -, -, scored, untouched⟩ := scores Network.unreachable default default
  obtain ⟨s, scored, -⟩ := scored whole (.inl small)
  refine ⟨registry, built', s, scored, ?_, untouched rfl⟩
  rw [map_rule_reports scored]
  exact Registry.map_name_of_configured (Registry.rules_standard built')

/-- A weight of `1.7e308` for a rule. -/
def heavy : Value := .object [("weight", .int (17 * 10 ^ 307))]

/-- Settings with whole weights, of which three are close to the largest binary64 number. -/
def heavyWeights : Value :=
  .object [("rules", .object [("external-network-call", .object [("weight", .int 20)]),
    ("code-obfuscation", heavy), ("verified-publisher", heavy), ("signed-releases", heavy),
    ("sbom-detection", .object [("weight", .int 5)])])]

/-- A large package that is not signed, names no publisher and depends on network modules, with a
bill of materials. -/
def largePackage : Package :=
  { (default : Package) with
    dependencies := ["axios", "node-fetch", "got", "request", "superagent", "needle"].map (·, "1")
    dist := { (default : Distribution) with unpackedSize := 6000000 }
    files := ["sbom.json"] }

/-- What the rule about network access deducts makes every later total a binary64 number. Without
it the halves of three heavy weights add up to a whole number that no bonus can be added to. -/
theorem heavyWeights_end_scoring :
    ∃ settings registry registry', Settings.check heavyWeights = .valid settings ∧
      Registry.standard settings (Archive.analyze .standard) = .ok registry ∧
      Registry.standard (settings.disabling .networkAccess) (Archive.analyze .standard) =
        .ok registry' ∧
      (∃ s, (score settings.scoring registry.rules largePackage Network.unreachable default).1 =
        .ok s) ∧
      ¬∃ s, (score settings.scoring registry'.rules largePackage Network.unreachable default).1 =
        .ok s := by
  let scored (change : Settings → Settings) : Except Failure Score := do
    let settings ← (Settings.check heavyWeights).orFail "Settings"
    let registry ← Registry.standard (change settings) (Archive.analyze .standard)
    (score settings.scoring registry.rules largePackage Network.unreachable default).1
  have before : (scored id).toOption.isSome := by decide +kernel
  have after : (scored (·.disabling .networkAccess)).toOption.isSome = false := by decide +kernel
  obtain ⟨s, before⟩ := Option.isSome_iff_exists.1 before
  obtain ⟨settings, checked, before⟩ := bind_eq_ok.1 (toOption_eq_some_iff.1 before)
  obtain ⟨registry, built, before⟩ := bind_eq_ok.1 before
  have built' := Registry.standard_disabling built .networkAccess
  refine ⟨settings, registry, _, Checked.orFail_eq_ok.1 checked, built, built', ⟨s, before⟩, ?_⟩
  rintro ⟨s', ends⟩
  have again : scored (·.disabling .networkAccess) = .ok s' :=
    bind_eq_ok.2 ⟨settings, checked, bind_eq_ok.2 ⟨_, built', ends⟩⟩
  rw [again] at after
  cases after

end Scoring

end PackageRisk
