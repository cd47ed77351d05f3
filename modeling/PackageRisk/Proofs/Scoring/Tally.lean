import Mathlib.Tactic.Common
import PackageRisk.Proofs.Session
import PackageRisk.Scoring

/-!
# Scoring as a tally of answers

A run over the rules asks each rule in turn and adds up on the way. What it ends with depends on
the answers alone: `run_outcome` reduces the run to `tally`, a function of the answers, and
`tally_eq_ok_iff` says when that ends well and with what. Results about scores are proved for
tallies.
-/

namespace PackageRisk

/-- What an answer counts as: a failure becomes a result that records it, but for that of a rule
without an evaluation. -/
def Rule.settle : Except Failure RuleResult → Except Failure RuleResult
  | .ok result => .ok result
  | .error (.unimplementedRule kind) => .error (.unimplementedRule kind)
  | .error e => .ok (.failed e.reason)

/-- The report of a rule that gave an answer. -/
def Rule.report (rule : Rule) (answer : Except Failure RuleResult) : Except Failure Report := do
  let result ← Rule.settle answer
  let weight ← rule.reportedWeight
  return { rule := rule.name, weight, result }

namespace Rule

/-- The answer of a rule without an evaluation. -/
def Unimplemented (answer : Except Failure RuleResult) : Prop :=
  ∃ kind, answer = .error (.unimplementedRule kind)

/-- The result that the report of an answer shows. -/
def recorded : Except Failure RuleResult → RuleResult
  | .ok result => result
  | .error e => .failed e.reason

theorem settle_eq_ok_iff {answer : Except Failure RuleResult} {result : RuleResult} :
    settle answer = .ok result ↔ ¬Unimplemented answer ∧ result = recorded answer := by
  rcases answer with e | given
  · cases e
    case unimplementedRule kind => exact iff_of_false nofun fun h => h.1 ⟨kind, rfl⟩
    all_goals simp [settle, Unimplemented, recorded, eq_comm]
  · simp [settle, Unimplemented, recorded, eq_comm]

end Rule

namespace Scoring

variable {net : Network} {p : Package} {w : Workspace} {rules : List Rule}

/-- Each rule with its answer, when they are asked one after the other. -/
def asked (net : Network) (p : Package) :
    Workspace → List Rule → List (Rule × Except Failure RuleResult)
  | _, [] => []
  | w, rule :: rest =>
    (rule, (rule.answer p net w).1) :: asked net p (rule.answer p net w).2 rest

/-- A score after results, each less its deduction and more its bonus. -/
def totalAfter (total : Number) (results : List RuleResult) : Except Fault Number :=
  results.foldlM (fun total result => result.applyTo total) total

/-- The report of a rule whose weight can be shown and whose answer can be recorded. -/
def recordedReport (a : Rule × Except Failure RuleResult) : Report :=
  { rule := a.1.name
    weight := a.1.reportedWeight.toOption.getD 0
    result := Rule.recorded a.2 }

/-- What each answer is recorded as. -/
def recordedResults (answers : List (Rule × Except Failure RuleResult)) : List RuleResult :=
  answers.map fun a => Rule.recorded a.2

/-- An answer that a report can be made of. -/
def Reportable (a : Rule × Except Failure RuleResult) : Prop :=
  ¬Rule.Unimplemented a.2 ∧ ∃ weight, a.1.reportedWeight = .ok weight

theorem report_eq_ok_iff {a : Rule × Except Failure RuleResult} {report : Report} :
    a.1.report a.2 = .ok report ↔ Reportable a ∧ report = recordedReport a := by
  simp only [Rule.report, bind_eq_ok, Rule.settle_eq_ok_iff, Reportable]
  constructor
  · rintro ⟨result, ⟨implemented, rfl⟩, weight, shown, ⟨⟩⟩
    refine ⟨⟨implemented, weight, shown⟩, ?_⟩
    rw [recordedReport, shown]
    rfl
  · rintro ⟨⟨implemented, weight, shown⟩, rfl⟩
    refine ⟨_, ⟨implemented, rfl⟩, weight, shown, ?_⟩
    rw [recordedReport, shown]
    rfl

/-- The score that is left and the reports, from the answers of rules. -/
def tally : Number → List (Rule × Except Failure RuleResult) →
    Except Failure (Number × List Report)
  | total, [] => .ok (total, [])
  | total, (rule, answer) :: rest => do
    let report ← rule.report answer
    let next ← (report.result.applyTo total).mapError Failure.fault
    let (final, reports) ← tally next rest
    return (final, report :: reports)

@[simp]
theorem asked_nil : asked net p w [] = [] := rfl

@[simp]
theorem map_fst_asked : (asked net p w rules).map Prod.fst = rules := by
  induction rules generalizing w with
  | nil => rfl
  | cons rule rest ih => rw [asked, List.map_cons, ih]

theorem mem_rules_of_mem_asked {a : Rule × Except Failure RuleResult}
    (mem : a ∈ asked net p w rules) : a.1 ∈ rules := by
  have among : a.1 ∈ (asked net p w rules).map Prod.fst := List.mem_map_of_mem mem
  rwa [map_fst_asked] at among

/-- What holds of each answer wherever it is given holds of all the answers to one package. -/
theorem forall_mem_asked {P : Rule × Except Failure RuleResult → Prop}
    (each : ∀ rule ∈ rules, ∀ w, P (rule, (rule.answer p net w).1)) :
    ∀ a ∈ asked net p w rules, P a := by
  induction rules generalizing w with
  | nil => exact List.forall_mem_nil _
  | cons rule rest ih =>
    rw [List.forall_mem_cons] at each
    exact List.forall_mem_cons.2 ⟨each.1 w, ih each.2⟩

theorem map_rule_recordedReport :
    ((asked net p w rules).map recordedReport).map (·.rule) = rules.map (·.name) := by
  calc ((asked net p w rules).map recordedReport).map (·.rule)
      = ((asked net p w rules).map Prod.fst).map (·.name) := by
        rw [List.map_map, List.map_map]
        rfl
    _ = rules.map (·.name) := by rw [map_fst_asked]

theorem run_resultOf {rule : Rule} :
    resultOf rule p net w =
      (Rule.settle (rule.answer p net w).1, (rule.answer p net w).2) := by
  rw [resultOf, Session.bind_of_ok (Session.run_attempt _)]
  rcases rule.answer p net w with ⟨e | result, w'⟩
  · cases e <;> rfl
  · rfl

theorem run_reportOf {rule : Rule} :
    reportOf rule p net w =
      (rule.report (rule.answer p net w).1, (rule.answer p net w).2) := by
  rw [reportOf, Session.run_bind, run_resultOf, Rule.report]
  rcases Rule.settle (rule.answer p net w).1 with e | result
  · rfl
  · rcases rule.reportedWeight with e | weight <;> rfl

/-- A run over rules ends as the tally of their answers does. -/
theorem run_outcome (total : Number) :
    (run p total rules net w).1 = tally total (asked net p w rules) := by
  induction rules generalizing total w with
  | nil => rfl
  | cons rule rest ih =>
    rw [run, asked, tally, Session.outcome_bind, run_reportOf]
    refine bind_congr fun report => ?_
    rw [Session.outcome_bind, Session.run_liftFault]
    refine bind_congr fun next => ?_
    rw [Session.outcome_bind, ih next]
    rfl

/-- A tally ends well when every answer can be reported and every total can be formed. -/
theorem tally_eq_ok_iff {answers : List (Rule × Except Failure RuleResult)} {total final : Number}
    {reports : List Report} :
    tally total answers = .ok (final, reports) ↔
      (∀ a ∈ answers, Reportable a) ∧ reports = answers.map recordedReport ∧
        totalAfter total (recordedResults answers) = .ok final := by
  induction answers generalizing total reports with
  | nil =>
    constructor
    · rintro ⟨⟩
      exact ⟨List.forall_mem_nil _, rfl, rfl⟩
    · rintro ⟨-, rfl, ⟨⟩⟩
      rfl
  | cons first rest ih =>
    simp only [tally, bind_eq_ok, mapError_eq_ok, report_eq_ok_iff, Prod.exists]
    rw [List.forall_mem_cons, recordedResults, List.map_cons, List.map_cons, totalAfter,
      List.foldlM_cons, bind_eq_ok]
    constructor
    · rintro ⟨_, ⟨reportable, rfl⟩, next, applied, _, _, others, ⟨⟩⟩
      obtain ⟨reportables, rfl, sum⟩ := ih.1 others
      exact ⟨⟨reportable, reportables⟩, rfl, next, applied, sum⟩
    · rintro ⟨⟨reportable, reportables⟩, rfl, next, applied, sum⟩
      exact ⟨_, ⟨reportable, rfl⟩, next, applied, _, _, ih.2 ⟨reportables, rfl, sum⟩, rfl⟩

/-- A package has a score when its tally ends well and the clamped total has a band. -/
theorem score_eq_ok_iff {bounds : ScoreBounds} {s : Score} :
    (score bounds rules p net w).1 = .ok s ↔
      ∃ total, tally bounds.base (asked net p w rules) = .ok (total, s.reports) ∧
        s.score = Number.clamp bounds.min bounds.max total ∧
        Band.ofScore (.number s.score) = .ok s.band ∧
        s.package = p.name ∧ s.version = p.version := by
  rw [score, Session.outcome_bind, run_outcome]
  rcases tally bounds.base (asked net p w rules) with e | ⟨total, reports⟩
  · constructor
    · rintro ⟨⟩
    · rintro ⟨_, ⟨⟩, -⟩
  show ((Session.lift (Band.ofScore (.number (Number.clamp bounds.min bounds.max total))) >>=
    _) net _).1 = _ ↔ _
  rw [Session.outcome_bind, Session.run_lift]
  constructor
  · intro scored
    rcases band : Band.ofScore (.number (Number.clamp bounds.min bounds.max total)) with e | b
    · rw [band] at scored
      cases scored
    · rw [band] at scored
      cases scored
      exact ⟨total, rfl, rfl, band, rfl, rfl⟩
  · rintro ⟨_, ⟨⟩, clamped, band, package, version⟩
    rw [← clamped, band, ← package, ← version]
    rfl

/-- A score comes with one report for each rule, in order. -/
theorem map_rule_reports {bounds : ScoreBounds} {s : Score}
    (scored : (score bounds rules p net w).1 = .ok s) :
    s.reports.map (·.rule) = rules.map (·.name) := by
  obtain ⟨total, tallied, -⟩ := score_eq_ok_iff.1 scored
  obtain ⟨-, reports, -⟩ := tally_eq_ok_iff.1 tallied
  rw [reports, map_rule_recordedReport]

end Scoring

end PackageRisk
