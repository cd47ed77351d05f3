import PackageRisk.Proofs.Alike
import PackageRisk.Proofs.Scoring.Standard

/-!
# Scores of two packages

Two packages to which every rule gives results that move a score alike have alike scores
(`score_alike`). For the standard rules it is enough to compare the evaluations: the five that need
nothing but the package, and the one that looks into the archive (`answer_alike`).
-/

namespace PackageRisk

/-- A relation between results that move a score alike. -/
structure RuleResult.MovesAlike (R : RuleResult → RuleResult → Prop) : Prop where
  refl : ∀ r, R r r
  deduction : ∀ r r', R r r' → r.deduction = r'.deduction
  bonus : ∀ r r', R r r' → r.bonus = r'.bonus

/-- Reports of one rule with related results. -/
structure Report.Alike (R : RuleResult → RuleResult → Prop) (a b : Report) : Prop where
  rule : a.rule = b.rule
  weight : a.weight = b.weight
  result : R a.result b.result

/-- One score and one band, and reports of the same rules with related results. -/
structure Score.Alike (R : RuleResult → RuleResult → Prop) (s t : Score) : Prop where
  score : s.score = t.score
  band : s.band = t.band
  reports : List.Forall₂ (Report.Alike R) s.reports t.reports

/-- What is compared of a total and the reports behind it. -/
def TalliedAlike (R : RuleResult → RuleResult → Prop) (a b : Number × List Report) : Prop :=
  a.1 = b.1 ∧ List.Forall₂ (Report.Alike R) a.2 b.2

variable {R : RuleResult → RuleResult → Prop} {p p' : Package} {rules : List Rule}

theorem RuleResult.movesAlike_eq : MovesAlike (· = ·) :=
  ⟨fun _ => rfl, fun _ _ same => congrArg deduction same, fun _ _ same => congrArg bonus same⟩

theorem RuleResult.MovesAlike.applyTo (moves : MovesAlike R) {r r' : RuleResult}
    (related : R r r') (total : Number) : r.applyTo total = r'.applyTo total := by
  rw [RuleResult.applyTo, RuleResult.applyTo, moves.deduction r r' related,
    moves.bonus r r' related]

namespace Scoring

theorem resultOf_alike (moves : RuleResult.MovesAlike R) {rule : Rule}
    (answers : (rule.answer p).Alike R (rule.answer p')) :
    (resultOf rule p).Alike R (resultOf rule p') := by
  refine answers.attempt.bind ?_
  rintro _ _ (related | e)
  · exact Session.alike_pure related
  · exact Session.Alike.refl moves.refl _

theorem reportOf_alike (moves : RuleResult.MovesAlike R) {rule : Rule}
    (answers : (rule.answer p).Alike R (rule.answer p')) :
    (reportOf rule p).Alike (Report.Alike R) (reportOf rule p') := by
  refine (resultOf_alike moves answers).bind fun r r' related => ?_
  refine (Session.Alike.refl (fun _ => rfl) _).bind fun weight _ same => ?_
  exact Session.alike_pure ⟨rfl, same, related⟩

/-- Rules that answer alike leave the same total of a score. -/
theorem run_alike (moves : RuleResult.MovesAlike R)
    (answers : ∀ rule ∈ rules, (rule.answer p).Alike R (rule.answer p')) (total : Number) :
    (run p total rules).Alike (TalliedAlike R) (run p' total rules) := by
  induction rules generalizing total with
  | nil => exact Session.alike_pure ⟨rfl, .nil⟩
  | cons rule rest ih =>
    rw [List.forall_mem_cons] at answers
    refine (reportOf_alike moves answers.1).bind fun report report' same => ?_
    rw [moves.applyTo same.result]
    refine (Session.Alike.refl (fun _ => rfl) _).bind ?_
    rintro next _ rfl
    refine (ih answers.2 next).bind ?_
    rintro ⟨final, reports⟩ ⟨_, reports'⟩ ⟨rfl, others⟩
    exact Session.alike_pure ⟨rfl, .cons same others⟩

/-- Two packages that all rules answer alike have alike scores, or end the scoring alike. -/
theorem score_alike (moves : RuleResult.MovesAlike R)
    (answers : ∀ rule ∈ rules, (rule.answer p).Alike R (rule.answer p'))
    (bounds : ScoreBounds) :
    (score bounds rules p).Alike (Score.Alike R) (score bounds rules p') := by
  refine (run_alike moves answers bounds.base).bind ?_
  rintro ⟨total, reports⟩ ⟨_, reports'⟩ ⟨rfl, same⟩
  refine (Session.Alike.refl (fun _ => rfl) _).bind ?_
  rintro band _ rfl
  exact Session.alike_pure ⟨rfl, rfl, same⟩

variable {settings : Settings} {inspect : Inspector} {registry : Registry}

/-- The standard rules answer alike where their evaluations do. -/
theorem answer_alike (moves : RuleResult.MovesAlike R)
    (built : Registry.standard settings inspect = .ok registry)
    (judged : ∀ n options rule judge, StandardRule.Judges n options rule judge →
      Alike R (judge p) (judge p'))
    (inspected : ∀ rule : HiddenCode, (rule.evaluate p).Alike R (rule.evaluate p')) :
    ∀ made ∈ registry.rules, (made.answer p).Alike R (made.answer p') := by
  intro made mem
  obtain ⟨rule, -, one⟩ := exists_of_mem_right (Registry.rules_standard built) made mem
  obtain ⟨run, library, runs⟩ := (StandardRule.isStandard_of_configured one).runs
  rw [Rule.answer_of_whileEnabled library, Rule.answer_of_whileEnabled library]
  split_ifs
  · cases runs with
    | ofPackage judges => exact Session.alike_lift (judged _ _ _ _ judges)
    | ofArchive => exact inspected _
  · exact Session.Alike.refl moves.refl _

end Scoring

end PackageRisk
