import PackageRisk.Proofs.Scoring.Bounds
import PackageRisk.Proofs.Scoring.Tally

/-!
# Which defects of a rule end the scoring

Whatever a rule does while it is evaluated is recorded and the scoring goes on. What is left are
defects outside the evaluation: a weight that no report can show, and sums of a huge whole
number and a binary64 one. `score_isOk_iff` says that there are no others.
-/

namespace PackageRisk

/-- A weight that a report can show: one that counts as not given, or one that is a number. -/
def Rule.HasShowableWeight (rule : Rule) : Prop :=
  rule.weight.isGiven = true → ∃ n, Check.number rule.weight = .valid n

theorem Rule.exists_reportedWeight_iff {rule : Rule} :
    (∃ shown, rule.reportedWeight = .ok shown) ↔ rule.HasShowableWeight := by
  unfold reportedWeight HasShowableWeight Report.checkWeight
  simp only [Checked.orFail_eq_ok, Checked.inside_eq_valid]
  by_cases given : rule.weight.isGiven = true
  · simp only [given, if_true, forall_const]
  · simp only [given]
    exact iff_of_true ⟨0, rfl⟩ nofun

namespace Scoring

/-- Every total that is reached can be lessened by the next deduction, and what is left can be
raised by the bonus. -/
def SumsDefined (base : Number) (results : List RuleResult) : Prop :=
  ∀ before r after, results = before ++ r :: after →
    ∀ total, totalAfter base before = .ok total →
      total.Meets r.deduction ∧ ∀ left, total.sub? r.deduction = some left → left.Meets r.bonus

theorem applyTo_eq_ok_iff {total next : Number} {r : RuleResult} :
    r.applyTo total = .ok next ↔
      ∃ left, total.sub? r.deduction = some left ∧ left.add? r.bonus = some next := by
  rw [← Option.bind_eq_some_iff, RuleResult.applyTo]
  cases (total.sub? r.deduction).bind (·.add? r.bonus) <;> simp

theorem exists_applyTo_iff {total : Number} {r : RuleResult} :
    (∃ next, r.applyTo total = .ok next) ↔
      total.Meets r.deduction ∧
        ∀ left, total.sub? r.deduction = some left → left.Meets r.bonus := by
  simp only [applyTo_eq_ok_iff]
  constructor
  · rintro ⟨next, left, subtracted, added⟩
    refine ⟨Number.exists_sub?_iff.1 ⟨left, subtracted⟩, ?_⟩
    rintro _ same
    cases subtracted.symm.trans same
    exact Number.exists_add?_iff.1 ⟨next, added⟩
  · rintro ⟨less, more⟩
    obtain ⟨left, subtracted⟩ := Number.exists_sub?_iff.2 less
    obtain ⟨next, added⟩ := Number.exists_add?_iff.2 (more left subtracted)
    exact ⟨next, left, subtracted, added⟩

theorem totalAfter_cons_eq_ok_iff {base final : Number} {r : RuleResult}
    {rest : List RuleResult} :
    totalAfter base (r :: rest) = .ok final ↔
      ∃ next, r.applyTo base = .ok next ∧ totalAfter next rest = .ok final := by
  rw [totalAfter, List.foldlM_cons, bind_eq_ok]
  rfl

theorem sumsDefined_cons_iff {base : Number} {r : RuleResult} {rest : List RuleResult} :
    SumsDefined base (r :: rest) ↔
      ∃ next, r.applyTo base = .ok next ∧ SumsDefined next rest := by
  constructor
  · intro sums
    obtain ⟨next, applied⟩ := exists_applyTo_iff.2 (sums [] r rest rfl base rfl)
    refine ⟨next, applied, ?_⟩
    intro before r' after split total reached
    refine sums (r :: before) r' after (by rw [split, List.cons_append]) total ?_
    exact totalAfter_cons_eq_ok_iff.2 ⟨next, applied, reached⟩
  · rintro ⟨next, applied, sums⟩ before r' after split total reached
    rcases before with _ | ⟨first, before⟩
    · cases split
      cases reached
      exact exists_applyTo_iff.1 ⟨next, applied⟩
    · cases split
      obtain ⟨next', applied', reached⟩ := totalAfter_cons_eq_ok_iff.1 reached
      cases applied.symm.trans applied'
      exact sums before r' after rfl total reached

theorem exists_totalAfter_iff {base : Number} {results : List RuleResult} :
    (∃ final, totalAfter base results = .ok final) ↔ SumsDefined base results := by
  induction results generalizing base with
  | nil => exact iff_of_true ⟨base, rfl⟩ fun _ _ _ split => by simp at split
  | cons r rest ih =>
    simp only [sumsDefined_cons_iff, totalAfter_cons_eq_ok_iff, ← ih]
    rw [exists_comm]
    simp only [exists_and_left]

variable {net : Network} {p : Package} {w : Workspace}

/-- Whatever total is reached, it has a band once it is clamped. -/
theorem exists_score_iff {bounds : ScoreBounds} {lo hi : ℚ} {rules : List Rule}
    (contain : bounds.Contain lo hi) :
    (∃ s, (score bounds rules p net w).1 = .ok s) ↔
      (∀ a ∈ asked net p w rules, Reportable a) ∧
        ∃ final, totalAfter bounds.base (recordedResults (asked net p w rules)) = .ok final := by
  constructor
  · rintro ⟨s, scored⟩
    obtain ⟨final, tallied, -⟩ := score_eq_ok_iff.1 scored
    obtain ⟨reportable, -, sum⟩ := tally_eq_ok_iff.1 tallied
    exact ⟨reportable, final, sum⟩
  · rintro ⟨reportable, final, sum⟩
    exact ⟨⟨_, _, _, _, _⟩, score_eq_ok_iff.2 ⟨final, tally_eq_ok_iff.2 ⟨reportable, rfl, sum⟩,
      rfl, contain.ofScore_clamp final, rfl, rfl⟩⟩

/-- What is offered as a rule with a word for its weight. -/
def heavyCandidate : Candidate :=
  { kind := "Rule", name := .text "r", weight := .text "heavy", description := .null,
    enabled := true, evaluation := some (.always fun _ => pure (.result ⟨5, 0, [], .none⟩)) }

end Scoring

end PackageRisk
