import Mathlib.Algebra.BigOperators.Group.List.Basic
import PackageRisk.Proofs.Scoring.Bounds
import PackageRisk.Proofs.Scoring.Tally

/-!
# Scores as clamped sums

As long as no sum is rounded, the score is the base less all deductions and more all bonuses,
brought between the bounds, and the order of the rules does not matter. One result moves a
total exactly (`applyTo_of_kept`), so all results together do (`totalAfter_of_exact`).
-/

namespace PackageRisk

namespace Rule

/-- Whether the answer of a rule is the same whatever happened before. -/
def IsSteady (rule : Rule) (net : Network) (p : Package) : Prop :=
  ∀ w w' : Workspace, (rule.answer p net w).1 = (rule.answer p net w').1

theorem reportedWeight_of_number {rule : Rule} {n : Number} (weight : rule.weight = .number n) :
    ∃ shown, rule.reportedWeight = .ok shown := by
  unfold reportedWeight
  rw [weight]
  split_ifs <;> exact ⟨_, rfl⟩

end Rule

namespace Scoring

/-- What a failure shows in a report: no effect, and the level of an error. -/
def Shows (answer : Except Failure RuleResult) (result : RuleResult) : Prop :=
  match answer with
  | .ok given => result = given
  | .error _ => result.deduction = 0 ∧ result.bonus = 0 ∧ result.level = .error

/-- The totals that results lead to, after each deduction and after each bonus. -/
def totals : ℚ → List RuleResult → List ℚ
  | _, [] => []
  | total, r :: rest =>
    (total - r.deduction.value) :: (total - r.deduction.value + r.bonus.value) ::
      totals (total - r.deduction.value + r.bonus.value) rest

/-- No sum is rounded: all numbers are in the form of whole numbers, or each total is below
`2 ^ 53` in size and no summand is rounded on the way to binary64, as `2 ^ 53 + 1` would be. -/
def ExactSums (base : Number) (results : List RuleResult) : Prop :=
  (base.IsInt ∧ ∀ r ∈ results, r.deduction.IsInt ∧ r.bonus.IsInt) ∨
    (∀ total ∈ base.value :: totals base.value results, |total| < 2 ^ 53) ∧
      ∀ r ∈ results, r.deduction.IsKept ∧ r.bonus.IsKept

/-- The base less all deductions and more all bonuses. -/
def sumOf (base : ℚ) (results : List RuleResult) : ℚ :=
  base - (results.map (·.deduction.value)).sum + (results.map (·.bonus.value)).sum

theorem sumOf_cons (base : ℚ) (r : RuleResult) (rest : List RuleResult) :
    sumOf base (r :: rest) = sumOf (base - r.deduction.value + r.bonus.value) rest := by
  simp only [sumOf, List.map_cons, List.sum_cons]
  ring

theorem sumOf_perm {results results' : List RuleResult} (perm : results.Perm results')
    (base : ℚ) : sumOf base results = sumOf base results' := by
  unfold sumOf
  rw [(perm.map _).sum_eq, (perm.map _).sum_eq]

theorem natAbs_lt_of_abs_cast {k : Int} (lt : |(k : ℚ)| < 2 ^ 53) : k.natAbs < 2 ^ 53 := by
  rw [← Int.cast_abs, ← Nat.cast_natAbs] at lt
  exact_mod_cast lt

variable {total : Number} {r : RuleResult} {results : List RuleResult}

/-- A result moves a total exactly while neither step leaves the exact range. -/
theorem applyTo_of_kept {m : Int} (start : total.Is m) (kept : total.IsKept)
    (deduction : r.deduction.IsWhole) (bonus : r.bonus.IsWhole)
    (keptDeduction : r.deduction.IsKept) (keptBonus : r.bonus.IsKept)
    (less : |(m : ℚ) - r.deduction.value| < 2 ^ 53)
    (more : |(m : ℚ) - r.deduction.value + r.bonus.value| < 2 ^ 53) :
    ∃ next, r.applyTo total = .ok next ∧
      ∃ k : Int, next.Is k ∧ (k : ℚ) = m - r.deduction.value + r.bonus.value := by
  obtain ⟨d, hd⟩ := deduction
  obtain ⟨b, hb⟩ := bonus
  rw [hd.value, ← Int.cast_sub] at less
  rw [hd.value, hb.value, ← Int.cast_sub, ← Int.cast_add] at more
  obtain ⟨left, subtracted, hleft⟩ :=
    start.sub? hd kept keptDeduction (natAbs_lt_of_abs_cast less)
  obtain ⟨next, added, hnext⟩ :=
    hleft.add? hb (hleft.isKept (natAbs_lt_of_abs_cast less)) keptBonus
      (natAbs_lt_of_abs_cast more)
  refine ⟨next, ?_, _, hnext, ?_⟩
  · rw [RuleResult.applyTo, subtracted, Option.bind_some, added]
  · rw [hd.value, hb.value]
    push_cast
    ring

theorem totalAfter_of_kept {m : Int} (start : total.Is m)
    (whole : ∀ r ∈ results, r.deduction.IsWhole ∧ r.bonus.IsWhole)
    (small : ∀ t ∈ (m : ℚ) :: totals m results, |t| < 2 ^ 53)
    (kept : ∀ r ∈ results, r.deduction.IsKept ∧ r.bonus.IsKept) :
    ∃ final, totalAfter total results = .ok final ∧ final.Is (sumOf m results) := by
  induction results generalizing total m with
  | nil => exact ⟨total, rfl, by simpa [sumOf] using start⟩
  | cons r rest ih =>
    rw [totals, List.forall_mem_cons, List.forall_mem_cons] at small
    rw [List.forall_mem_cons] at whole kept
    obtain ⟨next, applied, k, hk, value⟩ :=
      applyTo_of_kept start (start.isKept (natAbs_lt_of_abs_cast small.1)) whole.1.1 whole.1.2
        kept.1.1 kept.1.2 small.2.1 (small.2.2 _ List.mem_cons_self)
    rw [← value] at small
    obtain ⟨final, run, hfinal⟩ := ih hk whole.2 small.2.2 kept.2
    refine ⟨final, ?_, ?_⟩
    · rw [totalAfter, List.foldlM_cons, applied]
      exact run
    · rwa [sumOf_cons, ← value]

/-- Numbers in the form of whole ones give a total in that form. -/
theorem totalAfter_int {m : Int} (ints : ∀ r ∈ results, r.deduction.IsInt ∧ r.bonus.IsInt) :
    ∃ k : Int, totalAfter (.int m) results = .ok (.int k) ∧ (k : ℚ) = sumOf m results := by
  induction results generalizing m with
  | nil => exact ⟨m, rfl, by simp [sumOf]⟩
  | cons r rest ih =>
    rw [List.forall_mem_cons] at ints
    obtain ⟨⟨⟨d, hd⟩, ⟨b, hb⟩⟩, others⟩ := ints
    obtain ⟨k, run, value⟩ := ih (m := m - d + b) others
    have applied : r.applyTo (.int m) = .ok (.int (m - d + b)) := by
      rw [RuleResult.applyTo, hd, hb]
      rfl
    refine ⟨k, ?_, ?_⟩
    · rw [totalAfter, List.foldlM_cons, applied]
      exact run
    · rw [value, sumOf_cons, hd, hb, Number.value_int, Number.value_int]
      push_cast
      rfl

/-- Sums that are not rounded lead to the base less all deductions and more all bonuses. -/
theorem totalAfter_of_exact (base : total.IsWhole)
    (whole : ∀ r ∈ results, r.deduction.IsWhole ∧ r.bonus.IsWhole)
    (exact : ExactSums total results) :
    ∃ final, totalAfter total results = .ok final ∧ final.Is (sumOf total.value results) := by
  obtain ⟨m, start⟩ := base
  rcases exact with ⟨⟨k, rfl⟩, ints⟩ | ⟨small, kept⟩
  · obtain ⟨total, run, value⟩ := totalAfter_int (m := k) ints
    exact ⟨.int total, run, congrArg (some ∘ Place.at) value⟩
  · rw [start.value] at small ⊢
    exact totalAfter_of_kept start whole small kept

/-! ## Scores of rules -/

theorem shows_recorded (answer : Except Failure RuleResult) :
    Shows answer (Rule.recorded answer) := by
  rcases answer with e | result
  · exact ⟨rfl, rfl, rfl⟩
  · rfl

theorem isWhole_recorded {answer : Except Failure RuleResult}
    (whole : ∀ r, answer = .ok r → r.deduction.IsWhole ∧ r.bonus.IsWhole) :
    (Rule.recorded answer).deduction.IsWhole ∧ (Rule.recorded answer).bonus.IsWhole := by
  rcases answer with e | result
  · exact ⟨Number.isWhole_int 0, Number.isWhole_int 0⟩
  · exact whole result rfl

variable {net : Network} {p : Package} {w w' : Workspace} {rules rules' : List Rule}
  {bounds : ScoreBounds} {lo hi : ℚ}

theorem exists_score (contain : bounds.Contain lo hi) (wholeBase : bounds.base.IsWhole)
    (reportable : ∀ a ∈ asked net p w rules, Reportable a)
    (whole : ∀ a ∈ asked net p w rules, ∀ r, a.2 = .ok r →
      r.deduction.IsWhole ∧ r.bonus.IsWhole)
    (exact : ExactSums bounds.base (recordedResults (asked net p w rules))) :
    ∃ s, (score bounds rules p net w).1 = .ok s ∧
      s.reports = (asked net p w rules).map recordedReport ∧
      s.score.Is (max lo (min hi
        (sumOf bounds.base.value (recordedResults (asked net p w rules))))) ∧
      s.band = Band.ofNumber s.score ∧ Band.ofScore (.number s.score) = .ok s.band := by
  have wholeResults : ∀ r ∈ recordedResults (asked net p w rules),
      r.deduction.IsWhole ∧ r.bonus.IsWhole := by
    intro r mem
    obtain ⟨a, asked, rfl⟩ := List.mem_map.1 mem
    exact isWhole_recorded (whole a asked)
  obtain ⟨final, sum, value⟩ := totalAfter_of_exact wholeBase wholeResults exact
  have tallied := tally_eq_ok_iff.2 ⟨reportable, rfl, sum⟩
  refine ⟨⟨_, _, _, _, _⟩, score_eq_ok_iff.2 ⟨final, tallied, rfl, contain.ofScore_clamp final,
    rfl, rfl⟩, rfl, ?_, rfl, contain.ofScore_clamp final⟩
  exact contain.low.clamp contain.high value

theorem asked_of_steady (steady : ∀ rule ∈ rules, rule.IsSteady net p) (w' : Workspace) :
    asked net p w rules = rules.map fun rule => (rule, (rule.answer p net w').1) := by
  induction rules generalizing w with
  | nil => rfl
  | cons rule rest ih =>
    rw [List.forall_mem_cons] at steady
    rw [asked, List.map_cons, ih steady.2, steady.1 w w']

/-- Rules whose answers do not depend on what happened before give them in any order. -/
theorem asked_perm (perm : rules.Perm rules') (steady : ∀ rule ∈ rules, rule.IsSteady net p) :
    (asked net p w rules).Perm (asked net p w' rules') := by
  have steady' : ∀ rule ∈ rules', rule.IsSteady net p := fun rule mem =>
    steady rule (perm.mem_iff.2 mem)
  rw [asked_of_steady steady w, asked_of_steady steady' w]
  exact perm.map _

/-- A rule that takes five off, one that fails, and one that has nothing to say. -/
def mixedRules : List Rule :=
  [⟨"Rule", "a", .int 10, .null, true, .always fun _ => pure (.result ⟨5, 0, [], .low⟩)⟩,
   ⟨"Rule", "b", .int 20, .null, true, .always fun _ => Session.fail .notOpen⟩,
   ⟨"Rule", "c", .int 30, .null, true, .always fun _ => pure (.document .null)⟩]

end Scoring

end PackageRisk
