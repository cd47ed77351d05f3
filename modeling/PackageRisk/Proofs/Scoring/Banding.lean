import PackageRisk.Proofs.Scoring.Sum

/-!
# Bands in order

A higher score has no worse band while both are on the scale. Beyond 100 every score is blocked, so
a score that was not blocked loses its band there, and nowhere else (`rankAt_le_iff`).
-/

namespace PackageRisk

/-- How good a band is, the worst first. -/
def BandKey.rank : BandKey → Nat
  | .block => 0
  | .highRisk => 1
  | .review => 2
  | .safe => 3

namespace Band

variable {n : Number} {p q : ℚ}

/-- How good the band of a number is. -/
def rankAt (q : ℚ) : Nat :=
  if 100 < q then 0
  else if 90 ≤ q then 3
  else if 70 ≤ q then 2
  else if 50 ≤ q then 1
  else 0

/-- A score that is not blocked, and a higher one that is off the scale. -/
def LeavesScale (p q : ℚ) : Prop := 50 ≤ p ∧ p ≤ 100 ∧ 100 < q

theorem contains_iff (band : Band) (h : n.Is q) :
    band.contains n = true ↔ (band.min ≤ q ∧ q < band.max + 1) ∧ q ≤ 100 := by
  have low : (Number.int band.min).Is band.min := rfl
  have high : (Number.int (band.max + 1)).Is (band.max + 1) := by
    rw [Number.Is, Number.place?, Int.cast_add, Int.cast_one]
  have scale : (100 : Number).Is 100 := rfl
  rw [contains, Bool.and_eq_true, Bool.and_eq_true, low.le_eq h, h.lt_eq high, h.le_eq scale]
  simp only [decide_eq_true_eq]

theorem ofNumber_eq : ofNumber n =
    if safe.contains n then safe
    else if review.contains n then review
    else if highRisk.contains n then highRisk
    else block := by
  unfold ofNumber all
  simp only [List.find?_cons, List.find?_nil]
  cases safe.contains n <;> cases review.contains n <;> cases highRisk.contains n <;>
    cases block.contains n <;> rfl

theorem rank_ofNumber (h : n.Is q) : (ofNumber n).key.rank = rankAt q := by
  simp only [ofNumber_eq, contains_iff _ h, apply_ite Band.key, apply_ite BandKey.rank, rankAt]
  simp only [safe, review, highRisk, block, BandKey.rank]
  push_cast
  split_ifs <;> first | rfl | (exfalso; grind)

/-- Of two scores the higher one has no worse band, unless it is off the scale. -/
theorem rankAt_le_iff (le : p ≤ q) : rankAt p ≤ rankAt q ↔ ¬LeavesScale p q := by
  unfold rankAt LeavesScale
  split_ifs <;> grind

theorem rankAt_eq_zero_iff : rankAt q = 0 ↔ q < 50 ∨ 100 < q := by
  unfold rankAt
  split_ifs <;> grind

theorem ofNumber_ne_block (h : n.Is q) (low : 50 ≤ q) (high : q ≤ 100) :
    (ofNumber n).key ≠ .block := by
  intro blocked
  have rank := rank_ofNumber h
  rw [blocked] at rank
  exact (rankAt_eq_zero_iff.1 rank.symm).elim low.not_gt high.not_gt

end Band

namespace Scoring

variable {net net' : Network} {p p' : Package} {w w' : Workspace} {rules rules' : List Rule}
  {bounds : ScoreBounds} {results results' : List RuleResult}

/-- A run over rules of which each has an evaluation and a weight that can be shown, with results
in whole numbers and without a rounded sum. -/
structure IsExact (base : Number) (net : Network) (p : Package) (w : Workspace)
    (rules : List Rule) : Prop where
  weights : ∀ rule ∈ rules, ∃ n, rule.weight = .number n
  implemented : ∀ a ∈ asked net p w rules, ¬Rule.Unimplemented a.2
  whole : ∀ a ∈ asked net p w rules, ∀ r, a.2 = .ok r → r.deduction.IsWhole ∧ r.bonus.IsWhole
  sums : ExactSums base (recordedResults (asked net p w rules))

theorem IsExact.reportable {base : Number} (run : IsExact base net p w rules) :
    ∀ a ∈ asked net p w rules, Reportable a := by
  intro a mem
  obtain ⟨n, weight⟩ := run.weights a.1 (mem_rules_of_mem_asked mem)
  exact ⟨run.implemented a mem, Rule.reportedWeight_of_number weight⟩

theorem IsExact.exists_score {lo hi : ℚ} (run : IsExact bounds.base net p w rules)
    (contain : bounds.Contain lo hi) (wholeBase : bounds.base.IsWhole) :
    ∃ s, (score bounds rules p net w).1 = .ok s ∧
      s.score.Is (max lo (min hi
        (sumOf bounds.base.value (recordedResults (asked net p w rules))))) ∧
      s.band = Band.ofNumber s.score := by
  obtain ⟨s, scored, -, value, band, -⟩ :=
    Scoring.exists_score contain wholeBase run.reportable run.whole run.sums
  exact ⟨s, scored, value, band⟩

/-- Results that each take no more and give no less leave no less. -/
theorem sumOf_mono {base base' : ℚ} (le : base ≤ base')
    (better : List.Forall₂ (fun r r' => r'.deduction.value ≤ r.deduction.value ∧
      r.bonus.value ≤ r'.bonus.value) results results') :
    sumOf base results ≤ sumOf base' results' := by
  induction better generalizing base base' with
  | nil => simpa [sumOf] using le
  | cons one _ ih =>
    rw [sumOf_cons, sumOf_cons]
    exact ih (by linarith [one.1, one.2])

/-- A rule that takes something off and adds something, whatever the package is. -/
def moving (deduction bonus : Nat) : Rule :=
  ⟨"Rule", "moving", .int 10, .null, true,
    .always fun _ => pure (.result ⟨.int deduction, .int bonus, [], .none⟩)⟩

theorem asked_moving (moves : List (Nat × Nat)) :
    asked net p w (moves.map fun m => moving m.1 m.2) =
      moves.map fun m => (moving m.1 m.2, .ok ⟨.int m.1, .int m.2, [], .none⟩) := by
  induction moves generalizing w with
  | nil => rfl
  | cons m rest ih => exact congrArg (List.cons _) ih

theorem ints_moving (moves : List (Nat × Nat)) :
    ∀ r ∈ recordedResults (asked net p w (moves.map fun m => moving m.1 m.2)),
      r.deduction.IsInt ∧ r.bonus.IsInt := by
  rw [asked_moving, recordedResults, List.map_map]
  intro r mem
  obtain ⟨m, -, rfl⟩ := List.mem_map.1 mem
  exact ⟨⟨_, rfl⟩, ⟨_, rfl⟩⟩

/-- Whatever whole numbers are taken and given, such rules make an exact run. -/
theorem isExact_moving {base : Int} (moves : List (Nat × Nat)) :
    IsExact (.int base) net p w (moves.map fun m => moving m.1 m.2) := by
  refine ⟨?_, ?_, ?_, .inl ⟨⟨base, rfl⟩, ints_moving moves⟩⟩
  · intro rule mem
    obtain ⟨m, -, rfl⟩ := List.mem_map.1 mem
    exact ⟨10, rfl⟩
  · rw [asked_moving]
    intro a mem
    obtain ⟨m, -, rfl⟩ := List.mem_map.1 mem
    rintro ⟨kind, ⟨⟩⟩
  · rw [asked_moving]
    intro a mem r given
    obtain ⟨m, -, rfl⟩ := List.mem_map.1 mem
    cases given
    exact ⟨Number.isWhole_int _, Number.isWhole_int _⟩

theorem sumOf_moving_le {base : ℚ} {deduction bonus more : Nat} (le : bonus ≤ more) :
    sumOf base (recordedResults (asked net p w [moving deduction bonus])) ≤
      sumOf base (recordedResults (asked net p w [moving deduction more])) := by
  refine sumOf_mono le_rfl (.cons ⟨le_rfl, ?_⟩ .nil)
  show (Number.int bonus).value ≤ (Number.int more).value
  rw [Number.value_int, Number.value_int]
  exact_mod_cast le

theorem standard_accepted : ScoreBounds.check (.object []) = .valid .standard := rfl

/-- Bounds that reach beyond the scale. -/
def wideBounds : ScoreBounds := ⟨100, 0, .float (.ofInt 200)⟩

theorem wideBounds_accepted :
    ScoreBounds.check (.object [("max_score", .int 200)]) = .valid wideBounds := by
  have accepted : ((ScoreBounds.check (.object [("max_score", .int 200)])).orFail
      "ScoringSettings").toOption = some wideBounds := by decide +kernel
  exact Checked.orFail_eq_ok.1 (toOption_eq_some_iff.1 accepted)

end Scoring

end PackageRisk
