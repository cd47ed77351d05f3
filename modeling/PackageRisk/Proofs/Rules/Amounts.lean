import Mathlib.Algebra.BigOperators.Group.List.Basic
import PackageRisk.Proofs.Rules.Weights

/-!
# Amounts of risk

Risks are counted in quarters of a unit, so sums of them are sums of numbers (`Risk.amount_total`),
and their binary64 forms are exact as long as there are not too many quarters
(`Risk.toRat?_toBinary`). The tier of a risk is that of its amount (`Tier.ofRisk_eq`); a result that
deducts for it exists just when the tier deducts a number from zero on
(`RuleResult.deducting_eq_ok_iff`).
-/

namespace PackageRisk

namespace Risk

/-- The units of risk, of which one is four quarters. -/
def amount (r : Risk) : ℚ := r.quarters / 4

@[simp]
theorem amount_zero : amount zero = 0 := by
  simp [amount, zero]

@[simp]
theorem amount_add (a b : Risk) : (a + b).amount = a.amount + b.amount := by
  have quarters : (a + b).quarters = a.quarters + b.quarters := rfl
  rw [amount, quarters, Nat.cast_add, add_div]
  rfl

@[simp]
theorem amount_total (rs : List Risk) : (total rs).amount = (rs.map amount).sum := by
  induction rs with
  | nil => exact amount_zero
  | cons r rest ih =>
    have first : total (r :: rest) = r + total rest := rfl
    rw [first, amount_add, ih, List.map_cons, List.sum_cons]

@[simp]
theorem amount_one : amount one = 1 := by
  norm_num [amount, one]

@[simp]
theorem amount_one_times (n : Nat) : (one.times n).amount = n := by
  simp [amount, times, one]

@[simp]
theorem amount_half_times (n : Nat) : (half.times n).amount = n / 2 := by
  simp only [amount, times, half, Nat.cast_mul, Nat.cast_ofNat]
  ring

theorem quarters_total_le {rs : List Risk} {k : Nat} (bound : ∀ r ∈ rs, r.quarters ≤ k) :
    (total rs).quarters ≤ rs.length * k := by
  induction rs with
  | nil => exact Nat.zero_le _
  | cons r rest ih =>
    have sum : (total (r :: rest)).quarters = r.quarters + (total rest).quarters := rfl
    have first := bound r List.mem_cons_self
    have others := ih fun r' mem => bound r' (List.mem_cons_of_mem _ mem)
    rw [sum, List.length_cons, Nat.succ_mul]
    omega

theorem dvd_quarters_total {rs : List Risk} {k : Nat} (whole : ∀ r ∈ rs, k ∣ r.quarters) :
    k ∣ (total rs).quarters := by
  induction rs with
  | nil => exact Nat.dvd_zero k
  | cons r rest ih =>
    exact Nat.dvd_add (whole r List.mem_cons_self)
      (ih fun r' mem => whole r' (List.mem_cons_of_mem _ mem))

end Risk

/-- What counts nothing can be left out of a sum. -/
theorem sum_filter_of_zero {α : Type} {p : α → Bool} {amount : α → ℚ} {xs : List α}
    (zero : ∀ x ∈ xs, p x = false → amount x = 0) :
    ((xs.filter p).map amount).sum = (xs.map amount).sum := by
  induction xs with
  | nil => rfl
  | cons x rest ih =>
    have others := ih fun y mem => zero y (List.mem_cons_of_mem _ mem)
    cases kept : p x with
    | true => rw [List.filter_cons_of_pos kept, List.map_cons, List.map_cons, List.sum_cons,
        List.sum_cons, others]
    | false => rw [List.filter_cons_of_neg (Bool.not_eq_true _ ▸ kept), List.map_cons, List.sum_cons,
        zero x List.mem_cons_self kept, zero_add, others]

/-- The tier of an amount of risk. -/
def Tier.ofAmount (q : ℚ) : Tier :=
  if 3 ≤ q then .whole
  else if 2 ≤ q then .threeQuarters
  else if 1 ≤ q then .half
  else .nothing

theorem Tier.ofRisk_eq (r : Risk) : ofRisk r = ofAmount r.amount := by
  have units (k : Nat) : (k : ℚ) ≤ r.amount ↔ 4 * k ≤ r.quarters := by
    rw [Risk.amount, le_div_iff₀ (by norm_num), mul_comm]
    norm_cast
  have three := units 3
  have two := units 2
  have one := units 1
  push_cast at three two one
  simp only [ofRisk, ofAmount, three, two, one]

/-- One unit of risk deducts a half of the weight, also of one below zero. -/
theorem Tier.deduction_ofAmount_one : (ofAmount 1).deduction (.int (-4)) = .ok (.int (-2)) := by
  have tier : ofAmount 1 = .half := by
    norm_num [ofAmount]
  have floored : (Share.half.floorOf (.int (-4))).toOption = some (-2) := by decide +kernel
  rw [tier, deduction, Value.int, Share.floorOfValue_number,
    toOption_eq_some_iff.1 floored]
  rfl

/-- The half of a number below `2 ^ 53` has a binary64 form. -/
theorem Risk.toRat?_half_times {n : Nat} (lt : n < 2 ^ 53) :
    (half.times n).toBinary.toRat? = some (n / 2 : ℚ) := by
  have halved : ((n * 2 : Nat) : ℚ) / (4 : Nat) = n / 2 ^ 1 := by
    push_cast
    ring
  rw [← pow_one (2 : ℚ)]
  exact Binary64.toRat?_ofQuotient_of_halved lt (by norm_num) (by norm_num) halved

/-- A risk of fewer than `2 ^ 53` quarters has a binary64 form. -/
theorem Risk.toRat?_toBinary {r : Risk} (lt : r.quarters < 2 ^ 53) :
    r.toBinary.toRat? = some r.amount := by
  have quarters : (r.quarters : ℚ) / (4 : Nat) = r.quarters / 2 ^ 2 := by norm_num
  have amount : r.amount = r.quarters / 2 ^ 2 := by
    rw [amount]
    norm_num
  rw [amount]
  exact Binary64.toRat?_ofQuotient_of_halved lt (by norm_num) (by norm_num) quarters

/-- A result deducts what the tier of its risk deducts, if that can be read as a number from zero
on. -/
theorem RuleResult.deducting_eq_ok_iff {weight : Value} {risk : Risk} {details : Fields}
    {r : RuleResult} :
    deducting weight risk details = .ok r ↔
      ∃ d n, (Tier.ofRisk risk).deduction weight = .ok d ∧ Check.penalty d = .valid n ∧
        r = ⟨n, 0, details, (Tier.ofRisk risk).level⟩ := by
  simp only [deducting, bind_eq_ok, ofFault_eq_ok, Checked.orFail_eq_ok,
    Checked.inside_eq_valid]
  constructor
  · rintro ⟨d, taken, n, accepted, ⟨⟩⟩
    exact ⟨d, n, taken, accepted, rfl⟩
  · rintro ⟨d, n, taken, accepted, rfl⟩
    exact ⟨d, taken, n, accepted, rfl⟩

/-- A rule that is not disabled has the results of its own evaluation. -/
theorem Rule.evaluate_whileEnabled_eq_ok_iff {rule : Rule} {run : Package → Session RuleResult}
    {p : Package} {net : Network} {w : Workspace} {r : RuleResult} (enabled : rule.enabled = true)
    (evaluation : rule.evaluation = .whileEnabled run) :
    (rule.evaluate p net w).1 = .ok (.result r) ↔ (run p net w).1 = .ok r := by
  have runs : rule.evaluate p = (run p >>= fun r => Pure.pure (.result r)) := by
    unfold evaluate
    rw [evaluation, enabled]
    rfl
  rw [runs, Session.outcome_bind, bind_eq_ok]
  constructor
  · rintro ⟨r', result, same⟩
    cases same
    exact result
  · intro result
    exact ⟨r, result, rfl⟩

/-- So has one that needs nothing but the package. -/
theorem Rule.evaluate_pure_eq_ok_iff {kind name about : String} {weight : Value}
    {evaluate : Value → Package → Except Failure RuleResult} {p : Package} {net : Network}
    {w : Workspace} {r : RuleResult} :
    ((Rule.pure kind name about weight evaluate).evaluate p net w).1 = .ok (.result r) ↔
      evaluate weight p = .ok r := by
  rw [evaluate_whileEnabled_eq_ok_iff rfl rfl, Session.run_lift]

end PackageRisk
