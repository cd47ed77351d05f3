import PackageRisk.Proofs.Number.Monotone
import PackageRisk.Proofs.Rules.Standard

/-!
# Results within the weight of a rule

What a standard rule deducts, or gives as a bonus, is nothing, its weight or a part of it. So the
deduction and the bonus are between zero and the weight, and never both of them are more than zero
(`StandardRule.Runs.within`). Only two of the rules give a bonus, and one of them never deducts.
From a weight that has a binary64 form every risk can be deducted (`RuleResult.exists_deducting`).
-/

namespace PackageRisk

/-- A number from zero up to a rational. -/
def Number.Upto (n : Number) (q : ℚ) : Prop := ∃ r, n.Is r ∧ 0 ≤ r ∧ r ≤ q

/-- A number that is not negative and that stands for the same rational in binary64. -/
structure Number.IsWeight (n : Number) (q : ℚ) : Prop where
  value : n.Is q
  kept : n.IsKept
  nonneg : 0 ≤ q

theorem Number.Upto.value {n : Number} {q : ℚ} (upto : n.Upto q) : 0 ≤ n.value ∧ n.value ≤ q := by
  obtain ⟨r, is, bounds⟩ := upto
  rwa [is.value]

theorem Number.IsWeight.upto {n : Number} {q : ℚ} (isWeight : n.IsWeight q) : n.Upto q :=
  ⟨q, isWeight.value, isWeight.nonneg, le_rfl⟩

/-! ## What a tier deducts -/

theorem Share.floorOfValue_number {share : Share} {n : Number} :
    share.floorOfValue (.number n) = share.floorOf n := rfl

namespace Tier

variable {tier : Tier} {n d : Number} {q : ℚ}

theorem deduction_number (tier : Tier) :
    tier.deduction (.number n) = (tier.deductionOf n).map .number := by
  cases tier with
  | nothing => rfl
  | half =>
    rw [deduction, deductionOf, Share.floorOfValue_number]
    rcases Share.half.floorOf n <;> rfl
  | threeQuarters =>
    rw [deduction, deductionOf, Share.floorOfValue_number]
    rcases Share.threeQuarters.floorOf n <;> rfl
  | whole => rfl

/-- What a tier deducts from a weight: nothing, a part of it that is rounded down, or all of it. -/
inductive Takes (n : Number) : Tier → Number → Prop
  | nothing : Takes n .nothing 0
  | half {k : Int} (floored : Share.half.floorOf n = .ok k) : Takes n .half (.int k)
  | threeQuarters {k : Int} (floored : Share.threeQuarters.floorOf n = .ok k) :
      Takes n .threeQuarters (.int k)
  | whole : Takes n .whole n

theorem Takes.forall {P : Number → Prop} (takes : tier.Takes n d) (own : P n)
    (ints : ∀ k : Int, P (.int k)) : P d := by
  cases takes with
  | nothing => exact ints 0
  | half => exact ints _
  | threeQuarters => exact ints _
  | whole => exact own

theorem deductionOf_eq_ok_iff :
    tier.deductionOf n = .ok d ↔ tier.Takes n d := by
  have part {share : Share} (taken : (share.floorOf n).map Number.int = .ok d) :
      ∃ k, share.floorOf n = .ok k ∧ d = .int k := by
    rcases floored : share.floorOf n with e | k
    · rw [floored] at taken
      cases taken
    · rw [floored] at taken
      cases taken
      exact ⟨k, rfl, rfl⟩
  constructor
  · intro taken
    cases tier with
    | nothing =>
      cases taken
      exact .nothing
    | half =>
      obtain ⟨k, floored, rfl⟩ := part taken
      exact .half floored
    | threeQuarters =>
      obtain ⟨k, floored, rfl⟩ := part taken
      exact .threeQuarters floored
    | whole =>
      cases taken
      exact .whole
  · intro takes
    cases takes with
    | nothing => rfl
    | half floored =>
      rw [deductionOf, floored]
      rfl
    | threeQuarters floored =>
      rw [deductionOf, floored]
      rfl
    | whole => rfl

/-- What a tier deducts, from the two parts of a weight. -/
def amount (q half threeQuarters : ℚ) : Tier → ℚ
  | .nothing => 0
  | .half => half
  | .threeQuarters => threeQuarters
  | .whole => q

theorem amount_nonneg {h k : ℚ} (low : 0 ≤ h) (le : h ≤ k) (high : k ≤ q) (t : Tier) :
    0 ≤ amount q h k t := by
  cases t <;> simp only [amount] <;> linarith

/-- From the two parts of a weight that has a binary64 form every tier deducts its amount. -/
theorem exists_deductionOf (value : n.Is q) (nonneg : 0 ≤ q) (inRange : n.InRange) :
    ∃ h k : ℚ, 0 ≤ h ∧ h ≤ k ∧ k ≤ q ∧
      ∀ t : Tier, ∃ d, t.deductionOf n = .ok d ∧ d.Is (amount q h k t) := by
  obtain ⟨h, k, half, threeQuarters, low, le, high⟩ := Share.floorOf_ordered value nonneg inRange
  refine ⟨h, k, by exact_mod_cast low, by exact_mod_cast le, high, fun t => ?_⟩
  cases t with
  | nothing => exact ⟨_, deductionOf_eq_ok_iff.2 .nothing, rfl⟩
  | half => exact ⟨_, deductionOf_eq_ok_iff.2 (.half half), rfl⟩
  | threeQuarters => exact ⟨_, deductionOf_eq_ok_iff.2 (.threeQuarters threeQuarters), rfl⟩
  | whole => exact ⟨_, deductionOf_eq_ok_iff.2 .whole, value⟩

end Tier

/-- A part of a weight, rounded down, is at most the weight. -/
theorem Share.floorOf_upto {share : Share} {n : Number} {q : ℚ} {k : Int}
    (isWeight : n.IsWeight q) (floored : share.floorOf n = .ok k) : (Number.int k).Upto q := by
  have between := share.floorOf_between isWeight.value isWeight.kept isWeight.nonneg floored
  exact ⟨k, rfl, Int.cast_nonneg between.1, between.2⟩

/-- Without a binary64 form of a weight no part of it can be taken. -/
theorem Share.floorOf_ne_ok {share : Share} {n : Number} {k : Int} (outside : ¬n.InRange) :
    share.floorOf n ≠ .ok k := by
  rw [← Number.isSome_toBinary?_iff, Bool.not_eq_true, Option.isSome_eq_false_iff,
    Option.isNone_iff_eq_none] at outside
  rw [Share.floorOf, outside]
  exact nofun

/-! ## Results -/

namespace StandardRule

/-- The rules that may deduct. -/
def deducting : List StandardRule :=
  [.networkAccess, .hiddenCode, .installScripts, .publication, .signing]

/-- The rules that may give a bonus. -/
def rewarding : List StandardRule := [.signing, .billOfMaterials]

end StandardRule

/-- A deduction and a bonus between zero and a weight, of which one is zero, and of those only what
the rule may give. -/
structure RuleResult.Within (r : RuleResult) (rule : StandardRule) (weight : ℚ) : Prop where
  deduction : r.deduction.Upto weight
  bonus : r.bonus.Upto weight
  single : r.deduction.Is 0 ∨ r.bonus.Is 0
  deducts : rule ∉ StandardRule.deducting → r.deduction.Is 0
  rewards : rule ∉ StandardRule.rewarding → r.bonus.Is 0

namespace RuleResult

variable {rule : StandardRule} {n : Number} {q : ℚ} {r : RuleResult} {details : Fields}

theorem zero_is : (0 : Number).Is 0 := rfl

theorem Within.of_deduction (nonneg : 0 ≤ q) (upto : r.deduction.Upto q) (noBonus : r.bonus = 0)
    (may : rule ∈ StandardRule.deducting) : r.Within rule q := by
  have none : r.bonus.Is 0 := noBonus ▸ zero_is
  exact ⟨upto, ⟨0, none, le_rfl, nonneg⟩, .inr none, fun mayNot => absurd may mayNot, fun _ => none⟩

theorem Within.of_bonus (nonneg : 0 ≤ q) (noDeduction : r.deduction = 0) (upto : r.bonus.Upto q)
    (may : rule ∈ StandardRule.rewarding) : r.Within rule q := by
  have none : r.deduction.Is 0 := noDeduction ▸ zero_is
  exact ⟨⟨0, none, le_rfl, nonneg⟩, upto, .inl none, fun _ => none, fun mayNot => absurd may mayNot⟩

theorem Within.of_neutral (nonneg : 0 ≤ q) (noDeduction : r.deduction = 0)
    (noBonus : r.bonus = 0) : r.Within rule q := by
  have none : r.deduction.Is 0 := noDeduction ▸ zero_is
  have none' : r.bonus.Is 0 := noBonus ▸ zero_is
  exact ⟨⟨0, none, le_rfl, nonneg⟩, ⟨0, none', le_rfl, nonneg⟩, .inl none, fun _ => none,
    fun _ => none'⟩

theorem penalty_eq_valid {given : Number} :
    Check.penalty (.number n) = .valid given ↔ Number.le 0 n = true ∧ given = n := by
  unfold Check.penalty Check.bounded
  rw [Checked.andThen_eq_valid]
  constructor
  · rintro ⟨m, ⟨⟩, bounded⟩
    split_ifs at bounded with nonneg
    · cases bounded
      exact ⟨nonneg, rfl⟩
    · cases bounded
  · rintro ⟨nonneg, rfl⟩
    exact ⟨given, rfl, if_pos nonneg⟩

/-- A rule that deducts for a risk deducts what the tier of the risk says, and nothing else. -/
theorem deducting_eq_ok {risk : Risk} :
    deducting (.number n) risk details = .ok r ↔
      ∃ d, (Tier.ofRisk risk).deductionOf n = .ok d ∧ Number.le 0 d = true ∧
        r = ⟨d, 0, details, (Tier.ofRisk risk).level⟩ := by
  simp only [deducting, bind_eq_ok, ofFault_eq_ok, Tier.deduction_number, Checked.orFail_eq_ok,
    Checked.inside_eq_valid]
  rcases (Tier.ofRisk risk).deductionOf n with e | d
  · exact iff_of_false (by rintro ⟨_, ⟨⟩, -⟩) (by rintro ⟨_, ⟨⟩, -⟩)
  constructor
  · rintro ⟨_, ⟨⟩, given, accepted, ⟨⟩⟩
    obtain ⟨nonneg, rfl⟩ := penalty_eq_valid.1 accepted
    exact ⟨_, rfl, nonneg, rfl⟩
  · rintro ⟨_, ⟨⟩, nonneg, rfl⟩
    exact ⟨_, rfl, d, penalty_eq_valid.2 ⟨nonneg, rfl⟩, rfl⟩

theorem rewarding_eq_ok :
    rewarding (.number n) details = .ok r ↔
      Number.le 0 n = true ∧ r = ⟨0, n, details, .none⟩ := by
  simp only [rewarding, bind_eq_ok, Checked.orFail_eq_ok, Checked.inside_eq_valid]
  constructor
  · rintro ⟨bonus, accepted, ⟨⟩⟩
    obtain ⟨nonneg, rfl⟩ := penalty_eq_valid.1 accepted
    exact ⟨nonneg, rfl⟩
  · rintro ⟨nonneg, rfl⟩
    exact ⟨n, penalty_eq_valid.2 ⟨nonneg, rfl⟩, rfl⟩

/-- With a weight that has a binary64 form every risk can be deducted. -/
theorem exists_deducting (value : n.Is q) (nonneg : 0 ≤ q) (inRange : n.InRange)
    (risk : Risk) (details : Fields) : ∃ r, deducting (.number n) risk details = .ok r := by
  obtain ⟨h, k, low, le, high, amounts⟩ := Tier.exists_deductionOf value nonneg inRange
  obtain ⟨d, taken, isAmount⟩ := amounts (Tier.ofRisk risk)
  refine ⟨_, deducting_eq_ok.2 ⟨d, taken, ?_, rfl⟩⟩
  rw [zero_is.le_eq isAmount, decide_eq_true_eq]
  exact Tier.amount_nonneg low le high _

/-- A weight from zero on can be deducted at every tier if it has a binary64 form, and else as a
whole or not at all. -/
theorem exists_deducting_iff (value : n.Is q) (nonneg : 0 ≤ q) {risk : Risk} :
    (∃ r, deducting (.number n) risk details = .ok r) ↔
      n.InRange ∨ Tier.ofRisk risk ∈ [Tier.nothing, Tier.whole] := by
  constructor
  · rintro ⟨r, deducted⟩
    by_contra outside
    rw [not_or] at outside
    obtain ⟨d, taken, -, -⟩ := deducting_eq_ok.1 deducted
    rw [Tier.deductionOf_eq_ok_iff] at taken
    generalize Tier.ofRisk risk = tier at taken outside
    cases taken with
    | nothing => exact outside.2 (by decide)
    | half floored => exact Share.floorOf_ne_ok outside.1 floored
    | threeQuarters floored => exact Share.floorOf_ne_ok outside.1 floored
    | whole => exact outside.2 (by decide)
  · rintro (inRange | extreme)
    · exact exists_deducting value nonneg inRange risk details
    · simp only [deducting_eq_ok, Tier.deductionOf_eq_ok_iff]
      rw [List.mem_pair] at extreme
      obtain none | all := extreme
      · exact ⟨_, 0, none ▸ .nothing, rfl, rfl⟩
      · refine ⟨_, n, all ▸ .whole, ?_, rfl⟩
        rw [zero_is.le_eq value]
        exact decide_eq_true nonneg

/-- What a weight deducts at a tier is at most the weight. -/
theorem deductionOf_upto {tier : Tier} {d : Number} (isWeight : n.IsWeight q)
    (taken : tier.deductionOf n = .ok d) : d.Upto q := by
  cases Tier.deductionOf_eq_ok_iff.1 taken with
  | nothing => exact ⟨0, zero_is, le_rfl, isWeight.nonneg⟩
  | half floored => exact Share.floorOf_upto isWeight floored
  | threeQuarters floored => exact Share.floorOf_upto isWeight floored
  | whole => exact isWeight.upto

/-- How a standard rule comes to its result: it deducts for a risk, gives its weight or the half of
it as a bonus, or says nothing. -/
inductive Origin (n : Number) (rule : StandardRule) (r : RuleResult) : Prop
  | deducts (may : rule ∈ StandardRule.deducting) {risk : Risk} {details : Fields}
      (ends : deducting (.number n) risk details = .ok r)
  | rewards (may : rule ∈ StandardRule.rewarding) {details : Fields}
      (ends : rewarding (.number n) details = .ok r)
  | rewardsHalf (may : rule ∈ StandardRule.rewarding) {k : Int} {details : Fields}
      (floored : Share.half.floorOf n = .ok k) (ends : rewarding (.int k) details = .ok r)
  | nothing (noDeduction : r.deduction = 0) (noBonus : r.bonus = 0)

/-- What holds of a weight and of every number in the form of a whole one holds of the deduction and
of the bonus. -/
theorem Origin.forall {P : Number → Prop} (origin : Origin n rule r) (own : P n)
    (ints : ∀ k : Int, P (.int k)) : P r.deduction ∧ P r.bonus := by
  cases origin with
  | deducts may ends =>
    obtain ⟨d, taken, -, rfl⟩ := deducting_eq_ok.1 ends
    exact ⟨(Tier.deductionOf_eq_ok_iff.1 taken).forall own ints, ints 0⟩
  | rewards may ends =>
    obtain ⟨-, rfl⟩ := rewarding_eq_ok.1 ends
    exact ⟨ints 0, own⟩
  | rewardsHalf may floored ends =>
    obtain ⟨-, rfl⟩ := rewarding_eq_ok.1 ends
    exact ⟨ints 0, ints _⟩
  | nothing noDeduction noBonus => exact ⟨noDeduction ▸ ints 0, noBonus ▸ ints 0⟩

theorem Origin.within (origin : Origin n rule r) (isWeight : n.IsWeight q) : r.Within rule q := by
  cases origin with
  | deducts may ends =>
    obtain ⟨d, taken, -, rfl⟩ := deducting_eq_ok.1 ends
    exact .of_deduction isWeight.nonneg (deductionOf_upto isWeight taken) rfl may
  | rewards may ends =>
    obtain ⟨-, rfl⟩ := rewarding_eq_ok.1 ends
    exact .of_bonus isWeight.nonneg rfl isWeight.upto may
  | rewardsHalf may floored ends =>
    obtain ⟨-, rfl⟩ := rewarding_eq_ok.1 ends
    exact .of_bonus isWeight.nonneg rfl (Share.floorOf_upto isWeight floored) may
  | nothing noDeduction noBonus => exact .of_neutral isWeight.nonneg noDeduction noBonus

end RuleResult

/-! ## Rules -/

variable {n : Number} {q : ℚ} {r : RuleResult} {p : Package} {net : Network} {w : Workspace}

/-- What was found in a package decides the result of the rule about code that resists review. -/
theorem HiddenCode.conclude_of_evaluate {rule : HiddenCode}
    (ends : (rule.evaluate p net w).1 = .ok r) : ∃ s, conclude rule.weight p s = .ok r := by
  rw [HiddenCode.evaluate, Session.outcome_bind] at ends
  obtain ⟨size, -, ends⟩ := bind_eq_ok.1 ends
  rw [Session.outcome_bind] at ends
  obtain ⟨archive, -, ends⟩ := bind_eq_ok.1 ends
  rw [Session.run_lift] at ends
  exact ⟨_, ends⟩

namespace StandardRule

variable {rule : StandardRule} {options : Fields} {inspect : Inspector}

theorem Judges.origin {judge : Package → Except Failure RuleResult}
    (judges : rule.Judges n options judge) (ends : judge p = .ok r) : r.Origin n rule := by
  cases judges with
  | networkAccess made =>
    obtain ⟨found, -, ends⟩ := bind_eq_ok.1 ends
    rw [NetworkAccess.weight_ofOptions made] at ends
    exact .deducts (by decide) ends
  | installScripts => exact .deducts (by decide) ends
  | publication => exact .deducts (by decide) ends
  | signing =>
    unfold Signing.evaluate at ends
    dsimp only at ends
    split at ends
    · exact .rewards (by decide) ends
    · obtain ⟨k, floored, ends⟩ := bind_eq_ok.1 ends
      exact .rewardsHalf (by decide) (ofFault_eq_ok.1 floored) ends
    · exact .deducts (by decide) ends
  | billOfMaterials =>
    unfold BillOfMaterials.evaluate at ends
    dsimp only at ends
    split_ifs at ends
    · cases ends
      exact .nothing rfl rfl
    · exact .rewards (by decide) ends

theorem Runs.origin {run : Package → Session RuleResult} (runs : rule.Runs n options inspect run)
    (ends : (run p net w).1 = .ok r) : r.Origin n rule := by
  cases runs with
  | ofPackage judges => exact judges.origin (by simpa using ends)
  | ofArchive =>
    obtain ⟨s, ends⟩ := HiddenCode.conclude_of_evaluate ends
    exact .deducts (by decide) ends

/-- A standard rule evaluates packages within its weight. -/
theorem Runs.within {run : Package → Session RuleResult} (runs : rule.Runs n options inspect run)
    (isWeight : n.IsWeight q) (ends : (run p net w).1 = .ok r) : r.Within rule q :=
  (runs.origin ends).within isWeight

end StandardRule

end PackageRisk
