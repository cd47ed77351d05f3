import PackageRisk.Proofs.Number.Tenths
import PackageRisk.Proofs.Rules.Amounts

/-!
# Reported risks

A report shows the risk that a rule found in tenths. A tier begins at a whole unit and risks are
counted in quarters, so what is rounded to tenths has the tier that it had (`Tier.ofAmount_tenth`).
That is so in exact numbers, in binary64 numbers (`Tier.ofNumber_roundTenths`) and for what rules
report (`Rule.Tiered.accounts`): none of them reports a risk beside the level of another.
-/

namespace PackageRisk

variable {n : Number} {x : Binary64} {q v a b : ℚ} {j k : Nat}

/-! ## Rounding to tenths -/

open Binary64 in
theorem exists_mul_ten (value : x.toRat? = some q) :
    ∃ z, x.mul (.ofInt 10) = ofRat (q * 10) z := by
  have ten : (ofInt 10).toRat? = some ((10 : Int) : ℚ) := toRat?_ofInt (by norm_num)
  rw [Int.cast_ofNat] at ten
  exact ⟨_, mul_eq_ofRat value ten⟩

open Binary64 in
/-- A binary64 number from zero on is multiplied by ten, rounded to the nearest whole number and
divided by ten again. -/
theorem exists_roundTenths_float (value : x.toRat? = some q) (nonneg : 0 ≤ q)
    (lt : 10 * q < limit) :
    ∃ k : Nat, roundTenths (.float x) = .ok (.ofQuotient false k 10) ∧
      IsNearest k (nearest (10 * q)) := by
  obtain ⟨z, scaled⟩ := exists_mul_ten value
  have form := congrArg toRat? scaled
  rw [mul_comm, toRat?_ofRat (by linarith) lt] at form
  obtain ⟨k, rounded, isNearest⟩ := exists_round? form nearest_nonneg
  refine ⟨k, ?_, isNearest⟩
  rw [roundTenths, rounded]
  dsimp only
  split_ifs with none
  · rw [Nat.cast_eq_zero.1 none]
    rfl
  · rw [decide_eq_false (by omega), Int.natAbs_natCast]

open Binary64 in
/-- Ten times the number must not be too large for that. -/
theorem roundTenths_float_ne_ok (value : x.toRat? = some q) (large : limit ≤ 10 * q)
    {y : Binary64} : roundTenths (.float x) ≠ .ok y := by
  obtain ⟨z, scaled⟩ := exists_mul_ten value
  have pos : 0 < q * 10 := by
    have : (0 : ℚ) < limit := by exact_mod_cast Nat.zero_lt_of_lt Number.two_pow_lt_limit
    linarith
  have reduced := natAbs_num_div_den pos.le
  have infinite : ofQuotient false (q * 10).num.natAbs (q * 10).den = .infinite false := by
    refine ofQuotient_of_limit_le (natAbs_num_pos pos) (Rat.den_pos _) ?_
    have above : (limit : ℚ) ≤ (q * 10).num.natAbs / (q * 10).den := by linarith
    rw [le_div_iff₀ (by exact_mod_cast Rat.den_pos _)] at above
    exact_mod_cast above
  rw [ofRat, if_neg pos.ne', decide_eq_false pos.le.not_gt, infinite] at scaled
  rw [roundTenths, scaled]
  intro kept
  cases kept

open Binary64 in
/-- A whole number from zero on has whole tenths, so just its binary64 form counts. -/
theorem roundTenths_int_eq_ok_iff {m : Nat} {y : Binary64} :
    roundTenths (.int m) = .ok y ↔ m < limit ∧ y = ofRat m false := by
  have cast : (((m : Int) : ℚ)) = m := Int.cast_natCast m
  unfold roundTenths
  dsimp only
  rw [cast]
  by_cases lt : m < limit
  · have form : (ofRat (m : ℚ) false).toRat? = _ :=
      toRat?_ofRat m.cast_nonneg (by exact_mod_cast lt)
    split
    · next infinite =>
      rw [infinite] at form
      cases form
    · rw [Except.ok.injEq, eq_comm]
      exact (and_iff_right lt).symm
  · have pos : 0 < m := (Nat.zero_lt_of_lt Number.two_pow_lt_limit).trans_le (not_lt.1 lt)
    have infinite : ofRat (m : ℚ) false = .infinite false := by
      rw [ofRat, if_neg (Nat.cast_ne_zero.2 pos.ne'), Rat.num_natCast, Rat.den_natCast,
        Int.natAbs_natCast, decide_eq_false (Nat.cast_nonneg m).not_gt]
      exact ofQuotient_of_limit_le pos Nat.one_pos (by omega)
    rw [infinite]
    refine iff_of_false (fun kept => ?_) fun h => lt h.1
    cases kept

/-! ## Tiers of rounded risks -/

namespace Tier

/-- Amounts that are on the same side of one, two and three units have the same tier. -/
theorem ofAmount_congr (same : ∀ T : Nat, T ≤ 3 → ((T : ℚ) ≤ a ↔ (T : ℚ) ≤ b)) :
    ofAmount a = ofAmount b := by
  have three := same 3 le_rfl
  have two := same 2 (by norm_num)
  have one := same 1 (by norm_num)
  push_cast at three two one
  simp only [ofAmount, three, two, one]

theorem ofNumber_eq (value : n.Is q) : ofNumber n = ofAmount q := by
  have three : Number.le 3 n = decide (3 ≤ q) := Number.Is.le_eq rfl value
  have two : Number.le 2 n = decide (2 ≤ q) := Number.Is.le_eq rfl value
  have one : Number.le 1 n = decide (1 ≤ q) := Number.Is.le_eq rfl value
  simp only [ofNumber, ofAmount, three, two, one, decide_eq_true_eq]

/-- Rounding to binary64 keeps the tier of what is not just below a whole number. -/
theorem ofAmount_nearest (nonneg : 0 ≤ v) (apart : ∀ T : Nat, v < T → v ≤ T - 1 / 16) :
    ofAmount (Binary64.nearest v) = ofAmount v :=
  ofAmount_congr fun T le => Binary64.le_nearest_iff (by omega) nonneg (apart T)

/-- The quotient of a number of tenths and ten has the tier of the tenths, also where it is not
exact or infinite. -/
theorem ofNumber_tenths (k : Nat) :
    ofNumber (.float (.ofQuotient false k 10)) = ofAmount (k / 10) := by
  rcases Nat.eq_zero_or_pos k with rfl | pos
  · rw [Nat.cast_zero, zero_div]
    exact ofNumber_eq (Number.is_float.2 (Binary64.toRat?_signedZero false))
  by_cases lt : k < Binary64.limit * 10
  · have form := Binary64.toRat?_ofQuotient pos (by norm_num) lt
    rw [Binary64.roundedQuotient_eq_nearest pos (by norm_num), Nat.cast_ofNat] at form
    rw [ofNumber_eq (Number.is_float.2 form)]
    refine ofAmount_nearest (by positivity) fun T below => ?_
    rw [div_lt_iff₀ (by norm_num)] at below
    have less : k < T * 10 := by exact_mod_cast below
    have le : ((k + 1 : Nat) : ℚ) ≤ ((T * 10 : Nat) : ℚ) := Nat.cast_le.2 less
    push_cast at le
    linarith
  · have large : (Binary64.limit : ℚ) * 10 ≤ k := by exact_mod_cast not_lt.1 lt
    have many : (2 : ℚ) ^ 53 < Binary64.limit := by exact_mod_cast Number.two_pow_lt_limit
    rw [Binary64.ofQuotient_of_limit_le pos (by norm_num) (not_lt.1 lt), ofAmount,
      if_pos (by linarith)]
    rfl

/-- Rounding a multiple of a quarter to tenths keeps its tier. -/
theorem ofAmount_tenth {k : Int} (quarters : q = j / 4) (nearest : IsNearest k (10 * q)) :
    ofAmount (k / 10) = ofAmount q := by
  refine ofAmount_congr fun T _ => nearest.tenth_iff (fun _ => by linarith) fun below => ?_
  have := quarters_le quarters below
  linarith

/-- So it does if ten times the multiple are rounded to binary64 first. -/
theorem ofAmount_tenth_of_nearest {k : Int} (quarters : q = j / 4)
    (nearest : IsNearest k (Binary64.nearest (10 * q))) : ofAmount (k / 10) = ofAmount q := by
  have nonneg : 0 ≤ q := quarters ▸ by positivity
  refine ofAmount_congr fun T le => nearest.tenth_iff (fun above => ?_) fun below => ?_
  · have kept : Binary64.nearest ((10 * T : Nat) : ℚ) = (10 * T : Nat) :=
      Binary64.nearest_natCast (by omega)
    push_cast at kept
    rw [← kept]
    exact Binary64.nearest_mono (by positivity) (by linarith)
  · have apart := quarters_le quarters below
    have pos : 0 < T := by
      have : (0 : ℚ) < T := nonneg.trans_lt below
      exact_mod_cast this
    have spelled : (10 * T - 5 / 2 : ℚ) = (20 * T - 5 : Nat) / 2 ^ 1 := by
      push_cast [Nat.cast_sub (show 5 ≤ 20 * T by omega)]
      ring
    have kept : Binary64.nearest (10 * T - 5 / 2) = 10 * T - 5 / 2 := by
      rw [spelled]
      exact Binary64.nearest_of_halved (by omega) (by norm_num)
    calc Binary64.nearest (10 * q) ≤ Binary64.nearest (10 * T - 5 / 2) :=
          Binary64.nearest_mono (by positivity) (by linarith)
      _ ≤ 10 * T - 2 := by
          rw [kept]
          linarith

/-- A number that stands for a multiple of a quarter has the tier of what it is rounded to. -/
theorem ofNumber_roundTenths (value : n.Is q) (quarters : q = j / 4)
    (rounded : roundTenths n = .ok x) : ofNumber (.float x) = ofNumber n := by
  have nonneg : 0 ≤ q := quarters ▸ by positivity
  rw [ofNumber_eq value]
  cases n with
  | int m =>
    obtain rfl := Number.is_int.1 value
    obtain ⟨m, rfl⟩ := Int.eq_ofNat_of_zero_le (show 0 ≤ m by exact_mod_cast nonneg)
    obtain ⟨lt, rfl⟩ := roundTenths_int_eq_ok_iff.1 rounded
    rw [Int.cast_natCast] at *
    rw [ofNumber_eq (Number.is_float.2 (Binary64.toRat?_ofRat nonneg (by exact_mod_cast lt)))]
    refine ofAmount_nearest nonneg fun T below => ?_
    have := quarters_le quarters below
    linarith
  | float y =>
    have form := Number.is_float.1 value
    by_cases lt : 10 * q < Binary64.limit
    · obtain ⟨k, same, isNearest⟩ := exists_roundTenths_float form nonneg lt
      rw [same] at rounded
      cases rounded
      rw [ofNumber_tenths]
      exact ofAmount_tenth_of_nearest quarters isNearest
    · exact absurd rounded (roundTenths_float_ne_ok form (not_lt.1 lt))

end Tier

/-- Of what is not too large the tenths can be taken. -/
theorem exists_roundTenths (value : n.Is q) (nonneg : 0 ≤ q) (lt : 10 * q < Binary64.limit) :
    ∃ x, roundTenths n = .ok x := by
  cases n with
  | int m =>
    obtain rfl := Number.is_int.1 value
    obtain ⟨m, rfl⟩ := Int.eq_ofNat_of_zero_le (show 0 ≤ m by exact_mod_cast nonneg)
    refine ⟨_, roundTenths_int_eq_ok_iff.2 ⟨?_, rfl⟩⟩
    rw [Int.cast_natCast] at lt nonneg
    have : (m : ℚ) < Binary64.limit := by linarith
    exact_mod_cast this
  | float y =>
    obtain ⟨k, rounded, -⟩ := exists_roundTenths_float (Number.is_float.1 value) nonneg lt
    exact ⟨_, rounded⟩

/-! ## What rules report -/

namespace Risk

variable (r : Risk)

/-- The number that a report shows for a risk. -/
def shownNumber : Number := .float (.ofQuotient false r.tenths 10)

theorem amount_nonneg : 0 ≤ r.amount := by
  unfold amount
  positivity

theorem isNearest_tenths : IsNearest r.tenths (10 * r.amount) := by
  have nearest := isNearest_roundDiv (r.quarters * 10) (by norm_num : 0 < 4)
  have same : ((r.quarters * 10 : Nat) : ℚ) / (4 : Nat) = 10 * r.amount := by
    rw [amount]
    push_cast
    ring
  exact same ▸ nearest

/-- A report does not show the number of another tier. -/
theorem ofNumber_shownNumber : Tier.ofNumber r.shownNumber = Tier.ofRisk r := by
  have same := Tier.ofAmount_tenth (q := r.amount) rfl r.isNearest_tenths
  rw [shownNumber, Tier.ofNumber_tenths, Tier.ofRisk_eq, ← same, Int.cast_natCast]

variable {r}

/-- It shows the binary64 form of the risk in tenths, if there are not too many quarters. -/
theorem roundTenths_toBinary (lt : r.quarters < 2 ^ 49) :
    (roundTenths (.float r.toBinary)).map Number.float = .ok r.shownNumber := by
  have kept : Binary64.nearest (10 * r.amount) = 10 * r.amount := by
    have spelled : 10 * r.amount = (10 * r.quarters : Nat) / 2 ^ 2 := by
      rw [amount]
      push_cast
      ring
    rw [spelled]
    exact Binary64.nearest_of_halved (by omega) (by norm_num)
  have small : 10 * r.amount < Binary64.limit := by
    have many : (2 : ℚ) ^ 53 < Binary64.limit := by exact_mod_cast Number.two_pow_lt_limit
    have few : (r.quarters : ℚ) < 2 ^ 49 := by exact_mod_cast lt
    rw [amount]
    linarith
  have form : r.toBinary.toRat? = some r.amount := toRat?_toBinary (lt.trans (by norm_num))
  obtain ⟨k, rounded, isNearest⟩ := exists_roundTenths_float form r.amount_nonneg small
  have same : k = r.tenths := by
    exact_mod_cast isNearest.unique (kept.symm ▸ r.isNearest_tenths)
  rw [rounded, same]
  rfl

end Risk

namespace RuleResult

variable {weight : Value} {r : RuleResult}

theorem details_rewarding {given : Value} {details : Fields}
    (ends : rewarding given details = .ok r) : r.details = details := by
  obtain ⟨bonus, -, same⟩ := bind_eq_ok.1 ends
  cases same
  rfl

/-- A result that deducts for a risk and reports it, or that reports no risk. -/
inductive Accounts (weight : Value) (r : RuleResult) : Prop
  | deducts {risk : Risk} {details : Fields} (ends : deducting weight risk details = .ok r)
      (reports : Fields.get? details "total_risk" = some risk.shown)
  | silent (silent : Fields.get? r.details "total_risk" = none)

/-- A reported risk has the level of the result, and its tier the deduction. -/
structure Agrees (weight : Value) (r : RuleResult) (reported : Number) : Prop where
  level : (Tier.ofNumber reported).level = r.level
  deduction : ∃ d, (Tier.ofNumber reported).deduction weight = .ok d ∧
    Check.penalty d = .valid r.deduction

theorem Accounts.agrees (accounts : r.Accounts weight) {v : Value}
    (reported : Fields.get? r.details "total_risk" = some v) :
    ∃ risk : Risk, v = .number risk.shownNumber ∧ r.Agrees weight risk.shownNumber := by
  cases accounts with
  | deducts ends reports =>
    obtain ⟨d, given, taken, accepted, rfl⟩ := deducting_eq_ok_iff.1 ends
    obtain rfl : Risk.shown _ = v := Option.some.inj (reports.symm.trans reported)
    refine ⟨_, rfl, ?_, d, ?_, accepted⟩
    · rw [Risk.ofNumber_shownNumber]
    · rw [Risk.ofNumber_shownNumber]
      exact taken
  | silent silent =>
    rw [silent] at reported
    cases reported

end RuleResult

/-- The rules that deduct for a risk. -/
inductive Rule.Tiered : Rule → Prop
  | networkAccess (rule : NetworkAccess) : Tiered rule.toRule
  | hiddenCode (rule : HiddenCode) : Tiered rule.toRule
  | installScripts (weight : Value) : Tiered (InstallScripts.rule weight)
  | publication (weight : Value) : Tiered (Publication.rule weight)
  | signing (weight : Value) : Tiered (Signing.rule weight)

theorem Rule.Tiered.accounts {rule : Rule} {p : Package} {net : Network} {w : Workspace}
    {r : RuleResult} (tiered : rule.Tiered)
    (ends : (rule.evaluate p net w).1 = .ok (.result r)) : r.Accounts rule.weight := by
  cases tiered with
  | networkAccess rule =>
    rw [NetworkAccess.toRule, evaluate_pure_eq_ok_iff] at ends
    obtain ⟨found, -, ends⟩ := bind_eq_ok.1 ends
    exact .deducts ends rfl
  | hiddenCode rule =>
    rw [HiddenCode.toRule, evaluate_whileEnabled_eq_ok_iff rfl rfl] at ends
    obtain ⟨s, ends⟩ := HiddenCode.conclude_of_evaluate ends
    exact .deducts ends rfl
  | installScripts weight =>
    rw [InstallScripts.rule, evaluate_pure_eq_ok_iff] at ends
    exact .deducts ends rfl
  | publication weight =>
    rw [Publication.rule, evaluate_pure_eq_ok_iff] at ends
    exact .deducts ends rfl
  | signing weight =>
    rw [Signing.rule, evaluate_pure_eq_ok_iff, Signing.evaluate] at ends
    split at ends
    · exact .silent (RuleResult.details_rewarding ends ▸ rfl)
    · obtain ⟨bonus, -, ends⟩ := bind_eq_ok.1 ends
      exact .silent (RuleResult.details_rewarding ends ▸ rfl)
    · exact .deducts ends rfl

/-- What is rounded to tenths has the tier that it had, so a weight deducts the same and the level is
the same. That is so for every multiple of a quarter from zero on in exact numbers, a tie going to
the even tenth, and for every number that stands for one, where the tenths can be taken. What a rule
reports is its risk in tenths, and the result has the level and the deduction of what is reported. -/
theorem reportedRisk_keeps_tier :
    (∀ (j : Nat) (k : Int), IsNearest k (10 * (j / 4 : ℚ)) →
      (∀ weight, (Tier.ofAmount (k / 10)).deduction weight =
        (Tier.ofAmount (j / 4)).deduction weight) ∧
      (Tier.ofAmount (k / 10)).level = (Tier.ofAmount (j / 4)).level) ∧
    (∀ (n : Number) (j : Nat), n.Is (j / 4) →
      (10 * (j / 4 : ℚ) < Binary64.limit → ∃ x, roundTenths n = .ok x) ∧
      ∀ x, roundTenths n = .ok x →
        (∀ weight, (Tier.ofNumber (.float x)).deduction weight =
          (Tier.ofNumber n).deduction weight) ∧
        (Tier.ofNumber (.float x)).level = (Tier.ofNumber n).level) ∧
    ∀ rule : Rule, rule.Tiered → ∀ (p : Package) (net : Network) (w : Workspace) (r : RuleResult),
      (rule.evaluate p net w).1 = .ok (.result r) →
      ∀ v, Fields.get? r.details "total_risk" = some v →
        ∃ risk : Risk, v = .number risk.shownNumber ∧
          (risk.quarters < 2 ^ 49 →
            (roundTenths (.float risk.toBinary)).map Number.float = .ok risk.shownNumber) ∧
          r.Agrees rule.weight risk.shownNumber := by
  refine ⟨fun j k nearest => ?_, fun n j value => ⟨fun lt => ?_, fun x rounded => ?_⟩, ?_⟩
  · have same : Tier.ofAmount (k / 10) = Tier.ofAmount (j / 4) := Tier.ofAmount_tenth rfl nearest
    rw [same]
    exact ⟨fun _ => rfl, rfl⟩
  · exact exists_roundTenths value (div_nonneg j.cast_nonneg (by norm_num)) lt
  · rw [Tier.ofNumber_roundTenths value rfl rounded]
    exact ⟨fun _ => rfl, rfl⟩
  · intro rule tiered p net w r ends v reported
    obtain ⟨risk, rfl, agrees⟩ := (tiered.accounts ends).agrees reported
    exact ⟨risk, rfl, Risk.roundTenths_toBinary, agrees⟩

/-- Eleven quarters are shown as twenty-eight tenths. A script that counts so much deducts three
quarters of the weight for the one as for the other. -/
theorem reportedRisk_keeps_tier_of_elevenQuarters :
    let n : Number := .float (.ofQuotient false 11 4)
    let shown : Binary64 := .ofQuotient false 28 10
    let p : Package :=
      { (default : Package) with scripts := [("install", .text "node a.js; curl $HOME")] }
    IsNearest 28 (10 * ((11 : Nat) / 4 : ℚ)) ∧ n.Is ((11 : Nat) / 4) ∧
      roundTenths n = .ok shown ∧
      (Tier.ofAmount ((28 : Int) / 10)).level = (Tier.ofAmount ((11 : Nat) / 4)).level ∧
      (Tier.ofNumber (.float shown)).level = (Tier.ofNumber n).level ∧
      ∃ r, ((InstallScripts.rule (.int 30)).evaluate p .unreachable bareWorkspace).1 =
          .ok (.result r) ∧
        Fields.get? r.details "total_risk" = some (.number (.float shown)) ∧
        r.deduction = .int 22 ∧ r.Agrees (.int 30) (.float shown) := by
  intro n shown p
  have nearest : IsNearest 28 (10 * ((11 : Nat) / 4 : ℚ)) :=
    ⟨by norm_num [abs_le], fun _ => by decide⟩
  have value : n.Is ((11 : Nat) / 4) := by
    rw [Number.is_float]
    decide +kernel
  have rounded : roundTenths n = .ok shown := by
    rw [← toOption_eq_some_iff]
    decide +kernel
  have counted : InstallScripts.risk p = ⟨11⟩ := by decide +kernel
  have taken : (Tier.ofRisk ⟨11⟩).deduction (.int 30) = .ok (.int 22) := by
    have floored : (Share.threeQuarters.floorOf (.int 30)).toOption = some 22 := by decide +kernel
    have tier : Tier.ofRisk ⟨11⟩ = .threeQuarters := by decide
    rw [tier, Tier.deduction, Value.int, Share.floorOfValue_number,
      toOption_eq_some_iff.1 floored]
    rfl
  obtain ⟨exact', binary, rules⟩ := reportedRisk_keeps_tier
  obtain ⟨r, ends, reports, deducts⟩ :
      ∃ r, ((InstallScripts.rule (.int 30)).evaluate p .unreachable bareWorkspace).1 =
          .ok (.result r) ∧
        Fields.get? r.details "total_risk" = some (.number (.float shown)) ∧
        r.deduction = .int 22 := by
    refine ⟨_, Rule.evaluate_pure_eq_ok_iff.2 (RuleResult.deducting_eq_ok_iff.2
      ⟨.int 22, .int 22, counted ▸ taken, rfl, rfl⟩), ?_, rfl⟩
    rw [counted]
    rfl
  obtain ⟨risk, same, -, agrees⟩ := rules _ (.installScripts (.int 30)) p _ _ r ends _ reports
  rw [← Value.number.inj same] at agrees
  exact ⟨nearest, value, rounded, (exact' 11 28 nearest).2, ((binary n 11 value).2 _ rounded).2,
    r, ends, reports, deducts, agrees⟩

end PackageRisk
