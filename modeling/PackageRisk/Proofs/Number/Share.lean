import PackageRisk.Proofs.Number.Order
import PackageRisk.Tier

/-!
# Parts of weights

A part of a weight is rounded twice: the product to binary64 and then down to a whole number. The
product is below the weight, which needs no rounding itself, so the rounded one does not get above
the weight (`toRat?_ofRat_between`), and neither does what is left when it is rounded down
(`floorOf_between`).
-/

namespace PackageRisk

namespace Binary64

variable {x y : Binary64} {m num den : Nat} {e : Int} {p q r v : ℚ} {s z : Bool}

theorem toRat?_ofParts (rounded : (ofParts s m e).toRat? = some r) :
    r = if s then -(m * 2 ^ e : ℚ) else m * 2 ^ e := by
  unfold ofParts at rounded
  split_ifs at rounded with form
  · rw [toRat?_finite] at rounded
    exact (Option.some.inj rounded).symm
  · cases rounded

/-- A significand that is carried over stands for the same number. -/
theorem toRat?_ofRounded (rounded : (ofRounded s m e).toRat? = some r) :
    r = if s then -(m * 2 ^ e : ℚ) else m * 2 ^ e := by
  unfold ofRounded at rounded
  split_ifs at rounded with carries
  · have carried : ((Nat.pow 2 52 : Nat) : ℚ) * 2 ^ (e + 1) = (Nat.pow 2 53 : Nat) * 2 ^ e := by
      rw [zpow_add_one₀ (by norm_num), Nat.pow_eq, Nat.pow_eq]
      push_cast
      ring
    rw [toRat?_ofParts rounded, carried, carries]
  · exact toRat?_ofParts rounded

/-- A quotient is not rounded to more than a number above it that needs no rounding. -/
theorem toRat?_ofQuotient_le (form : IsForm m e) (hn : 0 < num) (hd : 0 < den)
    (le : (num : ℚ) / den ≤ m * 2 ^ e) (rounded : (ofQuotient false num den).toRat? = some r) :
    0 ≤ r ∧ r ≤ m * 2 ^ e := by
  have npos : (0 : ℚ) < num / den := by
    have : (0 : ℚ) < num := by exact_mod_cast hn
    have : (0 : ℚ) < den := by exact_mod_cast hd
    positivity
  have mpos : 0 < m := by
    rcases Nat.eq_zero_or_pos m with rfl | pos
    · rw [Nat.cast_zero, zero_mul] at le
      exact absurd (npos.trans_le le) (lt_irrefl _)
    · exact pos
  -- the smaller number has the smaller exponent, so the other one is a multiple of its unit
  have lower : exponentFor num den ≤ e := by
    rw [exponentFor_eq hn hd, ← form.log_eq mpos]
    have := Int.log_mono_right (b := 2) npos le
    omega
  obtain ⟨k, hk⟩ := Int.eq_ofNat_of_zero_le (sub_nonneg.2 lower)
  have unit : (m : ℚ) * 2 ^ e = (m * 2 ^ k : Nat) * 2 ^ exponentFor num den := by
    rw [show e = k + exponentFor num den by omega, zpow_add₀ (by norm_num), zpow_natCast]
    push_cast
    ring
  have least : significandOf num den ≤ m * 2 ^ k :=
    roundDiv_le ((scaleBy_le_iff num hd _ _).2 (le.trans unit.le))
  rw [ofQuotient_of_ne_zero hn.ne', ← significandOf] at rounded
  rw [toRat?_ofRounded rounded, if_neg Bool.false_ne_true]
  refine ⟨by positivity, ?_⟩
  rw [unit]
  gcongr

theorem natAbs_num_div_den (nonneg : 0 ≤ v) : ((v.num.natAbs : Nat) : ℚ) / v.den = v := by
  rw [Nat.cast_natAbs, abs_of_nonneg (Rat.num_nonneg.2 nonneg), Rat.num_div_den]

theorem toRat?_ofRat_between (value : x.toRat? = some q) (nonneg : 0 ≤ v) (le : v ≤ q)
    (rounded : (ofRat v z).toRat? = some r) : 0 ≤ r ∧ r ≤ q := by
  unfold ofRat at rounded
  split_ifs at rounded with zero
  · rw [toRat?_signedZero] at rounded
    cases rounded
    exact ⟨le_rfl, nonneg.trans le⟩
  · have pos : 0 < v := lt_of_le_of_ne nonneg (Ne.symm zero)
    rcases x with _ | t | ⟨t, m, e, form⟩
    · cases value
    · cases value
    rw [toRat?_finite, Option.some.injEq] at value
    have magnitude : (0 : ℚ) ≤ m * 2 ^ e := by positivity
    have positive : t = false := by
      rw [← Bool.not_eq_true]
      rintro rfl
      rw [if_pos rfl] at value
      linarith
    rw [positive, if_neg Bool.false_ne_true] at value
    rw [decide_eq_false (not_lt.2 nonneg)] at rounded
    rw [← value]
    refine toRat?_ofQuotient_le form ?_ v.den_pos ?_ rounded
    · exact Int.natAbs_pos.2 (Rat.num_ne_zero.2 zero)
    · rwa [natAbs_num_div_den nonneg, value]

theorem mul_eq_ofRat (left : x.toRat? = some p) (right : y.toRat? = some q) :
    x.mul y = ofRat (p * q) (x.isNegative != y.isNegative) := by
  rcases x with _ | s | ⟨s, m, e, form⟩
  · cases left
  · cases left
  rcases y with _ | t | ⟨t, n, f, form'⟩
  · cases right
  · cases right
  rw [mul, left, right]
  rfl

end Binary64

namespace Share

variable {share : Share} {weight : Number} {q : ℚ} {n : Int}

/-- The part as a rational. -/
def part : Share → ℚ
  | .half => 1 / 2
  | .threeQuarters => 3 / 4

theorem toRat?_factor : (share : Share) → share.factor.toRat? = some share.part
  | .half => by decide +kernel
  | .threeQuarters => by decide +kernel

theorem part_pos : (share : Share) → 0 < share.part
  | .half => by norm_num [part]
  | .threeQuarters => by norm_num [part]

theorem part_le_one : (share : Share) → share.part ≤ 1
  | .half => by norm_num [part]
  | .threeQuarters => by norm_num [part]

/-- A part of a weight is between zero and the weight. -/
theorem floorOf_between (value : weight.Is q) (kept : weight.IsKept) (nonneg : 0 ≤ q)
    (taken : share.floorOf weight = .ok n) : 0 ≤ n ∧ (n : ℚ) ≤ q := by
  obtain ⟨x, form, same⟩ := kept
  have exact : x.toRat? = some q := Number.is_float.1 (same.trans value)
  unfold floorOf at taken
  rw [form] at taken
  dsimp only at taken
  rw [Binary64.mul_eq_ofRat exact share.toRat?_factor] at taken
  split at taken
  · cases taken
  · split at taken
    · next m floored =>
      cases taken
      obtain ⟨r, rounded, rfl⟩ := Option.map_eq_some_iff.1 floored
      have between := Binary64.toRat?_ofRat_between exact
        (mul_nonneg nonneg share.part_pos.le)
        (mul_le_of_le_one_right nonneg share.part_le_one) rounded
      exact ⟨Rat.le_floor_iff.2 (by simpa using between.1), (Rat.floor_le r).trans between.2⟩
    · cases taken

end Share

end PackageRisk
