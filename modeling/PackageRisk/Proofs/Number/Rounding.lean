import Mathlib
import PackageRisk.Number.Basic

/-!
# Rounding to binary64

`Binary64.ofQuotient` takes its exponent from the binary logarithm of the quotient
(`exponentFor_eq`) and rounds the significand to nearest. So a quotient that some binary64
number stands for is kept as it is (`ofQuotient_eq_finite`), and what overflows is just what
is not below `limit`, half a step above the largest number (`isFinite_ofQuotient_iff`).
-/

namespace PackageRisk

theorem roundDiv_le {num den k : Nat} (h : num ≤ k * den) : roundDiv num den ≤ k := by
  rcases Nat.eq_zero_or_pos den with rfl | dpos
  · have none : num = 0 := by omega
    simp [roundDiv, none]
  have split := Nat.div_add_mod num den
  have le : num / den ≤ k := Nat.div_le_of_le_mul (by rwa [Nat.mul_comm])
  rcases Nat.eq_zero_or_pos (num % den) with zero | pos
  · simpa [roundDiv, zero, dpos] using le
  · have lt : num / den < k := by
      by_contra ge
      have := Nat.mul_le_mul_left den (Nat.le_of_not_lt ge)
      rw [Nat.mul_comm den k] at this
      omega
    unfold roundDiv
    dsimp only
    split_ifs <;> omega

theorem le_roundDiv {num den k : Nat} (pos : 0 < den) (h : k * den ≤ num) :
    k ≤ roundDiv num den := by
  have : k ≤ num / den := (Nat.le_div_iff_mul_le pos).2 h
  unfold roundDiv
  dsimp only
  split_ifs <;> omega

/-- Below half a step there is no rounding up, and an odd neighbour goes up at half a step. -/
theorem roundDiv_le_of_two_mul_lt {num den k : Nat} (h : 2 * num < (2 * k + 1) * den) :
    roundDiv num den ≤ k := by
  have split := Nat.div_add_mod num den
  have pos : 0 < den := by
    rcases Nat.eq_zero_or_pos den with rfl | pos
    · omega
    · exact pos
  have high : num / den ≤ k := by
    rw [← Nat.lt_succ_iff, Nat.div_lt_iff_lt_mul pos]
    linarith
  rcases Nat.lt_or_eq_of_le high with lt | eq
  · unfold roundDiv
    dsimp only
    split_ifs <;> omega
  · rw [eq, Nat.mul_comm] at split
    have half : 2 * (num % den) < den := by linarith
    unfold roundDiv
    dsimp only
    rw [if_pos half, eq]

theorem le_roundDiv_of_odd {num den k : Nat} (odd : k % 2 = 1) (pos : 0 < den)
    (h : (2 * k + 1) * den ≤ 2 * num) : k + 1 ≤ roundDiv num den := by
  have split := Nat.div_add_mod num den
  have less := Nat.mod_lt num pos
  have low : k ≤ num / den := by
    rw [Nat.le_div_iff_mul_le pos]
    linarith
  rcases Nat.lt_or_eq_of_le low with lt | eq
  · unfold roundDiv
    dsimp only
    split_ifs <;> omega
  · rw [← eq, Nat.mul_comm] at split
    have half : den ≤ 2 * (num % den) := by linarith
    unfold roundDiv
    dsimp only
    rw [← eq]
    split_ifs <;> omega

namespace Binary64

theorem scaleBy_pos {num den : Nat} (pos : 0 < den) (e : Int) : 0 < (scaleBy num den e).2 := by
  unfold scaleBy
  split
  · exact Nat.mul_pos pos (Nat.two_pow_pos _)
  · exact pos

theorem two_zpow_of_nonneg {e : Int} (h : 0 ≤ e) : (2 : ℚ) ^ e = 2 ^ e.toNat := by
  conv_lhs => rw [← Int.toNat_of_nonneg h]
  exact zpow_natCast 2 _

theorem two_zpow_of_neg {e : Int} (h : ¬0 ≤ e) : (2 : ℚ) ^ e = (2 ^ (-e).toNat)⁻¹ := by
  rw [← two_zpow_of_nonneg (by omega : 0 ≤ -e), zpow_neg, inv_inv]

theorem scaleBy_eq (num den : Nat) (e : Int) :
    ((scaleBy num den e).1 : ℚ) / (scaleBy num den e).2 = num / den / 2 ^ e := by
  unfold scaleBy
  split_ifs with h
  · rw [two_zpow_of_nonneg h, Nat.pow_eq]
    push_cast
    rw [div_mul_eq_div_div]
  · rw [two_zpow_of_neg h, Nat.pow_eq]
    push_cast
    rw [div_inv_eq_mul, mul_div_right_comm]

/-- Multiples of the scaled quotient compare as those of the quotient itself. -/
theorem le_mul_scaleBy_iff (num : Nat) {den : Nat} (pos : 0 < den) (e : Int) (a k : Nat) :
    k * (scaleBy num den e).2 ≤ a * (scaleBy num den e).1 ↔
      (k : ℚ) * 2 ^ e ≤ a * (num / den) := by
  have dpos : (0 : ℚ) < (scaleBy num den e).2 := by exact_mod_cast scaleBy_pos pos e
  rw [← le_div_iff₀ (zpow_pos (by norm_num) e), mul_div_assoc, ← scaleBy_eq, ← mul_div_assoc,
    le_div_iff₀ dpos]
  exact_mod_cast Iff.rfl

theorem le_scaleBy_iff (num : Nat) {den : Nat} (pos : 0 < den) (e : Int) (k : Nat) :
    k * (scaleBy num den e).2 ≤ (scaleBy num den e).1 ↔ (k : ℚ) * 2 ^ e ≤ num / den := by
  simpa only [Nat.one_mul, Nat.cast_one, one_mul] using le_mul_scaleBy_iff num pos e 1 k

theorem scaleBy_le_iff (num : Nat) {den : Nat} (pos : 0 < den) (e : Int) (k : Nat) :
    (scaleBy num den e).1 ≤ k * (scaleBy num den e).2 ↔ (num : ℚ) / den ≤ k * 2 ^ e := by
  have dpos : (0 : ℚ) < (scaleBy num den e).2 := by exact_mod_cast scaleBy_pos pos e
  rw [← div_le_iff₀ (zpow_pos (by norm_num) e), ← scaleBy_eq, div_le_iff₀ dpos]
  exact_mod_cast Iff.rfl

section Logarithm

variable {num den : Nat}

theorem le_log_quotient (hn : 0 < num) (hd : 0 < den) :
    (Nat.log2 num : Int) - Nat.log2 den - 1 ≤ Int.log 2 ((num : ℚ) / den) := by
  have npos : (0 : ℚ) < num := by exact_mod_cast hn
  have dpos : (0 : ℚ) < den := by exact_mod_cast hd
  rw [← Int.zpow_le_iff_le_log (by norm_num) (div_pos npos dpos), le_div_iff₀ dpos]
  have low : (2 : ℚ) ^ Nat.log2 num ≤ num := by exact_mod_cast Nat.log2_self_le hn.ne'
  have high : (den : ℚ) ≤ 2 ^ (Nat.log2 den + 1) := by
    exact_mod_cast (Nat.lt_log2_self (n := den)).le
  calc ((2 : ℕ) : ℚ) ^ ((Nat.log2 num : Int) - Nat.log2 den - 1) * den
      ≤ (2 : ℚ) ^ ((Nat.log2 num : Int) - Nat.log2 den - 1) * 2 ^ (Nat.log2 den + 1) := by
        push_cast
        gcongr
    _ = (2 : ℚ) ^ Nat.log2 num := by
        rw [← zpow_natCast, ← zpow_natCast, ← zpow_add₀ (by norm_num)]
        congr 1
        push_cast
        ring
    _ ≤ num := low

theorem log_quotient_le (hn : 0 < num) (hd : 0 < den) :
    Int.log 2 ((num : ℚ) / den) ≤ (Nat.log2 num : Int) - Nat.log2 den := by
  have npos : (0 : ℚ) < num := by exact_mod_cast hn
  have dpos : (0 : ℚ) < den := by exact_mod_cast hd
  have low : (2 : ℚ) ^ Nat.log2 den ≤ den := by exact_mod_cast Nat.log2_self_le hd.ne'
  have high : (num : ℚ) < 2 ^ (Nat.log2 num + 1) := by
    exact_mod_cast Nat.lt_log2_self (n := num)
  have : Int.log 2 ((num : ℚ) / den) < (Nat.log2 num : Int) - Nat.log2 den + 1 := by
    rw [← Int.lt_zpow_iff_log_lt (by norm_num) (div_pos npos dpos), div_lt_iff₀ dpos]
    calc (num : ℚ) < 2 ^ (Nat.log2 num + 1) := high
      _ = (2 : ℚ) ^ ((Nat.log2 num : Int) - Nat.log2 den + 1) * 2 ^ Nat.log2 den := by
        rw [← zpow_natCast, ← zpow_natCast, ← zpow_add₀ (by norm_num)]
        congr 1
        push_cast
        ring
      _ ≤ ((2 : ℕ) : ℚ) ^ ((Nat.log2 num : Int) - Nat.log2 den + 1) * den := by
        push_cast
        gcongr
  omega

/-- The exponent puts the leading bit of the quotient at the 53rd place of the significand. -/
theorem exponentFor_eq (hn : 0 < num) (hd : 0 < den) :
    exponentFor num den = max minExponent (Int.log 2 ((num : ℚ) / den) - 52) := by
  have low := le_log_quotient hn hd
  have high := log_quotient_le hn hd
  have npos : (0 : ℚ) < num := by exact_mod_cast hn
  have dpos : (0 : ℚ) < den := by exact_mod_cast hd
  have test := le_scaleBy_iff num hd ((Nat.log2 num : Int) - Nat.log2 den - 53) (2 ^ 53)
  have shift : ((2 ^ 53 : ℕ) : ℚ) * 2 ^ ((Nat.log2 num : Int) - Nat.log2 den - 53) =
      ((2 : ℕ) : ℚ) ^ ((Nat.log2 num : Int) - Nat.log2 den) := by
    rw [Nat.cast_pow, ← zpow_natCast, Nat.cast_ofNat, ← zpow_add₀ (by norm_num)]
    congr 1
    push_cast
    ring
  rw [shift, Nat.mul_comm, Int.zpow_le_iff_le_log (by norm_num) (div_pos npos dpos)] at test
  unfold exponentFor
  dsimp only
  split_ifs with h
  · have := test.1 h
    congr 1
    omega
  · have := mt test.2 h
    congr 1
    omega

end Logarithm

/-! ## Quotients that have a binary64 number -/

theorem IsForm.log_eq {m : Nat} {e : Int} (form : IsForm m e) (pos : 0 < m) :
    max minExponent (Int.log 2 ((m : ℚ) * 2 ^ e) - 52) = e := by
  have mpos : (0 : ℚ) < m := by exact_mod_cast pos
  have qpos : (0 : ℚ) < m * 2 ^ e := by positivity
  have high : Int.log 2 ((m : ℚ) * 2 ^ e) < 53 + e := by
    rw [← Int.lt_zpow_iff_log_lt (by norm_num) qpos, Nat.cast_ofNat, zpow_add₀ (by norm_num)]
    have : (m : ℚ) < 2 ^ (53 : Int) := by exact_mod_cast form.lt_bits
    gcongr
  rcases form.leading with least | leading
  · omega
  · have low : 52 + e ≤ Int.log 2 ((m : ℚ) * 2 ^ e) := by
      rw [← Int.zpow_le_iff_le_log (by norm_num) qpos, Nat.cast_ofNat,
        zpow_add₀ (by norm_num)]
      have : (2 : ℚ) ^ (52 : Int) ≤ m := by exact_mod_cast leading
      gcongr
    have := form.min_le
    omega

theorem ofQuotient_of_ne_zero {num : Nat} (h : num ≠ 0) (negative : Bool) (den : Nat) :
    ofQuotient negative num den =
      ofRounded negative (roundDiv (scaleBy num den (exponentFor num den)).1
        (scaleBy num den (exponentFor num den)).2) (exponentFor num den) := by
  rw [ofQuotient, if_neg h]

/-- A quotient that a number in its form stands for is kept. -/
theorem ofQuotient_eq_finite {m num den : Nat} {e : Int} (form : IsForm m e) (pos : 0 < m)
    (hd : 0 < den) (eq : (num : ℚ) / den = m * 2 ^ e) (negative : Bool) :
    ofQuotient negative num den = .finite negative m e form := by
  have mpos : (0 : ℚ) < m := by exact_mod_cast pos
  have npos : num ≠ 0 := by
    rintro rfl
    have : (0 : ℚ) < m * 2 ^ e := by positivity
    simp [← eq] at this
  have exponent : exponentFor num den = e := by
    rw [exponentFor_eq (Nat.pos_of_ne_zero npos) hd, eq, form.log_eq pos]
  have rounded : roundDiv (scaleBy num den e).1 (scaleBy num den e).2 = m := by
    apply Nat.le_antisymm
    · exact roundDiv_le ((scaleBy_le_iff num hd e m).2 eq.le)
    · exact le_roundDiv (scaleBy_pos hd e) ((le_scaleBy_iff num hd e m).2 eq.ge)
  rw [ofQuotient_of_ne_zero npos, exponent, rounded, ofRounded, if_neg form.lt_bits.ne, ofParts,
    dif_pos form]

/-! ## Quotients within the range -/

theorem isFinite_ofParts_iff {m : Nat} {e : Int} {negative : Bool} :
    (ofParts negative m e).isFinite = true ↔ IsForm m e := by
  unfold ofParts
  split_ifs with form <;> simp [isFinite, form]

/-- What is not below this rounds to infinity. -/
def limit : Nat := 2 ^ 1024 - 2 ^ 970

theorem limit_eq : (limit : ℚ) = (2 * (2 ^ 53 - 1 : Nat) + 1 : Nat) * 2 ^ (maxExponent - 1) := by
  have split : limit = (2 * (2 ^ 53 - 1) + 1) * 2 ^ 970 := by decide +kernel
  have exponent : maxExponent - 1 = (970 : Nat) := rfl
  rw [split, exponent, zpow_natCast, Nat.cast_mul, Nat.cast_pow, Nat.cast_ofNat]

section Range

variable {num den : Nat}

/-- A quotient is below `2 ^ 53` in units of its exponent, and not below `2 ^ 52` unless the
exponent is the smallest one. -/
theorem quotient_lt_bits (hn : 0 < num) (hd : 0 < den) :
    (num : ℚ) / den < (2 ^ 53 : Nat) * 2 ^ exponentFor num den := by
  have npos : (0 : ℚ) < num := by exact_mod_cast hn
  have dpos : (0 : ℚ) < den := by exact_mod_cast hd
  rw [exponentFor_eq hn hd, Nat.cast_pow, ← zpow_natCast, Nat.cast_ofNat,
    ← zpow_add₀ (by norm_num), ← Nat.cast_ofNat,
    Int.lt_zpow_iff_log_lt (by norm_num) (div_pos npos dpos)]
  push_cast
  omega

theorem bits_le_quotient (hn : 0 < num) (hd : 0 < den)
    (above : minExponent < exponentFor num den) :
    ((2 ^ 52 : Nat) : ℚ) * 2 ^ exponentFor num den ≤ num / den := by
  have npos : (0 : ℚ) < num := by exact_mod_cast hn
  have dpos : (0 : ℚ) < den := by exact_mod_cast hd
  rw [exponentFor_eq hn hd] at above ⊢
  rw [Nat.cast_pow, ← zpow_natCast, Nat.cast_ofNat, ← zpow_add₀ (by norm_num),
    ← Nat.cast_ofNat, Int.zpow_le_iff_le_log (by norm_num) (div_pos npos dpos)]
  push_cast
  omega

theorem exponentFor_le_max (hn : 0 < num) (hd : 0 < den) (lt : (num : ℚ) / den < limit) :
    exponentFor num den ≤ maxExponent := by
  by_contra above
  have low := bits_le_quotient hn hd (lt_trans (by decide) (not_le.1 above))
  have step : (maxExponent - 1) + 2 ≤ exponentFor num den := by omega
  have : (limit : ℚ) ≤ (2 ^ 52 : Nat) * 2 ^ exponentFor num den :=
    calc (limit : ℚ) ≤ (2 ^ 52 : Nat) * 2 ^ ((maxExponent - 1) + 2) := by
          rw [limit_eq, zpow_add₀ (by norm_num)]
          norm_num
          linarith [zpow_pos (by norm_num : (0 : ℚ) < 2) (maxExponent - 1)]
      _ ≤ (2 ^ 52 : Nat) * 2 ^ exponentFor num den := by
          gcongr
          norm_num
  exact absurd (this.trans low) (not_le.2 lt)

theorem max_le_exponentFor (hn : 0 < num) (hd : 0 < den) (le : (limit : ℚ) ≤ num / den) :
    maxExponent ≤ exponentFor num den := by
  by_contra below
  have high := quotient_lt_bits hn hd
  have step : exponentFor num den ≤ maxExponent - 1 := by omega
  have : ((2 ^ 53 : Nat) : ℚ) * 2 ^ exponentFor num den ≤ limit :=
    calc ((2 ^ 53 : Nat) : ℚ) * 2 ^ exponentFor num den
        ≤ (2 ^ 53 : Nat) * 2 ^ (maxExponent - 1) := by
          gcongr
          norm_num
      _ ≤ limit := by
          rw [limit_eq]
          gcongr
          norm_num
  exact absurd (high.trans_le this) (not_lt.2 le)

theorem le_max_exponentFor (num den : Nat) : minExponent ≤ exponentFor num den :=
  le_max_left _ _

/-- The rounded significand of a quotient, before a carry. -/
def significandOf (num den : Nat) : Nat :=
  roundDiv (scaleBy num den (exponentFor num den)).1 (scaleBy num den (exponentFor num den)).2

theorem significandOf_le (hn : 0 < num) (hd : 0 < den) : significandOf num den ≤ 2 ^ 53 := by
  apply roundDiv_le
  exact (scaleBy_le_iff num hd _ (2 ^ 53)).2 (quotient_lt_bits hn hd).le

theorem le_significandOf (hn : 0 < num) (hd : 0 < den)
    (above : minExponent < exponentFor num den) : 2 ^ 52 ≤ significandOf num den := by
  apply le_roundDiv (scaleBy_pos hd _)
  exact (le_scaleBy_iff num hd _ (2 ^ 52)).2 (bits_le_quotient hn hd above)

/-- With the largest exponent the limit is half a step above the largest significand. -/
theorem significandOf_carries_iff (hn : 0 < num) (hd : 0 < den)
    (top : exponentFor num den = maxExponent) :
    significandOf num den = 2 ^ 53 ↔ (limit : ℚ) ≤ num / den := by
  have half := le_mul_scaleBy_iff num hd (exponentFor num den) 2 (2 * (2 ^ 53 - 1) + 1)
  have unit : ((2 * (2 ^ 53 - 1 : Nat) + 1 : Nat) : ℚ) * 2 ^ exponentFor num den = 2 * limit := by
    rw [limit_eq, top, zpow_sub_one₀ (by norm_num)]
    ring
  rw [unit, Nat.cast_ofNat, mul_le_mul_iff_right₀ (by norm_num)] at half
  rw [← half]
  constructor
  · intro carries
    by_contra below
    have := roundDiv_le_of_two_mul_lt (not_le.1 below)
    rw [← significandOf, carries] at this
    omega
  · intro above
    refine Nat.le_antisymm (significandOf_le hn hd) ?_
    exact le_roundDiv_of_odd (by decide +kernel) (scaleBy_pos hd _) above

/-- What overflows is just what is not below the limit. -/
theorem isFinite_ofQuotient_iff (hd : 0 < den) (negative : Bool) :
    (ofQuotient negative num den).isFinite = true ↔ num < limit * den := by
  have cross : num < limit * den ↔ (num : ℚ) / den < limit := by
    rw [div_lt_iff₀ (by exact_mod_cast hd)]
    exact_mod_cast Iff.rfl
  rcases Nat.eq_zero_or_pos num with rfl | hn
  · have : 0 < limit * den := Nat.mul_pos (by decide +kernel) hd
    simp [ofQuotient, isFinite, signedZero, this]
  rw [cross, ofQuotient_of_ne_zero hn.ne', ← significandOf, ofRounded]
  have least := le_max_exponentFor num den
  have upper := significandOf_le hn hd
  constructor
  · intro finite
    by_contra above
    have most := max_le_exponentFor hn hd (not_lt.1 above)
    split_ifs at finite with carries
    · have := (isFinite_ofParts_iff.1 finite).le_max
      omega
    · have form := isFinite_ofParts_iff.1 finite
      exact carries ((significandOf_carries_iff hn hd (by have := form.le_max; omega)).2
        (not_lt.1 above))
  · intro below
    have most := exponentFor_le_max hn hd below
    split_ifs with carries
    · have : exponentFor num den ≠ maxExponent := fun top =>
        absurd ((significandOf_carries_iff hn hd top).1 carries) (not_le.2 below)
      exact isFinite_ofParts_iff.2 ⟨by norm_num, by omega, by omega, .inr (by norm_num)⟩
    · have leading : minExponent < exponentFor num den → 2 ^ 52 ≤ significandOf num den :=
        le_significandOf hn hd
      exact isFinite_ofParts_iff.2 ⟨lt_of_le_of_ne upper carries, least, most,
        (eq_or_lt_of_le least).imp Eq.symm leading⟩

end Range

end Binary64

end PackageRisk
