import PackageRisk.Proofs.Number.Share

/-!
# Rounding keeps the order

A positive quotient is rounded to the nearest multiple of the unit of its own exponent
(`roundedQuotient`). A larger quotient has no smaller exponent, and at one exponent significands
are rounded in order, so rounding is monotone (`roundedQuotient_mono`). It adds one unit at most,
which is small against all but the smallest quotients (`nearest_le`). Both together keep the parts
of a weight in order and below it, also where the weight itself is rounded
(`Share.floorOf_ordered`).
-/

namespace PackageRisk

theorem roundDiv_le_iff {num den k : Nat} (pos : 0 < den) :
    roundDiv num den ≤ k ↔
      2 * num < (2 * k + 1) * den ∨ 2 * num = (2 * k + 1) * den ∧ k % 2 = 0 := by
  have split := Nat.div_add_mod num den
  have less := Nat.mod_lt num pos
  have cross : (2 * k + 1) * den = 2 * (den * k) + den := by ring
  rw [cross]
  rcases Nat.lt_trichotomy (num / den) k with below | same | above
  · have step : den * (num / den) + den ≤ den * k := by
      rw [← Nat.mul_succ]
      exact Nat.mul_le_mul_left den below
    refine iff_of_true ?_ (.inl (by omega))
    unfold roundDiv
    dsimp only
    split_ifs <;> omega
  · rw [same] at split
    unfold roundDiv
    dsimp only
    rw [same]
    split_ifs <;> omega
  · have step : den * k + den ≤ den * (num / den) := by
      rw [← Nat.mul_succ]
      exact Nat.mul_le_mul_left den above
    refine iff_of_false ?_ (by omega)
    unfold roundDiv
    dsimp only
    split_ifs <;> omega

/-- Larger quotients are not rounded to less. -/
theorem roundDiv_mono {a b c d : Nat} (hb : 0 < b) (hd : 0 < d) (le : a * d ≤ c * b) :
    roundDiv a b ≤ roundDiv c d := by
  generalize rounded : roundDiv c d = k
  have cross : 2 * a * d ≤ 2 * c * b := by
    rw [Nat.mul_assoc, Nat.mul_assoc]
    exact Nat.mul_le_mul_left 2 le
  rw [roundDiv_le_iff hb]
  rcases (roundDiv_le_iff hd).1 rounded.le with below | ⟨tie, even⟩
  · refine .inl (lt_of_mul_lt_mul_right ?_ d.zero_le)
    calc 2 * a * d ≤ 2 * c * b := cross
      _ < (2 * k + 1) * d * b := Nat.mul_lt_mul_of_pos_right below hb
      _ = (2 * k + 1) * b * d := by ring
  · have upper : 2 * a ≤ (2 * k + 1) * b := by
      refine le_of_mul_le_mul_right ?_ hd
      calc 2 * a * d ≤ 2 * c * b := cross
        _ = (2 * k + 1) * b * d := by rw [tie]; ring
    exact upper.lt_or_eq.imp_right fun same => ⟨same, even⟩

namespace Binary64

variable {num den num' den' : Nat} {x : Binary64} {r v v' : ℚ} {z : Bool}

/-- What a positive quotient is rounded to, as long as it does not overflow. -/
def roundedQuotient (num den : Nat) : ℚ := significandOf num den * 2 ^ exponentFor num den

theorem roundedQuotient_nonneg : 0 ≤ roundedQuotient num den := by
  unfold roundedQuotient
  positivity

theorem quotient_pos (hn : 0 < num) (hd : 0 < den) : (0 : ℚ) < num / den := by
  have : (0 : ℚ) < num := by exact_mod_cast hn
  have : (0 : ℚ) < den := by exact_mod_cast hd
  positivity

/-- At one exponent larger quotients have no smaller significand. -/
theorem scaled_mono (hd : 0 < den) (hd' : 0 < den') (le : (num : ℚ) / den ≤ num' / den')
    (e : Int) :
    roundDiv (scaleBy num den e).1 (scaleBy num den e).2 ≤
      roundDiv (scaleBy num' den' e).1 (scaleBy num' den' e).2 := by
  have pos : (0 : ℚ) < (scaleBy num den e).2 := by exact_mod_cast scaleBy_pos hd e
  have pos' : (0 : ℚ) < (scaleBy num' den' e).2 := by exact_mod_cast scaleBy_pos hd' e
  have scaled : ((scaleBy num den e).1 : ℚ) / (scaleBy num den e).2 ≤
      (scaleBy num' den' e).1 / (scaleBy num' den' e).2 := by
    rw [scaleBy_eq, scaleBy_eq]
    gcongr
  rw [div_le_div_iff₀ pos pos'] at scaled
  exact roundDiv_mono (scaleBy_pos hd e) (scaleBy_pos hd' e) (by exact_mod_cast scaled)

theorem exponentFor_mono (hn : 0 < num) (hd : 0 < den) (hd' : 0 < den') (hn' : 0 < num')
    (le : (num : ℚ) / den ≤ num' / den') : exponentFor num den ≤ exponentFor num' den' := by
  rw [exponentFor_eq hn hd, exponentFor_eq hn' hd']
  have := Int.log_mono_right (b := 2) (quotient_pos hn hd) le
  omega

/-- Larger quotients are not rounded to less. -/
theorem roundedQuotient_mono (hn : 0 < num) (hd : 0 < den) (hn' : 0 < num') (hd' : 0 < den')
    (le : (num : ℚ) / den ≤ num' / den') :
    roundedQuotient num den ≤ roundedQuotient num' den' := by
  unfold roundedQuotient
  rcases (exponentFor_mono hn hd hd' hn' le).lt_or_eq with below | same
  · have leading : 2 ^ 52 ≤ significandOf num' den' :=
      le_significandOf hn' hd' ((le_max_exponentFor num den).trans_lt below)
    calc (significandOf num den : ℚ) * 2 ^ exponentFor num den
        ≤ (2 ^ 53 : Nat) * 2 ^ exponentFor num den := by
          gcongr
          exact significandOf_le hn hd
      _ = (2 ^ 52 : Nat) * 2 ^ (exponentFor num den + 1) := by
          rw [zpow_add_one₀ (by norm_num)]
          push_cast
          ring
      _ ≤ significandOf num' den' * 2 ^ exponentFor num' den' := by
          gcongr
          · norm_num
          · omega
  · unfold significandOf
    rw [same]
    gcongr
    exact scaled_mono hd hd' le _

/-- Rounding adds one unit of the last place at most. -/
theorem roundedQuotient_le (hd : 0 < den) :
    roundedQuotient num den ≤ num / den + 2 ^ exponentFor num den := by
  have pos : 0 < (scaleBy num den (exponentFor num den)).2 := scaleBy_pos hd _
  have below : significandOf num den ≤
      (scaleBy num den (exponentFor num den)).1 / (scaleBy num den (exponentFor num den)).2 + 1 :=
    roundDiv_le (Nat.lt_mul_of_div_lt (Nat.lt_succ_self _) pos).le
  have quotient : (significandOf num den : ℚ) ≤ num / den / 2 ^ exponentFor num den + 1 := by
    rw [← scaleBy_eq]
    have rounded : ((significandOf num den : Nat) : ℚ) ≤ ((_ + 1 : Nat) : ℚ) :=
      Nat.cast_le.2 below
    rw [Nat.cast_add_one] at rounded
    exact rounded.trans (by gcongr; exact Nat.cast_div_le)
  calc roundedQuotient num den
      ≤ (num / den / 2 ^ exponentFor num den + 1) * 2 ^ exponentFor num den := by
        unfold roundedQuotient
        gcongr
    _ = num / den + 2 ^ exponentFor num den := by
        rw [add_mul, one_mul, div_mul_cancel₀ _ (by positivity)]

/-- What a rational is rounded to, as long as it does not overflow. -/
def nearest (v : ℚ) : ℚ := roundedQuotient v.num.natAbs v.den

theorem nearest_nonneg : 0 ≤ nearest v := roundedQuotient_nonneg

theorem nearest_zero : nearest 0 = 0 := by
  have none : significandOf 0 1 = 0 := by decide +kernel
  rw [nearest, Rat.num_zero, Rat.den_zero, Int.natAbs_zero, roundedQuotient, none, Nat.cast_zero,
    zero_mul]

theorem natAbs_num_pos (pos : 0 < v) : 0 < v.num.natAbs :=
  Int.natAbs_pos.2 (Rat.num_ne_zero.2 pos.ne')

theorem nearest_mono (nonneg : 0 ≤ v) (le : v ≤ v') : nearest v ≤ nearest v' := by
  rcases nonneg.eq_or_lt with rfl | pos
  · rw [nearest_zero]
    exact nearest_nonneg
  · have pos' := pos.trans_le le
    refine roundedQuotient_mono (natAbs_num_pos pos) v.den_pos (natAbs_num_pos pos') v'.den_pos ?_
    rwa [natAbs_num_div_den nonneg, natAbs_num_div_den pos'.le]

/-- From one on rounding adds little. -/
theorem nearest_le (one : 1 ≤ v) : nearest v ≤ 17 / 16 * v := by
  have pos : 0 < v := by linarith
  have spelled := natAbs_num_div_den pos.le
  have above : minExponent < exponentFor v.num.natAbs v.den := by
    have log : 0 ≤ Int.log 2 v := by
      rw [← Int.zpow_le_iff_le_log (by norm_num) pos]
      simpa using one
    have least : minExponent = -1074 := rfl
    rw [exponentFor_eq (natAbs_num_pos pos) v.den_pos, spelled]
    omega
  have unit := bits_le_quotient (natAbs_num_pos pos) v.den_pos above
  have sum : roundedQuotient v.num.natAbs v.den ≤ _ := roundedQuotient_le v.den_pos
  rw [spelled] at unit sum
  have small : (2 : ℚ) ^ exponentFor v.num.natAbs v.den ≤ v / 16 := by
    have bits : (16 : ℚ) ≤ (2 ^ 52 : Nat) := by norm_num
    have units : (16 : ℚ) * 2 ^ exponentFor v.num.natAbs v.den ≤ v :=
      le_trans (by gcongr) unit
    linarith
  unfold nearest
  linarith

/-- A positive quotient below the limit is rounded to a finite number. -/
theorem toRat?_ofQuotient (hn : 0 < num) (hd : 0 < den) (lt : num < limit * den) :
    (ofQuotient false num den).toRat? = some (roundedQuotient num den) := by
  have finite := (isFinite_ofQuotient_iff hd false).2 lt
  rcases rounded : ofQuotient false num den with _ | s | ⟨s, m, e, form⟩
  · rw [rounded] at finite
    cases finite
  · rw [rounded] at finite
    cases finite
  · have value := toRat?_finite s form
    rw [← rounded, ofQuotient_of_ne_zero hn.ne', ← significandOf] at value
    have same := toRat?_ofRounded value
    rw [if_neg Bool.false_ne_true] at same
    rw [toRat?_finite, same]
    rfl

/-- A rational below the limit is rounded to a finite number. -/
theorem toRat?_ofRat (nonneg : 0 ≤ v) (lt : v < limit) :
    (ofRat v z).toRat? = some (nearest v) := by
  unfold ofRat
  split_ifs with zero
  · rw [toRat?_signedZero, zero, nearest_zero]
  · have pos : 0 < v := lt_of_le_of_ne nonneg (Ne.symm zero)
    rw [decide_eq_false (not_lt.2 nonneg)]
    rw [← natAbs_num_div_den nonneg, div_lt_iff₀ (by exact_mod_cast v.den_pos)] at lt
    exact toRat?_ofQuotient (natAbs_num_pos pos) v.den_pos (by exact_mod_cast lt)

theorem toRat?_ofInt_nonneg {k : Int} (nonneg : 0 ≤ k) (lt : k.natAbs < limit) :
    (ofInt k).toRat? = some (nearest k) := by
  have below : (k : ℚ) < limit := by
    have abs : ((k.natAbs : Int) : ℚ) < limit := by exact_mod_cast lt
    rwa [Int.natAbs_of_nonneg nonneg] at abs
  rw [← toRat?_ofRat (z := false) (Int.cast_nonneg nonneg) below]
  unfold ofInt ofRat
  split_ifs with zero
  · rw [Int.cast_eq_zero.1 zero]
    rfl
  · rw [Rat.num_intCast, Rat.den_intCast, decide_eq_false (not_lt.2 nonneg),
      decide_eq_false (not_lt.2 (Int.cast_nonneg nonneg))]

end Binary64

namespace Share

variable {share : Share} {weight : Number} {y : Binary64} {q x : ℚ}

theorem part_lt_limit (value : y.toRat? = some x) (nonneg : 0 ≤ x) :
    x * share.part < Binary64.limit :=
  calc x * share.part ≤ x := mul_le_of_le_one_right nonneg share.part_le_one
    _ ≤ |x| := le_abs_self x
    _ < Binary64.limit := Binary64.abs_lt_limit value

/-- A part of a weight in its binary64 form is rounded, and then rounded down. -/
theorem floorOf_eq (form : weight.toBinary? = some y) (value : y.toRat? = some x)
    (nonneg : 0 ≤ x) :
    share.floorOf weight = .ok (Binary64.nearest (x * share.part)).floor := by
  have product := Binary64.mul_eq_ofRat value share.toRat?_factor
  have rounded := (congrArg Binary64.toRat? product).trans
    (Binary64.toRat?_ofRat (mul_nonneg nonneg share.part_pos.le) (part_lt_limit value nonneg))
  unfold floorOf
  rw [form]
  dsimp only
  generalize y.mul share.factor = z at rounded
  split
  · cases rounded
  · rw [Binary64.floor?, rounded]
    rfl

/-- A part of a binary64 number does not get above it. -/
theorem nearest_part_le (value : y.toRat? = some x) (nonneg : 0 ≤ x) :
    Binary64.nearest (x * share.part) ≤ x := by
  have part : 0 ≤ x * share.part := mul_nonneg nonneg share.part_pos.le
  have rounded : (Binary64.ofRat (x * share.part) false).toRat? = _ :=
    Binary64.toRat?_ofRat part (part_lt_limit value nonneg)
  exact (Binary64.toRat?_ofRat_between value part
    (mul_le_of_le_one_right nonneg share.part_le_one) rounded).2

/-- A weight in its binary64 form may be above the weight itself, but three quarters of it, rounded
again, are not. -/
theorem nearest_threeQuarters_le {k : Int} (nonneg : 0 ≤ k) (lt : k.natAbs < Binary64.limit) :
    Binary64.nearest (Binary64.nearest k * threeQuarters.part) ≤ k := by
  have form := Binary64.toRat?_ofInt_nonneg nonneg lt
  rcases Nat.lt_or_ge k.natAbs (2 ^ 53) with small | large
  · have same : Binary64.nearest k = k :=
      Option.some.inj (form.symm.trans (Binary64.toRat?_ofInt small))
    rw [same] at form ⊢
    exact nearest_part_le form (Int.cast_nonneg nonneg)
  · have two : (2 : ℚ) ≤ k := by
      have : 2 ≤ k := by omega
      exact_mod_cast this
    have first : Binary64.nearest k ≤ 17 / 16 * k := Binary64.nearest_le (by linarith)
    have part : Binary64.nearest k * threeQuarters.part ≤ 51 / 64 * k := by
      unfold Share.part
      linarith
    calc Binary64.nearest (Binary64.nearest k * threeQuarters.part)
        ≤ Binary64.nearest (51 / 64 * k) :=
          Binary64.nearest_mono (mul_nonneg Binary64.nearest_nonneg threeQuarters.part_pos.le) part
      _ ≤ 17 / 16 * (51 / 64 * k) := Binary64.nearest_le (by linarith)
      _ ≤ k := by linarith

/-- A weight in its binary64 form, and that three quarters of it do not get above the weight. -/
theorem exists_form (value : weight.Is q) (nonneg : 0 ≤ q) (inRange : weight.InRange) :
    ∃ y x, weight.toBinary? = some y ∧ y.toRat? = some x ∧ 0 ≤ x ∧
      Binary64.nearest (x * threeQuarters.part) ≤ q := by
  rcases weight with k | y
  · rw [← Number.is_int.1 value] at nonneg ⊢
    have lt := inRange k rfl
    have nonneg : 0 ≤ k := by exact_mod_cast nonneg
    exact ⟨_, _, Number.toBinary?_int_eq_some_iff.2 ⟨lt, rfl⟩,
      Binary64.toRat?_ofInt_nonneg nonneg lt, Binary64.nearest_nonneg,
      nearest_threeQuarters_le nonneg lt⟩
  · have same := Number.is_float.1 value
    exact ⟨y, q, rfl, same, nonneg, nearest_part_le same nonneg⟩

/-- Of a weight that has a binary64 form both parts can be taken. The half of it is at most the
three quarters, and these are at most the weight. -/
theorem floorOf_ordered (value : weight.Is q) (nonneg : 0 ≤ q) (inRange : weight.InRange) :
    ∃ h t : Int, Share.half.floorOf weight = .ok h ∧ threeQuarters.floorOf weight = .ok t ∧
      0 ≤ h ∧ h ≤ t ∧ (t : ℚ) ≤ q := by
  obtain ⟨y, x, form, exact', nonneg', below⟩ := exists_form value nonneg inRange
  refine ⟨_, _, floorOf_eq form exact' nonneg', floorOf_eq form exact' nonneg', ?_, ?_, ?_⟩
  · exact Rat.le_floor_iff.2 (by simpa using Binary64.nearest_nonneg)
  · refine Rat.le_floor_iff.2 ((Rat.floor_le _).trans (Binary64.nearest_mono ?_ ?_))
    · exact mul_nonneg nonneg' Share.half.part_pos.le
    · exact mul_le_mul_of_nonneg_left (by norm_num [Share.part]) nonneg'
  · exact (Rat.floor_le _).trans below

end Share

end PackageRisk
