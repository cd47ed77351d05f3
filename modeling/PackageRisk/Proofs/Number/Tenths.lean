import PackageRisk.Proofs.Number.Monotone

/-!
# Rounding to tenths

A binary64 number is rounded to the nearest whole number, a tie to the even one (`IsNearest`), and
no rounding crosses a number that is kept. So a multiple of a quarter that is rounded to tenths
stays on its side of every whole number (`IsNearest.tenth_iff`, `quarters_le`).
-/

namespace PackageRisk

variable {q v : ℚ} {j k T num den : Nat}

/-- A whole number nearest to another number, the even one of two. -/
structure IsNearest (k : Int) (q : ℚ) : Prop where
  near : |q - k| ≤ 1 / 2
  even : |q - k| = 1 / 2 → Even k

namespace IsNearest

theorem le_of_le {k c : Int} (nearest : IsNearest k q) (le : (c : ℚ) ≤ q) : c ≤ k := by
  have upper := (abs_le.1 nearest.near).2
  have lt : (c : ℚ) < k + 1 := by linarith
  have : c < k + 1 := by exact_mod_cast lt
  omega

theorem ge_of_ge {k c : Int} (nearest : IsNearest k q) (ge : q ≤ c) : k ≤ c := by
  have lower := (abs_le.1 nearest.near).1
  have lt : (k : ℚ) < c + 1 := by linarith
  have : k < c + 1 := by exact_mod_cast lt
  omega

/-- Of two numbers that were nearest just one would be even. -/
theorem mono {k k' : Int} (nearest : IsNearest k q) (nearest' : IsNearest k' v) (le : q ≤ v) :
    k ≤ k' := by
  by_contra below
  have low := abs_le.1 nearest'.near
  have high := abs_le.1 nearest.near
  have step : (k' : ℚ) + 1 ≤ k := by
    have : k' + 1 ≤ k := by omega
    exact_mod_cast this
  have tie : v - k' = 1 / 2 := by linarith
  have tie' : q - k = -(1 / 2) := by linarith
  have even := nearest'.even (by rw [tie]; norm_num)
  have even' := nearest.even (by rw [tie']; norm_num)
  have next : k = k' + 1 := by
    have : (k : ℚ) = k' + 1 := by linarith
    exact_mod_cast this
  rw [Int.even_iff] at even even'
  omega

theorem unique {k k' : Int} (nearest : IsNearest k q) (nearest' : IsNearest k' q) : k = k' :=
  le_antisymm (nearest.mono nearest' le_rfl) (nearest'.mono nearest le_rfl)

/-- In units a number is missed by half a unit at most. -/
theorem abs_mul_sub_le {k : Int} {unit : ℚ} (pos : 0 < unit) (nearest : IsNearest k (v / unit)) :
    |k * unit - v| ≤ unit / 2 := by
  have scaled : k * unit - v = -((v / unit - k) * unit) := by
    rw [sub_mul, div_mul_cancel₀ _ pos.ne', neg_sub]
  rw [scaled, abs_neg, abs_mul, abs_of_pos pos]
  linarith [mul_le_mul_of_nonneg_right nearest.near pos.le]

/-- What is rounded reaches an even number from a half below it on. -/
theorem le_iff_of_even {k T : Int} (nearest : IsNearest k q) (even : Even T) :
    T ≤ k ↔ (T : ℚ) - 1 / 2 ≤ q := by
  have close := abs_le.1 nearest.near
  constructor
  · intro reached
    have : (T : ℚ) ≤ k := by exact_mod_cast reached
    linarith
  · intro above
    by_contra short
    have le : (k : ℚ) ≤ T - 1 := by
      have : k ≤ T - 1 := by omega
      exact_mod_cast this
    -- only the odd number below is as near, and a tie goes to the even one
    have tie : q - k = 1 / 2 := by linarith
    have below : k = T - 1 := by
      have : (k : ℚ) = T - 1 := by linarith
      exact_mod_cast this
    have evenBelow := nearest.even (by rw [tie]; norm_num)
    rw [Int.even_iff] at even evenBelow
    omega

/-- A part up to a half is dropped, from an even number if it is a half. -/
theorem down {n : Nat} {part : ℚ} (least : 0 ≤ part) (le : part ≤ 1 / 2)
    (even : part = 1 / 2 → n % 2 = 0) : IsNearest n (n + part) := by
  have rest : (n : ℚ) + part - ((n : Int) : ℚ) = part := by
    push_cast
    ring
  constructor
  · rw [rest, abs_of_nonneg least]
    exact le
  · intro tie
    rw [rest, abs_of_nonneg least] at tie
    rw [Int.even_coe_nat]
    exact Nat.even_iff.2 (even tie)

/-- A part from a half on is filled up, to an even number if it is a half. -/
theorem up {n : Nat} {part : ℚ} (ge : 1 / 2 ≤ part) (most : part ≤ 1)
    (odd : part = 1 / 2 → n % 2 = 1) : IsNearest (n + 1 : Nat) (n + part) := by
  have rest : (n : ℚ) + part - (((n + 1 : Nat) : Int) : ℚ) = part - 1 := by
    push_cast
    ring
  constructor
  · rw [rest, abs_of_nonpos (by linarith)]
    linarith
  · intro tie
    rw [rest, abs_of_nonpos (by linarith)] at tie
    have := odd (by linarith)
    rw [Int.even_coe_nat]
    exact Nat.even_iff.2 (by omega)

end IsNearest

theorem isNearest_roundDiv (num : Nat) (pos : 0 < den) :
    IsNearest (roundDiv num den) (num / den) := by
  have divisor : (0 : ℚ) < den := Nat.cast_pos.2 pos
  have quotient : (num : ℚ) / den = (num / den : Nat) + (num % den : Nat) / den := by
    rw [div_eq_iff divisor.ne', add_mul, div_mul_cancel₀ _ divisor.ne', mul_comm]
    exact_mod_cast (Nat.div_add_mod num den).symm
  have least : (0 : ℚ) ≤ (num % den : Nat) / den := by positivity
  have most : ((num % den : Nat) : ℚ) / den ≤ 1 := by
    rw [div_le_one divisor]
    exact_mod_cast (Nat.mod_lt num pos).le
  -- the remainder as a part of the divisor decides
  have le_half : ((num % den : Nat) : ℚ) / den ≤ 1 / 2 ↔ 2 * (num % den) ≤ den := by
    rw [div_le_div_iff₀ divisor two_pos, one_mul, mul_comm]
    norm_cast
  have half_le : 1 / 2 ≤ ((num % den : Nat) : ℚ) / den ↔ den ≤ 2 * (num % den) := by
    rw [div_le_div_iff₀ two_pos divisor, one_mul, mul_comm]
    norm_cast
  have half (tie : ((num % den : Nat) : ℚ) / den = 1 / 2) : 2 * (num % den) = den :=
    le_antisymm (le_half.1 tie.le) (half_le.1 tie.ge)
  rw [quotient]
  unfold roundDiv
  dsimp only
  split_ifs with below above even
  · exact .down least (le_half.2 below.le) fun tie => absurd (half tie) below.ne
  · exact .up (half_le.2 (Nat.le_of_lt above)) most fun tie => absurd (half tie) above.ne'
  · exact .down least (le_half.2 (by omega)) fun _ => even
  · exact .up (half_le.2 (by omega)) most fun _ => by omega

theorem exists_isNearest (nonneg : 0 ≤ q) : ∃ k : Nat, IsNearest k q := by
  have rounded := isNearest_roundDiv q.num.natAbs q.den_pos
  rw [Binary64.natAbs_num_div_den nonneg] at rounded
  exact ⟨_, rounded⟩

/-- What is rounded to tenths stays on its side of a whole number, if it is not just below it. -/
theorem IsNearest.tenth_iff {k : Int} (nearest : IsNearest k v)
    (low : (T : ℚ) ≤ q → 10 * (T : ℚ) ≤ v) (high : q < T → v ≤ 10 * T - 2) :
    (T : ℚ) ≤ k / 10 ↔ (T : ℚ) ≤ q := by
  rw [le_div_iff₀ (by norm_num), mul_comm]
  constructor
  · intro tenths
    by_contra below
    have upper : v ≤ ((10 * T - 2 : Int) : ℚ) := by
      push_cast
      exact high (not_le.1 below)
    have := nearest.ge_of_ge upper
    have : (10 * T : Int) ≤ k := by exact_mod_cast tenths
    omega
  · intro above
    have lower : ((10 * T : Int) : ℚ) ≤ v := by
      push_cast
      exact low above
    exact_mod_cast nearest.le_of_le lower

/-- A multiple of a quarter below a whole number is below it by a quarter. -/
theorem quarters_le (quarters : q = j / 4) (below : q < T) : q ≤ T - 1 / 4 := by
  rw [quarters, div_lt_iff₀ (by norm_num)] at below
  have lt : j < T * 4 := by exact_mod_cast below
  have le : ((j + 1 : Nat) : ℚ) ≤ ((T * 4 : Nat) : ℚ) := Nat.cast_le.2 lt
  push_cast at le
  linarith

namespace Binary64

variable {x : Binary64} {n : Nat}

/-- Rounding keeps a number below `2 ^ 53` that was halved a few times. -/
theorem nearest_of_halved (lt : n < 2 ^ 53) (few : k ≤ 1000) :
    nearest (n / 2 ^ k) = n / 2 ^ k := by
  have nonneg : (0 : ℚ) ≤ n / 2 ^ k := by positivity
  have small : (n : ℚ) / 2 ^ k < limit := by
    have whole : (n : ℚ) < limit := by exact_mod_cast lt.trans Number.two_pow_lt_limit
    exact (div_le_self n.cast_nonneg (one_le_pow₀ one_le_two)).trans_lt whole
  rcases nonneg.eq_or_lt with zero | pos
  · rw [← zero, nearest_zero]
  · have kept := toRat?_ofQuotient_of_halved lt few (n / 2 ^ k : ℚ).den_pos
      (natAbs_num_div_den nonneg)
    have same := toRat?_ofRat (z := false) nonneg small
    rw [ofRat, if_neg pos.ne', decide_eq_false (not_lt.2 nonneg), kept] at same
    exact (Option.some.inj same).symm

theorem nearest_natCast (lt : n < 2 ^ 53) : nearest n = n := by
  have kept := nearest_of_halved lt (Nat.zero_le 1000)
  rwa [pow_zero, div_one] at kept

/-- A quotient need not be in lowest terms to be rounded. -/
theorem roundedQuotient_eq_nearest (hn : 0 < num) (hd : 0 < den) :
    roundedQuotient num den = nearest (num / den) := by
  have pos : (0 : ℚ) < num / den := quotient_pos hn hd
  have lowest := natAbs_num_div_den pos.le
  exact le_antisymm
    (roundedQuotient_mono hn hd (natAbs_num_pos pos) (Rat.den_pos _) lowest.ge)
    (roundedQuotient_mono (natAbs_num_pos pos) (Rat.den_pos _) hn hd lowest.le)

/-- Rounding does not cross a whole number from one sixteenth below it on. -/
theorem le_nearest_iff (small : 16 * T < 2 ^ 53) (nonneg : 0 ≤ v)
    (apart : v < T → v ≤ T - 1 / 16) : (T : ℚ) ≤ nearest v ↔ (T : ℚ) ≤ v := by
  constructor
  · intro rounded
    by_contra below
    rw [not_le] at below
    have pos : 0 < T := by
      have : (0 : ℚ) < T := nonneg.trans_lt below
      exact_mod_cast this
    have spelled : (T : ℚ) - 1 / 16 = (16 * T - 1 : Nat) / 2 ^ 4 := by
      push_cast [Nat.cast_sub (show 1 ≤ 16 * T by omega)]
      ring
    have kept : nearest (T - 1 / 16) = T - 1 / 16 := by
      rw [spelled]
      exact nearest_of_halved (by omega) (by norm_num)
    have le := nearest_mono nonneg (apart below)
    rw [kept] at le
    linarith
  · intro above
    calc (T : ℚ) = nearest T := (nearest_natCast (by omega)).symm
      _ ≤ nearest v := nearest_mono T.cast_nonneg above

/-- A number from zero on is rounded to the nearest natural number. -/
theorem exists_round? (value : x.toRat? = some v) (nonneg : 0 ≤ v) :
    ∃ k : Nat, x.round? = some (k : Int) ∧ IsNearest k v := by
  rcases x with _ | s | ⟨s, m, e, form⟩
  · cases value
  · cases value
  have pos : 0 < (magnitude m e).2 := by
    unfold magnitude
    split_ifs <;> simp
  have rounded := isNearest_roundDiv (magnitude m e).1 pos
  rw [magnitude_eq] at rounded
  rw [toRat?_finite, Option.some.injEq] at value
  have unsigned : (0 : ℚ) ≤ m * 2 ^ e := by positivity
  cases s with
  | false =>
    rw [if_neg Bool.false_ne_true] at value
    exact ⟨_, rfl, value ▸ rounded⟩
  | true =>
    rw [if_pos rfl] at value
    have zero : (m : ℚ) * 2 ^ e = 0 := by linarith
    rw [zero] at rounded
    have none : (roundDiv (magnitude m e).1 (magnitude m e).2 : Int) = 0 :=
      le_antisymm (rounded.ge_of_ge (by norm_num)) (rounded.le_of_le (by norm_num))
    refine ⟨0, ?_, ?_⟩
    · show some (-(roundDiv (magnitude m e).1 (magnitude m e).2 : Int)) = _
      rw [none]
      rfl
    · rw [← value, zero, neg_zero]
      rwa [none] at rounded

/-- What is not below the limit is rounded to infinity. -/
theorem ofQuotient_of_limit_le (hn : 0 < num) (hd : 0 < den) (large : limit * den ≤ num) :
    ofQuotient false num den = .infinite false := by
  have infinite : ¬(ofQuotient false num den).isFinite = true := by
    rw [isFinite_ofQuotient_iff hd]
    exact large.not_gt
  rw [ofQuotient_of_ne_zero hn.ne'] at infinite ⊢
  unfold ofRounded ofParts at infinite ⊢
  split_ifs at infinite ⊢ <;> first | rfl | exact absurd rfl infinite

end Binary64

end PackageRisk
