import PackageRisk.Proofs.Number.Rounding

/-!
# Whole numbers in both forms

A number stands for a whole one whether it is kept as such or in binary64. Below `2 ^ 53` the
two forms agree: the conversion of a whole number is exact (`toRat?_ofInt`), and so are sums
and differences in binary64 (`toRat?_add`, `toRat?_sub`). A whole number has a binary64 form at
all just when it is nearer to the largest one than to the next power of two
(`isSome_toBinary?_int`).
-/

namespace PackageRisk

namespace Binary64

theorem magnitude_eq (m : Nat) (e : Int) :
    ((magnitude m e).1 : ℚ) / (magnitude m e).2 = m * 2 ^ e := by
  unfold magnitude
  split_ifs with h
  · rw [two_zpow_of_nonneg h, Nat.pow_eq]
    push_cast
    rw [div_one]
  · rw [two_zpow_of_neg h, Nat.pow_eq]
    push_cast
    rw [div_eq_mul_inv]

theorem toRat?_finite {m : Nat} {e : Int} (s : Bool) (form : IsForm m e) :
    (finite s m e form).toRat? = some (if s then -(m * 2 ^ e : ℚ) else m * 2 ^ e) := by
  have frac : mkRat (magnitude m e).1 (magnitude m e).2 = m * 2 ^ e := by
    rw [Rat.mkRat_eq_div, Int.cast_natCast, magnitude_eq]
  rw [← frac]
  rfl

theorem toRat?_signedZero (s : Bool) : (signedZero s).toRat? = some 0 := by
  rw [signedZero, toRat?_finite]
  simp

/-- A positive whole number below `2 ^ 53` with its leading bit in the 53rd place. -/
theorem IsForm.ofNat {n : Nat} (pos : 0 < n) (lt : n < 2 ^ 53) :
    IsForm (n * 2 ^ (52 - Nat.log2 n)) ((Nat.log2 n : Int) - 52) := by
  have low := Nat.log2_self_le pos.ne'
  have high := Nat.lt_log2_self (n := n)
  have log : Nat.log2 n ≤ 52 := Nat.lt_succ_iff.1 ((Nat.log2_lt pos.ne').2 lt)
  have scale : 2 ^ Nat.log2 n * 2 ^ (52 - Nat.log2 n) = 2 ^ 52 := by
    rw [← Nat.pow_add]
    congr 1
    omega
  refine ⟨?_, ?_, ?_, .inr ?_⟩
  · show n * 2 ^ (52 - Nat.log2 n) < 2 ^ 52 * 2
    calc n * 2 ^ (52 - Nat.log2 n) < 2 ^ (Nat.log2 n + 1) * 2 ^ (52 - Nat.log2 n) := by gcongr
      _ = 2 ^ 52 * 2 := by rw [Nat.pow_succ, Nat.mul_right_comm, scale]
  · unfold minExponent
    omega
  · unfold maxExponent
    omega
  · calc 2 ^ 52 = 2 ^ Nat.log2 n * 2 ^ (52 - Nat.log2 n) := scale.symm
      _ ≤ n * 2 ^ (52 - Nat.log2 n) := by gcongr

/-- A number below `2 ^ 53` has a binary64 form after it was halved a few times. -/
theorem toRat?_ofQuotient_of_halved {a b n k : Nat} (lt : n < 2 ^ 53) (few : k ≤ 1000)
    (pos : 0 < b) (halved : (a : ℚ) / b = n / 2 ^ k) :
    (ofQuotient false a b).toRat? = some (n / 2 ^ k : ℚ) := by
  rcases Nat.eq_zero_or_pos n with rfl | posN
  · have divisor : (b : ℚ) ≠ 0 := Nat.cast_ne_zero.2 pos.ne'
    rw [Nat.cast_zero, zero_div, div_eq_zero_iff] at halved
    have none : a = 0 := Nat.cast_eq_zero.1 (halved.resolve_right divisor)
    rw [none, ofQuotient, if_pos rfl, toRat?_signedZero, Nat.cast_zero, zero_div]
  -- the form of the number itself with an exponent that is less by the halvings
  obtain ⟨bits, low, high, leading⟩ := IsForm.ofNat posN lt
  have log : Nat.log2 n ≤ 52 := Nat.lt_succ_iff.1 ((Nat.log2_lt posN.ne').2 lt)
  have form : IsForm (n * 2 ^ (52 - Nat.log2 n)) ((Nat.log2 n : Int) - 52 - k) := by
    refine ⟨bits, ?_, by omega, ?_⟩
    · unfold minExponent
      omega
    · obtain least | leading := leading
      · unfold minExponent at least
        omega
      · exact .inr leading
  have value : ((n * 2 ^ (52 - Nat.log2 n) : Nat) : ℚ) * 2 ^ ((Nat.log2 n : Int) - 52 - k) =
      n / 2 ^ k := by
    have exponents : ((52 - Nat.log2 n : Nat) : Int) + ((Nat.log2 n : Int) - 52 - k) = -k := by
      omega
    push_cast
    rw [← zpow_natCast, mul_assoc, ← zpow_add₀ (by norm_num), exponents, zpow_neg, zpow_natCast,
      div_eq_mul_inv]
  rw [ofQuotient_eq_finite form (by positivity) pos (halved.trans value.symm), toRat?_finite, value,
    if_neg Bool.false_ne_true]

theorem toRat?_ofQuotient_nat {n : Nat} (lt : n < 2 ^ 53) (s : Bool) :
    (ofQuotient s n 1).toRat? = some (if s then -(n : ℚ) else n) := by
  rcases Nat.eq_zero_or_pos n with rfl | pos
  · rw [ofQuotient, if_pos rfl, toRat?_signedZero]
    simp
  · have log : Nat.log2 n ≤ 52 := Nat.lt_succ_iff.1 ((Nat.log2_lt pos.ne').2 lt)
    have value : ((n * 2 ^ (52 - Nat.log2 n) : Nat) : ℚ) * 2 ^ ((Nat.log2 n : Int) - 52) = n := by
      push_cast
      rw [← zpow_natCast, mul_assoc, ← zpow_add₀ (by norm_num)]
      have : ((52 - Nat.log2 n : Nat) : Int) + ((Nat.log2 n : Int) - 52) = 0 := by omega
      rw [this, zpow_zero, mul_one]
    rw [ofQuotient_eq_finite (IsForm.ofNat pos lt) (by positivity) Nat.one_pos
      (by rw [value]; simp), toRat?_finite, value]

theorem toRat?_ofInt {n : Int} (lt : n.natAbs < 2 ^ 53) : (ofInt n).toRat? = some (n : ℚ) := by
  rw [ofInt, toRat?_ofQuotient_nat lt]
  congr 1
  have abs : ((n.natAbs : Nat) : ℚ) = ((|n| : Int) : ℚ) := by
    rw [Int.abs_eq_natAbs, Int.cast_natCast]
  rw [abs]
  rcases lt_or_ge n 0 with neg | nonneg
  · simp [neg, abs_of_neg neg]
  · simp [not_lt.2 nonneg, abs_of_nonneg nonneg]

theorem toRat?_ofRat_int {n : Int} (lt : n.natAbs < 2 ^ 53) (z : Bool) :
    (ofRat n z).toRat? = some (n : ℚ) := by
  rw [ofRat]
  split_ifs with zero
  · rw [toRat?_signedZero, zero]
  · rw [Rat.num_intCast, Rat.den_intCast]
    simpa [ofInt] using toRat?_ofInt lt

theorem toRat?_neg {x : Binary64} {q : ℚ} (h : x.toRat? = some q) :
    x.neg.toRat? = some (-q) := by
  rcases x with _ | s | ⟨s, m, e, form⟩
  · cases h
  · cases h
  · rw [neg, toRat?_finite]
    rw [toRat?_finite, Option.some.injEq] at h
    subst h
    cases s <;> simp

/-- A sum of whole numbers that stays below `2 ^ 53` is exact. -/
theorem toRat?_add {x y : Binary64} {a b : Int} (hx : x.toRat? = some (a : ℚ))
    (hy : y.toRat? = some (b : ℚ)) (lt : (a + b).natAbs < 2 ^ 53) :
    (x.add y).toRat? = some ((a + b : Int) : ℚ) := by
  rcases x with _ | s | ⟨s, m, e, form⟩
  · cases hx
  · cases hx
  rcases y with _ | t | ⟨t, n, f, form'⟩
  · cases hy
  · cases hy
  rw [← toRat?_ofRat_int lt (s && t), add, hx, hy]
  push_cast
  rfl

theorem toRat?_sub {x y : Binary64} {a b : Int} (hx : x.toRat? = some (a : ℚ))
    (hy : y.toRat? = some (b : ℚ)) (lt : (a - b).natAbs < 2 ^ 53) :
    (x.sub y).toRat? = some ((a - b : Int) : ℚ) := by
  have negated : y.neg.toRat? = some ((-b : Int) : ℚ) := by
    rw [toRat?_neg hy]
    push_cast
    rfl
  rw [Int.sub_eq_add_neg] at lt ⊢
  exact toRat?_add hx negated lt

theorem ofQuotient_ne_nan (s : Bool) (num den : Nat) : ofQuotient s num den ≠ .nan := by
  unfold ofQuotient ofRounded ofParts
  dsimp only
  split_ifs <;> simp [signedZero]

theorem isFinite_ofInt_iff {n : Int} : (ofInt n).isFinite = true ↔ n.natAbs < limit := by
  rw [ofInt, isFinite_ofQuotient_iff Nat.one_pos, Nat.mul_one]

end Binary64

namespace Number

/-- A number, of either form, that stands for a rational. -/
def Is (n : Number) (q : ℚ) : Prop := n.place? = some (.at q)

/-- A number, of either form, that stands for a whole one. -/
def IsWhole (n : Number) : Prop := ∃ k : Int, n.Is k

/-- A number in the form of whole numbers. -/
def IsInt (n : Number) : Prop := ∃ k, n = .int k

/-- The rational that a number stands for; zero if it stands for none. -/
def value (n : Number) : ℚ :=
  match n.place? with
  | some (.at q) => q
  | _ => 0

theorem Is.value {n : Number} {q : ℚ} (h : n.Is q) : n.value = q := by
  unfold Is at h
  simp only [Number.value, h]

@[simp]
theorem value_int (k : Int) : (int k).value = k := rfl

@[simp]
theorem value_ofNat (n : Nat) : (no_index (OfNat.ofNat n) : Number).value = n := rfl

theorem isWhole_int (k : Int) : (int k).IsWhole := ⟨k, rfl⟩

theorem is_int {k : Int} {q : ℚ} : (int k).Is q ↔ (k : ℚ) = q := by
  simp [Is, place?]

theorem is_float {x : Binary64} {q : ℚ} : (float x).Is q ↔ x.toRat? = some q := by
  rcases x with _ | s | ⟨s, m, e, form⟩
  · simp [Is, place?, Binary64.toRat?]
  · cases s <;> simp [Is, place?, Binary64.toRat?]
  · simp [Is, place?, Binary64.toRat?]

theorem is_zero_of_isZero {n : Number} (zero : n.isZero = true) : n.Is 0 := by
  rcases n with k | _ | s | ⟨s, m, e, form⟩
  · rw [beq_iff_eq.1 zero]
    rfl
  · cases zero
  · cases zero
  · rcases m with _ | m
    · refine is_float.2 ?_
      rw [Binary64.toRat?_finite]
      simp
    · cases zero

/-- A whole number has a binary64 form just when it is below the limit. -/
theorem toBinary?_int_eq_some_iff {k : Int} {x : Binary64} :
    (int k).toBinary? = some x ↔ k.natAbs < Binary64.limit ∧ Binary64.ofInt k = x := by
  rw [← Binary64.isFinite_ofInt_iff, toBinary?]
  have number := Binary64.ofQuotient_ne_nan (decide (k < 0)) k.natAbs 1
  rw [← Binary64.ofInt] at number
  generalize Binary64.ofInt k = y at number ⊢
  cases y <;> simp_all [Binary64.isFinite]

theorem isSome_toBinary?_int {k : Int} :
    (int k).toBinary?.isSome = true ↔ k.natAbs < Binary64.limit := by
  rw [Option.isSome_iff_exists]
  simp only [toBinary?_int_eq_some_iff, exists_and_left, exists_eq', and_true]

theorem two_pow_lt_limit : 2 ^ 53 < Binary64.limit := by decide +kernel

/-- The binary64 form of a whole number below `2 ^ 53` keeps its value. -/
theorem Is.toBinary? {n : Number} {k : Int} (h : n.Is k) (lt : k.natAbs < 2 ^ 53) :
    ∃ x, n.toBinary? = some x ∧ x.toRat? = some (k : ℚ) := by
  rcases n with m | x
  · have eq : m = k := by
      simpa [Is, place?] using h
    subst eq
    exact ⟨_, toBinary?_int_eq_some_iff.2 ⟨lt.trans two_pow_lt_limit, rfl⟩,
      Binary64.toRat?_ofInt lt⟩
  · exact ⟨x, rfl, is_float.1 h⟩

end Number

end PackageRisk
