import PackageRisk.Proofs.Number.Spelled
import PackageRisk.Proofs.Number.Tenths

/-!
# Numbers with two places and six digits

A number from one on is written with its six first digits, rounded to the nearest sixth one
(`spells_generalText`). What is shown of a number is first rounded to hundredths, then to binary64
and then to six digits (`IsShown`). Each of the three keeps the order (`IsShown.mono`), and up to
1024 the last two change nothing: there are not more than six digits, and binary64 is far finer
(`IsShown.eq_hundredths`).
-/

namespace PackageRisk

variable {q r r' v v' : ℚ} {num den : Nat}

/-! ## Six digits -/

/-- The unit of the sixth digit of a number. -/
def sixthUnit (v : ℚ) : ℚ := 10 ^ (Int.log 10 v - 5)

theorem sixthUnit_pos (v : ℚ) : 0 < sixthUnit v := zpow_pos (by norm_num) _

theorem log_nonneg_of_one_le (b : Nat) (one : 1 ≤ v) : 0 ≤ Int.log b v := by
  rw [Int.log_of_one_le_right _ one]
  exact Int.natCast_nonneg _

/-- A number rounded to its sixth digit. -/
def IsSixDigits (r v : ℚ) : Prop :=
  ∃ n : Int, IsNearest n (v / sixthUnit v) ∧ r = n * sixthUnit v

theorem le_div_sixthUnit (pos : 0 < v) : 10 ^ 5 ≤ v / sixthUnit v := by
  rw [le_div_iff₀ (sixthUnit_pos v), sixthUnit, ← zpow_natCast, ← zpow_add₀ (by norm_num)]
  have first := Int.zpow_log_le_self (b := 10) (by norm_num) pos
  push_cast at first ⊢
  rwa [add_sub_cancel]

theorem div_sixthUnit_lt (v : ℚ) : v / sixthUnit v < 10 ^ 6 := by
  rw [div_lt_iff₀ (sixthUnit_pos v), sixthUnit, ← zpow_natCast, ← zpow_add₀ (by norm_num)]
  have next := Int.lt_zpow_succ_log_self (b := 10) (by norm_num) v
  push_cast at next ⊢
  convert next using 2
  ring

namespace IsSixDigits

theorem bounds {n : Int} (pos : 0 < v) (nearest : IsNearest n (v / sixthUnit v)) :
    10 ^ 5 ≤ n ∧ n ≤ 10 ^ 6 := by
  constructor
  · apply nearest.le_of_le
    exact_mod_cast le_div_sixthUnit pos
  · apply nearest.ge_of_ge
    exact_mod_cast (div_sixthUnit_lt v).le

/-- To round to six digits does not leave the powers of ten around a number. -/
theorem between (pos : 0 < v) (rounded : IsSixDigits r v) :
    10 ^ Int.log 10 v ≤ r ∧ r ≤ 10 ^ (Int.log 10 v + 1) := by
  obtain ⟨n, nearest, rfl⟩ := rounded
  obtain ⟨low, high⟩ := bounds pos nearest
  have power (k : Int) (places : Nat) (same : k = places + (Int.log 10 v - 5)) :
      (10 : ℚ) ^ k = (10 ^ places : Int) * sixthUnit v := by
    rw [same, zpow_add₀ (by norm_num), zpow_natCast, sixthUnit]
    push_cast
    rfl
  have unit := (sixthUnit_pos v).le
  rw [power _ 5 (by push_cast; ring), power _ 6 (by push_cast; ring)]
  constructor <;> gcongr

theorem mono (pos : 0 < v) (le : v ≤ v') (rounded : IsSixDigits r v)
    (rounded' : IsSixDigits r' v') : r ≤ r' := by
  rcases (Int.log_mono_right (b := 10) pos le).lt_or_eq with below | same
  · calc r ≤ 10 ^ (Int.log 10 v + 1) := (rounded.between pos).2
      _ ≤ 10 ^ Int.log 10 v' := zpow_le_zpow_right₀ (by norm_num) (by omega)
      _ ≤ r' := (rounded'.between (pos.trans_le le)).1
  · obtain ⟨n, nearest, rfl⟩ := rounded
    obtain ⟨n', nearest', rfl⟩ := rounded'
    have unit : sixthUnit v' = sixthUnit v := by rw [sixthUnit, sixthUnit, same]
    rw [unit] at nearest' ⊢
    have pos := sixthUnit_pos v
    have le : n ≤ n' := nearest.mono nearest' (by gcongr)
    have : (n : ℚ) ≤ n' := by exact_mod_cast le
    gcongr

/-- A number of six digits is what a number next to it is rounded to. -/
theorem eq_of_near {j : Int} (rounded : IsSixDigits r v)
    (near : |v - j * sixthUnit v| < sixthUnit v / 2) : r = j * sixthUnit v := by
  obtain ⟨n, nearest, rfl⟩ := rounded
  have pos := sixthUnit_pos v
  have close : |v / sixthUnit v - j| < 1 / 2 := by
    have scaled : v / sixthUnit v - j = (v - j * sixthUnit v) / sixthUnit v := by
      field_simp
    rw [scaled, abs_div, abs_of_pos pos, div_lt_iff₀ pos]
    linarith
  have nearest' : IsNearest j (v / sixthUnit v) := ⟨close.le, fun tie => absurd tie close.ne⟩
  rw [nearest.unique nearest']

/-- Hundredths of a number with up to four digits before the point are six digits at most. -/
theorem eq_hundredths {k : Nat} (low : 1 ≤ v) (near : |v - k / 100| < 1 / 200000)
    (most : (k : ℚ) / 100 ≤ 1024) (rounded : IsSixDigits r v) : r = k / 100 := by
  obtain ⟨j, place, below⟩ : ∃ j : Nat, Int.log 10 v = j ∧ j ≤ 3 := by
    have high : v < 10 ^ (4 : Int) := by
      have := abs_lt.1 near
      norm_num
      linarith
    have := (Int.lt_zpow_iff_log_lt (b := 10) (by norm_num) (by linarith)).1 high
    have := log_nonneg_of_one_le 10 low
    exact ⟨(Int.log 10 v).toNat, by omega, by omega⟩
  have unit : sixthUnit v = 10 ^ ((j : Int) - 5) := by rw [sixthUnit, place]
  have power : (10 : ℚ) ^ (3 - j) * 10 ^ ((j : Int) - 5) = 1 / 100 := by
    rw [← zpow_natCast, ← zpow_add₀ (by norm_num),
      show ((3 - j : Nat) : Int) + ((j : Int) - 5) = -2 by omega]
    norm_num
  have grid : (k : ℚ) / 100 = ((k * 10 ^ (3 - j) : Nat) : Int) * sixthUnit v := by
    rw [unit]
    push_cast
    rw [mul_assoc, power]
    ring
  have least : (10 : ℚ) ^ (-5 : Int) ≤ sixthUnit v := by
    rw [unit]
    exact zpow_le_zpow_right₀ (by norm_num) (by omega)
  rw [grid] at near ⊢
  refine rounded.eq_of_near (near.trans_le ?_)
  norm_num at least
  linarith

end IsSixDigits

namespace Binary64

variable {x : Binary64} {k : Nat}

/-- A positive number has a significand and no sign. -/
theorem exists_finite_of_pos (value : x.toRat? = some v) (pos : 0 < v) :
    ∃ m e form, x = .finite false (m + 1) e form ∧ ((m + 1 : Nat) : ℚ) * 2 ^ e = v := by
  rcases x with _ | s | ⟨s, m, e, form⟩
  · cases value
  · cases value
  rw [toRat?_finite, Option.some.injEq] at value
  have unsigned : (0 : ℚ) ≤ m * 2 ^ e := by positivity
  cases s with
  | true =>
    rw [if_pos rfl] at value
    linarith
  | false =>
    rw [if_neg Bool.false_ne_true] at value
    cases m with
    | zero =>
      rw [Nat.cast_zero, zero_mul] at value
      exact absurd value pos.ne
    | succ m => exact ⟨m, e, form, rfl, value⟩

theorem magnitude_pos (m : Nat) (e : Int) : 0 < (magnitude m e).2 := by
  unfold magnitude
  split_ifs <;> simp

theorem decimalExponent_eq (hd : 0 < den) (one : 1 ≤ (num : ℚ) / den) :
    decimalExponent num den = Int.log 10 ((num : ℚ) / den) := by
  have le : den ≤ num := by
    rw [one_le_div (by exact_mod_cast hd)] at one
    exact_mod_cast one
  have whole : 0 < num / den := Nat.div_pos le hd
  rw [decimalExponent, if_pos le, digitCount, if_neg whole.ne', Numeral.length_toDigits whole,
    Int.log_of_one_le_right _ one, Nat.floor_div_eq_div]
  push_cast
  ring

theorem inUnits_eq (num den : Nat) (k : Int) :
    ((inUnits num den k).1 : ℚ) / (inUnits num den k).2 = num / den / 10 ^ k := by
  unfold inUnits
  split_ifs with nonneg
  · rw [← Int.toNat_of_nonneg nonneg, zpow_natCast, Int.toNat_natCast, Nat.pow_eq]
    push_cast
    rw [div_mul_eq_div_div]
  · obtain ⟨j, rfl⟩ : ∃ j : Nat, k = -j := ⟨(-k).toNat, by omega⟩
    rw [neg_neg, Int.toNat_natCast, Nat.pow_eq, zpow_neg, zpow_natCast, div_inv_eq_mul]
    push_cast
    rw [mul_div_right_comm]

theorem inUnits_pos (num : Nat) (hd : 0 < den) (k : Int) : 0 < (inUnits num den k).2 := by
  unfold inUnits
  split_ifs
  · exact Nat.mul_pos hd (Nat.pow_pos (by decide))
  · exact hd

/-- The digits of a number in units of its sixth digit, where it is written. -/
theorem spells_digits {n x : Nat} {top : Int} (low : 10 ^ 5 ≤ n) (high : n ≤ 10 ^ 6)
    (position : (x : Int) = if n = Nat.pow 10 6 then top + 1 else top) :
    let ds := dropTrailingZeros (toString n).toList
    Numeral.Spells (if -4 ≤ (x : Int) ∧ (x : Int) < 6 then joinPoint (positional ds x)
      else scientific ds x) (n * 10 ^ (top - 5)) := by
  intro ds
  obtain ⟨k, split⟩ := Numeral.exists_dropTrailingZeros (toString n).toList
  have all : ds.all Char.isDigit = true := by
    refine List.all_eq_true.2 fun c mem => Numeral.isDigit_toString n c ?_
    rw [split]
    exact List.mem_append_left _ mem
  have shortened : (Numeral.digitsValue ds : ℚ) * 10 ^ (_ - (ds.length : Int)) = _ :=
    Numeral.digitsValue_dropTrailingZeros (toString n).toList
  rw [Numeral.digitsValue_toString] at shortened
  have ne_nil : ds ≠ [] := by
    intro none
    rw [none] at shortened
    have zero : (n : ℚ) = 0 := by rw [← shortened]; simp [Numeral.digitsValue]
    have : n = 0 := by exact_mod_cast zero
    omega
  have length : ((toString n).toList.length : Int) - 6 = x - top := by
    rw [Numeral.toList_toString, Numeral.length_toDigits (by omega), position]
    split_ifs with full
    · rw [full, Nat.pow_eq, Nat.log_pow (by decide)]
      push_cast
      ring
    · have five : Nat.log 10 n = 5 :=
        Nat.log_eq_of_pow_le_of_lt_pow low (lt_of_le_of_ne high full)
      rw [five]
      push_cast
      ring
  have value : (n : ℚ) * 10 ^ (top - 5) =
      Numeral.digitsValue ds * 10 ^ ((x : Int) + 1 - ds.length) := by
    have place : ((toString n).toList.length : Int) - ds.length + (top - 5) =
        x + 1 - ds.length := by omega
    rw [← shortened, mul_assoc, ← zpow_add₀ (by norm_num), place]
  rw [value]
  split_ifs
  · exact Numeral.spells_positional all ne_nil x
  · exact Numeral.spells_scientific all ne_nil x

/-- The text of a number from one on spells it to six digits. -/
theorem spells_generalText (value : x.toRat? = some v) (one : 1 ≤ v) :
    ∃ r, IsSixDigits r v ∧ Numeral.Spells x.generalText.toList r := by
  have pos : 0 < v := by linarith
  obtain ⟨m, e, form, rfl, same⟩ := exists_finite_of_pos value pos
  have den := magnitude_pos (m + 1) e
  have quotient := (magnitude_eq (m + 1) e).trans same
  let q := magnitude (m + 1) e
  let top := decimalExponent q.1 q.2
  let n := roundDiv (inUnits q.1 q.2 (top - 5)).1 (inUnits q.1 q.2 (top - 5)).2
  let x := if n = Nat.pow 10 6 then top + 1 else top
  have log : top = Int.log 10 v := by
    rw [← quotient]
    exact decimalExponent_eq den (by rwa [quotient])
  have unit : (10 : ℚ) ^ (top - 5) = sixthUnit v := by rw [log, sixthUnit]
  have nearest : IsNearest n (v / sixthUnit v) := by
    have rounded := isNearest_roundDiv (inUnits q.1 q.2 (top - 5)).1 (inUnits_pos q.1 den (top - 5))
    rwa [inUnits_eq, quotient, unit] at rounded
  obtain ⟨low, high⟩ := IsSixDigits.bounds pos nearest
  obtain ⟨place, position⟩ : ∃ place : Nat, (place : Int) = x := by
    have : 0 ≤ top := log ▸ log_nonneg_of_one_le 10 one
    refine Int.eq_ofNat_of_zero_le ?_ |>.imp fun _ => Eq.symm
    show 0 ≤ if n = Nat.pow 10 6 then top + 1 else top
    split_ifs <;> omega
  have spells := spells_digits (by exact_mod_cast low) (by exact_mod_cast high) position
  rw [position] at spells
  refine ⟨n * 10 ^ (top - 5), ⟨n, nearest, ?_⟩, ?_⟩
  · rw [unit]
    rfl
  · show Numeral.Spells (withSign false _).toList _
    rw [withSign, if_neg Bool.false_ne_true, String.toList_ofList]
    exact spells

/-! ## Places -/

/-- Rounding misses a quotient by half a unit of the last place at most. -/
theorem abs_roundedQuotient_sub_le (num : Nat) (hd : 0 < den) :
    |roundedQuotient num den - num / den| ≤ 2 ^ exponentFor num den / 2 := by
  have unit : (0 : ℚ) < 2 ^ exponentFor num den := zpow_pos (by norm_num) _
  have pos := @scaleBy_pos num _ hd (exponentFor num den)
  have nearest := isNearest_roundDiv (scaleBy num den (exponentFor num den)).1 pos
  rw [scaleBy_eq, ← significandOf] at nearest
  exact nearest.abs_mul_sub_le unit

/-- From one on rounding misses a number by a small part of it. -/
theorem abs_nearest_sub_le (one : 1 ≤ v) : |nearest v - v| ≤ v / 2 ^ 53 := by
  have pos : 0 < v := by linarith
  have spelled := natAbs_num_div_den pos.le
  have above : minExponent < exponentFor v.num.natAbs v.den := by
    have log := log_nonneg_of_one_le 2 one
    have least : minExponent = -1074 := rfl
    rw [exponentFor_eq (natAbs_num_pos pos) v.den_pos, spelled]
    omega
  have unit := bits_le_quotient (natAbs_num_pos pos) v.den_pos above
  have error := abs_roundedQuotient_sub_le v.num.natAbs v.den_pos
  rw [spelled] at unit error
  push_cast at unit
  calc |nearest v - v| ≤ 2 ^ exponentFor v.num.natAbs v.den / 2 := error
    _ ≤ v / 2 ^ 53 := by
      rw [div_le_div_iff₀ (by norm_num) (by norm_num)]
      linarith

theorem roundPlaces_finite (places : Nat) {s : Bool} {m : Nat} {e : Int} (form : IsForm m e) :
    (finite s m e form).roundPlaces places =
      ofQuotient s (roundDiv ((magnitude m e).1 * 10 ^ places) (magnitude m e).2) (10 ^ places) :=
  rfl

theorem isNearest_places (places num : Nat) (hd : 0 < den) :
    IsNearest (roundDiv (num * 10 ^ places) den) (10 ^ places * (num / den)) := by
  have rounded := isNearest_roundDiv (num * 10 ^ places) hd
  rwa [Nat.cast_mul, Nat.cast_pow, Nat.cast_ofNat, mul_div_right_comm,
    mul_comm ((num : ℚ) / den)] at rounded

theorem toRat?_ofQuotient_nearest (hn : 0 < num) (hd : 0 < den) (lt : (num : ℚ) / den < limit) :
    (ofQuotient false num den).toRat? = some (nearest (num / den)) := by
  rw [div_lt_iff₀ (by exact_mod_cast hd)] at lt
  rw [toRat?_ofQuotient hn hd (by exact_mod_cast lt), roundedQuotient_eq_nearest hn hd]

/-- A number rounded to places is the binary64 number nearest to what it is rounded to. -/
theorem toRat?_roundPlaces (places : Nat) (value : x.toRat? = some v) (one : 1 ≤ v)
    (small : v + 1 ≤ limit) : ∃ k : Nat, IsNearest k (10 ^ places * v) ∧
      (x.roundPlaces places).toRat? = some (nearest (k / 10 ^ places)) := by
  obtain ⟨m, e, form, rfl, same⟩ := exists_finite_of_pos value (by linarith)
  have rounded := isNearest_places places (magnitude (m + 1) e).1 (magnitude_pos (m + 1) e)
  rw [magnitude_eq, same] at rounded
  rw [roundPlaces_finite]
  generalize roundDiv ((magnitude (m + 1) e).1 * 10 ^ places) (magnitude (m + 1) e).2 = k
    at rounded ⊢
  have power : (1 : ℚ) ≤ 10 ^ places := one_le_pow₀ (by norm_num)
  have positive : (1 : Int) ≤ k := by
    refine rounded.le_of_le ?_
    push_cast
    exact power.trans (le_mul_of_one_le_right (by linarith) one)
  have below : (k : ℚ) / (10 ^ places : Nat) < limit := by
    have near := (abs_le.1 rounded.near).1
    push_cast at near ⊢
    rw [div_lt_iff₀ (by linarith)]
    calc (k : ℚ) ≤ 10 ^ places * v + 1 / 2 := by linarith
      _ < (v + 1) * 10 ^ places := by linarith
      _ ≤ limit * 10 ^ places := by gcongr
  refine ⟨k, rounded, ?_⟩
  rw [toRat?_ofQuotient_nearest (by omega) (by positivity) below, Nat.cast_pow, Nat.cast_ofNat]

end Binary64

/-! ## Both -/

/-- What is shown of a number: it is rounded to hundredths, to binary64 and to six digits. -/
def IsShown (r v : ℚ) : Prop :=
  ∃ k : Nat, IsNearest k (100 * v) ∧ IsSixDigits r (Binary64.nearest (k / 100))

namespace IsShown

theorem le_hundredths {k : Nat} (one : 1 ≤ v) (nearest : IsNearest k (100 * v)) :
    1 ≤ (k : ℚ) / 100 := by
  have : (100 : Int) ≤ k := nearest.le_of_le (by push_cast; linarith)
  rw [le_div_iff₀ (by norm_num)]
  exact_mod_cast this

theorem one_le_nearest (one : 1 ≤ v) : 1 ≤ Binary64.nearest v :=
  calc (1 : ℚ) = Binary64.nearest 1 := by
        exact_mod_cast (Binary64.nearest_natCast (by norm_num : 1 < 2 ^ 53)).symm
    _ ≤ Binary64.nearest v := Binary64.nearest_mono (by norm_num) one

theorem mono (one : 1 ≤ v) (le : v ≤ v') (shown : IsShown r v) (shown' : IsShown r' v') :
    r ≤ r' := by
  obtain ⟨k, hundredths, rounded⟩ := shown
  obtain ⟨k', hundredths', rounded'⟩ := shown'
  have le : (k : Int) ≤ k' := hundredths.mono hundredths' (by linarith)
  have ordered : (k : ℚ) / 100 ≤ k' / 100 := by
    have : (k : ℚ) ≤ k' := by exact_mod_cast le
    gcongr
  have least := le_hundredths one hundredths
  refine rounded.mono ?_ (Binary64.nearest_mono (by linarith) ordered) rounded'
  linarith [one_le_nearest least]

/-- Up to 1024 the hundredths are shown as they are. -/
theorem eq_hundredths (one : 1 ≤ v) (le : v ≤ 1024) (shown : IsShown r v) :
    ∃ k : Nat, IsNearest k (100 * v) ∧ r = k / 100 := by
  obtain ⟨k, hundredths, rounded⟩ := shown
  refine ⟨k, hundredths, ?_⟩
  have least := le_hundredths one hundredths
  have most : (k : ℚ) / 100 ≤ 1024 := by
    have : (k : Int) ≤ 102400 := hundredths.ge_of_ge (by push_cast; linarith)
    rw [div_le_iff₀ (by norm_num)]
    norm_num
    exact_mod_cast this
  have error := Binary64.abs_nearest_sub_le least
  have low := one_le_nearest least
  refine rounded.eq_hundredths low (error.trans_lt ?_) most
  rw [div_lt_iff₀ (by norm_num)]
  norm_num
  linarith

theorem exists_of_one_le (one : 1 ≤ v) : ∃ r, IsShown r v := by
  obtain ⟨k, hundredths⟩ := exists_isNearest (q := 100 * v) (by linarith)
  have least := one_le_nearest (le_hundredths one hundredths)
  obtain ⟨n, digits⟩ := exists_isNearest (div_nonneg (zero_le_one.trans least) (sixthUnit_pos _).le)
  exact ⟨_, k, hundredths, n, digits, rfl⟩

/-- Whole numbers up to 1024 are shown as they are. -/
theorem natCast {T : Nat} (low : 1 ≤ T) (high : T ≤ 1024) : IsShown T T := by
  have one : (1 : ℚ) ≤ T := by exact_mod_cast low
  obtain ⟨r, shown⟩ := exists_of_one_le one
  obtain ⟨k, hundredths, rfl⟩ := shown.eq_hundredths one (by exact_mod_cast high)
  have whole : IsNearest (100 * T : Nat) (100 * (T : ℚ)) := by
    simpa using IsNearest.down (n := 100 * T) le_rfl (by norm_num) (by norm_num)
  have same : (k : Int) = (100 * T : Nat) := hundredths.unique whole
  have value : (k : ℚ) / 100 = T := by
    rw [show k = 100 * T by exact_mod_cast same]
    push_cast
    ring
  rwa [value] at shown

end IsShown

namespace Binary64

variable {x : Binary64}

/-- The text of a number that is rounded to two places spells what is shown of it. -/
theorem spells_roundPlaces (value : x.toRat? = some v) (one : 1 ≤ v) (small : v + 1 ≤ limit) :
    ∃ r, IsShown r v ∧ Numeral.Spells (x.roundPlaces 2).generalText.toList r := by
  obtain ⟨k, hundredths, rounded⟩ := toRat?_roundPlaces 2 value one small
  norm_num at hundredths rounded
  have least := IsShown.one_le_nearest (IsShown.le_hundredths one hundredths)
  obtain ⟨r, sixDigits, spells⟩ := spells_generalText rounded least
  exact ⟨r, ⟨k, hundredths, sixDigits⟩, spells⟩

end Binary64

end PackageRisk
