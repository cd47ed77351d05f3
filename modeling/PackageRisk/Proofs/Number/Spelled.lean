import Mathlib
import PackageRisk.Number.Decimal
import PackageRisk.Number.Numeral
import PackageRisk.Proofs.Results

/-!
# What numerals spell

A numeral is read as digits on both sides of a point and an exponent, which stand for a rational
(`Decimal.value`). Digits that are written around a point, with zeros filled in or with an exponent
behind them, are read as the number that has its first digit at the given power of ten
(`spells_positional`, `spells_scientific`), and zeros at the end of the digits do not matter
(`digitsValue_dropTrailingZeros`).
-/

namespace PackageRisk

namespace Numeral

variable {ds es whole fraction tail : List Char} {q r : ℚ} {e : Int}

/-! ## Digits -/

theorem digitsValue_eq (ds : List Char) : digitsValue ds = Nat.ofDigitChars 10 ds 0 := by
  simp only [digitsValue, Nat.ofDigitChars_eq_foldl, Nat.mul_comm]

theorem digitsValue_append (ds es : List Char) :
    digitsValue (ds ++ es) = digitsValue ds * 10 ^ es.length + digitsValue es := by
  rw [digitsValue_eq, Nat.ofDigitChars_append, Nat.ofDigitChars_eq_ofDigitChars_zero,
    digitsValue_eq, digitsValue_eq, Nat.mul_comm]

theorem digitsValue_append_zeros (ds : List Char) (k : Nat) :
    digitsValue (ds ++ List.replicate k '0') = digitsValue ds * 10 ^ k := by
  rw [digitsValue_append, List.length_replicate, digitsValue_eq (List.replicate k '0'),
    Nat.ofDigitChars_replicate_zero, Nat.mul_zero, Nat.add_zero]

theorem toList_toString (n : Nat) : (toString n).toList = Nat.toDigits 10 n := by
  rw [Nat.toString_eq_ofList_toDigits, String.toList_ofList]

@[simp]
theorem digitsValue_toString (n : Nat) : digitsValue (toString n).toList = n := by
  rw [toList_toString, digitsValue_eq, Nat.ofDigitChars_ten_toDigits]

theorem isDigit_toString (n : Nat) : ∀ c ∈ (toString n).toList, c.isDigit = true := by
  intro c mem
  rw [toList_toString] at mem
  exact Nat.isDigit_of_mem_toDigits (by decide) (by decide) mem

theorem toString_ne_nil (n : Nat) : (toString n).toList ≠ [] := by
  rw [toList_toString]
  exact Nat.toDigits_ne_nil

theorem length_toDigits {n : Nat} (pos : 0 < n) :
    (Nat.toDigits 10 n).length = Nat.log 10 n + 1 := by
  have below {k : Nat} (some : 0 < k) : (Nat.toDigits 10 n).length ≤ k ↔ Nat.log 10 n < k := by
    rw [Nat.length_toDigits_le_iff (by decide) some, Nat.log_lt_iff_lt_pow (by decide) pos.ne']
  apply le_antisymm
  · exact (below (Nat.succ_pos _)).2 (Nat.lt_succ_self _)
  · exact (below Nat.length_toDigits_pos).1 le_rfl

theorem exists_dropTrailingZeros (ds : List Char) :
    ∃ k, ds = Binary64.dropTrailingZeros ds ++ List.replicate k '0' := by
  have split := List.takeWhile_append_dropWhile (p := (· == '0')) (l := ds.reverse)
  have zeros : ds.reverse.takeWhile (· == '0') =
      List.replicate (ds.reverse.takeWhile (· == '0')).length '0' :=
    List.eq_replicate_iff.2 ⟨rfl, fun c mem => by simpa using List.mem_takeWhile_imp mem⟩
  refine ⟨(ds.reverse.takeWhile (· == '0')).length, ?_⟩
  rw [Binary64.dropTrailingZeros, ← List.reverse_replicate, ← zeros, ← List.reverse_append, split,
    List.reverse_reverse]

/-- Zeros at the end only move the number of digits. -/
theorem digitsValue_dropTrailingZeros (ds : List Char) :
    (digitsValue (Binary64.dropTrailingZeros ds) : ℚ) *
        10 ^ ((ds.length : Int) - (Binary64.dropTrailingZeros ds).length) = digitsValue ds := by
  obtain ⟨k, split⟩ := exists_dropTrailingZeros ds
  have length := congrArg List.length split
  rw [List.length_append, List.length_replicate] at length
  have zeros : (ds.length : Int) - (Binary64.dropTrailingZeros ds).length = k := by omega
  rw [zeros, zpow_natCast]
  conv_rhs => rw [split, digitsValue_append_zeros]
  push_cast
  rfl

/-! ## Numerals -/

/-- The rational that a decimal stands for. -/
def Decimal.value (d : Decimal) : ℚ :=
  digitsValue (d.whole ++ d.fraction) * 10 ^ (d.exponent - d.fraction.length)

/-- A text is a numeral, and it is read as a rational. -/
def Spells (cs : List Char) (q : ℚ) : Prop :=
  ∃ d, decimal? cs = some d ∧ d.value = q

theorem Spells.unique (spells : Spells ds q) (spells' : Spells ds r) : q = r := by
  obtain ⟨d, read, rfl⟩ := spells
  obtain ⟨d', read', rfl⟩ := spells'
  rw [read] at read'
  cases read'
  rfl

/-- The digits end where the exponent begins. -/
theorem isDigit_of_next (next : ∀ c ∈ tail.head?, c = 'e') :
    ∀ c ∈ tail.head?, c.isDigit = false := by
  intro c first
  rw [next c first]
  decide

theorem decimal?_append (all : whole.all Char.isDigit = true) (ne_nil : whole ≠ [])
    (next : ∀ c ∈ tail.head?, c = 'e') (exponent : exponent? tail = some e) :
    decimal? (whole ++ tail) = some ⟨whole, [], e⟩ := by
  have stops := isDigit_of_next next
  have given : ¬(whole.isEmpty && ([] : List Char).isEmpty) = true := by simp [ne_nil]
  unfold decimal?
  simp only [takeWhile_append_of_head all stops, dropWhile_append_of_head all stops]
  rcases tail with _ | ⟨c, tail⟩
  · rw [if_neg given, exponent, Option.map_some]
  · obtain rfl : c = 'e' := next c rfl
    show (if whole.isEmpty && ([] : List Char).isEmpty then none
      else (exponent? ('e' :: tail)).map fun e => Decimal.mk whole [] e) = _
    rw [if_neg given, exponent, Option.map_some]

theorem decimal?_append_point (all : whole.all Char.isDigit = true) (ne_nil : whole ≠ [])
    (allFraction : fraction.all Char.isDigit = true) (next : ∀ c ∈ tail.head?, c = 'e')
    (exponent : exponent? tail = some e) :
    decimal? (whole ++ '.' :: (fraction ++ tail)) = some ⟨whole, fraction, e⟩ := by
  have point : ∀ c ∈ ('.' :: (fraction ++ tail)).head?, c.isDigit = false := by
    rintro c ⟨⟩
    decide
  have stops := isDigit_of_next next
  have given : ¬(whole.isEmpty && fraction.isEmpty) = true := by simp [ne_nil]
  unfold decimal?
  simp only [takeWhile_append_of_head all point, dropWhile_append_of_head all point,
    takeWhile_append_of_head allFraction stops, dropWhile_append_of_head allFraction stops]
  rw [if_neg given, exponent, Option.map_some]

/-- Digits around a point are read up to the exponent. -/
theorem decimal?_joinPoint (all : whole.all Char.isDigit = true) (ne_nil : whole ≠ [])
    (allFraction : fraction.all Char.isDigit = true) (next : ∀ c ∈ tail.head?, c = 'e')
    (exponent : exponent? tail = some e) :
    decimal? (Binary64.joinPoint (whole, fraction) ++ tail) = some ⟨whole, fraction, e⟩ := by
  cases fraction with
  | nil => exact decimal?_append all ne_nil next exponent
  | cons f fs =>
    show decimal? ((whole ++ '.' :: (f :: fs)) ++ tail) = _
    rw [List.append_assoc, List.cons_append]
    exact decimal?_append_point all ne_nil allFraction next exponent

/-- Digits with the decimal point behind the first `1 + x` of them. -/
theorem spells_positional (all : ds.all Char.isDigit = true) (ne_nil : ds ≠ []) (x : Nat) :
    Spells (Binary64.joinPoint (Binary64.positional ds x))
      (digitsValue ds * 10 ^ ((x : Int) + 1 - ds.length)) := by
  have position : Binary64.positional ds x =
      (ds.take (x + 1) ++ List.replicate (x + 1 - ds.length) '0', ds.drop (x + 1)) := by
    unfold Binary64.positional
    rw [if_neg (by omega)]
    rfl
  have digits : ∀ c ∈ ds, c.isDigit = true := List.all_eq_true.1 all
  have allWhole : (ds.take (x + 1) ++ List.replicate (x + 1 - ds.length) '0').all Char.isDigit =
      true := by
    rw [List.all_append, Bool.and_eq_true, List.all_eq_true, List.all_eq_true]
    refine ⟨fun c mem => digits c (List.mem_of_mem_take mem), fun c mem => ?_⟩
    rw [List.eq_of_mem_replicate mem]
    decide
  have allFraction : (ds.drop (x + 1)).all Char.isDigit = true :=
    List.all_eq_true.2 fun c mem => digits c (List.mem_of_mem_drop mem)
  have read := @decimal?_joinPoint _ _ [] _ allWhole (by simp [ne_nil]) allFraction nofun rfl
  rw [List.append_nil] at read
  refine ⟨_, by rw [position, read], ?_⟩
  unfold Decimal.value
  dsimp only
  rcases le_or_gt ds.length (x + 1) with short | long
  · -- zeros are filled in and nothing is left for the fraction
    have exponent : (x : Int) + 1 - ds.length = (x + 1 - ds.length : Nat) := by omega
    rw [List.take_of_length_le short, List.drop_of_length_le short, List.append_nil,
      digitsValue_append_zeros, exponent, zpow_natCast]
    push_cast
    simp
  · rw [Nat.sub_eq_zero_of_le long.le, List.replicate_zero, List.append_nil, List.take_append_drop,
      List.length_drop]
    congr 2
    omega

theorem exponent?_exponentText (x : Nat) :
    exponent? (Binary64.exponentText x) = some (x : Int) := by
  have text : ∃ ds, Binary64.exponentText x = 'e' :: '+' :: ds ∧ ds ≠ [] ∧
      ds.all Char.isDigit = true ∧ digitsValue ds = x := by
    have all : (toString x).toList.all Char.isDigit = true :=
      List.all_eq_true.2 (isDigit_toString x)
    unfold Binary64.exponentText
    dsimp only
    rw [if_neg (by omega), Int.natAbs_natCast]
    refine ⟨_, rfl, ?_⟩
    split_ifs
    · refine ⟨by simp, by simpa using all, ?_⟩
      rw [← List.singleton_append, digitsValue_append, digitsValue_toString]
      simp [digitsValue]
    · exact ⟨toString_ne_nil x, all, digitsValue_toString x⟩
  obtain ⟨ds, spelled, ne_nil, all, value⟩ := text
  have given : ¬(ds.isEmpty || !ds.all Char.isDigit) = true := by simp [ne_nil, all]
  rw [spelled, exponent?, if_pos (by decide)]
  show (if ds.isEmpty || !ds.all Char.isDigit then none else some (digitsValue ds : Int)) = _
  rw [if_neg given, value]

/-- Digits with the decimal point behind the first of them, and an exponent. -/
theorem spells_scientific (all : ds.all Char.isDigit = true) (ne_nil : ds ≠ []) (x : Nat) :
    Spells (Binary64.scientific ds x) (digitsValue ds * 10 ^ ((x : Int) + 1 - ds.length)) := by
  have digits : ∀ c ∈ ds, c.isDigit = true := List.all_eq_true.1 all
  have length := List.length_pos_iff.2 ne_nil
  have first : (ds.take 1).all Char.isDigit = true :=
    List.all_eq_true.2 fun c mem => digits c (List.mem_of_mem_take mem)
  have others : (ds.drop 1).all Char.isDigit = true :=
    List.all_eq_true.2 fun c mem => digits c (List.mem_of_mem_drop mem)
  have next : ∀ c ∈ (Binary64.exponentText x).head?, c = 'e' := by
    rintro c ⟨⟩
    rfl
  refine ⟨_, decimal?_joinPoint first (by simp [ne_nil]) others next (exponent?_exponentText x), ?_⟩
  unfold Decimal.value
  dsimp only
  rw [List.take_append_drop, List.length_drop]
  congr 2
  omega

end Numeral

end PackageRisk
