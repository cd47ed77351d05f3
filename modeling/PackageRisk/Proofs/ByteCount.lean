import PackageRisk.ByteCount
import PackageRisk.Proofs.Number.SixDigits

/-!
# Numbers of bytes in their units

A number of bytes is divided by 1024 until it is below that or there is no larger unit
(`exists_inUnit`), and what is left is shown rounded. So more bytes are never shown as less
(`Printed.ordered`), and what is shown is less than 1024 of its unit unless the number fills its
unit: it is so little below the next one that it is rounded up to it. That is where a quantity is
shown in two units (`prints_in_order`).
-/

namespace PackageRisk.ByteCount

variable {q q' v : ℚ} {x : Binary64} {n a b e e' : Nat}

/-! ## Numbers that can be shown -/

theorem above_zero_iff {k : Int} :
    ((Number.int k).isZero || (Number.int k).le 0) = false ↔ 0 < k := by
  have zero : (Number.int 0).Is 0 := rfl
  have here : (Number.int k).Is k := rfl
  have le : (Number.int k).le 0 = decide ((k : ℚ) ≤ 0) := here.le_eq zero
  rw [le, Bool.or_eq_false_iff, Number.isZero, beq_eq_false_iff_ne, decide_eq_false_iff_not,
    not_le, Int.cast_pos]
  omega

theorem text_of_pos {k : Int} (pos : 0 < k) (lt : k < Binary64.limit) :
    text (.int k) = .ok (inUnitText (Binary64.ofInt k)) := by
  have form : (Number.int k).toBinary? = some (Binary64.ofInt k) :=
    Number.toBinary?_int_eq_some_iff.2 ⟨by omega, rfl⟩
  rw [text, above_zero_iff.2 pos, if_neg Bool.false_ne_true, form]

/-- A number of bytes can be shown unless it is too large to be a binary64 number. -/
theorem exists_text_int_iff {k : Int} : (∃ s, text (.int k) = .ok s) ↔ k < Binary64.limit := by
  by_cases positive : 0 < k
  · constructor
    · rintro ⟨s, shown⟩
      by_contra large
      have none : (Number.int k).toBinary? = none := by
        rw [← Option.not_isSome_iff_eq_none, Number.isSome_toBinary?_int]
        omega
      rw [text, above_zero_iff.2 positive, if_neg Bool.false_ne_true, none] at shown
      cases shown
    · intro lt
      exact ⟨_, text_of_pos positive lt⟩
  · have under : ((Number.int k).isZero || (Number.int k).le 0) = true := by
      rw [← Bool.not_eq_false, above_zero_iff]
      exact positive
    refine iff_of_true ⟨"0 Bytes", by rw [text, if_pos under]⟩ ?_
    have : (0 : Int) < Binary64.limit := by decide +kernel
    omega

/-- A number below one that can be shown can be shown. -/
theorem exists_text_of_lt {m : Number} {k : Int} (below : m.lt (.int k) = true)
    (inRange : k < Binary64.limit) : ∃ s, text m = .ok s := by
  cases m with
  | int j => exact exists_text_int_iff.2 ((Number.lt_int.1 below).trans inRange)
  | float x =>
    unfold text
    split_ifs
    · exact ⟨_, rfl⟩
    · exact ⟨_, rfl⟩

theorem exists_textOf {v : Value} {m : Number} (number : v.number? = some m)
    (shown : ∃ s, text m = .ok s) : ∃ s, textOf v = .ok s := by
  unfold textOf
  split_ifs
  · exact ⟨_, rfl⟩
  · rw [number]
    exact shown

/-! ## The unit -/

theorem scaleTwo_finite {sign : Bool} {m : Nat} {i : Int} (form : Binary64.IsForm m i) (k : Int) :
    (Binary64.finite sign m i form).scaleTwo k =
      .ofQuotient sign (Binary64.magnitude m (i + k)).1 (Binary64.magnitude m (i + k)).2 := rfl

/-- A number is divided by 1024 exactly. -/
theorem toRat?_scaleTwo (value : x.toRat? = some v) (reaches : 1024 ≤ v) :
    (x.scaleTwo (-10)).toRat? = some (v / 1024) := by
  obtain ⟨m, i, form, rfl, same⟩ := Binary64.exists_finite_of_pos value (by linarith)
  have high : -43 < i := by
    by_contra low
    have below : v < 1024 :=
      calc v = (m + 1 : Nat) * 2 ^ i := same.symm
        _ ≤ (m + 1 : Nat) * 2 ^ (-43 : Int) := by
            gcongr
            · norm_num
            · omega
        _ < (2 ^ 53 : Nat) * 2 ^ (-43 : Int) := by
            gcongr
            exact form.lt_bits
        _ = 1024 := by norm_num
    linarith
  have least : Binary64.minExponent = -1074 := rfl
  have scaled : Binary64.IsForm (m + 1) (i + -10) := by
    refine ⟨form.lt_bits, by omega, by have := form.le_max; omega, ?_⟩
    exact .inr (form.leading.resolve_left (by omega))
  have quotient : ((m + 1 : Nat) : ℚ) * 2 ^ (i + -10) = v / 1024 := by
    rw [← same, zpow_add₀ (by norm_num), ← mul_assoc]
    norm_num
    ring
  rw [scaleTwo_finite, Binary64.ofQuotient_eq_finite scaled (Nat.succ_pos m)
    (Binary64.magnitude_pos _ _) (Binary64.magnitude_eq _ _), Binary64.toRat?_finite,
    if_neg Bool.false_ne_true, quotient]

/-- The unit of a number among so many: the largest one that it reaches. -/
structure IsUnitOf (count : Nat) (v : ℚ) (e : Nat) : Prop where
  named : e < count
  reached : 1024 ^ e ≤ v
  below : v < 1024 ^ (e + 1) ∨ e + 1 = count

/-- A number is divided until it is below 1024 or in the largest unit. -/
theorem exists_inUnit {us : List String} (some : us ≠ []) (value : x.toRat? = .some v)
    (one : 1 ≤ v) : ∃ e y unit, inUnit us x = (y, unit) ∧ us[e]? = .some unit ∧
      y.toRat? = .some (v / 1024 ^ e) ∧ IsUnitOf us.length v e := by
  induction us generalizing x v with
  | nil => exact absurd rfl some
  | cons unit larger ih =>
    have only : x.toRat? = .some (v / 1024 ^ 0) := by rw [value, pow_zero, div_one]
    cases larger with
    | nil => exact ⟨0, x, unit, rfl, rfl, only, by simp, by simpa using one, .inr rfl⟩
    | cons next larger =>
      have kilo : (1024 : Number).Is 1024 := rfl
      have le : Number.le 1024 (.float x) = decide (1024 ≤ v) :=
        kilo.le_eq (Number.is_float.2 value)
      rw [inUnit, le]
      · by_cases reaches : 1024 ≤ v
        · rw [if_pos (decide_eq_true reaches)]
          obtain ⟨e, y, unit, reached, named, value, isUnit⟩ := ih (by simp)
            (toRat?_scaleTwo value reaches) (by linarith)
          have step (k : Nat) : (1024 : ℚ) ^ k ≤ v / 1024 ↔ 1024 ^ (k + 1) ≤ v := by
            rw [le_div_iff₀ (by norm_num), pow_succ]
          refine ⟨e + 1, y, unit, reached, named, ?_, by simpa using isUnit.named,
            (step e).1 isUnit.reached, ?_⟩
          · rw [value, pow_succ, mul_comm, div_div]
          · refine isUnit.below.imp (fun below => ?_) fun last => by simpa using last
            rwa [← not_le, step, not_le] at below
        · rw [if_neg (by simpa using reaches)]
          exact ⟨0, x, unit, rfl, rfl, only, by simp, by simpa using one,
            .inl (by simpa using reaches)⟩
      · simp

/-! ## What is shown -/

/-- A text shows so much of a unit: a numeral, a space and the name of the unit. -/
inductive Shows : String → ℚ → Nat → Prop
  | amount {numeral unit : String} {q : ℚ} {e : Nat} (spells : Numeral.Spells numeral.toList q)
    (named : units[e]? = some unit) : Shows (numeral ++ " " ++ unit) q e

/-- The amount and the unit that are shown of a number of bytes. -/
def Prints (n : Nat) (q : ℚ) (e : Nat) : Prop :=
  ∃ s, text (.int n) = .ok s ∧ Shows s q e

/-- A text is read back by its last space. -/
theorem append_space_inj {first first' last last' : List Char} (none : ' ' ∉ last)
    (none' : ' ' ∉ last') (same : first ++ ' ' :: last = first' ++ ' ' :: last') :
    first = first' ∧ last = last' := by
  have taken {first last : List Char} (none : ' ' ∉ last) :
      (first ++ ' ' :: last).reverse.takeWhile (· != ' ') = last.reverse := by
    rw [List.reverse_append, List.reverse_cons, List.append_assoc]
    refine takeWhile_append_of_head (List.all_eq_true.2 fun c mem => ?_) (by simp)
    rw [bne_iff_ne]
    rintro rfl
    exact none (List.mem_reverse.1 mem)
  have lasts := @taken first last none
  rw [same, taken none', List.reverse_inj] at lasts
  rw [lasts] at same ⊢
  exact ⟨List.append_cancel_right same, rfl⟩

theorem noSpace_of_named {unit : String} (named : units[e]? = some unit) : ' ' ∉ unit.toList := by
  have all : ∀ u ∈ units, ' ' ∉ u.toList := by decide +kernel
  exact all unit (List.mem_of_getElem? named)

/-- The amount and the unit can be told from the text. -/
theorem Shows.unique {s : String} (shows : Shows s q e) (shows' : Shows s q' e') :
    q = q' ∧ e = e' := by
  generalize same : s = t at shows'
  obtain ⟨spells, named⟩ := shows
  obtain ⟨spells', named'⟩ := shows'
  rw [← String.toList_inj] at same
  simp only [String.toList_append, List.append_assoc, show " ".toList = [' '] from rfl,
    List.singleton_append] at same
  obtain ⟨numerals, names⟩ :=
    append_space_inj (noSpace_of_named named) (noSpace_of_named named') same
  rw [numerals] at spells
  rw [String.toList_inj.1 names] at named
  refine ⟨spells.unique spells', ?_⟩
  have inRange : e < units.length := (List.getElem?_eq_some_iff.1 named).1
  exact (List.getElem?_inj inRange (by decide +kernel)).1 (named.trans named'.symm)

theorem Prints.unique (prints : Prints n q e) (prints' : Prints n q' e') : q = q' ∧ e = e' := by
  obtain ⟨s, text, shows⟩ := prints
  obtain ⟨s', text', shows'⟩ := prints'
  cases text.symm.trans text'
  exact shows.unique shows'

/-- How what is shown of a number of bytes depends on it: the unit is that of the nearest binary64
number, and the amount is what this is in the unit, rounded. -/
structure Printed (n : Nat) (q : ℚ) (e : Nat) : Prop where
  isUnit : IsUnitOf 5 (Binary64.nearest n) e
  shown : IsShown q (Binary64.nearest n / 1024 ^ e)

theorem IsUnitOf.one_le {count : Nat} (isUnit : IsUnitOf count v e) : 1 ≤ v / 1024 ^ e := by
  rw [one_le_div (by positivity)]
  exact isUnit.reached

/-- In its unit a number is far from what overflows. -/
theorem IsUnitOf.div_add_one_le (isUnit : IsUnitOf 5 v e) (pos : 0 < v)
    (lt : v < Binary64.limit) : v / 1024 ^ e + 1 ≤ Binary64.limit := by
  have large : (1025 : ℚ) ≤ Binary64.limit := by
    exact_mod_cast ((by decide : 1025 ≤ 2 ^ 53).trans Number.two_pow_lt_limit.le)
  rcases isUnit.below with below | last
  · have : v / 1024 ^ e < 1024 := by
      rw [div_lt_iff₀ (by positivity), ← pow_succ']
      exact below
    linarith
  · obtain rfl : e = 4 := by omega
    have : v / 1024 ^ 4 ≤ v / 1024 := by
      gcongr
      norm_num
    linarith

theorem exists_prints (pos : 1 ≤ n) (lt : n < Binary64.limit) :
    ∃ q e, Prints n q e ∧ Printed n q e := by
  have one : (1 : ℚ) ≤ Binary64.nearest n := IsShown.one_le_nearest (by exact_mod_cast pos)
  have value : (Binary64.ofInt n).toRat? = some (Binary64.nearest n) :=
    Binary64.toRat?_ofInt_nonneg (Int.natCast_nonneg n) (by simpa using lt)
  have inRange : Binary64.nearest n < Binary64.limit :=
    (le_abs_self _).trans_lt (Binary64.abs_lt_limit value)
  obtain ⟨e, y, unit, reached, named, amount, isUnit⟩ :=
    @exists_inUnit _ _ units (by decide) value one
  obtain ⟨q, shown, spells⟩ := Binary64.spells_roundPlaces amount isUnit.one_le
    (IsUnitOf.div_add_one_le isUnit (by linarith) inRange)
  refine ⟨q, e, ⟨_, text_of_pos (by exact_mod_cast pos) (by exact_mod_cast lt), ?_⟩, isUnit, shown⟩
  rw [inUnitText, reached]
  exact .amount spells named

theorem Prints.lt_limit (prints : Prints n q e) : n < Binary64.limit := by
  obtain ⟨s, text, -⟩ := prints
  have lt : (n : Int) < Binary64.limit := exists_text_int_iff.1 ⟨s, text⟩
  exact_mod_cast lt

theorem exists_prints_iff (pos : 1 ≤ n) : (∃ q e, Prints n q e) ↔ n < Binary64.limit := by
  constructor
  · rintro ⟨q, e, prints⟩
    exact prints.lt_limit
  · intro lt
    obtain ⟨q, e, prints, -⟩ := exists_prints pos lt
    exact ⟨q, e, prints⟩

theorem Prints.printed (pos : 1 ≤ n) (prints : Prints n q e) : Printed n q e := by
  obtain ⟨q', e', prints', printed⟩ := exists_prints pos prints.lt_limit
  obtain ⟨rfl, rfl⟩ := prints.unique prints'
  exact printed

/-! ## Order -/

theorem shown_le (one : 1 ≤ v) (le : v ≤ 1024) (shown : IsShown q v) : q ≤ 1024 :=
  shown.mono one le (.natCast (by decide) le_rfl)

namespace Printed

variable (printed : Printed n q e)
include printed

theorem one_le : 1 ≤ q := by
  have one : IsShown 1 1 := by simpa using IsShown.natCast (T := 1) le_rfl (by decide)
  exact one.mono le_rfl printed.isUnit.one_le printed.shown

theorem le_of_lt (below : Binary64.nearest n < 1024 ^ (e + 1)) : q ≤ 1024 := by
  refine shown_le printed.isUnit.one_le ?_ printed.shown
  rw [div_le_iff₀ (by positivity), ← pow_succ']
  exact below.le

/-- More bytes are not shown in a smaller unit, and not as less. -/
theorem ordered (printed' : Printed b q' e') (le : n ≤ b) :
    (e = e' ∧ q ≤ q') ∨ (e < e' ∧ Binary64.nearest n < 1024 ^ (e + 1)) := by
  have more : Binary64.nearest n ≤ Binary64.nearest b :=
    Binary64.nearest_mono n.cast_nonneg (by exact_mod_cast le)
  have last := printed.isUnit.named
  have last' := printed'.isUnit.named
  rcases lt_trichotomy e e' with smaller | rfl | larger
  · exact .inr ⟨smaller, printed.isUnit.below.resolve_right (by omega)⟩
  · refine .inl ⟨rfl, printed.shown.mono printed.isUnit.one_le ?_ printed'.shown⟩
    gcongr
  · have below := printed'.isUnit.below.resolve_right (by omega)
    have reached : (1024 : ℚ) ^ (e' + 1) ≤ 1024 ^ e := pow_le_pow_right₀ (by norm_num) larger
    linarith [printed.isUnit.reached]

end Printed

/-! ## Filled units -/

/-- A number of bytes that is below a unit by less than half a hundredth of the one before it. -/
def FillsUnit (n : Nat) : Prop :=
  ∃ e, n < 1024 ^ (e + 1) ∧ (1024 - 1 / 200) * 1024 ^ e ≤ (n : ℚ)

/-- The largest unit that an amount of another one reaches is this one itself. -/
def IsLargestUnit (q : ℚ) (e : Nat) : Prop :=
  1024 ^ e ≤ q * 1024 ^ e ∧ ∀ e' < units.length, 1024 ^ e' ≤ q * 1024 ^ e → e' ≤ e

theorem fillsUnit_iff (reached : 1024 ^ e ≤ n) (below : n < 1024 ^ (e + 1)) :
    FillsUnit n ↔ (1024 - 1 / 200) * 1024 ^ e ≤ (n : ℚ) := by
  constructor
  · rintro ⟨e', below', close⟩
    have reached' : 1024 ^ e' ≤ n := by
      have : (1024 : ℚ) ^ e' ≤ n := by
        have : (0 : ℚ) < 1024 ^ e' := by positivity
        linarith
      exact_mod_cast this
    have le : e ≤ e' := Nat.lt_succ_iff.1
      ((Nat.pow_lt_pow_iff_right (by decide)).1 (reached.trans_lt below'))
    have ge : e' ≤ e := Nat.lt_succ_iff.1
      ((Nat.pow_lt_pow_iff_right (by decide)).1 (reached'.trans_lt below))
    rwa [le_antisymm le ge]
  · intro close
    exact ⟨e, below, close⟩

theorem nearest_eq (lt : n < 1024 ^ 5) : Binary64.nearest n = n :=
  Binary64.nearest_natCast (lt.trans (by norm_num))

theorem lt_of_nearest_lt (below : Binary64.nearest n < 1024 ^ 5) : n < 1024 ^ 5 := by
  by_contra large
  have reached : ((1024 ^ 5 : Nat) : ℚ) ≤ Binary64.nearest n := by
    rw [← Binary64.nearest_natCast (by norm_num : 1024 ^ 5 < 2 ^ 53)]
    exact Binary64.nearest_mono (Nat.cast_nonneg _) (by exact_mod_cast not_lt.1 large)
  push_cast at reached
  linarith

section Exact

variable (printed : Printed n q e) (lt : n < 1024 ^ 5)
include printed lt

theorem Printed.reached : 1024 ^ e ≤ n := by
  have := printed.isUnit.reached
  rw [nearest_eq lt] at this
  exact_mod_cast this

theorem Printed.below : n < 1024 ^ (e + 1) := by
  rcases printed.isUnit.below with below | last
  · rw [nearest_eq lt] at below
    exact_mod_cast below
  · rwa [last]

/-- The amount is the number in its unit to the nearest hundredth. -/
theorem Printed.exists_hundredths :
    ∃ k : Nat, IsNearest k (100 * (n / 1024 ^ e)) ∧ q = k / 100 := by
  have one := printed.isUnit.one_le
  have shown := printed.shown
  rw [nearest_eq lt] at one shown
  refine shown.eq_hundredths one ?_
  rw [div_le_iff₀ (by positivity), ← pow_succ']
  exact_mod_cast (printed.below lt).le

/-- Less than 1024 is shown unless the unit is filled. -/
theorem Printed.lt_iff : q < 1024 ↔ ¬FillsUnit n := by
  obtain ⟨k, nearest, rfl⟩ := printed.exists_hundredths lt
  have rounds := nearest.le_iff_of_even (T := 102400) (by decide)
  have full : (1024 : ℚ) ≤ k / 100 ↔ (102400 : Int) ≤ k := by
    rw [le_div_iff₀ (by norm_num)]
    norm_num
  rw [fillsUnit_iff (printed.reached lt) (printed.below lt), ← not_le, full, rounds,
    ← le_div_iff₀ (by positivity)]
  push_cast
  constructor
  · intro short close
    exact short (by linarith)
  · intro short close
    exact short (by linarith)

theorem Printed.mul_lt_next (notFull : ¬FillsUnit n) : q * 1024 ^ e < 1024 ^ (e + 1) := by
  have less := (printed.lt_iff lt).2 notFull
  rw [pow_succ']
  gcongr

/-- What is shown differs from the number by half a hundredth of its unit at most. -/
theorem Printed.abs_sub_le : |q * 1024 ^ e - n| ≤ 1024 ^ e / 200 := by
  obtain ⟨k, nearest, rfl⟩ := printed.exists_hundredths lt
  have inHundredths : 100 * (n / 1024 ^ e) = (n : ℚ) / (1024 ^ e / 100) := by
    rw [div_div_eq_mul_div, mul_div_assoc', mul_comm]
  rw [inHundredths] at nearest
  calc |(k : ℚ) / 100 * 1024 ^ e - n| = |(k : Int) * (1024 ^ e / 100) - (n : ℚ)| := by
        rw [Int.cast_natCast, mul_div_assoc', mul_div_right_comm]
    _ ≤ 1024 ^ e / 100 / 2 := nearest.abs_mul_sub_le (by positivity)
    _ = 1024 ^ e / 200 := by rw [div_div]; norm_num

/-- The unit is the largest one that what is shown reaches unless it is filled and there is a larger
one. -/
theorem Printed.isLargestUnit_iff : IsLargestUnit q e ↔ ¬(FillsUnit n ∧ n < 1024 ^ 4) := by
  have below := printed.below lt
  have reached := printed.reached lt
  have named := printed.isUnit.named
  have unit : (0 : ℚ) < 1024 ^ e := by positivity
  have own : (1024 : ℚ) ^ e ≤ q * 1024 ^ e := le_mul_of_one_le_left unit.le printed.one_le
  by_cases larger : FillsUnit n ∧ n < 1024 ^ 4
  · have full : 1024 ≤ q := not_lt.1 fun less => (printed.lt_iff lt).1 less larger.1
    have place : e < 4 := (Nat.pow_lt_pow_iff_right (by decide)).1 (reached.trans_lt larger.2)
    refine iff_of_false (fun isLargest => ?_) (not_not.2 larger)
    have next : (1024 : ℚ) ^ (e + 1) ≤ q * 1024 ^ e := by
      rw [pow_succ']
      gcongr
    have := isLargest.2 (e + 1) (by simp [units]; omega) next
    omega
  · refine iff_of_true ⟨own, fun e' named' reaches => ?_⟩ larger
    have named' : e' < 5 := named'
    rcases not_and_or.1 larger with notFull | last
    · have less := printed.mul_lt_next lt notFull
      exact Nat.lt_succ_iff.1 ((pow_lt_pow_iff_right₀ (by norm_num)).1 (reaches.trans_lt less))
    · have : 4 < e + 1 :=
        (Nat.pow_lt_pow_iff_right (by decide)).1 ((not_lt.1 last).trans_lt below)
      omega

end Exact

/-- A number in a larger unit than that of another one is shown as no less, and as just as much only
if the other one fills its unit. -/
theorem Printed.le_of_smaller (printed : Printed a q e) (printed' : Printed b q' e')
    (smaller : e < e') (below : Binary64.nearest a < 1024 ^ (e + 1)) :
    q * 1024 ^ e ≤ q' * 1024 ^ e' ∧ (q * 1024 ^ e = q' * 1024 ^ e' → FillsUnit a) := by
  have unit : (0 : ℚ) < 1024 ^ e := by positivity
  have most := printed.le_of_lt below
  have lower : q * 1024 ^ e ≤ 1024 ^ (e + 1) := by
    rw [pow_succ']
    gcongr
  have upper : (1024 : ℚ) ^ (e + 1) ≤ q' * 1024 ^ e' :=
    calc (1024 : ℚ) ^ (e + 1) ≤ 1024 ^ e' := pow_le_pow_right₀ (by norm_num) smaller
      _ ≤ q' * 1024 ^ e' := le_mul_of_one_le_left (by positivity) printed'.one_le
  refine ⟨lower.trans upper, fun same => ?_⟩
  have last := printed'.isUnit.named
  have most : (1024 : ℚ) ^ (e + 1) ≤ 1024 ^ 5 := pow_le_pow_right₀ (by norm_num) (by omega)
  have lt := lt_of_nearest_lt (below.trans_le most)
  by_contra notFull
  have less := printed.mul_lt_next lt notFull
  linarith

/-- A byte less than a megabyte is shown as 1024 kilobytes. -/
theorem prints_almostMega : Prints 1048575 1024 1 := by
  have shown : inUnitText (Binary64.ofInt (1048575 : Nat)) = "1024 KB" := by decide +kernel
  have lt : ((1048575 : Nat) : Int) < Binary64.limit := by decide +kernel
  refine ⟨"1024 KB", by rw [text_of_pos (by decide) lt, shown], ?_⟩
  refine @Shows.amount "1024" "KB" 1024 1 ⟨⟨['1', '0', '2', '4'], [], 0⟩, rfl, ?_⟩ rfl
  have digits : Numeral.digitsValue ['1', '0', '2', '4'] = 1024 := rfl
  simp [Numeral.Decimal.value, digits]

theorem prints_mega : Prints 1048576 1 2 := by
  have shown : inUnitText (Binary64.ofInt (1048576 : Nat)) = "1 MB" := by decide +kernel
  have lt : ((1048576 : Nat) : Int) < Binary64.limit := by decide +kernel
  refine ⟨"1 MB", by rw [text_of_pos (by decide) lt, shown], ?_⟩
  refine @Shows.amount "1" "MB" 1 2 ⟨⟨['1'], [], 0⟩, rfl, ?_⟩ rfl
  have digits : Numeral.digitsValue ['1'] = 1 := rfl
  simp [Numeral.Decimal.value, digits]

/-- What is shown of a number of bytes below `1024 ^ 5` is at least one and at most 1024 of a unit,
and less than that unless the unit is filled; the unit is the largest one that what is shown
reaches, unless it is filled and there is a larger one. A larger number can be shown if it is a
binary64 number. Of two numbers that can be shown the larger one is not shown as less, and it is
shown as just as much in another unit only if the smaller one fills its unit. -/
theorem prints_in_order {a b : Nat} (pos : 1 ≤ a) (le : a ≤ b) :
    (a < 1024 ^ 5 → ∃ q e, Prints a q e ∧ |q * 1024 ^ e - a| ≤ 1024 ^ e / 200 ∧
        (1 ≤ q ∧ q ≤ 1024 ∧ (q < 1024 ↔ ¬FillsUnit a)) ∧
        (IsLargestUnit q e ↔ ¬(FillsUnit a ∧ a < 1024 ^ 4))) ∧
      ((∃ q e, Prints b q e) ↔ b < Binary64.limit) ∧
      ∀ q q' e e', Prints a q e → Prints b q' e' →
        q * 1024 ^ e ≤ q' * 1024 ^ e' ∧
          (q * 1024 ^ e = q' * 1024 ^ e' → e = e' ∨ FillsUnit a) := by
  refine ⟨fun lt => ?_, exists_prints_iff (pos.trans le), fun q q' e e' prints prints' => ?_⟩
  · have inRange : a < Binary64.limit := (lt.trans (by norm_num)).trans Number.two_pow_lt_limit
    obtain ⟨q, e, prints, printed⟩ := exists_prints pos inRange
    have below : Binary64.nearest a < 1024 ^ (e + 1) := by
      rw [nearest_eq lt]
      exact_mod_cast printed.below lt
    exact ⟨q, e, prints, printed.abs_sub_le lt,
      ⟨printed.one_le, printed.le_of_lt below, printed.lt_iff lt⟩, printed.isLargestUnit_iff lt⟩
  · have printed := prints.printed pos
    have printed' := prints'.printed (pos.trans le)
    rcases printed.ordered printed' le with ⟨rfl, le⟩ | ⟨smaller, below⟩
    · exact ⟨by gcongr, fun _ => .inl rfl⟩
    · obtain ⟨le, fills⟩ := printed.le_of_smaller printed' smaller below
      exact ⟨le, fun same => .inr (fills same)⟩

/-- Just below a megabyte. -/
theorem prints_in_order_mega :
    (1 ≤ 1048575 ∧ 1048575 ≤ 1048576 ∧ 1048575 < 1024 ^ 5 ∧
        Prints 1048575 1024 1 ∧ Prints 1048576 1 2) ∧
      (∃ q e, Prints 1048575 q e ∧ |q * 1024 ^ e - (1048575 : Nat)| ≤ 1024 ^ e / 200 ∧
        (1 ≤ q ∧ q ≤ 1024 ∧ (q < 1024 ↔ ¬FillsUnit 1048575)) ∧
        (IsLargestUnit q e ↔ ¬(FillsUnit 1048575 ∧ 1048575 < 1024 ^ 4))) ∧
      ((∃ q e, Prints 1048576 q e) ↔ 1048576 < Binary64.limit) ∧
      (1024 : ℚ) * 1024 ^ 1 ≤ 1 * 1024 ^ 2 ∧
        ((1024 : ℚ) * 1024 ^ 1 = 1 * 1024 ^ 2 → 1 = 2 ∨ FillsUnit 1048575) := by
  have pos : 1 ≤ 1048575 := by decide
  have le : 1048575 ≤ 1048576 := by decide
  have lt : 1048575 < 1024 ^ 5 := by decide
  obtain ⟨below, all, order⟩ := prints_in_order pos le
  exact ⟨⟨pos, le, lt, prints_almostMega, prints_mega⟩, below lt, all,
    order 1024 1 1 2 prints_almostMega prints_mega⟩

/-- As much as a megabyte is shown in kilobytes too. -/
theorem mega_shown_in_two_units :
    (Prints 1048575 1024 1 ∧ Prints 1048576 1 2 ∧ (1024 : ℚ) * 1024 ^ 1 = 1 * 1024 ^ 2) ∧
      ¬∃ q e, Prints 1048575 q e ∧ (q < 1024 ∨ IsLargestUnit q e) := by
  refine ⟨⟨prints_almostMega, prints_mega, by norm_num⟩, ?_⟩
  rintro ⟨q, e, prints, less | isLargest⟩
  · obtain ⟨rfl, -⟩ := prints.unique prints_almostMega
    exact lt_irrefl _ less
  · obtain ⟨rfl, rfl⟩ := prints.unique prints_almostMega
    have := isLargest.2 2 (by decide) (by norm_num)
    omega

end PackageRisk.ByteCount
