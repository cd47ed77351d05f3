import PackageRisk.Proofs.Number.Whole

/-!
# Order, clamping and sums of numbers

Numbers of both forms compare by the rationals that they stand for, so `clamp` brings a number
between two bounds in the ordinary sense (`Is.clamp`), and whatever the number was, infinite or
no number at all, the outcome is a rational between the bounds (`clamp_between`).
-/

namespace PackageRisk

namespace Binary64

/-- Every finite number is below the limit. -/
theorem abs_lt_limit {x : Binary64} {q : ℚ} (h : x.toRat? = some q) : |q| < limit := by
  rcases x with _ | s | ⟨s, m, e, form⟩
  · cases h
  · cases h
  rw [toRat?_finite, Option.some.injEq] at h
  have abs : |q| = m * 2 ^ e := by
    have nonneg : (0 : ℚ) ≤ m * 2 ^ e := by positivity
    subst h
    cases s <;> simp [abs_of_nonneg nonneg]
  have bits : m ≤ 2 ^ 53 - 1 := Nat.le_sub_one_of_lt form.lt_bits
  rw [abs, limit_eq]
  calc (m : ℚ) * 2 ^ e ≤ (2 ^ 53 - 1 : Nat) * 2 ^ maxExponent := by
        gcongr
        · norm_num
        · exact form.le_max
    _ = (2 * (2 ^ 53 - 1) : Nat) * 2 ^ (maxExponent - 1) := by
        rw [zpow_sub_one₀ (by norm_num)]
        push_cast
        ring
    _ < (2 * (2 ^ 53 - 1) + 1 : Nat) * 2 ^ (maxExponent - 1) := by
        gcongr
        norm_num

end Binary64

namespace Number

variable {a b low high x : Number} {p q lo hi : ℚ}

/-- A number is below the limit just when its binary64 form is there and finite. -/
theorem Is.abs_lt_limit_iff (h : a.Is p) :
    |p| < Binary64.limit ↔ ∃ y, a.toBinary? = some y ∧ y.isFinite = true := by
  rcases a with k | y
  · have eq : (k : ℚ) = p := by
      simpa [Is, place?] using h
    have abs : |p| = ((k.natAbs : Nat) : ℚ) := by
      rw [← eq, Nat.cast_natAbs, Int.cast_abs]
    rw [abs, Nat.cast_lt]
    constructor
    · intro lt
      exact ⟨_, toBinary?_int_eq_some_iff.2 ⟨lt, rfl⟩, Binary64.isFinite_ofInt_iff.2 lt⟩
    · rintro ⟨y, form, -⟩
      exact (toBinary?_int_eq_some_iff.1 form).1
  · have value := is_float.1 h
    refine iff_of_true (Binary64.abs_lt_limit value) ⟨y, rfl, ?_⟩
    rcases y with _ | s | ⟨s, m, e, form⟩
    · cases value
    · cases value
    · rfl

theorem Is.lt_eq (ha : a.Is p) (hb : b.Is q) : a.lt b = decide (p < q) := by
  rw [lt, ha, hb]
  rfl

theorem Is.le_eq (ha : a.Is p) (hb : b.Is q) : a.le b = decide (p ≤ q) := by
  rw [le, ha, hb]
  simp only [Place.lt, ← decide_not, not_lt]

theorem lt_int {m n : Int} : (int m).lt (int n) = true ↔ m < n := by
  have hm : (int m).Is m := rfl
  have hn : (int n).Is n := rfl
  rw [hm.lt_eq hn, decide_eq_true_eq, Int.cast_lt]

theorem le_int {m n : Int} : (int m).le (int n) = true ↔ m ≤ n := by
  have hm : (int m).Is m := rfl
  have hn : (int n).Is n := rfl
  rw [hm.le_eq hn, decide_eq_true_eq, Int.cast_le]

theorem Is.firstMin (ha : a.Is p) (hb : b.Is q) : (firstMin a b).Is (min p q) := by
  rw [Number.firstMin, hb.lt_eq ha]
  rcases lt_or_ge q p with lt | ge
  · simpa [lt, min_eq_right lt.le] using hb
  · simpa [not_lt.2 ge, min_eq_left ge] using ha

theorem Is.firstMax (ha : a.Is p) (hb : b.Is q) : (firstMax a b).Is (max p q) := by
  rw [Number.firstMax, ha.lt_eq hb]
  rcases lt_or_ge p q with lt | ge
  · simpa [lt, max_eq_right lt.le] using hb
  · simpa [not_lt.2 ge, max_eq_left ge] using ha

theorem Is.clamp (hl : low.Is lo) (hh : high.Is hi) (hx : x.Is q) :
    (clamp low high x).Is (max lo (min hi q)) :=
  hl.firstMax (hh.firstMin hx)

/-- Only a rational lies between two rationals. -/
theorem between_of_lt (hl : low.Is lo) (hh : high.Is hi) (above : low.lt x = true)
    (below : x.lt high = true) : ∃ q, x.Is q ∧ lo < q ∧ q < hi := by
  unfold Is at hl hh
  simp only [lt, hl, hh] at above below
  cases place : x.place? with
  | none => simp [place] at above
  | some spot =>
    cases spot with
    | below => simp [place, Place.lt] at above
    | above => simp [place, Place.lt] at below
    | «at» q =>
      simp only [place, Place.lt, decide_eq_true_eq] at above below
      exact ⟨q, place, above, below⟩

/-- Whatever is clamped, a rational between the bounds comes out. -/
theorem clamp_between (hl : low.Is lo) (hh : high.Is hi) (le : lo ≤ hi) (x : Number) :
    ∃ q, (clamp low high x).Is q ∧ lo ≤ q ∧ q ≤ hi := by
  unfold Number.clamp Number.firstMax Number.firstMin
  split_ifs with below above above
  · obtain ⟨q, hx, ge, le⟩ := between_of_lt hl hh above below
    exact ⟨q, hx, ge.le, le.le⟩
  · exact ⟨lo, hl, le_rfl, le⟩
  · exact ⟨hi, hh, le, le_rfl⟩
  · exact ⟨lo, hl, le_rfl, le⟩

/-! ## Sums -/

/-- A number whose binary64 form stands for the same. -/
def IsKept (n : Number) : Prop := ∃ y, n.toBinary? = some y ∧ (float y).place? = n.place?

theorem Is.isKept {k : Int} (h : a.Is k) (lt : k.natAbs < 2 ^ 53) : a.IsKept := by
  obtain ⟨y, form, value⟩ := h.toBinary? lt
  exact ⟨y, form, (is_float.2 value).trans h.symm⟩

theorem Is.eq_of_int {k m : Int} (h : (int k).Is (m : ℚ)) : k = m := by
  simpa [Is, place?] using h

theorem combine?_of_mixed (whole : Int → Int → Int)
    (rounded : Binary64 → Binary64 → Binary64) (mixed : ¬(a.IsInt ∧ b.IsInt)) :
    combine? whole rounded a b =
      a.toBinary?.bind fun y => b.toBinary?.map fun z => float (rounded y z) := by
  rcases a with k | y <;> rcases b with l | z
  · exact absurd ⟨⟨k, rfl⟩, ⟨l, rfl⟩⟩ mixed
  all_goals
    simp only [combine?, Option.map_eq_bind]
    rfl

/-- An operation on whole numbers that is exact in binary64 is exact in both forms. -/
theorem Is.combine? {whole : Int → Int → Int} {rounded : Binary64 → Binary64 → Binary64}
    {m n : Int} (ha : a.Is m) (hb : b.Is n) (ka : a.IsKept) (kb : b.IsKept)
    (exact : ∀ y z : Binary64, y.toRat? = some (m : ℚ) → z.toRat? = some (n : ℚ) →
      (rounded y z).toRat? = some ((whole m n : Int) : ℚ)) :
    ∃ s, Number.combine? whole rounded a b = some s ∧ s.Is (whole m n : Int) := by
  by_cases ints : a.IsInt ∧ b.IsInt
  · obtain ⟨⟨k, rfl⟩, ⟨l, rfl⟩⟩ := ints
    rw [← ha.eq_of_int, ← hb.eq_of_int]
    exact ⟨_, rfl, rfl⟩
  · obtain ⟨y, formA, placeA⟩ := ka
    obtain ⟨z, formB, placeB⟩ := kb
    rw [combine?_of_mixed whole rounded ints, formA, formB]
    refine ⟨_, rfl, is_float.2 ?_⟩
    exact exact y z (is_float.1 (placeA.trans ha)) (is_float.1 (placeB.trans hb))

/-- Whole numbers that binary64 keeps are added exactly while the sum is below `2 ^ 53`. -/
theorem Is.add? {m n : Int} (ha : a.Is m) (hb : b.Is n) (ka : a.IsKept) (kb : b.IsKept)
    (lt : (m + n).natAbs < 2 ^ 53) : ∃ s, a.add? b = some s ∧ s.Is (m + n : Int) :=
  ha.combine? hb ka kb fun _ _ hy hz => Binary64.toRat?_add hy hz lt

theorem Is.sub? {m n : Int} (ha : a.Is m) (hb : b.Is n) (ka : a.IsKept) (kb : b.IsKept)
    (lt : (m - n).natAbs < 2 ^ 53) : ∃ s, a.sub? b = some s ∧ s.Is (m - n : Int) :=
  ha.combine? hb ka kb fun _ _ hy hz => Binary64.toRat?_sub hy hz lt

/-- A number with a binary64 form: all but the whole numbers from the limit on. -/
def InRange (n : Number) : Prop := ∀ k, n = .int k → k.natAbs < Binary64.limit

/-- Two numbers that can be added and subtracted. -/
def Meets (a b : Number) : Prop := a.IsInt ∧ b.IsInt ∨ a.InRange ∧ b.InRange

theorem isSome_toBinary?_iff : a.toBinary?.isSome = true ↔ a.InRange := by
  rcases a with k | x
  · rw [isSome_toBinary?_int]
    constructor
    · rintro lt _ ⟨⟩
      exact lt
    · intro inRange
      exact inRange k rfl
  · exact iff_of_true rfl nofun

/-- An operation is defined just when its operands meet. -/
theorem exists_combine?_iff (whole : Int → Int → Int)
    (rounded : Binary64 → Binary64 → Binary64) :
    (∃ s, Number.combine? whole rounded a b = some s) ↔ a.Meets b := by
  by_cases ints : a.IsInt ∧ b.IsInt
  · refine iff_of_true ?_ (.inl ints)
    obtain ⟨⟨k, rfl⟩, ⟨l, rfl⟩⟩ := ints
    exact ⟨_, rfl⟩
  · rw [combine?_of_mixed whole rounded ints, Meets, ← isSome_toBinary?_iff,
      ← isSome_toBinary?_iff]
    cases a.toBinary? <;> cases b.toBinary? <;> simp [ints]

theorem exists_add?_iff : (∃ s, a.add? b = some s) ↔ a.Meets b :=
  exists_combine?_iff (· + ·) Binary64.add

theorem exists_sub?_iff : (∃ s, a.sub? b = some s) ↔ a.Meets b :=
  exists_combine?_iff (· - ·) Binary64.sub

end Number

end PackageRisk
