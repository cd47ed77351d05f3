import PackageRisk.Proofs.Scoring.Finite

/-!
# The bands of all scores

The bounds of a band are whole numbers, and between two bands the lower one reaches up to the next.
So the bands divide the whole line among them (`Covers`), and a number has the one that covers what
it stands for. What is not a finite number is refused. A whole number from the limit of binary64 on
is neither: the test for finite numbers ends with a fault there (`ruling_ofScore`).
-/

namespace PackageRisk.Band

variable {n : Number} {q : ℚ} {v : Value} {b b' : Band} {outcome outcome' : Except Failure Band}

/-- The part of the line that a band covers; what is off the scale is blocked. -/
inductive Covers : Band → ℚ → Prop
  | safe {q : ℚ} (low : 90 ≤ q) (high : q ≤ 100) : Covers safe q
  | review {q : ℚ} (low : 70 ≤ q) (high : q < 90) : Covers review q
  | highRisk {q : ℚ} (low : 50 ≤ q) (high : q < 70) : Covers highRisk q
  | block {q : ℚ} (off : q < 50 ∨ 100 < q) : Covers block q

theorem Covers.unique (covers : b.Covers q) (covers' : b'.Covers q) : b = b' := by
  cases covers <;> cases covers' <;> first | rfl | (exfalso; grind)

/-- Just what is outside of the scale from 50 to 100 is blocked. -/
theorem Covers.blocks_iff (covers : b.Covers q) : b.blocks = true ↔ ¬(50 ≤ q ∧ q ≤ 100) := by
  cases covers with
  | safe low high => exact iff_of_false (by decide) (not_not.2 ⟨by linarith, high⟩)
  | review low high => exact iff_of_false (by decide) (not_not.2 ⟨by linarith, by linarith⟩)
  | highRisk low high => exact iff_of_false (by decide) (not_not.2 ⟨low, by linarith⟩)
  | block off =>
    refine iff_of_true (by decide) fun onScale => ?_
    exact off.elim onScale.1.not_gt onScale.2.not_gt

theorem covers_ofNumber (value : n.Is q) : (ofNumber n).Covers q := by
  have bounds (band : Band) := contains_iff band value
  rw [ofNumber_eq]
  split_ifs with isSafe isReview isHighRisk
  · obtain ⟨⟨low, -⟩, high⟩ := (bounds safe).1 isSafe
    exact .safe (by exact_mod_cast low) high
  · obtain ⟨⟨low, high⟩, -⟩ := (bounds review).1 isReview
    norm_num [review] at low high
    exact .review low high
  · obtain ⟨⟨low, high⟩, -⟩ := (bounds highRisk).1 isHighRisk
    norm_num [highRisk] at low high
    exact .highRisk low high
  · rw [bounds] at isSafe isReview isHighRisk
    norm_num [safe, review, highRisk] at isSafe isReview isHighRisk
    refine .block ?_
    by_contra onScale
    grind

/-- The fault of a whole number that has no binary64 form. -/
def tooLarge : Failure := .fault (.overflow "int too large to convert to float")

/-- What becomes of a score: a number below the limit has the band that covers it, a whole number
from the limit on has a fault, and what is not a finite number is refused. -/
inductive Ruling : Value → Except Failure Band → Prop
  | covered {n : Number} {q : ℚ} {b : Band} (value : n.Is q) (lt : |q| < Binary64.limit)
      (covers : b.Covers q) : Ruling (.number n) (.ok b)
  | outside {k : Int} (large : Binary64.limit ≤ k.natAbs) : Ruling (.int k) (.error tooLarge)
  | refused {v : Value} (noScore : ∀ n, v = .number n → n.isFinite = false) :
      Ruling v (.error (.invalidScore v))

theorem ruling_ofScore (v : Value) : Ruling v (ofScore v) := by
  cases v with
  | number n =>
    by_cases finite : n.isFinite = true
    · obtain ⟨q, value⟩ := Number.exists_is_iff.2 finite
      by_cases lt : |q| < Binary64.limit
      · rw [ofScore_of_abs_lt value lt]
        exact .covered value lt (covers_ofNumber value)
      · cases n with
        | int k =>
          have large : Binary64.limit ≤ k.natAbs := by
            by_contra small
            obtain rfl := Number.is_int.1 value
            apply lt
            rw [← Int.cast_abs, Int.abs_eq_natAbs, Int.cast_natCast]
            exact_mod_cast not_le.1 small
          have noForm : (Number.int k).toBinary? = none := by
            rw [← Option.not_isSome_iff_eq_none, Number.isSome_toBinary?_int]
            exact large.not_gt
          rw [ofScore, noForm]
          exact .outside large
        | float x => exact absurd (Binary64.abs_lt_limit (Number.is_float.1 value)) lt
    · cases n with
      | int k => exact absurd rfl finite
      | float x =>
        have refused : ofScore (.number (.float x)) = .error (.invalidScore (.number (.float x))) :=
          if_neg finite
        rw [refused]
        refine .refused fun n same => ?_
        cases same
        exact Bool.eq_false_iff.2 finite
  | _ =>
    refine .refused fun n same => ?_
    cases same

/-- A score has one ruling. -/
theorem Ruling.unique (ruling : Ruling v outcome) (ruling' : Ruling v outcome') :
    outcome = outcome' := by
  have finite {n : Number} {q : ℚ} (value : n.Is q) : ¬n.isFinite = false := by
    rw [Number.isFinite_of_is value]
    decide
  have apart {k : Int} {q : ℚ} (value : (Number.int k).Is q) (lt : |q| < Binary64.limit)
      (large : Binary64.limit ≤ k.natAbs) : False := by
    obtain ⟨x, form, -⟩ := value.abs_lt_limit_iff.1 lt
    exact large.not_gt (Number.toBinary?_int_eq_some_iff.1 form).1
  cases ruling with
  | covered value lt covers =>
    cases ruling' with
    | covered value' lt' covers' =>
      obtain rfl : _ = _ := value.value.symm.trans value'.value
      rw [covers.unique covers']
    | outside large => exact (apart value lt large).elim
    | refused noScore => exact absurd (noScore _ rfl) (finite value)
  | outside large =>
    cases ruling' with
    | covered value lt covers => exact (apart value lt large).elim
    | outside => rfl
    | refused noScore => exact absurd (noScore _ rfl) (finite rfl)
  | refused noScore =>
    cases ruling' with
    | covered value lt covers => exact absurd (noScore _ rfl) (finite value)
    | outside large => exact absurd (noScore _ rfl) (finite rfl)
    | refused => rfl

end PackageRisk.Band
