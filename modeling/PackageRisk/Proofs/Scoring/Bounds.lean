import PackageRisk.Proofs.Number.Order
import PackageRisk.Proofs.Settings.Parts
import PackageRisk.Scoring

/-!
# Bounds of scores

Bounds that stand for rationals and are in order keep every score between them, and a score
between them has a band (`ofScore_clamp`). Bounds that the settings check accepted are such
bounds as soon as they stand for numbers at all (`contain_of_check`).
-/

namespace PackageRisk

/-- The band of a number depends on its place only. -/
theorem Band.ofNumber_congr {a b : Number} (same : a.place? = b.place?) :
    ofNumber a = ofNumber b := by
  have contains : ∀ band : Band, band.contains a = band.contains b := by
    intro band
    unfold Band.contains Number.le Number.lt
    rw [same]
  unfold ofNumber
  simp only [contains]

theorem Band.ofScore_of_abs_lt {a : Number} {q : ℚ} (ha : a.Is q)
    (lt : |q| < Binary64.limit) : ofScore (.number a) = .ok (ofNumber a) := by
  obtain ⟨x, form, finite⟩ := ha.abs_lt_limit_iff.1 lt
  simp only [ofScore, form, finite, if_true]

namespace ScoreBounds

/-- Two rationals that the bounds stand for: in order, and with binary64 forms. -/
structure Contain (bounds : ScoreBounds) (lo hi : ℚ) : Prop where
  low : bounds.min.Is lo
  high : bounds.max.Is hi
  le : lo ≤ hi
  low_lt : |lo| < Binary64.limit
  high_lt : |hi| < Binary64.limit

variable {bounds : ScoreBounds} {lo hi : ℚ}

/-- Whatever total the rules arrive at, its clamped form has a band. -/
theorem Contain.ofScore_clamp (contain : bounds.Contain lo hi) (total : Number) :
    Band.ofScore (.number (Number.clamp bounds.min bounds.max total)) =
      .ok (Band.ofNumber (Number.clamp bounds.min bounds.max total)) := by
  obtain ⟨q, clamped, ge, le⟩ :=
    Number.clamp_between contain.low contain.high contain.le total
  refine Band.ofScore_of_abs_lt clamped (abs_lt.2 ⟨?_, ?_⟩)
  · exact (abs_lt.1 contain.low_lt).1.trans_le ge
  · exact le.trans_lt (abs_lt.1 contain.high_lt).2

theorem contain_standard : standard.Contain 0 100 := by
  have large : (100 : ℚ) < Binary64.limit := by
    exact_mod_cast (by decide +kernel : 100 < Binary64.limit)
  refine ⟨rfl, rfl, by norm_num, ?_, ?_⟩
  · rw [abs_zero]
    exact large.trans' (by norm_num)
  · rwa [abs_of_pos (by norm_num)]

/-- A measure that a field gives is in binary64 form, and one that it does not give is the
default. -/
theorem abs_lt_limit_of_measure {spellings : List String} {fields : Fields} {n : Number} {d : Nat}
    {q : ℚ} (accepted : fieldOr spellings (.int d) .measure fields = .valid n)
    (small : d < Binary64.limit) (value : n.Is q) : |q| < Binary64.limit := by
  rcases fieldOr_eq_valid accepted with rfl | ⟨v, measured⟩
  · refine value.abs_lt_limit_iff.2 ⟨_, Number.toBinary?_int_eq_some_iff.2 ⟨small, rfl⟩, ?_⟩
    exact Binary64.isFinite_ofInt_iff.2 small
  · obtain ⟨x, -, rfl⟩ := Checked.map_eq_valid.1 measured
    exact Binary64.abs_lt_limit (Number.is_float.1 value)

/-- Accepted bounds that stand for rationals contain every score. -/
theorem contain_of_check {settings : Value}
    (accepted : ScoreBounds.check settings = .valid bounds)
    (low : bounds.min.Is lo) (high : bounds.max.Is hi) : bounds.Contain lo hi := by
  obtain ⟨fields, rfl, -⟩ := record_eq_valid accepted
  have parts := parts_of_check accepted
  refine ⟨low, high, ?_, ?_, ?_⟩
  · have uncrossed := parts.uncrossed
    rw [high.lt_eq low, decide_eq_false_iff_not] at uncrossed
    exact not_lt.1 uncrossed
  · exact abs_lt_limit_of_measure parts.min (by decide +kernel) low
  · exact abs_lt_limit_of_measure parts.max (by decide +kernel) high

end ScoreBounds

end PackageRisk
