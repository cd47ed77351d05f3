import PackageRisk.CommandLine.Display
import PackageRisk.Proofs.Number.Tenths
import PackageRisk.Proofs.Scoring.Bands

/-!
# The number and the band of a panel

A score is shown as the nearest whole number, and beside it stands the band of the score itself.
All bands start at even numbers, so a score reaches one by rounding from a half below it on
(`IsNearest.le_iff_of_even`). There the panel shows a number of the next band beside the band that
the score still has, and nowhere else (`panel_agrees_iff`).
-/

namespace PackageRisk

variable {q : ℚ}

namespace CommandLine

variable {n : Number}

theorem toInt?_withSign (negative : Bool) (k : Nat) :
    (Binary64.withSign negative (toString k).toList).toInt? =
      some (if negative then -(k : Int) else k) := by
  cases negative with
  | false =>
    show (String.ofList (toString k).toList).toInt? = _
    rw [String.ofList_toList]
    exact Nat.toInt?_repr k
  | true =>
    have text : Binary64.withSign true (toString k).toList = "-" ++ toString k := by
      apply String.ext
      simp [Binary64.withSign]
    rw [text, String.toInt?_minus_append, show (toString k).toNat? = some k from Nat.toNat?_repr k]
    rfl

/-- The text of a number from zero on spells the nearest whole number. -/
theorem toInt?_wholeText (value : n.Is q) (nonneg : 0 ≤ q) :
    ∃ k : Int, (wholeText n).toInt? = some k ∧ IsNearest k q := by
  cases n with
  | int i =>
    obtain rfl := Number.is_int.1 value
    refine ⟨i, Int.toInt?_repr i, ?_, ?_⟩
    · rw [sub_self, abs_zero]
      norm_num
    · intro half
      rw [sub_self, abs_zero] at half
      norm_num at half
  | float x =>
    obtain ⟨k, rounded, nearest⟩ := Binary64.exists_round? (Number.is_float.1 value) nonneg
    refine ⟨k, ?_, nearest⟩
    cases x with
    | nan => cases rounded
    | infinite s => cases rounded
    | finite s m e form =>
      -- no places are kept, so the text is that of the rounded magnitude with its sign
      have text : wholeText (.float (.finite s m e form)) =
          Binary64.withSign s (toString (roundDiv (Binary64.magnitude m e).1
            (Binary64.magnitude m e).2)).toList := by
        simp [wholeText, Binary64.fixedText]
      rw [text, toInt?_withSign]
      exact rounded

/-! ## The panel -/

/-- A panel with a whole number out of a hundred and a band beside it. -/
inductive Shows : Printed → Int → Band → Prop
  | panel {number title style : String} {expand : Bool} {k : Int} {band : Band}
    (spelled : number.toInt? = some k) :
    Shows (.panel ("[bold]" ++ coloured (bandColour band.key) number ++ "[/bold] / 100  " ++
      band.emoji ++ " [bold]" ++ band.label ++ "[/bold]\n" ++ "[dim]" ++ band.description ++
      "[/dim]") title style expand) k band

/-- A number that is rounded up into a band: it is below the band, but by no more than a half. -/
def EntersByRounding (q : ℚ) : Prop :=
  ∃ band ∈ Band.all, (band.min : ℚ) - 1 / 2 ≤ q ∧ q < band.min

theorem entersByRounding_iff (nonneg : 0 ≤ q) : EntersByRounding q ↔
    (50 - 1 / 2 ≤ q ∧ q < 50) ∨ (70 - 1 / 2 ≤ q ∧ q < 70) ∨ (90 - 1 / 2 ≤ q ∧ q < 90) := by
  simp only [EntersByRounding, Band.all, List.mem_cons, List.not_mem_nil, or_false,
    exists_eq_or_imp, exists_eq_left, Band.safe, Band.review, Band.highRisk, Band.block]
  push_cast
  constructor
  · intro enters
    obtain safe | review | highRisk | block := enters
    · exact .inr (.inr safe)
    · exact .inr (.inl review)
    · exact .inl highRisk
    · exact absurd block.2 nonneg.not_gt
  · intro enters
    obtain highRisk | review | safe := enters
    · exact .inr (.inr (.inl highRisk))
    · exact .inr (.inl review)
    · exact .inl safe

/-- A number of the scale keeps its band when it is rounded, unless it enters another one. -/
theorem covers_nearest_iff {k : Int} {band : Band} (covers : band.Covers q)
    (nearest : IsNearest k q) (nonneg : 0 ≤ q) (onScale : q ≤ 100) :
    band.Covers k ↔ ¬EntersByRounding q := by
  have reaches (T : Int) (even : Even T) : (T : ℚ) ≤ k ↔ (T : ℚ) - 1 / 2 ≤ q := by
    rw [Int.cast_le, nearest.le_iff_of_even even]
  have at50 := reaches 50 (by decide)
  have at70 := reaches 70 (by decide)
  have at90 := reaches 90 (by decide)
  have top : (k : ℚ) ≤ 100 := by exact_mod_cast nearest.ge_of_ge (by exact_mod_cast onScale)
  push_cast at at50 at70 at90
  have other {band' : Band} (covers' : band'.Covers k) (ne : band ≠ band') : ¬band.Covers k :=
    fun same => ne (same.unique covers')
  rw [entersByRounding_iff nonneg]
  cases covers with
  | safe low high =>
    apply iff_of_true
    · exact .safe (at90.2 (by linarith)) top
    · intro enters
      obtain ⟨-, lt⟩ | ⟨-, lt⟩ | ⟨-, lt⟩ := enters <;> linarith
  | review low high =>
    by_cases rounds : 90 - 1 / 2 ≤ q
    · apply iff_of_false
      · exact other (.safe (at90.2 rounds) top) (by decide)
      · exact not_not.2 (.inr (.inr ⟨rounds, high⟩))
    · apply iff_of_true
      · exact .review (at70.2 (by linarith)) (not_le.1 (mt at90.1 rounds))
      · intro enters
        obtain ⟨-, lt⟩ | ⟨-, lt⟩ | ⟨le, -⟩ := enters <;> linarith
  | highRisk low high =>
    by_cases rounds : 70 - 1 / 2 ≤ q
    · apply iff_of_false
      · refine other (.review (at70.2 rounds) ?_) (by decide)
        exact not_le.1 (mt at90.1 (by linarith))
      · exact not_not.2 (.inr (.inl ⟨rounds, high⟩))
    · apply iff_of_true
      · exact .highRisk (at50.2 (by linarith)) (not_le.1 (mt at70.1 rounds))
      · intro enters
        obtain ⟨-, lt⟩ | ⟨le, -⟩ | ⟨le, -⟩ := enters <;> linarith
  | block off =>
    have high : q < 50 := off.resolve_right onScale.not_gt
    by_cases rounds : 50 - 1 / 2 ≤ q
    · apply iff_of_false
      · refine other (.highRisk (at50.2 rounds) ?_) (by decide)
        exact not_le.1 (mt at70.1 (by linarith))
      · exact not_not.2 (.inl ⟨rounds, high⟩)
    · apply iff_of_true
      · exact .block (.inl (not_le.1 (mt at50.1 rounds)))
      · intro enters
        obtain ⟨le, -⟩ | ⟨le, -⟩ | ⟨le, -⟩ := enters <;> linarith

theorem abs_lt_limit_of_onScale (nonneg : 0 ≤ q) (onScale : q ≤ 100) : |q| < Binary64.limit := by
  have large : (100 : ℚ) < Binary64.limit := by
    exact_mod_cast lt_trans (by decide : 100 < 2 ^ 53) Number.two_pow_lt_limit
  rw [abs_of_nonneg nonneg]
  exact onScale.trans_lt large

/-- The band of a number of the scale is the one that covers it. -/
theorem ofScore_eq_ok_iff {band : Band} (value : n.Is q) (nonneg : 0 ≤ q) (onScale : q ≤ 100) :
    Band.ofScore (.number n) = .ok band ↔ band.Covers q := by
  have covers := Band.covers_ofNumber value
  rw [Band.ofScore_of_abs_lt value (abs_lt_limit_of_onScale nonneg onScale), Except.ok.injEq]
  constructor
  · intro same
    rwa [← same]
  · intro covers'
    exact covers.unique covers'

/-- Whatever the threshold, the panel of a score on the scale shows the nearest whole number and the
band of the score, and this is the band of that number unless the score enters one by rounding. -/
theorem panel_agrees_iff {s : Score} (value : s.score.Is q) (nonneg : 0 ≤ q) (onScale : q ≤ 100)
    (banded : Band.ofScore (.number s.score) = .ok s.band) (threshold : Number)
    (service : Option String) :
    ∃ k : Int, (∃ panel ∈ scoreDisplay s threshold service, Shows panel k s.band) ∧
      IsNearest k q ∧ (Band.ofScore (.int k) = .ok s.band ↔ ¬EntersByRounding q) := by
  obtain ⟨k, spelled, nearest⟩ := toInt?_wholeText value nonneg
  have low : (0 : ℚ) ≤ k := by exact_mod_cast nearest.le_of_le (by exact_mod_cast nonneg)
  have high : (k : ℚ) ≤ 100 := by exact_mod_cast nearest.ge_of_ge (by exact_mod_cast onScale)
  have covers : s.band.Covers q := (ofScore_eq_ok_iff value nonneg onScale).1 banded
  refine ⟨k, ⟨scorePanel s, ?_, .panel spelled⟩, nearest, ?_⟩
  · simp [scoreDisplay]
  · have whole : (Number.int k).Is k := rfl
    exact (ofScore_eq_ok_iff whole low high).trans
      (covers_nearest_iff covers nearest nonneg onScale)

/-- A score of eighty-nine and a half. -/
def halfPoint : Score where
  score := .float (.ofQuotient false 179 2)
  band := .review
  reports := []
  package := "demo"
  version := "1.0.0"

theorem is_halfPoint : halfPoint.score.Is (179 / 2) :=
  Number.is_float.2 (by decide +kernel)

theorem ofScore_halfPoint : Band.ofScore (.number halfPoint.score) = .ok halfPoint.band :=
  (ofScore_eq_ok_iff is_halfPoint (by norm_num) (by norm_num)).2
    (.review (by norm_num) (by norm_num))

theorem panel_agrees_halfPoint :
    halfPoint.score.Is (179 / 2) ∧ Band.ofScore (.number halfPoint.score) = .ok halfPoint.band ∧
      ∃ k : Int, (∃ panel ∈ scoreDisplay halfPoint 70 none, Shows panel k halfPoint.band) ∧
        IsNearest k (179 / 2) ∧
        (Band.ofScore (.int k) = .ok halfPoint.band ↔ ¬EntersByRounding (179 / 2)) :=
  ⟨is_halfPoint, ofScore_halfPoint,
    panel_agrees_iff is_halfPoint (by norm_num) (by norm_num) ofScore_halfPoint 70 none⟩

/-- The panel of that score shows a number of the best band beside the band below it. -/
theorem halfPoint_shown_in_other_band :
    halfPoint.score.Is (179 / 2) ∧ Band.ofScore (.number halfPoint.score) = .ok halfPoint.band ∧
      (∃ panel ∈ scoreDisplay halfPoint 70 none, Shows panel 90 halfPoint.band) ∧
      Band.ofScore (.int 90) = .ok .safe ∧ Band.safe ≠ halfPoint.band := by
  have spelled : (wholeText halfPoint.score).toInt? = some 90 := by
    have text : wholeText halfPoint.score = "90" := by decide +kernel
    rw [text]
    exact Nat.toInt?_repr 90
  have whole : (Number.int 90).Is 90 := rfl
  refine ⟨is_halfPoint, ofScore_halfPoint, ⟨scorePanel halfPoint, ?_, .panel spelled⟩, ?_,
    by decide⟩
  · simp [scoreDisplay]
  · exact (ofScore_eq_ok_iff whole (by norm_num) (by norm_num)).2
      (.safe (by norm_num) (by norm_num))

end CommandLine

end PackageRisk
