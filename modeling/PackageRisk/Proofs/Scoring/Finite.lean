import PackageRisk.Proofs.Scoring.Banding
import PackageRisk.Proofs.Scoring.Isolation

/-!
# Finite scores

The clamp keeps a score between its bounds as long as both are numbers, but bounds may be infinite,
and then they do not keep a total from leaving the range of scores (`isScore_clamp_iff`). Accepted
bounds may also be no numbers at all, because they are only refused if one is found to be above the
other.
-/

namespace PackageRisk

theorem Place.lt_asymm {p q : Place} (lt : p.lt q = true) : q.lt p = false := by
  cases p <;> cases q <;> simp_all [Place.lt, le_of_lt]

theorem Place.lt_irrefl (p : Place) : p.lt p = false := by
  cases p <;> simp [Place.lt]

namespace Number

variable {a b low high x : Number}

/-- A number that has a band: it is finite and has a binary64 form. -/
def IsScore (n : Number) : Prop := ∃ q, n.Is q ∧ |q| < Binary64.limit

/-- Infinite downwards, or a whole number below the range of binary64. -/
def Undershoots (n : Number) : Prop :=
  n.place? = some .below ∨ ∃ q, n.Is q ∧ q ≤ -Binary64.limit

/-- Infinite upwards, no number at all, or a whole number above the range of binary64. -/
def Overshoots (n : Number) : Prop :=
  n.place? = none ∨ n.place? = some .above ∨ ∃ q, n.Is q ∧ Binary64.limit ≤ q

theorem isScore_iff : a.IsScore ↔ ¬a.Undershoots ∧ ¬a.Overshoots := by
  unfold IsScore Undershoots Overshoots Is
  generalize (Binary64.limit : ℚ) = limit
  rcases a.place? with _ | _ | q | _ <;> simp [abs_lt]

theorem isFinite_of_is {q : ℚ} (h : a.Is q) : a.isFinite = true := by
  rcases a with k | x
  · rfl
  · have value := is_float.1 h
    rcases x with _ | s | ⟨s, m, e, form⟩
    · cases value
    · cases value
    · rfl

/-- Just the finite numbers stand for rationals. -/
theorem exists_is_iff : (∃ q, a.Is q) ↔ a.isFinite = true := by
  constructor
  · intro ⟨q, value⟩
    exact isFinite_of_is value
  · intro finite
    rcases a with k | x
    · exact ⟨k, rfl⟩
    · rcases x with _ | s | ⟨s, m, e, form⟩
      · cases finite
      · cases finite
      · exact ⟨_, is_float.2 rfl⟩

theorem IsScore.isFinite (score : a.IsScore) : a.isFinite = true := by
  obtain ⟨q, value, -⟩ := score
  exact isFinite_of_is value

/-! ## Order -/

theorem lt_iff : a.lt b = true ↔
    ∃ p q, a.place? = some p ∧ b.place? = some q ∧ p.lt q = true := by
  unfold lt
  cases a.place? <;> cases b.place? <;> simp

theorem le_iff : a.le b = true ↔
    ∃ p q, a.place? = some p ∧ b.place? = some q ∧ q.lt p = false := by
  unfold Number.le
  cases a.place? <;> cases b.place? <;> simp

theorem le_self_iff : a.le a = true ↔ a.place? ≠ none := by
  rw [le_iff]
  rcases a.place? with _ | p <;> simp [Place.lt_irrefl]

theorem le_of_lt (below : a.lt b = true) : a.le b = true := by
  obtain ⟨p, q, ha, hb, lt⟩ := lt_iff.1 below
  exact le_iff.2 ⟨p, q, ha, hb, Place.lt_asymm lt⟩

theorem le_of_not_lt (ha : a.place? ≠ none) (hb : b.place? ≠ none) (notBelow : ¬b.lt a = true) :
    a.le b = true := by
  obtain ⟨p, ha⟩ := Option.ne_none_iff_exists'.1 ha
  obtain ⟨q, hb⟩ := Option.ne_none_iff_exists'.1 hb
  refine le_iff.2 ⟨p, q, ha, hb, Bool.eq_false_iff.2 fun lt => notBelow ?_⟩
  exact lt_iff.2 ⟨q, p, hb, ha, lt⟩

theorem place?_ne_none_of_le (le : a.le b = true) : a.place? ≠ none ∧ b.place? ≠ none := by
  obtain ⟨p, q, ha, hb, -⟩ := le_iff.1 le
  simp [ha, hb]

theorem Undershoots.of_le (le : a.le b = true) (under : b.Undershoots) : a.Undershoots := by
  obtain ⟨p, q, ha, hb, le⟩ := le_iff.1 le
  rcases under with below | ⟨q', hq, low⟩
  · obtain rfl := Option.some.inj (hb.symm.trans below)
    cases p with
    | below => exact .inl ha
    | «at» p => cases le
    | above => cases le
  · obtain rfl := Option.some.inj (hb.symm.trans hq)
    cases p with
    | below => exact .inl ha
    | «at» p =>
      rw [Place.lt, decide_eq_false_iff_not, not_lt] at le
      exact .inr ⟨p, ha, le.trans low⟩
    | above => cases le

theorem Overshoots.of_le (le : a.le b = true) (beyond : a.Overshoots) : b.Overshoots := by
  obtain ⟨p, q, ha, hb, le⟩ := le_iff.1 le
  rcases beyond with none | above | ⟨p', hp, high⟩
  · rw [ha] at none
    cases none
  · obtain rfl := Option.some.inj (ha.symm.trans above)
    cases q with
    | below => cases le
    | «at» q => cases le
    | above => exact .inr (.inl hb)
  · obtain rfl := Option.some.inj (ha.symm.trans hp)
    cases q with
    | below => cases le
    | «at» q =>
      rw [Place.lt, decide_eq_false_iff_not, not_lt] at le
      exact .inr (.inr ⟨q, hb, high.trans le⟩)
    | above => exact .inr (.inl hb)

/-! ## The clamp -/

theorem firstMin_cases (high x : Number) :
    x.lt high = true ∧ firstMin high x = x ∨ ¬x.lt high = true ∧ firstMin high x = high := by
  unfold firstMin
  split_ifs with below
  · exact .inl ⟨below, rfl⟩
  · exact .inr ⟨below, rfl⟩

theorem Undershoots.place?_ne_none (under : a.Undershoots) : a.place? ≠ none := by
  rcases under with below | ⟨q, h, -⟩
  · rw [below]
    exact Option.some_ne_none _
  · rw [h]
    exact Option.some_ne_none _

section Clamp

variable (ordered : low.le high = true)
include ordered

theorem firstMin_le (x : Number) : (firstMin high x).le high = true := by
  rcases firstMin_cases high x with ⟨below, same⟩ | ⟨-, same⟩ <;> rw [same]
  · exact le_of_lt below
  · exact le_self_iff.2 (place?_ne_none_of_le ordered).2

theorem clamp_cases (x : Number) :
    low.le (firstMin high x) = true ∧ clamp low high x = firstMin high x ∨
      (firstMin high x).le low = true ∧ clamp low high x = low := by
  have least := place?_ne_none_of_le (firstMin_le ordered x)
  unfold clamp firstMax
  split_ifs with above
  · exact .inl ⟨le_of_lt above, rfl⟩
  · exact .inr ⟨le_of_not_lt least.1 (place?_ne_none_of_le ordered).1 above, rfl⟩

/-- What is clamped between ordered bounds is between them, whatever it was. -/
theorem clamp_within (x : Number) :
    low.le (clamp low high x) = true ∧ (clamp low high x).le high = true := by
  rcases clamp_cases ordered x with ⟨above, same⟩ | ⟨-, same⟩ <;> rw [same]
  · exact ⟨above, firstMin_le ordered x⟩
  · exact ⟨le_self_iff.2 (place?_ne_none_of_le ordered).1, ordered⟩

theorem undershoots_clamp_iff :
    (clamp low high x).Undershoots ↔ low.Undershoots ∧ (high.Undershoots ∨ x.Undershoots) := by
  obtain ⟨above, below⟩ := clamp_within ordered x
  constructor
  · intro under
    refine ⟨under.of_le above, ?_⟩
    have least : (firstMin high x).Undershoots := by
      rcases clamp_cases ordered x with ⟨-, same⟩ | ⟨le, same⟩ <;> rw [same] at under
      · exact under
      · exact under.of_le le
    rcases firstMin_cases high x with ⟨-, same⟩ | ⟨-, same⟩ <;> rw [same] at least
    · exact .inr least
    · exact .inl least
  · rintro ⟨under, high' | under'⟩
    · exact high'.of_le below
    · rcases clamp_cases ordered x with ⟨-, same⟩ | ⟨-, same⟩ <;> rw [same]
      · rcases firstMin_cases high x with ⟨-, same⟩ | ⟨notBelow, same⟩ <;> rw [same]
        · exact under'
        · exact under'.of_le
            (le_of_not_lt (place?_ne_none_of_le ordered).2 under'.place?_ne_none notBelow)
      · exact under

theorem overshoots_clamp_iff :
    (clamp low high x).Overshoots ↔ high.Overshoots ∧ (low.Overshoots ∨ x.Overshoots) := by
  obtain ⟨above, below⟩ := clamp_within ordered x
  constructor
  · intro beyond
    refine ⟨beyond.of_le below, ?_⟩
    rcases clamp_cases ordered x with ⟨-, same⟩ | ⟨-, same⟩ <;> rw [same] at beyond
    · right
      rcases firstMin_cases high x with ⟨-, same⟩ | ⟨notBelow, same⟩ <;> rw [same] at beyond
      · exact beyond
      · by_cases none : x.place? = none
        · exact .inl none
        · exact beyond.of_le (le_of_not_lt (place?_ne_none_of_le ordered).2 none notBelow)
    · exact .inl beyond
  · rintro ⟨beyond, low' | beyond'⟩
    · exact low'.of_le above
    · have least : (firstMin high x).Overshoots := by
        rcases firstMin_cases high x with ⟨-, same⟩ | ⟨-, same⟩ <;> rw [same]
        · exact beyond'
        · exact beyond
      rcases clamp_cases ordered x with ⟨-, same⟩ | ⟨le, same⟩ <;> rw [same]
      · exact least
      · exact least.of_le le

/-- A clamped number is a score unless a bound that is none lets it through. -/
theorem isScore_clamp_iff :
    (clamp low high x).IsScore ↔
      (low.Undershoots → ¬high.Undershoots ∧ ¬x.Undershoots) ∧
        (high.Overshoots → ¬low.Overshoots ∧ ¬x.Overshoots) := by
  rw [isScore_iff, undershoots_clamp_iff ordered, overshoots_clamp_iff ordered]
  tauto

end Clamp

end Number

theorem Band.ofScore_isOk_iff {n : Number} :
    (∃ band, ofScore (.number n) = .ok band) ↔ n.IsScore := by
  constructor
  · rintro ⟨band, found⟩
    unfold ofScore at found
    dsimp only at found
    split at found
    · cases found
    · rename_i x form
      split_ifs at found with finite
      · obtain ⟨q, h⟩ : ∃ q, n.Is q := by
          apply Number.exists_is_iff.2
          cases n with
          | int k => rfl
          | float y =>
            cases form
            exact finite
        exact ⟨q, h, h.abs_lt_limit_iff.2 ⟨x, form, finite⟩⟩
  · rintro ⟨q, h, lt⟩
    exact ⟨_, ofScore_of_abs_lt h lt⟩

namespace ScoreBounds

variable {bounds : ScoreBounds}

/-- Bounds that make a score of a total: both are numbers, in order, neither leaves only an infinite
score, and an infinite one meets a total that needs no bound on its side. -/
structure Brings (bounds : ScoreBounds) (total : Number) : Prop where
  ordered : bounds.min.le bounds.max = true
  min_ne : bounds.min.place? ≠ some .above
  max_ne : bounds.max.place? ≠ some .below
  low : bounds.min.place? = some .below → ¬total.Undershoots
  high : bounds.max.place? = some .above → ¬total.Overshoots

theorem undershoots_iff {n : Number} (inRange : ∀ q, n.Is q → |q| < Binary64.limit) :
    n.Undershoots ↔ n.place? = some .below := by
  refine ⟨?_, .inl⟩
  rintro (below | ⟨q, h, le⟩)
  · exact below
  · exact absurd le (abs_lt.1 (inRange q h)).1.not_ge

theorem overshoots_iff {n : Number} (inRange : ∀ q, n.Is q → |q| < Binary64.limit)
    (number : n.place? ≠ none) : n.Overshoots ↔ n.place? = some .above := by
  refine ⟨?_, .inr ∘ .inl⟩
  rintro (none | above | ⟨q, h, le⟩)
  · contradiction
  · exact above
  · exact absurd le (abs_lt.1 (inRange q h)).2.not_ge

theorem brings_iff {settings : Value} {total : Number}
    (accepted : ScoreBounds.check settings = .valid bounds) :
    bounds.Brings total ↔ bounds.min.le bounds.max = true ∧
      (Number.clamp bounds.min bounds.max total).IsScore := by
  obtain ⟨fields, rfl, -⟩ := record_eq_valid accepted
  have parts := parts_of_check accepted
  have min (q : ℚ) := abs_lt_limit_of_measure (q := q) parts.min (by decide +kernel)
  have max (q : ℚ) := abs_lt_limit_of_measure (q := q) parts.max (by decide +kernel)
  constructor
  · intro brings
    have number := (Number.place?_ne_none_of_le brings.ordered).2
    refine ⟨brings.ordered, (Number.isScore_clamp_iff brings.ordered).2 ⟨fun under => ?_,
      fun beyond => ?_⟩⟩
    · exact ⟨fun high => brings.max_ne ((undershoots_iff max).1 high),
        brings.low ((undershoots_iff min).1 under)⟩
    · have number' := (Number.place?_ne_none_of_le brings.ordered).1
      exact ⟨fun low => brings.min_ne ((overshoots_iff min number').1 low),
        brings.high ((overshoots_iff max number).1 beyond)⟩
  · rintro ⟨ordered, score⟩
    obtain ⟨down, up⟩ := (Number.isScore_clamp_iff ordered).1 score
    refine ⟨ordered, fun above => ?_, fun below => ?_, fun below => (down (.inl below)).2,
      fun above => (up (.inr (.inl above))).2⟩
    · have low : bounds.min.Overshoots := .inr (.inl above)
      exact (up (low.of_le ordered)).1 low
    · have high : bounds.max.Undershoots := .inl below
      exact (down (high.of_le ordered)).1 high

theorem le_of_check {settings : Value} (accepted : ScoreBounds.check settings = .valid bounds)
    (min : bounds.min.place? ≠ none) (max : bounds.max.place? ≠ none) :
    bounds.min.le bounds.max = true := by
  obtain ⟨fields, rfl, -⟩ := record_eq_valid accepted
  exact Number.le_of_not_lt min max (Bool.eq_false_iff.1 (parts_of_check accepted).uncrossed)

/-- Bounds that stand for rationals make a score of every total. -/
theorem Contain.brings {lo hi : ℚ} (contain : bounds.Contain lo hi) (total : Number) :
    bounds.Brings total := by
  have low : bounds.min.place? = some (.at lo) := contain.low
  have high : bounds.max.place? = some (.at hi) := contain.high
  refine ⟨?_, ?_, ?_, ?_, ?_⟩
  · rw [contain.low.le_eq contain.high, decide_eq_true_eq]
    exact contain.le
  all_goals simp [low, high]

end ScoreBounds

namespace Scoring

variable {net : Network} {p : Package} {w : Workspace} {rules : List Rule} {bounds : ScoreBounds}
  {results : List RuleResult} {base : Number}

theorem combine?_float {whole : Int → Int → Int} {rounded : Binary64 → Binary64 → Binary64}
    {x : Binary64} {n m : Number} (combined : Number.combine? whole rounded (.float x) n = some m) :
    ∃ y, m = .float y := by
  have mixed : ¬((Number.float x).IsInt ∧ n.IsInt) := by
    rintro ⟨⟨_, ⟨⟩⟩, -⟩
  rw [Number.combine?_of_mixed whole rounded mixed] at combined
  obtain ⟨y, -, combined⟩ := Option.bind_eq_some_iff.1 combined
  obtain ⟨z, -, rfl⟩ := Option.map_eq_some_iff.1 combined
  exact ⟨_, rfl⟩

theorem meets_float_iff {x : Binary64} {n : Number} : (Number.float x).Meets n ↔ n.InRange := by
  constructor
  · rintro (⟨⟨_, ⟨⟩⟩, -⟩ | ⟨-, inRange⟩)
    exact inRange
  · intro inRange
    exact .inr ⟨nofun, inRange⟩

theorem applyTo_float {x : Binary64} {r : RuleResult} :
    (∃ next, r.applyTo (.float x) = .ok next) ↔ r.deduction.InRange ∧ r.bonus.InRange := by
  rw [exists_applyTo_iff, meets_float_iff]
  constructor
  · rintro ⟨less, more⟩
    obtain ⟨left, subtracted⟩ := Number.exists_sub?_iff.2 (meets_float_iff.2 less)
    obtain ⟨y, rfl⟩ := combine?_float subtracted
    exact ⟨less, meets_float_iff.1 (more _ subtracted)⟩
  · rintro ⟨less, more⟩
    refine ⟨less, fun left subtracted => ?_⟩
    obtain ⟨y, rfl⟩ := combine?_float subtracted
    exact meets_float_iff.2 more

theorem isInt_applyTo {r : RuleResult} {next : Number} (deduction : r.deduction.IsInt)
    (bonus : r.bonus.IsInt) (applied : r.applyTo base = .ok next) : next.IsInt ↔ base.IsInt := by
  obtain ⟨left, subtracted, added⟩ := applyTo_eq_ok_iff.1 applied
  rcases base with m | x
  · obtain ⟨d, hd⟩ := deduction
    obtain ⟨b, hb⟩ := bonus
    rw [hd] at subtracted
    cases subtracted
    rw [hb] at added
    cases added
    exact iff_of_true ⟨_, rfl⟩ ⟨m, rfl⟩
  · obtain ⟨y, rfl⟩ := combine?_float subtracted
    obtain ⟨z, rfl⟩ := combine?_float added
    exact iff_of_false nofun nofun

/-- Whole numbers can be summed up unless a base in binary64 meets one that has no such form. -/
theorem sumsDefined_iff (ints : ∀ r ∈ results, r.deduction.IsInt ∧ r.bonus.IsInt) :
    SumsDefined base results ↔
      base.IsInt ∨ ∀ r ∈ results, r.deduction.InRange ∧ r.bonus.InRange := by
  induction results generalizing base with
  | nil => exact iff_of_true (fun _ _ _ split => by simp at split) (.inr (List.forall_mem_nil _))
  | cons r rest ih =>
    rw [List.forall_mem_cons] at ints
    rw [sumsDefined_cons_iff, List.forall_mem_cons]
    rcases base with m | x
    · refine iff_of_true ?_ (.inl ⟨m, rfl⟩)
      obtain ⟨⟨⟨d, hd⟩, ⟨b, hb⟩⟩, others⟩ := ints
      have applied : r.applyTo (.int m) = .ok (.int (m - d + b)) := by
        rw [RuleResult.applyTo, hd, hb]
        rfl
      exact ⟨_, applied, (ih others).2 (.inl ⟨_, rfl⟩)⟩
    · rw [← applyTo_float (x := x)]
      constructor
      · rintro ⟨next, applied, sums⟩
        refine .inr ⟨⟨next, applied⟩, ((ih ints.2).1 sums).resolve_left fun int => ?_⟩
        obtain ⟨_, ⟨⟩⟩ := (isInt_applyTo ints.1.1 ints.1.2 applied).1 int
      · rintro (⟨_, ⟨⟩⟩ | ⟨⟨next, applied⟩, rest⟩)
        exact ⟨next, applied, (ih ints.2).2 (.inr rest)⟩

/-- A package has a score with a property just when each report can be made and the clamped total is
a score with that property. -/
theorem exists_score_and_iff {P : Number → Prop} :
    (∃ s, (score bounds rules p net w).1 = .ok s ∧ P s.score) ↔
      (∀ a ∈ asked net p w rules, Reportable a) ∧
        ∃ total, totalAfter bounds.base (recordedResults (asked net p w rules)) = .ok total ∧
          (Number.clamp bounds.min bounds.max total).IsScore ∧
          P (Number.clamp bounds.min bounds.max total) := by
  constructor
  · rintro ⟨s, scored, holds⟩
    obtain ⟨total, tallied, clamped, band, -⟩ := score_eq_ok_iff.1 scored
    obtain ⟨reportable, -, sum⟩ := tally_eq_ok_iff.1 tallied
    rw [clamped] at band holds
    exact ⟨reportable, total, sum, Band.ofScore_isOk_iff.1 ⟨_, band⟩, holds⟩
  · rintro ⟨reportable, total, sum, isScore, holds⟩
    obtain ⟨band, found⟩ := Band.ofScore_isOk_iff.2 isScore
    exact ⟨⟨_, band, _, _, _⟩, score_eq_ok_iff.2 ⟨total, tally_eq_ok_iff.2 ⟨reportable, rfl, sum⟩,
      rfl, found, rfl, rfl⟩, holds⟩

theorem exists_score_iff_isScore :
    (∃ s, (score bounds rules p net w).1 = .ok s) ↔
      (∀ a ∈ asked net p w rules, Reportable a) ∧
        ∃ total, totalAfter bounds.base (recordedResults (asked net p w rules)) = .ok total ∧
          (Number.clamp bounds.min bounds.max total).IsScore := by
  have any := @exists_score_and_iff net p w rules bounds fun _ => True
  simpa only [and_true] using any

end Scoring

end PackageRisk
