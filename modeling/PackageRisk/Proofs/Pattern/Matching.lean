import Mathlib.Data.List.Basic
import PackageRisk.Pattern.Search

/-!
# What a pattern matches

The search tries one possibility after the other. `Matches` says without an order what a pattern
matches: a run of characters, by what stands before and behind it. The search finds a match just
where there is one (`occursIn_iff`), so what a pattern finds can be compared with what another one
does.
-/

namespace PackageRisk.Pattern

variable {fold greedy : Bool} {p q : Pattern} {set : CharSet} {least : Nat} {before : Option Char}
  {taken after cs : List Char} {c : Char}

/-- The character before what follows a run. -/
def lastOf (before : Option Char) (taken : List Char) : Option Char :=
  taken.getLast?.or before

@[simp]
theorem lastOf_nil (before : Option Char) : lastOf before [] = before := rfl

@[simp]
theorem lastOf_cons (before : Option Char) (c : Char) (cs : List Char) :
    lastOf before (c :: cs) = lastOf (some c) cs := by
  rw [lastOf, lastOf, List.getLast?_cons]
  cases cs.getLast? <;> rfl

theorem lastOf_append (before : Option Char) (first second : List Char) :
    lastOf before (first ++ second) = lastOf (lastOf before first) second := by
  induction first generalizing before with
  | nil => rfl
  | cons c first ih => simp [ih]

/-- What a pattern matches between a character before, if there is one, and what is behind. -/
inductive Matches (fold : Bool) : Pattern → Option Char → List Char → List Char → Prop
  | nothing {before : Option Char} {after : List Char} : Matches fold .nothing before [] after
  | one {set : CharSet} {c : Char} {before : Option Char} {after : List Char}
    (holds : set.holds fold c = true) : Matches fold (.one set) before [c] after
  | many {set : CharSet} {least : Nat} {greedy : Bool} {before : Option Char}
    {taken after : List Char} (all : ∀ c ∈ taken, set.holds fold c = true)
    (enough : least ≤ taken.length) : Matches fold (.many set least greedy) before taken after
  | start {after : List Char} : Matches fold .start none [] after
  | finish {before : Option Char} {after : List Char}
    (atEnd : (Cursor.mk before after).atEnd = true) : Matches fold .finish before [] after
  | boundary {before : Option Char} {after : List Char}
    (atBoundary : (Cursor.mk before after).atBoundary = true) :
    Matches fold .boundary before [] after
  | seq {p q : Pattern} {before : Option Char} {first second after : List Char}
    (left : Matches fold p before first (second ++ after))
    (right : Matches fold q (lastOf before first) second after) :
    Matches fold (.seq p q) before (first ++ second) after
  | left {p q : Pattern} {before : Option Char} {taken after : List Char}
    (here : Matches fold p before taken after) : Matches fold (.alt p q) before taken after
  | right {p q : Pattern} {before : Option Char} {taken after : List Char}
    (here : Matches fold q before taken after) : Matches fold (.alt p q) before taken after
  | given {p : Pattern} {before : Option Char} {taken after : List Char}
    (here : Matches fold p before taken after) : Matches fold (.opt p) before taken after
  | absent {p : Pattern} {before : Option Char} {after : List Char} :
    Matches fold (.opt p) before [] after

/-! ## Each kind of pattern -/

theorem matches_nothing : Matches fold .nothing before taken after ↔ taken = [] := by
  constructor
  · intro here
    cases here
    rfl
  · intro empty
    exact empty ▸ .nothing

theorem matches_one :
    Matches fold (.one set) before taken after ↔ ∃ c, taken = [c] ∧ set.holds fold c = true := by
  constructor
  · intro here
    cases here with
    | one holds => exact ⟨_, rfl, holds⟩
  · intro ⟨c, single, holds⟩
    exact single ▸ .one holds

theorem matches_many :
    Matches fold (.many set least greedy) before taken after ↔
      (∀ c ∈ taken, set.holds fold c = true) ∧ least ≤ taken.length := by
  constructor
  · intro here
    cases here with
    | many all enough => exact ⟨all, enough⟩
  · intro ⟨all, enough⟩
    exact .many all enough

theorem matches_start : Matches fold .start before taken after ↔ taken = [] ∧ before = none := by
  constructor
  · intro here
    cases here
    exact ⟨rfl, rfl⟩
  · intro ⟨empty, first⟩
    exact empty ▸ first ▸ .start

theorem matches_finish :
    Matches fold .finish before taken after ↔
      taken = [] ∧ (Cursor.mk before after).atEnd = true := by
  constructor
  · intro here
    cases here with
    | finish atEnd => exact ⟨rfl, atEnd⟩
  · intro ⟨empty, atEnd⟩
    exact empty ▸ .finish atEnd

theorem matches_boundary :
    Matches fold .boundary before taken after ↔
      taken = [] ∧ (Cursor.mk before after).atBoundary = true := by
  constructor
  · intro here
    cases here with
    | boundary atBoundary => exact ⟨rfl, atBoundary⟩
  · intro ⟨empty, atBoundary⟩
    exact empty ▸ .boundary atBoundary

theorem matches_seq :
    Matches fold (.seq p q) before taken after ↔
      ∃ first second, taken = first ++ second ∧ Matches fold p before first (second ++ after) ∧
        Matches fold q (lastOf before first) second after := by
  constructor
  · intro here
    cases here with
    | seq left right => exact ⟨_, _, rfl, left, right⟩
  · intro ⟨first, second, cut, left, right⟩
    exact cut ▸ .seq left right

theorem matches_alt :
    Matches fold (.alt p q) before taken after ↔
      Matches fold p before taken after ∨ Matches fold q before taken after := by
  constructor
  · intro here
    cases here with
    | left here => exact .inl here
    | right here => exact .inr here
  · intro here
    exact here.elim .left .right

theorem matches_opt :
    Matches fold (.opt p) before taken after ↔ Matches fold p before taken after ∨ taken = [] := by
  constructor
  · intro here
    cases here with
    | given here => exact .inl here
    | absent => exact .inr rfl
  · intro here
    exact here.elim .given fun empty => empty ▸ .absent

/-! ## The search -/

/-- A text cut at any place: before all of it, or behind its first character. -/
theorem exists_cut_cons {P : List Char → List Char → Prop} :
    (∃ taken after, c :: cs = taken ++ after ∧ P taken after) ↔
      P [] (c :: cs) ∨ ∃ taken after, cs = taken ++ after ∧ P (c :: taken) after := by
  constructor
  · intro ⟨taken, after, cut, here⟩
    cases taken with
    | nil => exact .inl (cut ▸ here)
    | cons d taken =>
      obtain ⟨rfl, rest⟩ := List.cons.inj cut
      exact .inr ⟨taken, after, rest, here⟩
  · intro cut
    obtain here | ⟨taken, after, rfl, here⟩ := cut
    · exact ⟨[], c :: cs, rfl, here⟩
    · exact ⟨c :: taken, after, rfl, here⟩

theorem exists_cut_nil {P : List Char → List Char → Prop} :
    (∃ taken after, [] = taken ++ after ∧ P taken after) ↔ P [] [] := by
  constructor
  · intro ⟨taken, after, cut, here⟩
    obtain ⟨rfl, rfl⟩ := List.append_eq_nil_iff.1 cut.symm
    exact here
  · intro here
    exact ⟨[], [], rfl, here⟩

theorem exists_cut_none {P : List Char → List Char → Prop} :
    (∃ taken after, cs = taken ++ after ∧ taken = [] ∧ P taken after) ↔ P [] cs := by
  constructor
  · intro ⟨_, after, cut, rfl, here⟩
    cases cut
    exact here
  · intro here
    exact ⟨[], cs, rfl, rfl, here⟩

variable {β : Type} {next : Cursor → Option β}

theorem isSome_runMany_iff {holds : Char → Bool} :
    (runMany holds greedy next least before cs).isSome = true ↔
      ∃ taken after, cs = taken ++ after ∧ ((∀ c ∈ taken, holds c = true) ∧
        least ≤ taken.length) ∧ (next ⟨lastOf before taken, after⟩).isSome = true := by
  induction cs generalizing least before with
  | nil =>
    rw [exists_cut_nil, runMany]
    split_ifs with none
    · simp [none]
    · simp [none]
  | cons c cs ih =>
    rw [exists_cut_cons]
    cases least with
    | succ least =>
      by_cases fits : holds c = true
      · simp [runMany, fits, ih]
      · simp [runMany, fits]
    | zero =>
      have either : (runMany holds greedy next 0 before (c :: cs)).isSome = true ↔
          (next ⟨before, c :: cs⟩).isSome = true ∨
            holds c = true ∧ (runMany holds greedy next 0 (some c) cs).isSome = true := by
        rw [runMany]
        cases greedy <;> by_cases fits : holds c = true <;> simp [fits, or_comm]
      rw [either, ih]
      by_cases fits : holds c = true
      · simp [fits]
      · simp [fits]

theorem isSome_orElse {a : Option β} {b : Unit → Option β} :
    (a.orElse b).isSome = true ↔ a.isSome = true ∨ (b ()).isSome = true := by
  cases a <;> simp

/-- A match goes on just where the pattern matches a run and what follows accepts the rest. -/
theorem isSome_run_iff :
    (run fold p next ⟨before, cs⟩).isSome = true ↔
      ∃ taken after, cs = taken ++ after ∧ Matches fold p before taken after ∧
        (next ⟨lastOf before taken, after⟩).isSome = true := by
  induction p generalizing next before cs with
  | nothing =>
    simp only [matches_nothing, exists_cut_none]
    rfl
  | one set =>
    cases cs with
    | nil => simp [run, matches_one]
    | cons c cs =>
      rw [exists_cut_cons, run]
      by_cases holds : set.holds fold c = true
      · simp [holds, matches_one, exists_cut_none]
      · simp [holds, matches_one]
  | many set least greedy =>
    simp only [matches_many]
    exact isSome_runMany_iff
  | start =>
    simp only [matches_start, and_assoc, exists_cut_none]
    cases before <;> simp [run]
  | finish =>
    simp only [matches_finish, and_assoc, exists_cut_none, run]
    split_ifs with holds <;> simp [holds]
  | boundary =>
    simp only [matches_boundary, and_assoc, exists_cut_none, run]
    split_ifs with holds <;> simp [holds]
  | seq p q ihp ihq =>
    rw [run, ihp]
    constructor
    · intro ⟨first, rest, cut, left, more⟩
      obtain ⟨second, after, rfl, right, accepted⟩ := ihq.1 more
      rw [← List.append_assoc] at cut
      rw [← lastOf_append] at accepted
      exact ⟨first ++ second, after, cut, .seq left right, accepted⟩
    · intro ⟨_, after, cut, here, accepted⟩
      obtain ⟨first, second, rfl, left, right⟩ := matches_seq.1 here
      rw [List.append_assoc] at cut
      rw [lastOf_append] at accepted
      exact ⟨first, second ++ after, cut, left, ihq.2 ⟨second, after, rfl, right, accepted⟩⟩
  | alt p q ihp ihq =>
    simp only [run, isSome_orElse, ihp, ihq, matches_alt, or_and_right, and_or_left, exists_or]
  | opt p ih =>
    simp only [run, isSome_orElse, ih, matches_opt, or_and_right, and_or_left, exists_or,
      exists_cut_none, lastOf_nil]

theorem isSome_searchFrom_iff :
    (searchFrom fold p before cs).isSome = true ↔
      ∃ skipped rest, cs = skipped ++ rest ∧ ∃ taken after, rest = taken ++ after ∧
        Matches fold p (lastOf before skipped) taken after := by
  induction cs generalizing before with
  | nil =>
    rw [exists_cut_nil, searchFrom, Option.isSome_map, matchAt, isSome_run_iff]
    simp
  | cons c cs ih =>
    have here : (matchAt fold p ⟨before, c :: cs⟩).isSome = true ↔
        ∃ taken after, c :: cs = taken ++ after ∧ Matches fold p before taken after := by
      rw [matchAt, isSome_run_iff]
      simp
    rw [exists_cut_cons, lastOf_nil, ← here, searchFrom]
    rcases matchAt fold p ⟨before, c :: cs⟩ with _ | rest
    · simp [ih]
    · simp

/-- A pattern occurs in a text just where it matches a run of it. -/
theorem occursIn_iff {s : String} :
    p.occursIn fold s = true ↔
      ∃ skipped rest, s.toList = skipped ++ rest ∧ ∃ taken after, rest = taken ++ after ∧
        Matches fold p skipped.getLast? taken after := by
  unfold occursIn
  rw [isSome_searchFrom_iff]
  simp only [lastOf, Option.or_none]

/-! ## Sequences -/

theorem matches_chars_cons {d : Char} {word : List Char} :
    Matches fold (chars (d :: word)) before taken after ↔
      ∃ c rest, taken = c :: rest ∧ (CharSet.only d).holds fold c = true ∧
        Matches fold (chars word) (some c) rest after := by
  cases word with
  | nil =>
    simp only [chars, matches_one, matches_nothing]
    constructor
    · intro ⟨c, single, holds⟩
      exact ⟨c, [], single, holds, rfl⟩
    · intro ⟨c, _, single, holds, empty⟩
      exact ⟨c, empty ▸ single, holds⟩
  | cons e word =>
    rw [show chars (d :: e :: word) = .seq (.one (.only d)) (chars (e :: word)) from rfl,
      matches_seq]
    constructor
    · intro ⟨first, rest, cut, left, right⟩
      obtain ⟨c, rfl, holds⟩ := matches_one.1 left
      exact ⟨c, rest, cut, holds, right⟩
    · intro ⟨c, rest, cut, holds, right⟩
      exact ⟨[c], rest, cut, .one holds, right⟩

theorem matches_chars {word : List Char} :
    Matches false (chars word) before taken after ↔ taken = word := by
  induction word generalizing before taken with
  | nil => exact matches_nothing
  | cons d word ih =>
    simp only [matches_chars_cons, ih]
    constructor
    · intro ⟨c, rest, cut, same, ends⟩
      rw [cut, ends, beq_iff_eq.1 same]
    · intro whole
      exact ⟨d, word, whole, beq_self_eq_true d, rfl⟩

/-- A text that is matched as it is, where case counts. -/
theorem matches_lit {s : String} :
    Matches false (lit s) before taken after ↔ taken = s.toList :=
  matches_chars

theorem matches_all_cons {ps : List Pattern} :
    Matches fold (all (p :: ps)) before taken after ↔
      ∃ first second, taken = first ++ second ∧ Matches fold p before first (second ++ after) ∧
        Matches fold (all ps) (lastOf before first) second after := by
  cases ps with
  | nil =>
    simp only [all, matches_nothing]
    constructor
    · intro here
      exact ⟨taken, [], (List.append_nil _).symm, here, rfl⟩
    · intro ⟨first, second, cut, here, empty⟩
      subst empty
      rw [List.append_nil] at cut
      exact cut ▸ here
  | cons q ps => exact matches_seq

theorem matches_all_append {ps qs : List Pattern} :
    Matches fold (all (ps ++ qs)) before taken after ↔
      ∃ first second, taken = first ++ second ∧
        Matches fold (all ps) before first (second ++ after) ∧
        Matches fold (all qs) (lastOf before first) second after := by
  induction ps generalizing before taken with
  | nil =>
    simp only [List.nil_append, all, matches_nothing, exists_cut_none, lastOf_nil]
  | cons p ps ih =>
    rw [List.cons_append, matches_all_cons]
    simp only [matches_all_cons, ih]
    constructor
    · rintro ⟨first, _, cut, here, second, third, rfl, middle, last⟩
      rw [← List.append_assoc] at cut
      rw [List.append_assoc] at here
      rw [← lastOf_append] at last
      exact ⟨first ++ second, third, cut, ⟨first, second, rfl, here, middle⟩, last⟩
    · rintro ⟨_, third, cut, ⟨first, second, rfl, here, middle⟩, last⟩
      rw [List.append_assoc] at cut
      rw [← List.append_assoc] at here
      rw [lastOf_append] at last
      exact ⟨first, second ++ third, cut, here, second, third, rfl, middle, last⟩

/-- Where patterns occur one after the other, so do the first ones of them. -/
theorem occursIn_of_append_left (ps qs : List Pattern) {s : String}
    (occurs : (all (ps ++ qs)).occursIn fold s = true) : (all ps).occursIn fold s = true := by
  rw [occursIn_iff] at occurs ⊢
  obtain ⟨skipped, rest, split, taken, after, cut, here⟩ := occurs
  obtain ⟨first, second, rfl, left, -⟩ := matches_all_append.1 here
  rw [List.append_assoc] at cut
  exact ⟨skipped, rest, split, first, second ++ after, cut, left⟩

/-- Where patterns occur one after the other, so do the last ones of them. -/
theorem occursIn_of_append_right (ps qs : List Pattern) {s : String}
    (occurs : (all (ps ++ qs)).occursIn fold s = true) : (all qs).occursIn fold s = true := by
  rw [occursIn_iff] at occurs ⊢
  obtain ⟨skipped, rest, split, taken, after, rfl, here⟩ := occurs
  obtain ⟨first, second, rfl, -, right⟩ := matches_all_append.1 here
  refine ⟨skipped ++ first, second ++ after, by simp [split], second, after, rfl, ?_⟩
  rw [show (skipped ++ first).getLast? = lastOf skipped.getLast? first from List.getLast?_append]
  exact right

/-! ## Case -/

theorem holds_folded (holds : set.holds false c = true) : set.holds true c = true := by
  cases set with
  | only d =>
    obtain rfl : c = d := beq_iff_eq.1 holds
    exact beq_self_eq_true _
  | _ => exact holds

/-- What is matched where case counts is matched where it does not. -/
theorem Matches.folded (here : Matches false p before taken after) :
    Matches true p before taken after := by
  induction here with
  | nothing => exact .nothing
  | one holds => exact .one (holds_folded holds)
  | many all enough => exact .many (fun c mem => holds_folded (all c mem)) enough
  | start => exact .start
  | finish atEnd => exact .finish atEnd
  | boundary atBoundary => exact .boundary atBoundary
  | seq _ _ left right => exact .seq left right
  | left _ ih => exact .left ih
  | right _ ih => exact .right ih
  | given _ ih => exact .given ih
  | absent => exact .absent

theorem occursIn_folded {s : String} (occurs : p.occursIn false s = true) :
    p.occursIn true s = true := by
  rw [occursIn_iff] at occurs ⊢
  obtain ⟨skipped, rest, split, taken, after, cut, here⟩ := occurs
  exact ⟨skipped, rest, split, taken, after, cut, here.folded⟩

end PackageRisk.Pattern
