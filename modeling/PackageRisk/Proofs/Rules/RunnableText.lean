import PackageRisk.Proofs.Pattern.Matching
import PackageRisk.Proofs.Script.Search
import PackageRisk.Rules.NetworkAccess

/-!
# Text that is run as a script

A script may run a literal of its own, and what shows network access in such a text is told by
patterns of their own beside those for whole scripts. `Script.ReachesNetwork` says what these
recognise, and `network_patterns_shown` how the two compare: all of the patterns for scripts but
the one for client libraries are covered, where the case of the letters is as it is written.
-/

namespace PackageRisk

open Pattern

namespace Script

/-! ## What is recognised -/

/-- No word goes on behind a text. -/
def EndsWord (before : List Char) : Prop := ∀ c ∈ before.getLast?, Text.isWord c = false

/-- The letter that makes the name of a protocol that of the secure one, or nothing. -/
def IsSecureMark (mark : List Char) : Prop := mark = [] ∨ mark = ['s']

def AllBlank (gap : List Char) : Prop := ∀ c ∈ gap, Text.isBlank c = true

def IsQuoteMark (c : Char) : Prop := c = '\'' ∨ c = '"'

/-- What shows network access in a text that is run: a web address, a call of `fetch`, the request
type of browsers, or the head of a call that requires a web module. -/
inductive ReachesNetwork (text : List Char) : Prop
  | address {before mark after : List Char} (secure : IsSecureMark mark)
    (spelled : text = before ++ ("http".toList ++ (mark ++ ("://".toList ++ after))))
  | fetch {before gap after : List Char} (fresh : EndsWord before) (blank : AllBlank gap)
    (spelled : text = before ++ ("fetch".toList ++ (gap ++ '(' :: after)))
  | request {before after : List Char} (fresh : EndsWord before)
    (spelled : text = before ++ ("XMLHttpRequest".toList ++ after))
  | module {before gap gap' mark after : List Char} {q q' : Char} (fresh : EndsWord before)
    (blank : AllBlank gap) (blank' : AllBlank gap') (opened : IsQuoteMark q)
    (secure : IsSecureMark mark) (closed : IsQuoteMark q')
    (spelled : text = before ++ ("require".toList ++ (gap ++ '(' :: (gap' ++
      q :: ("http".toList ++ (mark ++ q' :: after))))))

theorem showsNetwork_iff {s : String} :
    showsNetwork s = true ↔ ∃ p ∈ runnablePatterns, p.occursIn false s = true :=
  List.any_eq_true

variable {fold : Bool} {before : Option Char} {taken after : List Char} {ps : List Pattern}

theorem matches_blanks : Matches false blanks before taken after ↔ AllBlank taken := by
  rw [blanks, matches_many]
  exact and_iff_left (Nat.zero_le _)

theorem matches_only {c : Char} :
    Matches false (.one (.only c)) before taken after ↔ taken = [c] := by
  rw [matches_one]
  constructor
  · intro ⟨d, single, same⟩
    rw [single, beq_iff_eq.1 same]
  · intro single
    exact ⟨c, single, beq_self_eq_true c⟩

theorem matches_secureMark :
    Matches false (.opt (.one (.only 's'))) before taken after ↔ IsSecureMark taken := by
  rw [matches_opt, matches_only]
  exact or_comm

theorem matches_quote :
    Matches false quote before taken after ↔ ∃ q, taken = [q] ∧ IsQuoteMark q := by
  rw [quote, matches_one]
  simp [CharSet.holds, IsQuoteMark]

theorem atBoundary_of_word {c : Char} (letter : Text.isWord c = true) (before : Option Char)
    (cs : List Char) :
    (Cursor.mk before (c :: cs)).atBoundary = true ↔ ∀ d ∈ before, Text.isWord d = false := by
  cases before <;> simp [Cursor.atBoundary, letter]

/-- A word is found where no other word goes on. -/
theorem occursIn_word {word : String} {c : Char} {rest : List Char} {s : String}
    (letters : word.toList = c :: rest) (letter : Text.isWord c = true) :
    (all (.boundary :: lit word :: ps)).occursIn false s = true ↔
      ∃ skipped taken after, s.toList = skipped ++ (word.toList ++ (taken ++ after)) ∧
        EndsWord skipped ∧
        Matches false (all ps) (lastOf skipped.getLast? word.toList) taken after := by
  have starts (skipped more : List Char) :
      (Cursor.mk skipped.getLast? (word.toList ++ more)).atBoundary = true ↔ EndsWord skipped := by
    rw [letters, List.cons_append, atBoundary_of_word letter]
    rfl
  rw [occursIn_iff]
  simp only [matches_all_cons, matches_boundary, matches_lit]
  constructor
  · rintro ⟨skipped, _, split, _, after, rfl, _, _, rfl, ⟨rfl, bound⟩, _, taken, rfl, rfl, here⟩
    simp only [List.nil_append, List.append_assoc, starts] at split bound
    exact ⟨skipped, taken, after, split, bound, here⟩
  · intro ⟨skipped, taken, after, split, fresh, here⟩
    refine ⟨skipped, _, split, word.toList ++ taken, after, (List.append_assoc ..).symm, [], _, rfl,
      ⟨rfl, ?_⟩, _, taken, rfl, rfl, here⟩
    show (Cursor.mk skipped.getLast? (word.toList ++ taken ++ after)).atBoundary = true
    rw [List.append_assoc, starts]
    exact fresh

/-! ## Each pattern -/

theorem matches_all_nil : Matches fold (all []) before taken after ↔ taken = [] :=
  matches_nothing

theorem matches_all_lit {word : String} :
    Matches false (all (lit word :: ps)) before taken after ↔
      ∃ rest, taken = word.toList ++ rest ∧
        Matches false (all ps) (lastOf before word.toList) rest after := by
  simp only [matches_all_cons, matches_lit]
  constructor
  · rintro ⟨_, rest, cut, rfl, here⟩
    exact ⟨rest, cut, here⟩
  · intro ⟨rest, cut, here⟩
    exact ⟨_, rest, cut, rfl, here⟩

theorem matches_all_only {c : Char} :
    Matches false (all (.one (.only c) :: ps)) before taken after ↔
      ∃ rest, taken = c :: rest ∧ Matches false (all ps) (some c) rest after := by
  simp only [matches_all_cons, matches_only]
  constructor
  · rintro ⟨_, rest, cut, rfl, here⟩
    exact ⟨rest, cut, here⟩
  · intro ⟨rest, cut, here⟩
    exact ⟨[c], rest, cut, rfl, here⟩

theorem matches_all_quote :
    Matches false (all (quote :: ps)) before taken after ↔
      ∃ q rest, taken = q :: rest ∧ IsQuoteMark q ∧ Matches false (all ps) (some q) rest after := by
  simp only [matches_all_cons, matches_quote]
  constructor
  · rintro ⟨_, rest, cut, ⟨q, rfl, mark⟩, here⟩
    exact ⟨q, rest, cut, mark, here⟩
  · intro ⟨q, rest, cut, mark, here⟩
    exact ⟨[q], rest, cut, ⟨q, rfl, mark⟩, here⟩

theorem matches_all_blanks :
    Matches false (all (blanks :: ps)) before taken after ↔
      ∃ gap rest, taken = gap ++ rest ∧ AllBlank gap ∧
        Matches false (all ps) (lastOf before gap) rest after := by
  simp only [matches_all_cons, matches_blanks]

theorem matches_all_secureMark :
    Matches false (all (.opt (.one (.only 's')) :: ps)) before taken after ↔
      ∃ mark rest, taken = mark ++ rest ∧ IsSecureMark mark ∧
        Matches false (all ps) (lastOf before mark) rest after := by
  simp only [matches_all_cons, matches_secureMark]

/-- What is recognised is what reaches for the network. -/
theorem showsNetwork_iff_reaches {s : String} :
    showsNetwork s = true ↔ ReachesNetwork s.toList := by
  rw [showsNetwork_iff]
  simp only [runnablePatterns, List.exists_mem_cons_iff, List.not_mem_nil, false_and, exists_false,
    or_false]
  rw [occursIn_word rfl (by decide), occursIn_word rfl (by decide), occursIn_word rfl (by decide),
    occursIn_iff]
  simp only [matches_all_lit, matches_all_only, matches_all_quote, matches_all_blanks,
    matches_all_secureMark, matches_all_nil]
  constructor
  · rintro (address | fetch | request | module)
    · obtain ⟨before, _, split, _, after, rfl, _, rfl, mark, _, rfl, secure, _, rfl, rfl⟩ := address
      exact .address secure (by simpa using split)
    · obtain ⟨before, _, after, split, fresh, gap, _, rfl, blank, _, rfl, rfl⟩ := fetch
      exact .fetch fresh blank (by simpa using split)
    · obtain ⟨before, _, after, split, fresh, rfl⟩ := request
      exact .request fresh split
    · obtain ⟨before, _, after, split, fresh, gap, _, rfl, blank, _, rfl, gap', _, rfl, blank',
        q, _, rfl, opened, _, rfl, mark, _, rfl, secure, q', _, rfl, closed, rfl⟩ := module
      exact .module fresh blank blank' opened secure closed (by simpa using split)
  · intro reaches
    cases reaches with
    | @address before mark after secure spelled =>
      refine .inl ⟨before, _, spelled, _, after, ?_, mark ++ "://".toList, rfl, mark, _, rfl,
        secure, [], (List.append_nil _).symm, rfl⟩
      simp
    | @fetch before gap after fresh blank spelled =>
      refine .inr (.inl ⟨before, gap ++ ['('], after, ?_, fresh, gap, _, rfl, blank, [], rfl, rfl⟩)
      simpa using spelled
    | @request before after fresh spelled =>
      exact .inr (.inr (.inl ⟨before, [], after, spelled, fresh, rfl⟩))
    | @module before gap gap' mark after q q' fresh blank blank' opened secure closed spelled =>
      refine .inr (.inr (.inr ⟨before,
        gap ++ '(' :: (gap' ++ q :: ("http".toList ++ (mark ++ [q']))), after, ?_, fresh,
        gap, _, rfl, blank, _, rfl, gap', _, rfl, blank', q, _, rfl, opened, _, rfl, mark, _, rfl,
        secure, q', [], rfl, closed, rfl⟩))
      simpa using spelled

/-! ## What scripts are searched for -/

/-- The label of the pattern for client libraries, which has no counterpart. -/
def clientLibrary : String := "require of HTTP client library"

/-- Each of the other patterns is one for texts that are run, or begins or ends with one. -/
theorem showsNetwork_of_pattern {np : NetworkPattern} (mem : np ∈ networkPatterns)
    (covered : np.label ≠ clientLibrary) {s : String}
    (occurs : np.pattern.occursIn false s = true) : showsNetwork s = true := by
  rw [showsNetwork_iff]
  simp only [networkPatterns, List.mem_cons, List.not_mem_nil, or_false] at mem
  obtain rfl | rfl | rfl | rfl | rfl | rfl := mem
  · exact ⟨_, .tail _ (.head _), occurs⟩
  · exact ⟨_, .tail _ (.tail _ (.head _)), occurs⟩
  · refine ⟨_, .tail _ (.tail _ (.tail _ (.head _))), ?_⟩
    exact occursIn_of_append_left [.boundary, lit "require", blanks, .one (.only '('), blanks,
      quote, lit "http", .opt (.one (.only 's')), quote] _ occurs
  · exact absurd rfl covered
  · refine ⟨_, .head _, ?_⟩
    exact occursIn_of_append_right [.boundary, lit "import", gap, .many .notNewline 0 true, gap,
      lit "from", gap, quote] _ occurs
  · refine ⟨_, .head _, ?_⟩
    exact occursIn_of_append_right [.boundary, lit "import", blanks, .one (.only '('), blanks,
      quote] _ occurs

/-! ## Literals that are run -/

/-- What is reported of a literal that is run. -/
def runFinding : Finding :=
  { type := "eval-network", description := "eval() with potential network-related code",
    severity := .high, extras := [] }

variable {modules : List Value} {pieces : List Piece} {points : List Nat} {arguments : List Tree}

theorem own_eval (decoded : decodePieces pieces = .ok points) :
    own modules (.call (.name "eval") (.text pieces :: arguments)) =
      .ok (if showsNetwork (runText points) then some runFinding else none) := by
  simp only [own, firstLiteral?, literal?, decoded]
  rfl

/-- A call that runs such a literal is reported wherever it stands in a tree. -/
theorem runFinding_mem {t : Tree} {fs : List Finding} {path : List Nat}
    (found : findings modules t = .ok fs)
    (here : t.at? path = some (.call (.name "eval") (.text pieces :: arguments)))
    (decoded : decodePieces pieces = .ok points)
    (shown : showsNetwork (runText points) = true) : runFinding ∈ fs := by
  have listed : findings modules t = .ok (t.places.filterMap fun p => ownFinding? modules p.2) :=
    findings_of_readable (readable_of_findings found)
  obtain rfl := Except.ok.inj (found.symm.trans listed)
  refine List.mem_filterMap.2 ⟨_, Tree.mem_places_iff.2 here, ?_⟩
  rw [ownFinding?, own_eval decoded, if_pos shown]
  rfl

/-- A text that is run shows network access just where it reaches for the network. So each pattern
for scripts but the one for client libraries is covered where it occurs with the letters as they are
written, and the call that runs a literal with such a text is reported wherever it stands. -/
theorem network_patterns_shown (s : String) :
    (showsNetwork s = true ↔ ReachesNetwork s.toList) ∧
      (∀ np ∈ networkPatterns, np.pattern.occursIn false s = true →
        np.occursIn s = true ∧ (np.label ≠ clientLibrary → showsNetwork s = true)) ∧
      ∀ modules t fs path pieces arguments points, findings modules t = .ok fs →
        t.at? path = some (.call (.name "eval") (.text pieces :: arguments)) →
        decodePieces pieces = .ok points → runText points = s → showsNetwork s = true →
        runFinding ∈ fs := by
  refine ⟨showsNetwork_iff_reaches, ?_, ?_⟩
  · intro np mem occurs
    exact ⟨occursIn_folded occurs, fun covered => showsNetwork_of_pattern mem covered occurs⟩
  · intro modules t fs path pieces arguments points found here decoded text shown
    rw [← text] at shown
    exact runFinding_mem found here decoded shown

/-- A call that runs a call of `fetch`. -/
def runFetch : Tree := .group [.call (.name "eval") [.text [.plain "fetch('x')".toList]]]

theorem runFetch_reported :
    (∃ np ∈ networkPatterns, np.pattern.occursIn false "fetch('x')" = true ∧
        np.label ≠ clientLibrary) ∧
      ∃ fs, findings [] runFetch = .ok fs ∧ runFinding ∈ fs := by
  obtain ⟨-, covers, reports⟩ := network_patterns_shown "fetch('x')"
  have flagged : ∃ np ∈ networkPatterns, np.pattern.occursIn false "fetch('x')" = true ∧
      np.label ≠ clientLibrary := by decide +kernel
  obtain ⟨np, mem, occurs, covered⟩ := flagged
  have readable : runFetch.IsReadable := by decide +kernel
  obtain ⟨fs, found⟩ := exists_findings_iff.2 readable
  have decoded : decodePieces [.plain "fetch('x')".toList] =
      .ok ("fetch('x')".toList.map Char.toNat) := rfl
  have text : runText ("fetch('x')".toList.map Char.toNat) = "fetch('x')" := by decide +kernel
  refine ⟨⟨np, mem, occurs, covered⟩, fs, found, ?_⟩
  apply reports [] runFetch fs [0] _ _ _ found rfl decoded text
  exact (covers np mem occurs).2 covered

/-- A client library is overlooked in a text that is run, and so is a call in capitals. -/
theorem axiosCall_overlooked :
    (∃ np ∈ networkPatterns, np.occursIn "require('axios')" = true) ∧
      showsNetwork "require('axios')" = false ∧
      (∃ np ∈ networkPatterns, np.occursIn "FETCH('x')" = true) ∧
      showsNetwork "FETCH('x')" = false := by
  decide +kernel

end Script

end PackageRisk
