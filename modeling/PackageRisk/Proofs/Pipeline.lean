import PackageRisk.Pipeline
import PackageRisk.Proofs.Scoring.Standard

/-!
# The rules of a pipeline

A pipeline may be passed a registry of rules. It keeps that registry for as long as it is used if
there is a rule in it; an empty one it takes for none and scores with the standard rules
(`rules_of_made`). So whoever passes a registry to score without any rule gets six reports for each
package (`sharing_empty_is_standard`). What is shown of a made pipeline holds for every way of
entering and leaving its context, by induction on how it came about (`Made.follows`).
-/

namespace PackageRisk.Pipeline

/-- The pipelines that come about from settings and from what was passed as rules. -/
inductive Made (settings : Settings) (given : Option Registry) : Pipeline → Prop
  | owning : Made settings given (owning settings given)
  | sharing {p : Pipeline} (connected : sharing settings given = .ok p) : Made settings given p
  | enter {p q : Pipeline} (made : Made settings given p) (entered : p.enter = .ok q) :
      Made settings given q
  | leave {p : Pipeline} (made : Made settings given p) : Made settings given p.leave

/-- A pipeline with the rules that settings and a passed registry tell it to score with. -/
structure Follows (p : Pipeline) (settings : Settings) (given : Option Registry) : Prop where
  configured : p.settings = settings
  passed : p.given = given
  chosen : ∀ r, p.registry = some r → chooseRegistry settings given = .ok r
  connected : p.line = .opened → ∃ r, p.registry = some r

variable {settings : Settings} {given : Option Registry} {p q : Pipeline} {g r : Registry}

/-! ## The choice of rules -/

theorem chooseRegistry_of_nonempty (nonempty : 0 < g.size) :
    chooseRegistry settings (some g) = .ok g :=
  if_neg nonempty.ne'

/-- An empty registry counts as none. -/
theorem chooseRegistry_of_empty (empty : g.size = 0) :
    chooseRegistry settings (some g) = chooseRegistry settings none :=
  if_pos empty

theorem chooseRegistry_of_noRule (noRule : ∀ g, given = some g → g.size = 0) :
    chooseRegistry settings given = chooseRegistry settings none := by
  cases given with
  | none => rfl
  | some g => exact chooseRegistry_of_empty (noRule g rfl)

theorem names_standard (built : chooseRegistry settings none = .ok r) :
    r.names = StandardRule.all.map StandardRule.name :=
  Registry.map_name_of_configured (Registry.rules_standard built)

theorem size_standard (built : chooseRegistry settings none = .ok r) :
    r.size = StandardRule.all.length := by
  have names := congrArg List.length (names_standard built)
  rwa [Registry.names, List.length_map, List.length_map] at names

/-! ## Entering and leaving -/

theorem connect_eq_ok_iff :
    p.connect = .ok q ↔ ∃ r, chooseRegistry p.settings p.given = .ok r ∧
      q = { p with line := .opened, registry := some r } := by
  rw [connect, bind_eq_ok]
  refine exists_congr fun r => and_congr_right' ?_
  exact ⟨fun same => (Except.ok.inj same).symm, fun same => same ▸ rfl⟩

theorem Follows.connect (follows : p.Follows settings given) (entered : p.connect = .ok q) :
    q.Follows settings given := by
  obtain ⟨r, chosen, rfl⟩ := connect_eq_ok_iff.1 entered
  rw [follows.configured, follows.passed] at chosen
  exact ⟨follows.configured, follows.passed,
    fun _ same => Option.some.inj same ▸ chosen, fun _ => ⟨r, rfl⟩⟩

theorem Made.follows (made : Made settings given p) : p.Follows settings given := by
  have unconnected (owns : Bool) :
      Follows ⟨settings, given, owns, .absent, none⟩ settings given :=
    ⟨rfl, rfl, nofun, nofun⟩
  induction made with
  | owning => exact unconnected true
  | sharing connected => exact (unconnected false).connect connected
  | @enter p q _ entered ih =>
    rw [Pipeline.enter] at entered
    split_ifs at entered
    · cases entered
      exact ih
    · exact ih.connect entered
  | @leave p _ ih =>
    rw [Pipeline.leave]
    split_ifs
    · exact ⟨ih.configured, ih.passed, ih.chosen, nofun⟩
    · exact ih

/-! ## Scores -/

variable {package : String} {version : Option Value} {net : Network} {w : Workspace} {s : Score}

theorem rules_eq_ok_iff : p.rules = .ok r ↔ p.registry = some r := by
  rw [rules]
  cases p.registry <;> simp

/-- A pipeline that was not left looks the package up and scores what it found with its rules. -/
theorem outcome_score (known : p.rules = .ok r) (usable : p.line ≠ .closed) :
    (p.score package version net w).1 = (p.client.metadata package version net w).1 >>= fun found =>
      (Scoring.score p.settings.scoring r.rules found net
        (p.client.metadata package version net w).2).1 := by
  rw [score, known, Session.bind_of_ok (Session.run_lift _), if_neg usable, Session.outcome_bind]

theorem rule_reports_of_score (scored : (p.score package version net w).1 = .ok s) :
    ∃ r, p.rules = .ok r ∧ s.reports.map (·.rule) = r.names := by
  rw [score, Session.outcome_bind, Session.run_lift, bind_eq_ok] at scored
  obtain ⟨r, known, scored⟩ := scored
  refine ⟨r, known, ?_⟩
  split_ifs at scored
  · cases scored
  · rw [Session.outcome_bind, bind_eq_ok] at scored
    obtain ⟨found, -, scored⟩ := scored
    exact Scoring.map_rule_reports scored

theorem Follows.chosen_of_rules (follows : p.Follows settings given) (known : p.rules = .ok r) :
    chooseRegistry settings given = .ok r :=
  follows.chosen r (rules_eq_ok_iff.1 known)

/-- Once its rules can be chosen, a pipeline can be entered and has them. -/
theorem Follows.exists_enter (follows : p.Follows settings given)
    (chosen : chooseRegistry settings given = .ok r) : ∃ q, p.enter = .ok q ∧ q.rules = .ok r := by
  by_cases opened : p.line = .opened
  · obtain ⟨r', known⟩ := follows.connected opened
    have same := follows.chosen r' known
    rw [chosen] at same
    cases same
    exact ⟨p, if_pos opened, rules_eq_ok_iff.2 known⟩
  · rw [← follows.configured, ← follows.passed] at chosen
    have entered := connect_eq_ok_iff.2 ⟨r, chosen, rfl⟩
    exact ⟨_, (if_neg opened).trans entered, rfl⟩

/-- A pipeline scores with the registry that it was passed if there is a rule in it. Passed an empty
one, or none, it scores with the six standard rules. Whichever it scores with, each score has one
report for each of its rules, in order. -/
theorem rules_of_made (made : Made settings given p) :
    (∀ g, given = some g → 0 < g.size → ∃ q, p.enter = .ok q ∧ q.rules = .ok g) ∧
    ((∀ g, given = some g → g.size = 0) →
      ∀ r, Registry.standard settings (Archive.analyze settings.archives) = .ok r →
        ∃ q, p.enter = .ok q ∧ q.rules = .ok r) ∧
    (∀ r, p.rules = .ok r →
      (∀ g, given = some g → (r = g ↔ 0 < g.size)) ∧
      ((∀ g, given = some g → g.size = 0) →
        Registry.standard settings (Archive.analyze settings.archives) = .ok r ∧
          r.names = StandardRule.all.map StandardRule.name)) ∧
    ∀ package version net w s, (p.score package version net w).1 = .ok s →
      ∃ r, p.rules = .ok r ∧ s.reports.map (·.rule) = r.names := by
  have follows := made.follows
  refine ⟨?_, fun noRule r built => ?_, fun r known => ⟨?_, fun noRule => ?_⟩,
    fun _ _ _ _ _ => rule_reports_of_score⟩
  · rintro g rfl nonempty
    exact follows.exists_enter (chooseRegistry_of_nonempty nonempty)
  · exact follows.exists_enter ((chooseRegistry_of_noRule noRule).trans built)
  · rintro g rfl
    have chosen := follows.chosen_of_rules known
    constructor
    · rintro rfl
      by_contra empty
      rw [chooseRegistry_of_empty (Nat.eq_zero_of_not_pos empty)] at chosen
      rw [size_standard chosen] at empty
      exact empty (by decide)
    · intro nonempty
      rw [chooseRegistry_of_nonempty nonempty] at chosen
      exact (Except.ok.inj chosen).symm
  · have chosen := follows.chosen_of_rules known
    rw [chooseRegistry_of_noRule noRule] at chosen
    exact ⟨chosen, names_standard chosen⟩

/-- A registry that knows one version of one package. -/
def onePackage : Network := fun url =>
  if url = "https://registry.npmjs.org/p" then
    .response 200 none
      ["\x7b\"dist-tags\":\x7b\"latest\":\"1\"\x7d,\"versions\":\x7b\"1\":\x7b\x7d\x7d\x7d".toUTF8]
  else .response 404 none []

theorem rules_of_mixedRules :
    ∃ p, Pipeline.sharing .standard (some ⟨Scoring.mixedRules⟩) = .ok p ∧
      p.rules = .ok ⟨Scoring.mixedRules⟩ ∧
      ∃ s, (p.score "p" none onePackage default).1 = .ok s ∧
        s.reports.map (·.rule) = ["a", "b", "c"] := by
  let mixed : Pipeline := ⟨.standard, some ⟨Scoring.mixedRules⟩, false, .opened,
    some ⟨Scoring.mixedRules⟩⟩
  have connected : Pipeline.sharing .standard (some ⟨Scoring.mixedRules⟩) = .ok mixed := rfl
  obtain ⟨-, -, passed, reported⟩ := rules_of_made (.sharing connected)
  have ends : (mixed.score "p" none onePackage default).1.toOption.isSome = true := by
    decide +kernel
  obtain ⟨s, scored⟩ := Option.isSome_iff_exists.1 ends
  have scored := toOption_eq_some_iff.1 scored
  obtain ⟨r, known, reports⟩ := reported _ _ _ _ s scored
  obtain rfl : r = ⟨Scoring.mixedRules⟩ := ((passed r known).1 _ rfl).2 (by decide)
  exact ⟨mixed, connected, known, s, scored, reports⟩

/-- Passed an empty registry, a pipeline scores with six rules. -/
theorem sharing_empty_is_standard :
    ∃ p r, Pipeline.sharing .standard (some .empty) = .ok p ∧ p.rules = .ok r ∧ r ≠ .empty ∧
      ∃ s, (p.score "p" none onePackage default).1 = .ok s ∧
        s.reports.map (·.rule) = StandardRule.all.map StandardRule.name := by
  have ends : ((Pipeline.sharing .standard (some .empty)).toOption.bind fun p =>
      (p.score "p" none onePackage default).1.toOption).isSome = true := by decide +kernel
  obtain ⟨s, ends⟩ := Option.isSome_iff_exists.1 ends
  obtain ⟨p, connected, scored⟩ := Option.bind_eq_some_iff.1 ends
  have connected := toOption_eq_some_iff.1 connected
  have scored := toOption_eq_some_iff.1 scored
  obtain ⟨r, known, reports⟩ := rule_reports_of_score scored
  have standard := (Made.sharing connected).follows.chosen_of_rules known
  rw [chooseRegistry_of_empty rfl] at standard
  refine ⟨p, r, connected, known, ?_, s, scored, reports.trans (names_standard standard)⟩
  rintro rfl
  exact absurd (size_standard standard) (by decide)

end PackageRisk.Pipeline
