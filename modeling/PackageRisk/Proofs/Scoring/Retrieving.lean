import PackageRisk.Pipeline
import PackageRisk.Proofs.Archive.Together
import PackageRisk.Proofs.Scoring.Disabling

/-!
# What a scoring does to the disk

With the standard rules a scoring touches the disk to retrieve the archive of the package that was
found, and for nothing else: looking a package up asks the network only, one rule retrieves the
archive, and the others look at nothing but the package (`Pipeline.asksOnce_score`). So a scoring is
work that is made of the steps of one retrieval at most.
-/

namespace PackageRisk

open Archive (Retrieves)
open Work (Performs fetched)

variable {α β : Type} {settings : ArchiveSettings} {net : Network} {home : Location}
  {package : String}

/-! ## Sessions that end alike everywhere -/

namespace Session

variable {s : Session α} {f : α → Session β} {outcome : Except Failure α}

/-- A session that asks nothing of its workspace and leaves the disk as it is. -/
def IsStill (s : Session α) (net : Network) : Prop := ∃ outcome, s.Ends net outcome

theorem isStill_lift (outcome : Except Failure α) : (lift outcome).IsStill net :=
  ⟨outcome, fun w => ⟨w, run_lift outcome, rfl, rfl⟩⟩

theorem isStill_liftFault (outcome : Except Fault α) : (liftFault outcome).IsStill net :=
  ⟨_, fun w => ⟨w, run_liftFault outcome, rfl, rfl⟩⟩

theorem isStill_pure (a : α) : (pure a : Session α).IsStill net := ⟨_, ends_pure a⟩

theorem isStill_fail (e : Failure) : (fail e : Session α).IsStill net := ⟨_, ends_fail e⟩

theorem Ends.bind_error {e : Failure} (first : s.Ends net (.error e)) :
    (s >>= f).Ends net (.error e) := by
  intro w
  obtain ⟨w', run, disk, home⟩ := first w
  exact ⟨w', bind_of_error run, disk, home⟩

theorem Ends.attempt (ends : s.Ends net outcome) : s.attempt.Ends net (.ok outcome) := by
  intro w
  obtain ⟨w', run, disk, home⟩ := ends w
  exact ⟨w', by rw [run_attempt, run], disk, home⟩

theorem IsStill.bind (first : s.IsStill net) (later : ∀ a, (f a).IsStill net) :
    (s >>= f).IsStill net := by
  obtain ⟨outcome, ends⟩ := first
  cases outcome with
  | error e => exact ⟨_, ends.bind_error⟩
  | ok a =>
    obtain ⟨outcome, ends'⟩ := later a
    exact ⟨outcome, ends.bind ends'⟩

end Session

/-! ## Sessions that retrieve one archive -/

open Session (IsStill)

/-- A session that touches the disk only to retrieve the archive of a package, if at all. -/
def Session.AsksOnce (s : Session α) (settings : ArchiveSettings) (net : Network) (home : Location)
    (package : String) : Prop :=
  ∃ url work, Retrieves settings net home package url work ∧ Performs work s net home

theorem Session.IsStill.asksOnce {s : Session α} (still : s.IsStill net) :
    s.AsksOnce settings net home package := by
  obtain ⟨outcome, ends⟩ := still
  refine ⟨"", _, .ended outcome, fun w atHome => ?_⟩
  obtain ⟨w', run, disk, stays⟩ := ends w
  rw [run, Work.run_ended, disk]
  exact ⟨rfl, stays.trans atHome⟩

/-- What a work of this kind ends with may be changed. -/
theorem Archive.Retrieves.conclude {url : String} {work : Work Failure α}
    (retrieves : Retrieves settings net home package url work)
    (f : Except Failure α → Except Failure β) :
    ∃ work', Retrieves settings net home package url work' ∧
      ∀ d, work'.run d = (f (work.run d).1, (work.run d).2) := by
  cases retrieves with
  | ended outcome => exact ⟨_, .ended (f outcome), fun _ => rfl⟩
  | retrieval entropies g =>
    refine ⟨_, .retrieval entropies fun outcome => f (g outcome), fun d => ?_⟩
    rw [Work.run_followedBy, Work.run_followedBy, Work.run_ended, Work.run_ended]

namespace Session.AsksOnce

variable {s : Session α} {s' : Session β} {f : α → Session β}

/-- A session that ends otherwise than one of this kind, but does the same, is of this kind. -/
theorem conclude {g : Except Failure α → Except Failure β}
    (asks : s.AsksOnce settings net home package)
    (same : ∀ w, (s' net w).1 = g (s net w).1 ∧ (s' net w).2.disk = (s net w).2.disk ∧
      (s' net w).2.home = (s net w).2.home) :
    s'.AsksOnce settings net home package := by
  obtain ⟨url, work, retrieves, performs⟩ := asks
  obtain ⟨work', retrieves', run⟩ := retrieves.conclude g
  refine ⟨url, work', retrieves', fun w atHome => ?_⟩
  obtain ⟨outcome, disk, stays⟩ := same w
  rw [run, (performs w atHome).1, outcome, disk, stays]
  exact ⟨rfl, (performs w atHome).2⟩

theorem attempt (asks : s.AsksOnce settings net home package) :
    s.attempt.AsksOnce settings net home package :=
  asks.conclude (g := .ok) fun w => by
    rw [run_attempt]
    exact ⟨rfl, rfl, rfl⟩

theorem bind (asks : s.AsksOnce settings net home package)
    (later : ∀ a, (f a).IsStill net) : (s >>= f).AsksOnce settings net home package := by
  choose g ends using later
  refine asks.conclude (g := (· >>= g)) fun w => ?_
  rcases run : s net w with ⟨e | a, w'⟩
  · rw [bind_of_error run]
    exact ⟨rfl, rfl, rfl⟩
  · obtain ⟨w'', run', disk, stays⟩ := ends a w'
    rw [bind_of_ok run, run']
    exact ⟨rfl, disk, stays⟩

theorem bind_of_ends {outcome : Except Failure α} (first : s.Ends net outcome)
    (later : ∀ a, outcome = .ok a → (f a).AsksOnce settings net home package) :
    (s >>= f).AsksOnce settings net home package := by
  cases outcome with
  | error e => exact IsStill.asksOnce ⟨_, first.bind_error⟩
  | ok a =>
    obtain ⟨url, work, retrieves, performs⟩ := later a rfl
    refine ⟨url, work, retrieves, fun w atHome => ?_⟩
    obtain ⟨w', run, disk, stays⟩ := first w
    rw [bind_of_ok run, ← disk]
    exact performs w' (stays.trans atHome)

theorem bind_of_isStill (first : s.IsStill net)
    (later : ∀ a, (f a).AsksOnce settings net home package) :
    (s >>= f).AsksOnce settings net home package := by
  obtain ⟨outcome, ends⟩ := first
  exact bind_of_ends ends fun a _ => later a

end Session.AsksOnce

open Session (AsksOnce)

/-! ## Rules -/

theorem asksOnce_analyze (settings : ArchiveSettings) (net : Network) (home : Location)
    (url package : String) (entropies : Bool) :
    (Archive.analyze settings url package entropies).AsksOnce settings net home package := by
  refine ⟨url, _, .retrieval entropies id, fun w atHome => ?_⟩
  have performs : Performs (Work.retrieval settings net home url package entropies) _ net home :=
    Work.performs_analysis settings url package entropies
  rw [Work.run_followedBy, (performs w atHome).1]
  exact ⟨rfl, (performs w atHome).2⟩

/-- The rule about code that resists review asks for the archive of the package. -/
theorem HiddenCode.asksOnce_evaluate (weight : Value) (limits : CodeLimits) (p : Package) :
    (HiddenCode.evaluate ⟨weight, limits, Archive.analyze settings⟩ p).AsksOnce settings net home
      p.name := by
  unfold evaluate archiveSigns
  refine .bind_of_isStill (Session.isStill_liftFault _) fun size => ?_
  refine .bind ?_ fun archive => Session.isStill_lift _
  cases p.dist.tarball with
  | none => exact (Session.isStill_pure _).asksOnce
  | some url =>
    have inspects : (inspectArchive ⟨weight, limits, Archive.analyze settings⟩ url
        p.name).AsksOnce settings net home p.name :=
      (asksOnce_analyze settings net home url p.name _).bind fun _ => Session.isStill_liftFault _
    refine inspects.attempt.bind fun outcome => ?_
    cases outcome with
    | ok findings => exact Session.isStill_pure _
    | error e =>
      dsimp only
      split_ifs
      · exact Session.isStill_pure _
      · exact Session.isStill_fail e

theorem Rule.IsStill.session {made : Rule} {p : Package} (still : made.IsStill p) :
    (made.answer p).IsStill net := by
  obtain ⟨outcome, answers⟩ := still
  exact ⟨outcome, fun w => ⟨w, answers net w, rfl, rfl⟩⟩

theorem Rule.IsStandard.asksOnce {made : Rule} {rule : StandardRule} {n : Number} {options : Fields}
    {p : Package} (is : made.IsStandard rule n options (Archive.analyze settings)) :
    (made.answer p).AsksOnce settings net home p.name := by
  by_cases hidden : rule = .hiddenCode
  · obtain ⟨run, runs, answers⟩ | off := is.answer p
    · rw [answers]
      cases runs with
      | ofPackage judges => exact (Session.isStill_lift _).asksOnce
      | ofArchive => exact HiddenCode.asksOnce_evaluate _ _ p
    · rw [off]
      exact (Session.isStill_pure _).asksOnce
  · exact (is.isStill hidden).session.asksOnce

namespace Scoring

variable {p : Package} {rules : List Rule}

theorem isStill_reportOf {made : Rule} (still : made.IsStill p) :
    (reportOf made p).IsStill net := by
  obtain ⟨outcome, answers⟩ := still
  exact ⟨made.report outcome, fun w => ⟨w, by rw [run_reportOf, answers], rfl, rfl⟩⟩

theorem isStill_run (still : ∀ made ∈ rules, made.IsStill p) (total : Number) :
    (run p total rules).IsStill net := by
  induction rules generalizing total with
  | nil => exact Session.isStill_pure _
  | cons made rest ih =>
    rw [List.forall_mem_cons] at still
    refine (isStill_reportOf still.1).bind fun report => ?_
    refine (Session.isStill_liftFault _).bind fun next => ?_
    exact (ih still.2 next).bind fun _ => Session.isStill_pure _

theorem asksOnce_reportOf {made : Rule}
    (asks : (made.answer p).AsksOnce settings net home package) :
    (reportOf made p).AsksOnce settings net home package :=
  asks.conclude (g := made.report) fun w => by
    rw [run_reportOf]
    exact ⟨rfl, rfl, rfl⟩

/-- Where at most one rule does more than to look at the package, a run over the rules touches the
disk as that one does. -/
theorem asksOnce_run (asks : ∀ made ∈ rules, (made.answer p).AsksOnce settings net home package)
    (apart : rules.Pairwise fun a b => a.IsStill p ∨ b.IsStill p) (total : Number) :
    (run p total rules).AsksOnce settings net home package := by
  induction rules generalizing total with
  | nil => exact (Session.isStill_pure _).asksOnce
  | cons made rest ih =>
    rw [List.forall_mem_cons] at asks
    rw [List.pairwise_cons] at apart
    by_cases still : made.IsStill p
    · refine .bind_of_isStill (isStill_reportOf still) fun report => ?_
      refine .bind_of_isStill (Session.isStill_liftFault _) fun next => ?_
      exact (ih asks.2 apart.2 next).bind fun _ => Session.isStill_pure _
    · have others : ∀ other ∈ rest, other.IsStill p := fun other mem =>
        (apart.1 other mem).resolve_left still
      refine (asksOnce_reportOf asks.1).bind fun report => ?_
      refine (Session.isStill_liftFault _).bind fun next => ?_
      exact (isStill_run others next).bind fun _ => Session.isStill_pure _

theorem asksOnce_score {configuration : Settings} {registry : Registry}
    (built : Registry.standard configuration (Archive.analyze settings) = .ok registry)
    (bounds : ScoreBounds) :
    (score bounds registry.rules p).AsksOnce settings net home p.name := by
  have asks : ∀ made ∈ registry.rules, (made.answer p).AsksOnce settings net home p.name := by
    intro made mem
    obtain ⟨rule, -, configured⟩ := exists_of_mem_right (Registry.rules_standard built) made mem
    exact (StandardRule.isStandard_of_configured configured).asksOnce
  refine (asksOnce_run asks (pairwise_isStill built p) bounds.base).bind fun tallied => ?_
  exact (Session.isStill_lift _).bind fun _ => Session.isStill_pure _

end Scoring

/-! ## Lookups -/

theorem RegistryClient.isStill_metadata (r : RegistryClient) (package : String)
    (wanted : Option Value) : (r.metadata package wanted).IsStill net := by
  have still : (r.packument package).IsStill net := by
    obtain ⟨outcome, ends, -⟩ : (Session.fetch r.followsRedirects (r.packageUrl package)).Settles
        net := Session.fetch_settles _ _
    exact IsStill.bind ⟨_, ends.attempt⟩ fun _ => Session.isStill_lift _
  exact still.bind fun _ => Session.isStill_lift _

namespace Pipeline

variable {p : Pipeline}

/-- The name under which a package is worked on: its own, once it was found. -/
def foundName (p : Pipeline) (net : Network) (package : String) : String :=
  match (p.client.metadata package none net default).1 with
  | .ok found => found.name
  | .error _ => package

/-- With the standard rules a scoring retrieves the archive of the package that was found, if it
touches the disk at all. -/
theorem asksOnce_score (standard : ∀ r, p.rules = .ok r →
      Registry.standard p.settings (Archive.analyze p.settings.archives) = .ok r)
    (net : Network) (home : Location) (package : String) :
    (p.score package none).AsksOnce p.settings.archives net home (p.foundName net package) := by
  unfold score
  rcases known : p.rules with e | r
  · exact IsStill.asksOnce ⟨_, Session.Ends.bind_error fun w => ⟨w, rfl, rfl, rfl⟩⟩
  · refine .bind_of_ends (fun w => ⟨w, Session.run_lift (.ok r), rfl, rfl⟩) fun registry same => ?_
    obtain rfl := Except.ok.inj same
    split_ifs
    · exact (Session.isStill_fail _).asksOnce
    · obtain ⟨outcome, ends⟩ : (p.client.metadata package none).IsStill net :=
        p.client.isStill_metadata package none
      refine .bind_of_ends ends fun found same => ?_
      have name : p.foundName net package = found.name := by
        rw [foundName, ends.outcome_eq, same]
      rw [name]
      exact Scoring.asksOnce_score (standard r known) _

end Pipeline

end PackageRisk
