import PackageRisk.Proofs.Batch
import PackageRisk.Proofs.Packument
import PackageRisk.Proofs.Pipeline

/-!
# The life of a pipeline

A pipeline that owns its line is made, entered and left, any number of times and in any order, and
asked for scores in between. What a call does depends on where in its life the pipeline is. Before
it was entered a call asks the network for nothing and ends with the failure that says so; after it
was left a call asks for nothing either; inside it looks packages up and scores what it finds
(`calls_of_lives`). One step of a life keeps `Stands`, and so a whole life does (`Lives.stands`).
-/

namespace PackageRisk.Pipeline

/-- Where in its life a pipeline is. An entry that fails leaves it where it was. -/
inductive Stage where
  | unentered
  | inside
  | left
  deriving DecidableEq

/-- To leave a context that was not entered changes nothing. -/
def Stage.next : Stage → Stage
  | .inside => .left
  | stage => stage

/-- What may become of a pipeline that owns its line, and of the workspace it is used in. -/
inductive Lives (settings : Settings) (given : Option Registry) (net : Network) :
    Stage → Pipeline → Workspace → Prop
  | made (w : Workspace) : Lives settings given net .unentered (owning settings given) w
  | enters {stage : Stage} {p q : Pipeline} {w : Workspace}
      (lives : Lives settings given net stage p w) (entered : p.enter = .ok q) :
      Lives settings given net .inside q w
  | stalls {stage : Stage} {p : Pipeline} {w : Workspace} {e : Failure}
      (lives : Lives settings given net stage p w) (failed : p.enter = .error e) :
      Lives settings given net stage p.stalled w
  | leaves {stage : Stage} {p : Pipeline} {w : Workspace}
      (lives : Lives settings given net stage p w) :
      Lives settings given net stage.next p.leave w
  | scores {stage : Stage} {p : Pipeline} {w : Workspace}
      (lives : Lives settings given net stage p w) (package : String) (version : Option Value) :
      Lives settings given net stage p (p.score package version net w).2
  | scoresMany {stage : Stage} {p : Pipeline} {w : Workspace}
      (lives : Lives settings given net stage p w) (concurrency : Int) (packages : List String) :
      Lives settings given net stage p (p.scoreMany concurrency packages net w).2

/-- What is known of a pipeline at a stage of its life. -/
structure Stands (settings : Settings) (given : Option Registry) (stage : Stage) (p : Pipeline) :
    Prop where
  configured : p.settings = settings
  passed : p.given = given
  owns : p.ownsLine = true
  connected : ∀ r, chooseRegistry settings given = .ok r → p.line = .opened → p.registry = some r
  unentered : stage = .unentered → p.registry = none
  inside : stage = .inside → p.line = .opened
  left : stage = .left → p.line = .closed ∨ p.registry = none
  chosen : ∀ r, p.registry = some r → chooseRegistry settings given = .ok r

variable {settings : Settings} {given : Option Registry} {stage : Stage} {p q : Pipeline}
  {net : Network} {w : Workspace} {r : Registry} {e : Failure} {package : String}
  {version : Option Value}

/-! ## Steps of a life -/

theorem stands_owning : Stands settings given .unentered (owning settings given) where
  configured := rfl
  passed := rfl
  owns := rfl
  connected _ _ := nofun
  unentered _ := rfl
  inside := nofun
  left := nofun
  chosen _ := nofun

theorem Stands.enter (stands : p.Stands settings given stage) (entered : p.enter = .ok q) :
    q.Stands settings given .inside := by
  rw [Pipeline.enter] at entered
  split_ifs at entered with opened
  · cases entered
    exact ⟨stands.configured, stands.passed, stands.owns, stands.connected, by simp,
      fun _ => opened, by simp, stands.chosen⟩
  · obtain ⟨r, chosen, rfl⟩ := connect_eq_ok_iff.1 entered
    rw [stands.configured, stands.passed] at chosen
    refine ⟨stands.configured, stands.passed, stands.owns, fun r' chosen' _ => ?_, by simp,
      fun _ => rfl, by simp, fun r' same => ?_⟩
    · rw [chosen] at chosen'
      exact congrArg some (Except.ok.inj chosen')
    · cases same
      exact chosen

/-- An entry fails only where the rules cannot be made, and then they are not known. -/
theorem Stands.stall (stands : p.Stands settings given stage) (failed : p.enter = .error e) :
    p.stalled.Stands settings given stage := by
  have notChosen : ∀ r, chooseRegistry settings given ≠ .ok r := by
    intro r chosen
    rw [← stands.configured, ← stands.passed] at chosen
    rw [Pipeline.enter] at failed
    split_ifs at failed
    rw [connect_eq_ok_iff.2 ⟨r, chosen, rfl⟩] at failed
    cases failed
  have unknown : p.registry = none := by
    rw [Option.eq_none_iff_forall_ne_some]
    exact fun r known => notChosen r (stands.chosen r known)
  exact ⟨stands.configured, stands.passed, stands.owns, fun r chosen => absurd chosen (notChosen r),
    fun _ => unknown, fun _ => rfl, fun _ => .inr unknown,
    fun r known => by rw [stalled, unknown] at known; cases known⟩

theorem Stands.leave (stands : p.Stands settings given stage) :
    p.leave.Stands settings given stage.next := by
  rw [Pipeline.leave]
  split_ifs with opened
  · refine ⟨stands.configured, stands.passed, stands.owns, by simp, fun unentered => ?_,
      fun inside => ?_, fun _ => .inl rfl, stands.chosen⟩
    · apply stands.unentered
      cases stage <;> simp_all [Stage.next]
    · cases stage <;> simp [Stage.next] at inside
  · rw [and_iff_right stands.owns] at opened
    have outside : stage ≠ .inside := fun inside => opened (stands.inside inside)
    have same : stage.next = stage := by cases stage <;> simp_all [Stage.next]
    rwa [same]

theorem Lives.stands (lives : Lives settings given net stage p w) :
    p.Stands settings given stage := by
  induction lives with
  | made => exact stands_owning
  | enters _ entered ih => exact ih.enter entered
  | stalls _ failed ih => exact ih.stall failed
  | leaves _ ih => exact ih.leave
  | scores _ _ _ ih => exact ih
  | scoresMany _ _ _ ih => exact ih

/-! ## Calls -/

/-- Looks a package up in the registry that settings name, and scores it with rules. -/
def served (settings : Settings) (r : Registry) (package : String) (version : Option Value) :
    Session Score := do
  let found ← (RegistryClient.ofUrl settings.registry.url true).metadata package version
  Scoring.score settings.scoring r.rules found

theorem score_of_unknown (unknown : p.registry = none) :
    p.score package version net w = (.error .notOpen, w) := by
  have rules : p.rules = .error .notOpen := by rw [Pipeline.rules, unknown]
  rw [score, rules]
  rfl

theorem score_of_closed (known : p.rules = .ok r) (closed : p.line = .closed) :
    p.score package version net w = (.error (p.refusal package), w) := by
  rw [score, known, Session.bind_of_ok (Session.run_lift _), if_pos closed, Session.run_fail]

theorem score_of_opened (known : p.rules = .ok r) (opened : p.line = .opened) :
    p.score package version net w = served p.settings r package version net w := by
  have usable : p.line ≠ .closed := by
    rw [opened]
    decide
  rw [score, known, Session.bind_of_ok (Session.run_lift _), if_neg usable, served, client]

/-- Without an open line, or without rules, every score is refused, and nothing is asked for. -/
theorem exists_refusal (net : Network) (w : Workspace)
    (outside : p.line = .closed ∨ p.registry = none) :
    ∃ refusal : String → Failure, ∀ package version,
      p.score package version net w = (.error (refusal package), w) := by
  rcases known : p.rules with e | r
  · have unknown : p.registry = none := by
      rw [rules] at known
      split at known
      · cases known
      · assumption
    exact ⟨fun _ => .notOpen, fun _ _ => score_of_unknown unknown⟩
  · have closed : p.line = .closed := by
      apply outside.resolve_right
      rw [rules_eq_ok_iff.1 known]
      exact Option.some_ne_none r
    exact ⟨p.refusal, fun _ _ => score_of_closed known closed⟩

/-- Where each score is refused, many scores are refused one by one. -/
theorem scoreMany_of_refused {refusal : String → Failure} {concurrency : Int}
    (refused : ∀ package, p.score package none net w = (.error (refusal package), w))
    (enough : 1 ≤ concurrency) (packages : List String) :
    ∃ b, p.scoreMany concurrency packages net w = (.ok b, w) ∧
      b.outcomes = packages.map fun package => (package, .error (refusal package)) := by
  rw [scoreMany, if_neg (by omega)]
  apply Batch.exists_run_of_quiet refused
  omega

/-- The jobs of a pipeline with an open line are the scores of its packages. -/
theorem scoreMany_of_opened {concurrency : Int} (known : p.rules = .ok r)
    (opened : p.line = .opened) (enough : 1 ≤ concurrency) (packages : List String) :
    p.scoreMany concurrency packages net w =
      Batch.run concurrency.toNat packages (served p.settings r · none) net w := by
  have jobs : (fun package => p.score package none) = (served p.settings r · none) := by
    funext package net w
    exact score_of_opened known opened
  rw [scoreMany, if_neg (by omega), jobs]

/-- In whatever order a pipeline is entered, left and asked for scores: before an entry has
succeeded every call ends with the failure that says so, many scores with one such failure for each
package, and after the pipeline was left every score is refused; neither changes the workspace, and
nothing is asked for. Inside, if its rules can be made, the pipeline has them and an open line,
looks each package up, asking for its URL, and scores what it finds. Many scores below one at a time
fail anywhere. -/
theorem calls_of_lives (lives : Lives settings given net stage p w) :
    (stage = .unentered →
      p.rules = .error .notOpen ∧
      (∀ package version, p.score package version net w = (.error .notOpen, w)) ∧
      ∀ concurrency packages, 1 ≤ concurrency →
        ∃ b, p.scoreMany concurrency packages net w = (.ok b, w) ∧
          b.outcomes = packages.map fun package => (package, .error .notOpen)) ∧
    (stage = .left → ∃ refusal : String → Failure,
      (∀ package version, p.score package version net w = (.error (refusal package), w)) ∧
      ∀ concurrency packages, 1 ≤ concurrency →
        ∃ b, p.scoreMany concurrency packages net w = (.ok b, w) ∧
          b.outcomes = packages.map fun package => (package, .error (refusal package))) ∧
    (stage = .inside → ∀ r, chooseRegistry settings given = .ok r →
      p.line = .opened ∧ p.rules = .ok r ∧
      (∀ package version, p.score package version net w = served settings r package version net w) ∧
      (∀ concurrency packages, 1 ≤ concurrency → p.scoreMany concurrency packages net w =
        Batch.run concurrency.toNat packages (served settings r · none) net w) ∧
      ∀ package version reference,
        Url.Reference.parse (p.client.packageUrl package) = .ok reference →
        .requested reference.toRequest.text ∈ (p.client.metadata package version net w).2.journal) ∧
    (∀ concurrency packages, concurrency < 1 →
      p.scoreMany concurrency packages net w = (.error .noConcurrency, w)) ∧
    Failure.notOpen.message = "ScoringPipeline must be used as an async context manager" := by
  have stands := lives.stands
  refine ⟨fun unentered => ?_, fun left => ?_, fun inside r chosen => ?_, ?_, rfl⟩
  · have unknown := stands.unentered unentered
    refine ⟨?_, fun _ _ => score_of_unknown unknown, fun concurrency packages enough => ?_⟩
    · rw [rules, unknown]
    · exact scoreMany_of_refused (fun _ => score_of_unknown unknown) enough packages
  · obtain ⟨refusal, refused⟩ := exists_refusal net w (stands.left left)
    exact ⟨refusal, refused, fun _ packages enough =>
      scoreMany_of_refused (fun package => refused package none) enough packages⟩
  · have opened := stands.inside inside
    have known := rules_eq_ok_iff.2 (stands.connected r chosen opened)
    have configured := stands.configured
    subst configured
    exact ⟨opened, known, fun _ _ => score_of_opened known opened,
      fun _ packages enough => scoreMany_of_opened known opened enough packages,
      fun _ _ _ parsed => p.client.requested_of_metadata parsed⟩
  · intro concurrency packages few
    rw [scoreMany, if_pos few, Session.run_fail]

/-- Many scores before the entry do not fail: the failure stands in the place of each score. -/
theorem scoreMany_of_unentered_returns :
    ∃ b, ((owning .standard none).scoreMany 4 ["left-pad"] Network.unreachable default).1 = .ok b ∧
      b.outcomes = [("left-pad", .error .notOpen)] := by
  have refused (package : String) :
      (owning .standard none).score package none .unreachable default =
        (.error .notOpen, default) := score_of_unknown rfl
  obtain ⟨b, returned, outcomes⟩ := scoreMany_of_refused refused (show 1 ≤ (4 : Int) by decide)
    ["left-pad"]
  exact ⟨b, congrArg Prod.fst returned, outcomes⟩

/-- A standard pipeline that is made, entered, left and entered again. -/
theorem standardPipeline_lives :
    ∃ p q r, (owning .standard none).enter = .ok p ∧ p.leave.enter = .ok q ∧
      chooseRegistry .standard none = .ok r ∧
      (owning .standard none).score "left-pad" none .unreachable default =
        (.error .notOpen, default) ∧
      p.score "left-pad" none .unreachable default =
        served .standard r "left-pad" none .unreachable default ∧
      .requested "https://registry.npmjs.org/left-pad" ∈
        (p.client.metadata "left-pad" none .unreachable default).2.journal ∧
      (∃ e, p.leave.score "left-pad" none .unreachable default = (.error e, default)) ∧
      q.line = .opened ∧ q.rules = .ok r := by
  have chosen : ∃ r, chooseRegistry .standard none = .ok r := ⟨_, rfl⟩
  obtain ⟨r, chosen⟩ := chosen
  have entered (p : Pipeline) (settings : p.settings = .standard) (given : p.given = none)
      (outside : p.line ≠ .opened) :
      p.enter = .ok { p with line := .opened, registry := some r } := by
    rw [enter, if_neg outside]
    exact connect_eq_ok_iff.2 ⟨r, by rw [settings, given, chosen], rfl⟩
  have made : Lives .standard none .unreachable .unentered (owning .standard none) default :=
    .made default
  have first := entered (owning .standard none) rfl rfl (show Line.absent ≠ .opened by decide)
  have inside := made.enters first
  have left := inside.leaves
  have second := entered (leave { owning .standard none with line := .opened, registry := some r })
    rfl rfl (show Line.closed ≠ .opened by decide)
  have again := left.enters second
  obtain ⟨unknown, -⟩ := calls_of_lives made
  obtain ⟨-, -, served, -⟩ := calls_of_lives inside
  obtain ⟨-, refused, -⟩ := calls_of_lives left
  obtain ⟨-, -, opened, -⟩ := calls_of_lives again
  obtain ⟨-, -, score, -, asks⟩ := served rfl r chosen
  obtain ⟨refusal, refused, -⟩ := refused rfl
  have parsed : Url.Reference.parse ((owning .standard none).client.packageUrl "left-pad") =
      .ok ⟨"https", none, "registry.npmjs.org".toList, none, "/left-pad".toList, none, none⟩ := by
    decide +kernel
  exact ⟨_, _, r, first, second, chosen,
    (unknown rfl).2.1 "left-pad" none, score "left-pad" none, asks "left-pad" none _ parsed,
    ⟨_, refused "left-pad" none⟩, (opened rfl r chosen).1, (opened rfl r chosen).2.1⟩

end PackageRisk.Pipeline
