import PackageRisk.CommandLine.Run
import PackageRisk.Proofs.Packument
import PackageRisk.Proofs.Pipeline
import PackageRisk.Proofs.Rules.Making
import PackageRisk.Proofs.Scoring.Finite
import PackageRisk.Proofs.Settings.Loading

/-!
# What the exit status tells

Zero and one are the verdict of the gate, and two tells that there is no score. The gate is prepared
for a defect of the configuration and for a failure of the registry. Any other failure ends it with
one as well, as if a score had missed its threshold, so the status can be trusted just when there is
none: `tells_exitCode_iff` lists them. The run is taken apart where the gate looks at what a part
ended with: the loading of the settings, the computation of the score, and the showing of it.
-/

namespace PackageRisk

/-! ## Failures that the registry has no part in -/

/-- A result, or a failure that is none of the registry. -/
def IsLocal {α : Type} (outcome : Except Failure α) : Prop :=
  ∀ e, outcome = .error e → e.aboutRegistry = false

section IsLocal

variable {α β : Type} {x : Except Failure α}

theorem isLocal_ok (a : α) : IsLocal (.ok a : Except Failure α) :=
  fun _ same => by cases same

theorem isLocal_error {e : Failure} (apart : e.aboutRegistry = false) :
    IsLocal (.error e : Except Failure α) :=
  fun _ same => Except.error.inj same ▸ apart

theorem isLocal_mapError_fault (y : Except Fault α) : IsLocal (y.mapError .fault) := by
  rcases y with cause | a
  · exact isLocal_error rfl
  · exact isLocal_ok a

theorem isLocal_orFail (y : Checked α) (record : String) : IsLocal (y.orFail record) := by
  rcases y with a | issues
  · exact isLocal_ok a
  · exact isLocal_error rfl

theorem IsLocal.bind {f : α → Except Failure β} (first : IsLocal x)
    (second : ∀ a, IsLocal (f a)) : IsLocal (x >>= f) := by
  intro e ends
  rcases bind_eq_error.1 ends with failed | ⟨a, -, failed⟩
  · exact first e failed
  · exact second a e failed

/-- Where the registry has no part, only a result is an answer. -/
theorem IsLocal.isAnswer_iff (isLocal : IsLocal x) : IsAnswer x ↔ ∃ a, x = .ok a := by
  rcases x with e | a
  · have apart := isLocal e rfl
    refine iff_of_false (fun answer => ?_) nofun
    rw [isAnswer_error_iff.1 answer] at apart
    cases apart
  · exact iff_of_true (isAnswer_ok a) ⟨a, rfl⟩

end IsLocal

namespace Rule

variable {rule : Rule} {answer : Except Failure RuleResult}

theorem isLocal_settle : IsLocal (settle answer) := by
  rcases answer with e | result
  · cases e
    case unimplementedRule kind => exact isLocal_error rfl
    all_goals exact isLocal_ok _
  · exact isLocal_ok result

theorem isLocal_report : IsLocal (rule.report answer) :=
  isLocal_settle.bind fun _ => (isLocal_orFail _ _).bind fun _ => isLocal_ok _

end Rule

theorem Band.isLocal_ofScore (score : Value) : IsLocal (ofScore score) := by
  unfold ofScore
  split
  · split
    · exact isLocal_error rfl
    · split_ifs
      · exact isLocal_ok _
      · exact isLocal_error rfl
  · exact isLocal_error rfl

namespace Scoring

variable {bounds : ScoreBounds} {rules : List Rule} {p : Package} {net : Network} {w : Workspace}

theorem isLocal_tally (total : Number) (answers : List (Rule × Except Failure RuleResult)) :
    IsLocal (tally total answers) := by
  induction answers generalizing total with
  | nil => exact isLocal_ok _
  | cons first rest ih =>
    exact Rule.isLocal_report.bind fun _ => (isLocal_mapError_fault _).bind fun next =>
      (ih next).bind fun _ => isLocal_ok _

/-- What the registry answers to a rule is recorded, so no score fails with it. -/
theorem isLocal_score : IsLocal (score bounds rules p net w).1 := by
  rw [score, Session.outcome_bind, run_outcome]
  refine (isLocal_tally _ _).bind fun tallied => ?_
  show IsLocal ((Session.lift _ >>= _) net _).1
  rw [Session.outcome_bind, Session.run_lift]
  refine (Band.isLocal_ofScore (.number _)).bind fun band => ?_
  exact isLocal_ok _

end Scoring

theorem Pipeline.isLocal_chooseRegistry {settings : Settings} :
    IsLocal (chooseRegistry settings none) := by
  intro e failed
  obtain ⟨cause, rfl⟩ := Registry.standard_eq_error failed
  rfl

namespace CommandLine

variable {env : Environment} {request : ScoreRequest} {settings : Settings} {net : Network}
  {w w' : Workspace} {s : Score} {threshold : Number} {e : Failure}

/-! ## The computation -/

/-- The registry that settings name. -/
def clientOf (settings : Settings) : RegistryClient :=
  .ofUrl settings.registry.url true

/-- The version that is looked up for a request. -/
def ScoreRequest.wanted (request : ScoreRequest) : Option Value :=
  request.version.map .text

/-- A computation that ends with neither a score nor a failure of the registry: the rules cannot be
made, what the registry says cannot be read or is no place to look for a version, or the rules leave
no total that has a band between the bounds. -/
inductive Breaks (settings : Settings) (request : ScoreRequest) (net : Network) (w : Workspace) :
    Prop
  | rules (unusable : NetworkAccess.HasUnusableModules
      (settings.rule NetworkAccess.ruleName).options)
  | reading (unread : ¬(clientOf settings).Reads request.package net w)
  | document {document : Fields}
      (read : ((clientOf settings).packument request.package net w).1 = .ok document)
      (derails : Packument.Derails document request.wanted)
  | total {r : Registry} {found : Package} {w' : Workspace}
      (built : Pipeline.chooseRegistry settings none = .ok r)
      (lookedUp : (clientOf settings).metadata request.package request.wanted net w =
        (.ok found, w'))
      (bandless : ∀ total, Scoring.totalAfter settings.scoring.base
          (Scoring.recordedResults (Scoring.asked net found w' r.rules)) = .ok total →
        ¬(Number.clamp settings.scoring.min settings.scoring.max total).IsScore)

theorem outcome_computeScore :
    (computeScore settings request net w).1 = Pipeline.chooseRegistry settings none >>= fun r =>
      ((clientOf settings).metadata request.package request.wanted net w).1 >>= fun found =>
        (Scoring.score settings.scoring r.rules found net
          ((clientOf settings).metadata request.package request.wanted net w).2).1 := by
  let connected (r : Registry) : Pipeline :=
    { Pipeline.owning settings none with line := .opened, registry := some r }
  have enters : (Pipeline.owning settings none).enter =
      Pipeline.chooseRegistry settings none >>= fun r => pure (connected r) := rfl
  rw [computeScore, Session.outcome_bind, Session.run_lift]
  dsimp only
  rw [enters, bind_assoc]
  refine bind_congr fun r => ?_
  rw [pure_bind]
  exact Pipeline.outcome_score rfl nofun

/-- With the standard rules a package that was found has a score just when they leave a total that
has a band between the bounds. -/
theorem isAnswer_score_iff {r : Registry} {found : Package}
    (built : Pipeline.chooseRegistry settings none = .ok r) :
    IsAnswer (Scoring.score settings.scoring r.rules found net w).1 ↔
      ∃ total, Scoring.totalAfter settings.scoring.base
          (Scoring.recordedResults (Scoring.asked net found w r.rules)) = .ok total ∧
        (Number.clamp settings.scoring.min settings.scoring.max total).IsScore := by
  rw [Scoring.isLocal_score.isAnswer_iff, Scoring.exists_score_iff_isScore]
  exact and_iff_right
    (Scoring.reportable_standard (Archive.recordable_analyze settings.archives) built)

theorem isAnswer_computeScore_iff :
    IsAnswer (computeScore settings request net w).1 ↔ ¬Breaks settings request net w := by
  rw [outcome_computeScore, isAnswer_bind_iff, Pipeline.isLocal_chooseRegistry.isAnswer_iff]
  simp only [isAnswer_bind_iff, RegistryClient.isAnswer_metadata_iff]
  constructor
  · rintro ⟨⟨r, built⟩, later⟩ breaks
    obtain ⟨⟨reads, sound⟩, scored⟩ := later r built
    cases breaks with
    | rules unusable => exact Registry.exists_standard_iff.1 ⟨r, built⟩ unusable
    | reading unread => exact unread reads
    | document read derails => exact sound _ read derails
    | total built' lookedUp bandless =>
      obtain rfl := Except.ok.inj (built.symm.trans built')
      obtain ⟨total, sum, isScore⟩ :=
        (isAnswer_score_iff built).1 (scored _ (congrArg Prod.fst lookedUp))
      rw [lookedUp] at sum
      exact bandless total sum isScore
  · intro holds
    obtain ⟨r, built⟩ := Registry.exists_standard_iff.2 fun unusable => holds (.rules unusable)
    refine ⟨⟨r, built⟩, fun r' built' => ⟨⟨?_, fun document read derails => ?_⟩,
      fun found there => ?_⟩⟩
    · by_contra unread
      exact holds (.reading unread)
    · exact holds (.document read derails)
    · rw [isAnswer_score_iff built']
      by_contra none
      rcases lookedUp : (clientOf settings).metadata request.package request.wanted net w
        with ⟨outcome, w'⟩
      rw [lookedUp] at there none
      obtain rfl : outcome = .ok found := there
      exact holds (.total built' lookedUp fun total sum isScore => none ⟨total, sum, isScore⟩)

/-! ## The run -/

/-- The names that lead to the configuration file of a request. -/
def ScoreRequest.file (request : ScoreRequest) (w : Workspace) : Option (List String) :=
  request.config.map fun path =>
    if (Path.parse path).isAbsolute then (Path.parse path).parts
    else w.home ++ (Path.parse path).parts

/-- A score that is computed for a request, and the threshold that it is compared with: the one that
is asked for, or else that of the settings. -/
def Computes (env : Environment) (request : ScoreRequest) (net : Network) (w : Workspace)
    (s : Score) (threshold : Number) : Prop :=
  ∃ settings, Settings.load w.disk (request.file w) env = .ok settings ∧
    (computeScore settings request net w).1 = .ok s ∧
    threshold = request.threshold.getD settings.threshold

/-- A status that tells the verdict: zero for a score that reaches its threshold, one for a score
that does not, and two if there is no score. -/
structure Tells (code : Nat) (env : Environment) (request : ScoreRequest) (net : Network)
    (w : Workspace) : Prop where
  passed : code = 0 ↔ ∃ s threshold, Computes env request net w s threshold ∧
    threshold.le s.score = true
  failed : code = 1 ↔ ∃ s threshold, Computes env request net w s threshold ∧
    ¬threshold.le s.score = true
  unusable : (¬∃ s threshold, Computes env request net w s threshold) → code = 2

/-- What the gate is not prepared for: a configuration file that derails the loading, a computation
that breaks, or a file that a score with which the gate passes cannot be saved to. -/
inductive Unforeseen (env : Environment) (request : ScoreRequest) (net : Network) (w : Workspace) :
    Prop
  | settings {names : List String} (named : request.file w = some names)
      (derails : Settings.Derails w.disk names)
  | computation {settings : Settings}
      (loaded : Settings.load w.disk (request.file w) env = .ok settings)
      (breaks : Breaks settings request net w)
  | saving {settings : Settings} {s : Score} {w' : Workspace} {path : String}
      (loaded : Settings.load w.disk (request.file w) env = .ok settings)
      (scored : computeScore settings request net w = (.ok s, w'))
      (reached : (request.threshold.getD settings.threshold).le s.score = true)
      (wanted : request.output = some path)
      (unsaved : (writeScore s path net w').1 ≠ .ok ())

theorem registryMessage?_isSome : (registryMessage? e).isSome = e.aboutRegistry := by
  cases e <;> rfl

theorem run_scoreCommand :
    scoreCommand env request net w =
      (match Settings.load w.disk (request.file w) env with
        | .ok settings => scoreWith env settings request
        | .error (.config defect) => pure
            ⟨[.line (coloured "red" (Failure.config defect).message)], .ok unusable⟩
        | .error e => pure ⟨[], .error e⟩) net w := by
  rw [scoreCommand, ScoreRequest.file]
  cases request.config <;> rfl

theorem exists_showScore_iff :
    (∃ shown, (showScore env request threshold s net w).1 = .ok shown) ↔
      ∀ path, request.output = some path → (writeScore s path net w).1 = .ok () := by
  rw [showScore]
  rcases request.output with _ | path
  · exact iff_of_true ⟨_, rfl⟩ nofun
  · simp only [Session.outcome_bind, bind_eq_ok, Option.some.injEq, forall_eq']
    constructor
    · rintro ⟨shown, ⟨⟨⟩, saved, -⟩⟩
      exact saved
    · intro saved
      exact ⟨_, (), saved, rfl⟩

theorem exitCode_of_config {defect : ConfigDefect}
    (refused : Settings.load w.disk (request.file w) env = .error (.config defect)) :
    exitCode (scoreCommand env request net w).1 = 2 := by
  rw [run_scoreCommand, refused]
  rfl

theorem exitCode_of_fault {cause : Fault}
    (derailed : Settings.load w.disk (request.file w) env = .error (.fault cause)) :
    exitCode (scoreCommand env request net w).1 = 1 := by
  rw [run_scoreCommand, derailed]
  rfl

theorem exitCode_of_failed (loaded : Settings.load w.disk (request.file w) env = .ok settings)
    (failed : (computeScore settings request net w).1 = .error e) :
    exitCode (scoreCommand env request net w).1 = if e.aboutRegistry = true then 2 else 1 := by
  rw [run_scoreCommand, loaded]
  dsimp only
  rw [scoreWith, Session.bind_of_ok (Session.run_attempt _), failed]
  dsimp only
  rw [← registryMessage?_isSome]
  cases registryMessage? e <;> rfl

theorem exitCode_of_saved (loaded : Settings.load w.disk (request.file w) env = .ok settings)
    (scored : computeScore settings request net w = (.ok s, w'))
    (saved : ∀ path, request.output = some path → (writeScore s path net w').1 = .ok ()) :
    exitCode (scoreCommand env request net w).1 =
      exitStatus s.score (request.threshold.getD settings.threshold) := by
  rw [run_scoreCommand, loaded]
  dsimp only
  obtain ⟨shown, shows⟩ := exists_showScore_iff.2 saved
  rw [scoreWith, Session.bind_of_ok (Session.run_attempt _), scored]
  dsimp only
  rw [Session.bind_of_ok (Session.run_attempt _), shows]
  rfl

theorem exitCode_of_unsaved {path : String}
    (loaded : Settings.load w.disk (request.file w) env = .ok settings)
    (scored : computeScore settings request net w = (.ok s, w'))
    (wanted : request.output = some path) (unsaved : (writeScore s path net w').1 ≠ .ok ()) :
    exitCode (scoreCommand env request net w).1 = 1 := by
  rw [run_scoreCommand, loaded]
  dsimp only
  rw [scoreWith, Session.bind_of_ok (Session.run_attempt _), scored]
  dsimp only
  rw [Session.bind_of_ok (Session.run_attempt _)]
  rcases shows : (showScore env request (request.threshold.getD settings.threshold) s net w').1
    with e | shown
  · rfl
  · exact absurd (exists_showScore_iff.1 ⟨shown, shows⟩ path wanted) unsaved

/-! ## The verdict -/

theorem Computes.unique {s' : Score} {threshold' : Number}
    (one : Computes env request net w s threshold)
    (two : Computes env request net w s' threshold') : s = s' ∧ threshold = threshold' := by
  obtain ⟨settings, loaded, scored, rfl⟩ := one
  obtain ⟨settings', loaded', scored', rfl⟩ := two
  obtain rfl := Except.ok.inj (loaded.symm.trans loaded')
  exact ⟨Except.ok.inj (scored.symm.trans scored'), rfl⟩

theorem tells_of_computes (computes : Computes env request net w s threshold) :
    Tells (exitStatus s.score threshold) env request net w := by
  have only {P : Number → Score → Prop} :
      (∃ s threshold, Computes env request net w s threshold ∧ P threshold s) ↔ P threshold s := by
    constructor
    · rintro ⟨s', threshold', computes', holds⟩
      obtain ⟨rfl, rfl⟩ := computes.unique computes'
      exact holds
    · intro holds
      exact ⟨s, threshold, computes, holds⟩
  refine ⟨?_, ?_, fun none => absurd ⟨s, threshold, computes⟩ none⟩
  · rw [only (P := fun threshold s => threshold.le s.score = true), exitStatus]
    split_ifs with reached <;> simp [reached]
  · rw [only (P := fun threshold s => ¬threshold.le s.score = true), exitStatus]
    split_ifs with reached <;> simp [reached]

theorem tells_two (none : ¬∃ s threshold, Computes env request net w s threshold) :
    Tells 2 env request net w := by
  refine ⟨iff_of_false nofun ?_, iff_of_false nofun ?_, fun _ => rfl⟩
  all_goals
    rintro ⟨s, threshold, computes, -⟩
    exact none ⟨s, threshold, computes⟩

theorem exists_error_of_breaks (breaks : Breaks settings request net w) :
    ∃ e, (computeScore settings request net w).1 = .error e ∧ e.aboutRegistry = false := by
  have answerless := isAnswer_computeScore_iff.not_left.2 breaks
  unfold IsAnswer at answerless
  push Not at answerless
  obtain ⟨e, failed, apart⟩ := answerless
  exact ⟨e, failed, Bool.eq_false_iff.2 apart⟩

theorem load_of_file_derails {names : List String} (named : request.file w = some names)
    (derails : Settings.Derails w.disk names) :
    ∃ cause, Settings.load w.disk (request.file w) env = .error (.fault cause) :=
  named ▸ Settings.load_of_derails derails _

theorem exitCode_of_unforeseen (unforeseen : Unforeseen env request net w) :
    exitCode (scoreCommand env request net w).1 = 1 := by
  cases unforeseen with
  | settings named derails =>
    obtain ⟨cause, derailed⟩ := load_of_file_derails named derails
    exact exitCode_of_fault derailed
  | computation loaded breaks =>
    obtain ⟨e, failed, apart⟩ := exists_error_of_breaks breaks
    rw [exitCode_of_failed loaded failed, if_neg (Bool.eq_false_iff.1 apart)]
  | saving loaded scored _ wanted unsaved => exact exitCode_of_unsaved loaded scored wanted unsaved

/-- What the gate is not prepared for leaves no score that misses its threshold. -/
theorem reached_of_unforeseen (unforeseen : Unforeseen env request net w)
    (computes : Computes env request net w s threshold) : threshold.le s.score = true := by
  obtain ⟨settings, loaded, scored, rfl⟩ := computes
  cases unforeseen with
  | settings named derails =>
    obtain ⟨cause, derailed⟩ := load_of_file_derails named derails
    rw [loaded] at derailed
    cases derailed
  | computation loaded' breaks =>
    obtain rfl := Except.ok.inj (loaded.symm.trans loaded')
    obtain ⟨e, failed, -⟩ := exists_error_of_breaks breaks
    rw [scored] at failed
    cases failed
  | saving loaded' scored' reached _ _ =>
    obtain rfl := Except.ok.inj (loaded.symm.trans loaded')
    rw [scored'] at scored
    obtain rfl := Except.ok.inj scored
    exact reached

theorem tells_of_not_unforeseen (foreseen : ¬Unforeseen env request net w) :
    Tells (exitCode (scoreCommand env request net w).1) env request net w := by
  rcases loaded : Settings.load w.disk (request.file w) env with e | settings
  · obtain ⟨defect, rfl⟩ := Settings.load_of_not_derails
      (fun names named derails => foreseen (.settings named derails)) loaded
    rw [exitCode_of_config loaded]
    refine tells_two ?_
    rintro ⟨s, threshold, settings, loaded', -⟩
    rw [loaded] at loaded'
    cases loaded'
  · rcases scored : computeScore settings request net w with ⟨e | s, w'⟩
    · have answer : IsAnswer (computeScore settings request net w).1 :=
        isAnswer_computeScore_iff.2 fun breaks => foreseen (.computation loaded breaks)
      have failed := congrArg Prod.fst scored
      rw [exitCode_of_failed loaded failed, if_pos (answer e failed)]
      refine tells_two ?_
      rintro ⟨s, threshold, settings', loaded', scored', -⟩
      obtain rfl := Except.ok.inj (loaded.symm.trans loaded')
      rw [scored] at scored'
      cases scored'
    · have computes : Computes env request net w s (request.threshold.getD settings.threshold) :=
        ⟨settings, loaded, congrArg Prod.fst scored, rfl⟩
      have verdict := tells_of_computes computes
      by_cases saved : ∀ path, request.output = some path → (writeScore s path net w').1 = .ok ()
      · rwa [exitCode_of_saved loaded scored saved]
      · push Not at saved
        obtain ⟨path, wanted, unsaved⟩ := saved
        rw [exitCode_of_unsaved loaded scored wanted unsaved]
        -- a file that cannot be written changes the status only if the gate would pass
        by_cases reached : (request.threshold.getD settings.threshold).le s.score = true
        · exact absurd (.saving loaded scored reached wanted unsaved) foreseen
        · rwa [exitStatus, if_neg reached] at verdict

/-- What is asked of the gate for the newest version of a package and nothing else. -/
def plainRequest (package : String) : ScoreRequest :=
  { package, version := none, config := none, threshold := none, asJson := false, output := none }

end CommandLine

end PackageRisk
