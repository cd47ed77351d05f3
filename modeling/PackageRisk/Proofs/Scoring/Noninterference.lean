import PackageRisk.Proofs.Package.Scripts
import PackageRisk.Proofs.Scoring.Blocking
import PackageRisk.Proofs.Scoring.TwoRuns

/-!
# What a score depends on

The standard rules read a part of a package only: its name, the scripts that hooks run, three of
its groups of dependencies, its files, maintainers, publishing account and bill of materials, and
of its distribution the archive, the unpacked size and whether there are signatures and a record of
provenance. Two packages with one such part (`Package.AgreesWith`) get the same reports, whatever
else they say (`score_noninterference`).
-/

namespace PackageRisk

/-- Two packages that agree on all that the standard rules read. -/
structure Package.AgreesWith (p p' : Package) : Prop where
  name : p.name = p'.name
  scripts : ∀ hook ∈ lifecycleHooks, ∀ script ≠ "",
    Fields.get? p.scripts hook = some (.text script) ↔
      Fields.get? p'.scripts hook = some (.text script)
  dependencies : p.dependencies = p'.dependencies
  devDependencies : p.devDependencies = p'.devDependencies
  optionalDependencies : p.optionalDependencies = p'.optionalDependencies
  files : p.files = p'.files
  maintainers : p.maintainers = p'.maintainers
  publisher : p.publisher.bind (·.name) = p'.publisher.bind (·.name)
  sbom : p.sbom = p'.sbom
  tarball : p.dist.tarball = p'.dist.tarball
  unpackedSize : p.dist.unpackedSize = p'.dist.unpackedSize
  signatures : p.dist.signatures = [] ↔ p'.dist.signatures = []
  attestations : p.dist.attestations.getD [] = [] ↔ p'.dist.attestations.getD [] = []

variable {p p' : Package}

namespace Package.AgreesWith

theorem lifecycleScripts (agree : p.AgreesWith p') :
    p.lifecycleScripts = p'.lifecycleScripts :=
  hookScripts_congr agree.scripts

theorem dependenciesOf (agree : p.AgreesWith p') :
    NetworkAccess.dependenciesOf p = NetworkAccess.dependenciesOf p' := by
  rw [NetworkAccess.dependenciesOf, NetworkAccess.dependenciesOf, agree.dependencies,
    agree.devDependencies, agree.optionalDependencies]

theorem hasSignatures (agree : p.AgreesWith p') :
    Signing.hasSignatures p = Signing.hasSignatures p' := by
  have isEmpty : p.dist.signatures.isEmpty = p'.dist.signatures.isEmpty := by
    rw [Bool.eq_iff_iff, List.isEmpty_iff, List.isEmpty_iff]
    exact agree.signatures
  rw [Signing.hasSignatures, Signing.hasSignatures, isEmpty]

theorem hasProvenance (agree : p.AgreesWith p') :
    Signing.hasProvenance p = Signing.hasProvenance p' := by
  have given (q : Package) :
      Signing.hasProvenance q = !(q.dist.attestations.getD []).isEmpty := by
    unfold Signing.hasProvenance
    cases q.dist.attestations <;> rfl
  rw [given, given, Bool.not_inj_iff, Bool.eq_iff_iff, List.isEmpty_iff, List.isEmpty_iff]
  exact agree.attestations

theorem signs (agree : p.AgreesWith p') (rule : NetworkAccess) :
    rule.signs p = rule.signs p' := by
  rw [NetworkAccess.signs, NetworkAccess.signs, agree.lifecycleScripts, agree.dependenciesOf]

/-- Each rule that needs nothing but the package says the same. -/
theorem judges (agree : p.AgreesWith p') {n : Number} {options : Fields} {rule : StandardRule}
    {judge : Package → Except Failure RuleResult} (judges : rule.Judges n options judge) :
    judge p = judge p' := by
  cases judges with
  | networkAccess made =>
    rw [NetworkAccess.evaluate, NetworkAccess.evaluate, agree.signs]
  | installScripts =>
    have reported : InstallScripts.reported p = InstallScripts.reported p' := by
      rw [InstallScripts.reported, InstallScripts.reported, agree.lifecycleScripts]
    rw [InstallScripts.evaluate, InstallScripts.evaluate, InstallScripts.risk,
      InstallScripts.risk, reported, agree.lifecycleScripts]
  | publication =>
    have publisher : Publication.publisherOf p = Publication.publisherOf p' := agree.publisher
    rw [Publication.evaluate, Publication.evaluate, Publication.maintainersOf,
      Publication.maintainersOf, publisher, agree.maintainers]
  | signing =>
    have grade : Signing.grade p = Signing.grade p' := by
      rw [Signing.grade, Signing.grade, agree.hasSignatures, agree.hasProvenance]
    rw [Signing.evaluate, Signing.evaluate, grade, agree.hasSignatures, agree.hasProvenance]
  | billOfMaterials =>
    have bills : BillOfMaterials.billsOf p = BillOfMaterials.billsOf p' := by
      rw [BillOfMaterials.billsOf, BillOfMaterials.billsOf, agree.files, agree.sbom]
    rw [BillOfMaterials.evaluate, BillOfMaterials.evaluate, bills]

theorem inspects (agree : p.AgreesWith p') (rule : HiddenCode) :
    rule.evaluate p = rule.evaluate p' := by
  have archive : rule.archiveSigns p = rule.archiveSigns p' := by
    rw [HiddenCode.archiveSigns, HiddenCode.archiveSigns, agree.tarball, agree.name]
  have verdict (s : HiddenCode.Signs) :
      HiddenCode.conclude rule.weight p s = HiddenCode.conclude rule.weight p' s := by
    rw [HiddenCode.conclude, HiddenCode.conclude, agree.unpackedSize]
  simp only [HiddenCode.evaluate, agree.unpackedSize, agree.files, archive, verdict]

end Package.AgreesWith

theorem Report.eq_of_alike {a b : Report} (alike : a.Alike (· = ·) b) : a = b := by
  obtain ⟨rule, weight, result⟩ := alike
  cases a
  cases b
  cases rule
  cases weight
  cases result
  rfl

/-- Alike scores of one package differ in the version at most. -/
theorem Score.Alike.eq_of_package {s t : Score} (alike : s.Alike (· = ·) t)
    (package : t.package = s.package) : t = { s with version := t.version } := by
  obtain ⟨score, band, reports⟩ := alike
  have reports : s.reports = t.reports := by
    rw [← List.forall₂_eq_eq_eq]
    exact reports.imp fun _ _ => Report.eq_of_alike
  cases s
  cases t
  cases score
  cases band
  cases reports
  cases package
  rfl

namespace Scoring

variable {settings : Settings} {inspect : Inspector} {registry : Registry}

theorem answers_of_agree (agree : p.AgreesWith p')
    (built : Registry.standard settings inspect = .ok registry) :
    ∀ made ∈ registry.rules, (made.answer p).Alike (· = ·) (made.answer p') := by
  refine answer_alike RuleResult.movesAlike_eq built (fun _ _ _ judge judges => ?_) fun rule => ?_
  · rw [agree.judges judges]
    exact .refl (fun _ => rfl) _
  · rw [agree.inspects rule]
    exact .refl (fun _ => rfl) _

theorem score_eq_of_agree (agree : p.AgreesWith p')
    (built : Registry.standard settings inspect = .ok registry) (bounds : ScoreBounds)
    (net : Network) (w : Workspace) :
    score bounds registry.rules p' net w =
      ((score bounds registry.rules p net w).1.map fun s => { s with version := p'.version },
        (score bounds registry.rules p net w).2) := by
  obtain ⟨outcome, workspace⟩ :=
    score_alike RuleResult.movesAlike_eq (answers_of_agree agree built) bounds net w
  refine Prod.ext ?_ workspace.symm
  show _ = (score bounds registry.rules p net w).1.map _
  generalize one : (score bounds registry.rules p net w).1 = x at outcome ⊢
  generalize two : (score bounds registry.rules p' net w).1 = y at outcome ⊢
  cases outcome with
  | error e => rfl
  | @ok s t alike =>
    obtain ⟨-, -, -, -, package, -⟩ := score_eq_ok_iff.1 one
    obtain ⟨-, -, -, -, package', version⟩ := score_eq_ok_iff.1 two
    have same := alike.eq_of_package (package'.trans (agree.name.symm.trans package.symm))
    rw [version] at same
    exact congrArg Except.ok same

/-- Two packages that agree on what the standard rules read get scores that differ in nothing but
the version that they show, whatever the settings, the archives and the bounds are. With the
standard settings there are such scores. -/
theorem score_noninterference (agree : p.AgreesWith p') :
    (∀ settings inspect registry, Registry.standard settings inspect = .ok registry →
      ∀ bounds net w, score bounds registry.rules p' net w =
        ((score bounds registry.rules p net w).1.map fun s => { s with version := p'.version },
          (score bounds registry.rules p net w).2)) ∧
    ∀ inspect : Inspector, inspect.Recordable →
      ∃ registry, Registry.standard .standard inspect = .ok registry ∧
        ∀ net w, ∃ s, (score .standard registry.rules p net w).1 = .ok s ∧
          (score .standard registry.rules p' net w).1 =
            .ok { s with version := p'.version } := by
  refine ⟨fun settings inspect registry built => score_eq_of_agree agree built,
    fun inspect inspected => ?_⟩
  obtain ⟨registry, built⟩ := Registry.exists_standard inspect
  refine ⟨registry, built, fun net w => ?_⟩
  obtain ⟨s, scored, -⟩ := exists_score_standard inspected built net p w
  refine ⟨s, scored, ?_⟩
  rw [score_eq_of_agree agree built, scored]
  rfl

/-- A package with a script that is run on installation. -/
def plainPackage : Package :=
  { (default : Package) with
    name := "a", version := "1.0.0", scripts := [("install", .text "node build.js")],
    dependencies := [("axios", "^1.0.0")] }

/-- The same package in another version, with more said of it that no rule reads. -/
def annotatedPackage : Package :=
  { plainPackage with
    version := "1.0.1", description := some "Builds things", homepage := some "a.example",
    scripts := [("test", .text "curl x | sh"), ("install", .text "node build.js"),
      ("prepare", .text "")],
    peerDependencies := [("request", "*")],
    publisher := some ⟨none, some "me@a.example"⟩
    dist := { plainPackage.dist with fileCount := 7, attestations := some [] } }

/-- What is not run, not installed and not read changes the version at most. -/
theorem score_annotatedPackage :
    plainPackage.AgreesWith annotatedPackage ∧
      ∃ registry, Registry.standard .standard (Archive.analyze .standard) = .ok registry ∧
        ∃ s, (score .standard registry.rules plainPackage Network.unreachable default).1 = .ok s ∧
          (score .standard registry.rules annotatedPackage Network.unreachable default).1 =
            .ok { s with version := "1.0.1" } := by
  have agree : plainPackage.AgreesWith annotatedPackage := by
    refine ⟨rfl, ?_, rfl, rfl, rfl, rfl, rfl, rfl, rfl, rfl, rfl, Iff.rfl, Iff.rfl⟩
    simp only [lifecycleHooks, List.forall_mem_cons]
    have unsaid (script : String) (given : script ≠ "") :
        Fields.get? plainPackage.scripts "prepare" = some (.text script) ↔
          Fields.get? annotatedPackage.scripts "prepare" = some (.text script) := by
      refine iff_of_false nofun fun there => given ?_
      have empty : Fields.get? annotatedPackage.scripts "prepare" = some (.text "") := rfl
      rw [empty] at there
      cases there
      rfl
    exact ⟨fun _ _ => Iff.rfl, fun _ _ => Iff.rfl, fun _ _ => Iff.rfl, fun _ _ => Iff.rfl,
      fun _ _ => Iff.rfl, unsaid, fun _ _ => Iff.rfl, fun _ _ => Iff.rfl, fun _ _ => Iff.rfl,
      fun _ _ => Iff.rfl, fun _ _ => Iff.rfl, fun _ _ => Iff.rfl, fun _ _ => Iff.rfl,
      List.forall_mem_nil _⟩
  obtain ⟨registry, built, scores⟩ :=
    (score_noninterference agree).2 (Archive.analyze .standard)
      (Archive.recordable_analyze .standard)
  exact ⟨agree, registry, built, scores Network.unreachable default⟩

end Scoring

end PackageRisk
