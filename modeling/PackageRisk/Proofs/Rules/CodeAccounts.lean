import PackageRisk.Proofs.Rules.Amounts
import PackageRisk.Proofs.Rules.UnavailableArchive

/-!
# The accounts of the rule about code that resists review

Where the limits are numbers and the archive of a package, if it has one, was analyzed, the risk is
one unit for a declared size above its limit, one for each sign that occurs in the archive and half
a unit for each declared file with a suspicious name (`amount_risk`). Each sign counts once, for it
is one of the candidates (`length_shownSigns`). The tier of that amount decides what the result
deducts and its level (`evaluate_weighs`).
-/

namespace PackageRisk.HiddenCode

variable {rule : HiddenCode} {p : Package} {net : Network} {w : Workspace} {b : CodeBounds}
  {s : ArchiveSummary} {s? : Option ArchiveSummary} {size tarball : List Finding}

/-- The archive of a package was analyzed, if the package says where it is. -/
inductive Analyzed (rule : HiddenCode) (p : Package) (net : Network) (w : Workspace) :
    Option ArchiveSummary → Prop
  | noArchive (absent : p.dist.tarball = none) : Analyzed rule p net w none
  | summary {url : String} {s : ArchiveSummary} (given : p.dist.tarball = some url)
      (inspected : (rule.inspect url p.name rule.limits.measuresEntropy net w).1 = .ok s) :
      Analyzed rule p net w (some s)

/-! ## Units of risk -/

/-- A unit if something holds. -/
def unitIf (holds : Bool) : ℚ := if holds then 1 else 0

/-- The units of risk in a file. -/
def fileUnits (b : CodeBounds) (file : ArchiveFile) : ℚ :=
  unitIf (b.size.lt (.int file.size)) + unitIf (FileName.isMinified file.path) +
    unitIf (file.entropy.any fun e => b.entropy.lt (.float e))

/-- The units of risk in an archive. -/
def archiveUnits (b : CodeBounds) (s : ArchiveSummary) : ℚ :=
  unitIf (!s.hasManifest) + (s.largestFiles.map (fileUnits b)).sum +
    unitIf (b.fileCount.lt (.int s.totalFiles))

/-- The units of risk in a package and its archive, if it has one. -/
def units (b : CodeBounds) (p : Package) (s? : Option ArchiveSummary) : ℚ :=
  unitIf (b.size.lt (.int p.dist.unpackedSize)) + (s?.map (archiveUnits b)).getD 0 +
    p.files.countP FileName.isSuspicious / 2

/-- The signs that occur in an archive, if there is one. -/
def shownSigns (b : CodeBounds) : Option ArchiveSummary → List ArchiveSign
  | none => []
  | some s => (ArchiveSign.candidates s).filter (·.occursIn b s)

theorem cast_unit (holds : Bool) : ((if holds then 1 else 0 : Nat) : ℚ) = unitIf holds := by
  cases holds <;> simp [unitIf]

theorem countP_singleton (sign : ArchiveSign) :
    (([sign].countP (·.occursIn b s) : Nat) : ℚ) = unitIf (sign.occursIn b s) := by
  rw [List.countP_singleton, cast_unit]

theorem countP_ofFile (file : ArchiveFile) :
    (((ArchiveSign.ofFile file).countP (·.occursIn b s) : Nat) : ℚ) = fileUnits b file := by
  rw [ArchiveSign.ofFile, List.countP_cons, List.countP_cons, Nat.cast_add, Nat.cast_add,
    countP_singleton, cast_unit, cast_unit, fileUnits]
  simp only [ArchiveSign.occursIn]
  ring

/-- Each sign of an archive is one unit. -/
theorem length_shownSigns : ((shownSigns b s?).length : ℚ) = (s?.map (archiveUnits b)).getD 0 := by
  cases s? with
  | none => exact Nat.cast_zero
  | some s =>
    rw [shownSigns, ← List.countP_eq_length_filter, ArchiveSign.candidates, List.countP_append,
      List.countP_append, Nat.cast_add, Nat.cast_add, countP_singleton, countP_singleton,
      List.countP_flatMap, Nat.cast_list_sum, List.map_map]
    simp only [Function.comp_def, countP_ofFile]
    rfl

/-- Where all sizes can be shown, the findings about the archive report its signs. -/
theorem exists_archiveSigns (bounds : rule.limits.AreBounds b) (analyzed : Analyzed rule p net w s?)
    (fit : ∀ s ∈ s?, ∀ f ∈ s.largestFiles, f.size < Binary64.limit) :
    ∃ archive : ArchiveSigns, (rule.archiveSigns p net w).1 = .ok archive ∧
      List.Forall₂ ArchiveSign.Tells (shownSigns b s?) archive.findings ∧
      archive.risk.amount = archive.findings.length := by
  cases analyzed with
  | noArchive absent =>
    exact ⟨.noArchive, archiveSigns_of_none rule absent, .nil, Risk.amount_one_times 0⟩
  | @summary url s given inspected =>
    obtain ⟨fs, findings, reports⟩ :=
      CodeLimits.exists_archiveFindings bounds (fit s rfl)
    exact ⟨.inspected fs, archiveSigns_of_ok rule given inspected findings, reports,
      Risk.amount_one_times fs.length⟩

theorem amount_signs (p : Package) (size : List Finding) (archive : ArchiveSigns) :
    (signs p size archive).risk.amount =
      size.length + archive.risk.amount + (p.files.filter FileName.isSuspicious).length / 2 := by
  rw [Signs.risk, Risk.amount_add, Risk.amount_add, Risk.amount_one_times, Risk.amount_half_times]
  rfl

theorem amount_risk {archive : ArchiveSigns} (bounds : rule.limits.AreBounds b)
    (known : rule.limits.sizeFindings p.dist.unpackedSize = .ok size)
    (tells : List.Forall₂ ArchiveSign.Tells (shownSigns b s?) archive.findings)
    (counts : archive.risk.amount = archive.findings.length) :
    (signs p size archive).risk.amount = units b p s? := by
  rw [amount_signs, counts, ← tells.length_eq, length_shownSigns,
    CodeLimits.length_sizeFindings bounds.size known, cast_unit, units,
    List.countP_eq_length_filter]

theorem length_nameFindings (files : List String) :
    (nameFindings files).length = if files.length = 0 then 0 else 1 := by
  cases files <;> rfl

/-- There are signs just where there is a risk. -/
theorem any_findings {archive : ArchiveSigns}
    (known : rule.limits.sizeFindings p.dist.unpackedSize = .ok size)
    (tells : List.Forall₂ ArchiveSign.Tells (shownSigns b s?) archive.findings)
    (counts : archive.risk.amount = archive.findings.length) :
    ((signs p size archive).findings.any fun f => f.type != unavailableType) =
      decide (0 < (signs p size archive).risk.amount) := by
  have areSigns : CodeLimits.AreSigns (signs p size archive).findings :=
    ((CodeLimits.areSigns_sizeFindings known).append (CodeLimits.areSigns_of_tells tells)).append
      (CodeLimits.areSigns_nameFindings _)
  have length : (signs p size archive).findings.length = size.length + archive.findings.length +
      if (p.files.filter FileName.isSuspicious).length = 0 then 0 else 1 := by
    rw [Signs.findings, List.length_append, List.length_append, length_nameFindings]
    rfl
  have amount : (signs p size archive).risk.amount = ((2 * size.length +
      2 * archive.findings.length + (p.files.filter FileName.isSuspicious).length : Nat) : ℚ) /
        2 := by
    rw [amount_signs, counts]
    push_cast
    ring
  rw [areSigns.any_eq, amount, decide_eq_decide, div_pos_iff_of_pos_right two_pos, Nat.cast_pos,
    length]
  split_ifs with none <;> omega

/-! ## Results -/

/-- The accounts of the rule, for limits that are numbers, an archive that was analyzed if there is
one, and sizes that have a binary64 form. The risk of a package is a unit for its declared size if
that is above the limit, a unit for each sign in its archive and half a unit for each declared file
with a suspicious name. The findings about the archive report its signs one by one, between the one
about the size and the one about the names. There is a result just when the tier of the risk deducts
a number from zero on, and it deducts that number and has the level of the tier. -/
theorem evaluate_weighs (bounds : rule.limits.AreBounds b) (analyzed : Analyzed rule p net w s?)
    (declared : p.dist.unpackedSize < Binary64.limit)
    (fit : ∀ s ∈ s?, ∀ f ∈ s.largestFiles, f.size < Binary64.limit) :
    let risk := units b p s?
    ∃ (size tarball : List Finding) (total : Risk),
      (size.length = if b.size.lt (.int p.dist.unpackedSize) then 1 else 0) ∧
      (∀ f ∈ size, f.type = "large-package-size") ∧
      List.Forall₂ ArchiveSign.Tells (shownSigns b s?) tarball ∧
      total.amount = risk ∧
      ∀ r, (rule.toRule.evaluate p net w).1 = .ok (.result r) ↔
        ∃ d n, (Tier.ofAmount risk).deduction rule.weight = .ok d ∧ Check.penalty d = .valid n ∧
          r = ⟨n, 0, [("findings", .ofFindings (size ++ tarball ++
              nameFindings (p.files.filter FileName.isSuspicious))), ("total_risk", total.shown),
            ("has_obfuscation", .bool (decide (0 < risk))),
            ("package_size", .nat p.dist.unpackedSize)], (Tier.ofAmount risk).level⟩ := by
  intro risk
  obtain ⟨size, known⟩ := CodeLimits.exists_sizeFindings bounds.size declared
  obtain ⟨archive, isArchive, tells, counts⟩ := exists_archiveSigns bounds analyzed fit
  have amount : (signs p size archive).risk.amount = risk := amount_risk bounds known tells counts
  have hidden := any_findings known tells counts
  refine ⟨size, archive.findings, (signs p size archive).risk,
    CodeLimits.length_sizeFindings bounds.size known, CodeLimits.type_of_mem_sizeFindings known,
    tells, amount, fun r => ?_⟩
  have evaluated : (rule.evaluate p net w).1 = conclude rule.weight p (signs p size archive) := by
    rw [outcome_evaluate, known, isArchive]
    rfl
  rw [toRule, Rule.evaluate_whileEnabled_eq_ok_iff rfl rfl, evaluated, conclude, hidden, amount,
    ← amount, ← Tier.ofRisk_eq]
  exact RuleResult.deducting_eq_ok_iff

/-- A package whose archive has no manifest and a large file with the name of a minified one counts
three units, for which all of the weight is deducted. -/
theorem evaluate_largeMinified :
    let file : ArchiveFile := ⟨"dist/app.min.js", 6000000, none⟩
    let s : ArchiveSummary := ⟨false, [file], 1, 700⟩
    let rule : HiddenCode := ⟨.int 10, CodeLimits.standard, fun _ _ _ => pure s⟩
    let p := archivedAt "https://h/a.tgz"
    rule.limits.AreBounds CodeLimits.standardBounds ∧
      Analyzed rule p .unreachable bareWorkspace (some s) ∧
      p.dist.unpackedSize < Binary64.limit ∧
      (∀ s' ∈ some s, ∀ f ∈ s'.largestFiles, f.size < Binary64.limit) ∧
      units CodeLimits.standardBounds p (some s) = 3 ∧
      ∃ r, (rule.toRule.evaluate p .unreachable bareWorkspace).1 = .ok (.result r) ∧
        r.deduction = .int 10 := by
  intro file s rule p
  have bounds : rule.limits.AreBounds CodeLimits.standardBounds := CodeLimits.areBounds_standard
  have analyzed : Analyzed rule p .unreachable bareWorkspace (some s) := .summary rfl rfl
  have declared : p.dist.unpackedSize < Binary64.limit := by decide +kernel
  have fit : ∀ s' ∈ some s, ∀ f ∈ s'.largestFiles, f.size < Binary64.limit := by
    rintro _ ⟨⟩
    exact List.forall_mem_singleton.2 (by decide +kernel)
  have three : units CodeLimits.standardBounds p (some s) = 3 := by
    have unlimited : CodeLimits.standardBounds.size.lt (.int p.dist.unpackedSize) = false := by
      decide +kernel
    have large : CodeLimits.standardBounds.size.lt (.int file.size) = true := by decide +kernel
    have minified : FileName.isMinified file.path = true := by decide +kernel
    have few : CodeLimits.standardBounds.fileCount.lt (.int s.totalFiles) = false := by
      decide +kernel
    have measured : file.entropy = none := rfl
    have listed : s.largestFiles = [file] := rfl
    have manifest : s.hasManifest = false := rfl
    have named : p.files = [] := rfl
    simp only [units, archiveUnits, fileUnits, Option.map_some, Option.getD_some, unlimited, large,
      minified, few, measured, listed, manifest, named, unitIf, List.map_cons, List.map_nil,
      List.sum_cons, List.sum_nil, List.countP_nil, Option.any_none]
    norm_num
  have whole : Tier.ofAmount 3 = .whole := by
    norm_num [Tier.ofAmount]
  obtain ⟨size, tarball, total, -, -, -, -, result⟩ :=
    evaluate_weighs bounds analyzed declared fit
  rw [three, whole] at result
  exact ⟨bounds, analyzed, declared, fit, three, _,
    (result _).2 ⟨.int 10, .int 10, rfl, rfl, rfl⟩, rfl⟩

/-- A package that declares a size above the limit, which is one unit of risk, and the rule with a
weight below zero: the half of that weight is no deduction, and there is no result. -/
theorem negativeWeight_ends_review :
    let bare : Package := default
    let p : Package := { bare with dist := { bare.dist with unpackedSize := 6000000 } }
    let rule : HiddenCode := { standard with weight := .int (-4) }
    Analyzed rule p .unreachable bareWorkspace none ∧
      units CodeLimits.standardBounds p none = 1 ∧
      (Tier.ofAmount 1).deduction (.int (-4)) = .ok (.int (-2)) ∧
      ¬∃ r, (rule.evaluate p .unreachable bareWorkspace).1 = .ok r := by
  intro bare p rule
  refine ⟨.noArchive rfl, ?_, Tier.deduction_ofAmount_one, ?_⟩
  · have large : CodeLimits.standardBounds.size.lt (.int p.dist.unpackedSize) = true := by
      decide +kernel
    have named : p.files = [] := rfl
    simp only [units, large, named, unitIf, Option.map_none, Option.getD_none, List.countP_nil]
    norm_num
  · have failed : (rule.evaluate p .unreachable bareWorkspace).1.toOption.isNone = true := by
      decide +kernel
    rintro ⟨r, result⟩
    rw [result] at failed
    cases failed

end PackageRisk.HiddenCode
