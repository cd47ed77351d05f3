import PackageRisk.Proofs.Alike
import PackageRisk.Proofs.Rules.HiddenCode
import PackageRisk.Proofs.Rules.Weights

/-!
# What an archive that is not available counts

Whatever the weight and the limits of the rule about code that resists review are, a failure that
is about the archive of a package is told and nothing else: the result is that for the package
without its archive, with one finding more between the one about the declared size and the one
about the declared files (`evaluate_unavailable`). The two evaluations run through different
branches, and meet in `conclude`, where only the findings differ.
-/

namespace PackageRisk

/-! ## One finding more -/

/-- Two results that agree in all but the findings, of which the second one has one more at a
known place. -/
structure RuleResult.Inserts (first : List Finding) (f : Finding) (last : List Finding)
    (before after : RuleResult) : Prop where
  deduction : after.deduction = before.deduction
  bonus : after.bonus = before.bonus
  level : after.level = before.level
  details : ∃ others : Fields,
    others.map Prod.fst = ["total_risk", "has_obfuscation", "package_size"] ∧
    before.details = ("findings", .ofFindings (first ++ last)) :: others ∧
    after.details = ("findings", .ofFindings (first ++ f :: last)) :: others

namespace HiddenCode

variable {rule : HiddenCode} {p : Package} {net : Network} {w : Workspace} {e : Failure}
  {url : String} {size : List Finding}

/-- The rule looks at the declared size, then at the archive, and concludes from both. -/
theorem outcome_evaluate (rule : HiddenCode) (p : Package) (net : Network) (w : Workspace) :
    (rule.evaluate p net w).1 =
      (rule.limits.sizeFindings p.dist.unpackedSize).mapError .fault >>= fun size =>
        (rule.archiveSigns p net w).1 >>= fun archive =>
          conclude rule.weight p (signs p size archive) := by
  rw [evaluate, Session.outcome_bind, Session.run_liftFault]
  refine bind_congr fun size => ?_
  rw [Session.outcome_bind]
  refine bind_congr fun archive => ?_
  rw [Session.run_lift]
  rfl

theorem findings_noArchive (p : Package) (size : List Finding) :
    (signs p size .noArchive).findings =
      size ++ nameFindings (p.files.filter FileName.isSuspicious) := by
  simp [signs, Signs.findings, ArchiveSigns.findings]

theorem findings_unavailable (p : Package) (size : List Finding) (reason : String) :
    (signs p size (.unavailable reason)).findings =
      size ++ unavailable reason :: nameFindings (p.files.filter FileName.isSuspicious) := by
  simp [signs, Signs.findings, ArchiveSigns.findings, unavailable, unavailableType]

/-- From the same declared size the conclusions with and without an archive are alike, since an
archive that is not available has no risk. -/
theorem conclude_unavailable (weight : Value) (p : Package) (size : List Finding)
    (reason : String) :
    Alike
      (RuleResult.Inserts size (unavailable reason)
        (nameFindings (p.files.filter FileName.isSuspicious)))
      (conclude weight (withoutArchive p) (signs (withoutArchive p) size .noArchive))
      (conclude weight p (signs p size (.unavailable reason))) := by
  have told := otherDetails_unavailable p size (p.files.filter FileName.isSuspicious) reason
  refine (RuleResult.deducting_details weight (signs p size .noArchive).risk
    (("findings", .ofFindings (signs p size .noArchive).findings) ::
      otherDetails p (signs p size .noArchive))
    (("findings", .ofFindings (signs p size (.unavailable reason)).findings) ::
      otherDetails p (signs p size (.unavailable reason)))).mono ?_
  rintro before _ ⟨details, rfl⟩
  refine ⟨rfl, rfl, rfl, otherDetails p (signs p size .noArchive), rfl, ?_, ?_⟩
  · rw [details, findings_noArchive]
  · rw [findings_unavailable]
    exact congrArg _ told

/-- An archive that is not available changes nothing but the findings: whatever is wrong with it,
the evaluation ends as that of the package without its archive does, with one finding of low
severity more between that about the declared size and that about the declared files. Under a limit
that is a number, for a size that has a binary64 form and for a weight from zero on, there is a
result unless a part has to be taken of a weight that has no binary64 form. -/
theorem evaluate_unavailable {n m : Number} {q : ℚ} (weight : rule.weight = .number n)
    (value : n.Is q) (nonneg : 0 ≤ q) (limit : rule.limits.size.number? = some m)
    (inRange : p.dist.unpackedSize < Binary64.limit) (tarball : p.dist.tarball = some url)
    (failed : (rule.inspect url p.name rule.limits.measuresEntropy net w).1 = .error e)
    (about : e.aboutTarball = true) :
    ∃ size, rule.limits.sizeFindings p.dist.unpackedSize = .ok size ∧
      Alike
        (RuleResult.Inserts size (unavailable e.message)
          (nameFindings (p.files.filter FileName.isSuspicious)))
        (rule.evaluate (withoutArchive p) net w).1 (rule.evaluate p net w).1 ∧
      ((∃ r, (rule.evaluate p net w).1 = .ok r) ↔
        n.InRange ∨ Tier.ofRisk (signs p size .noArchive).risk ∈ [.nothing, .whole]) := by
  obtain ⟨size, isSize⟩ := CodeLimits.exists_sizeFindings limit inRange
  have without : (rule.evaluate (withoutArchive p) net w).1 =
      conclude rule.weight (withoutArchive p) (signs (withoutArchive p) size .noArchive) := by
    rw [outcome_evaluate, archiveSigns_of_none rule rfl]
    change (rule.limits.sizeFindings p.dist.unpackedSize).mapError _ >>= _ = _
    rw [isSize]
    rfl
  have unavailable : (rule.evaluate p net w).1 =
      conclude rule.weight p (signs p size (.unavailable e.message)) := by
    rw [outcome_evaluate, isSize, archiveSigns_of_error rule tarball failed, if_pos about]
    rfl
  refine ⟨size, isSize, ?_, ?_⟩
  · rw [without, unavailable]
    exact conclude_unavailable rule.weight p size e.message
  · rw [unavailable, weight]
    exact RuleResult.exists_deducting_iff value nonneg

/-- The rule with its standard weight and limits and with an archive that holds a member whose name
leads outside. -/
def withEscape : HiddenCode :=
  ⟨.number standardWeight, .standard, fun _ _ _ => Session.fail (.invalidPath "../../escape.js")⟩

/-- A package that is large, is archived and names a minified file. -/
def largePackage : Package :=
  let p := archivedAt "https://h/a.tgz"
  { p with files := ["index.js", "lib/a.min.js"], dist := { p.dist with unpackedSize := 6000000 } }

/-- A large package with a minified file and an archive that is not safe to unpack. -/
theorem evaluate_largePackage :
    standardWeight.Is 10 ∧ CodeLimits.standard.size.number? = some (.int 5242880) ∧
      largePackage.dist.unpackedSize < Binary64.limit ∧
      largePackage.dist.tarball = some "https://h/a.tgz" ∧
      (withEscape.inspect "https://h/a.tgz" "p" true .unreachable bareWorkspace).1 =
        .error (.invalidPath "../../escape.js") ∧
      ∃ size before after,
        (withEscape.evaluate (withoutArchive largePackage) .unreachable bareWorkspace).1 =
          .ok before ∧
        (withEscape.evaluate largePackage .unreachable bareWorkspace).1 = .ok after ∧
        RuleResult.Inserts size (unavailable "Invalid file path: ../../escape.js")
          (nameFindings ["lib/a.min.js"]) before after := by
  have value : standardWeight.Is 10 := rfl
  have inRange : largePackage.dist.unpackedSize < Binary64.limit := by decide +kernel
  have known : standardWeight.InRange := by
    rintro _ ⟨⟩
    decide +kernel
  have weight : withEscape.weight = .number standardWeight := rfl
  obtain ⟨size, -, alike, ends⟩ :=
    evaluate_unavailable weight value (by norm_num) rfl inRange rfl rfl rfl
  obtain ⟨after, result⟩ := ends.2 (.inl known)
  rw [result] at alike
  obtain ⟨before, without, inserts⟩ := alike.exists_left
  exact ⟨value, rfl, inRange, rfl, rfl, size, before, after, without, result, inserts⟩

end HiddenCode

end PackageRisk
