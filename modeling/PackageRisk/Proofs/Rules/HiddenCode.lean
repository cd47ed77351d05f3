import PackageRisk.Proofs.Archive.Retrieval
import PackageRisk.Proofs.Rules.CodeSigns

/-!
# Packages whose archive is not available

The rule about code that resists review is to give a result whatever becomes of the archive of a
package. Without options it does so just where the declared size can be shown and no input
escapes; then a failure of the retrieval is one finding of low severity and has no other effect
(`evaluate_degrades`). A stray bracket in the host of a URL is an input that escapes.
-/

namespace PackageRisk

/-! ## Findings without options -/

namespace CodeLimits

/-- The limits without options. -/
def standard : CodeLimits := .ofOptions []

/-- The numbers that are the limits without options. -/
def standardBounds : CodeBounds := ⟨.int 5242880, .float (.ofQuotient false 15 2), .int 10000⟩

theorem areBounds_standard : standard.AreBounds standardBounds := ⟨rfl, rfl, rfl⟩

theorem exists_sizeFindings_iff {size : Nat} :
    (∃ fs, standard.sizeFindings size = .ok fs) ↔ size < Binary64.limit := by
  constructor
  · rintro ⟨fs, known⟩
    obtain ⟨above, exceeds, known⟩ := bind_eq_ok.1 known
    have limit : (Number.int 5242880).lt (.int size) = above := Except.ok.inj exceeds
    cases above with
    | true =>
      obtain ⟨shown, text, -⟩ := bind_eq_ok.1 known
      have := ByteCount.exists_text_int_iff.1 ⟨shown, text⟩
      omega
    | false =>
      have small : (5242880 : Int) < Binary64.limit := by decide +kernel
      have := mt Number.lt_int.2 (Bool.not_eq_true _ ▸ limit)
      omega
  · exact exists_sizeFindings areBounds_standard.size

/-- With the standard limits the findings about an archive can always be given. -/
theorem exists_standardFindings {s : ArchiveSummary}
    (sizes : ∀ f ∈ s.largestFiles, f.size < Binary64.limit) :
    ∃ fs, standard.archiveFindings s = .ok fs ∧ AreSigns fs := by
  obtain ⟨fs, known, reports⟩ := exists_archiveFindings areBounds_standard sizes
  exact ⟨fs, known, areSigns_of_tells reports⟩

end CodeLimits

/-! ## Results -/

/-- What a weight of ten deducts at a tier. -/
def Tier.outOfTen : Tier → Int
  | .nothing => 0
  | .half => 5
  | .threeQuarters => 7
  | .whole => 10

theorem Tier.deduction_standardWeight (t : Tier) :
    t.deduction (.number HiddenCode.standardWeight) = .ok (.int t.outOfTen) := by
  have half : Share.half.floorOf HiddenCode.standardWeight = .ok 5 :=
    toOption_eq_some_iff.1 (by decide +kernel)
  have threeQuarters : Share.threeQuarters.floorOf HiddenCode.standardWeight = .ok 7 :=
    toOption_eq_some_iff.1 (by decide +kernel)
  have of_number (share : Share) (n : Number) :
      share.floorOfValue (.number n) = share.floorOf n := rfl
  cases t with
  | nothing => rfl
  | half =>
    rw [deduction, of_number, half]
    rfl
  | threeQuarters =>
    rw [deduction, of_number, threeQuarters]
    rfl
  | whole => rfl

/-- With the standard weight a risk can always be deducted. -/
theorem RuleResult.deducting_standardWeight (risk : Risk) (details : Fields) :
    RuleResult.deducting (.number HiddenCode.standardWeight) risk details =
      .ok ⟨.int (Tier.ofRisk risk).outOfTen, 0, details, (Tier.ofRisk risk).level⟩ := by
  unfold deducting
  dsimp only
  rw [Tier.deduction_standardWeight]
  cases Tier.ofRisk risk <;> rfl

/-- A result with one finding more than another and no other difference. -/
def RuleResult.Adds (f : Finding) (before after : RuleResult) : Prop :=
  ∃ first last rest, before.details = ("findings", .ofFindings (first ++ last)) :: rest ∧
    after = { before with details := ("findings", .ofFindings (first ++ [f] ++ last)) :: rest }

namespace HiddenCode

variable {p : Package} {net : Network} {w : Workspace} {r : RuleResult}

/-- The rule with its standard weight and no options. -/
def standard : HiddenCode :=
  ⟨.number standardWeight, CodeLimits.standard, Archive.analyze .standard⟩

/-- The one finding about an archive that is not available. -/
def unavailable (reason : String) : Finding :=
  { type := "tarball-analysis-error", description := "Could not analyze tarball: " ++ reason,
    severity := .low, extras := [("error", .text reason)] }

/-- A package that does not say where its archive is. -/
def withoutArchive (p : Package) : Package := { p with dist := { p.dist with tarball := none } }

/-- The archive of a package, if it says where that is, can be retrieved or cannot for a reason
that is about the archive. -/
def IsAnswered (net : Network) (p : Package) : Prop :=
  ∀ url, p.dist.tarball = some url → url ≠ "" → ¬Archive.Escapes net url p.name

theorem archiveSigns_of_none (rule : HiddenCode) (absent : p.dist.tarball = none) :
    (rule.archiveSigns p net w).1 = .ok .noArchive := by
  unfold archiveSigns
  rw [absent]
  rfl

theorem inspectArchive_of_ok (rule : HiddenCode) {url package : String} {s : ArchiveSummary}
    {fs : List Finding}
    (summary : (rule.inspect url package rule.limits.measuresEntropy net w).1 = .ok s)
    (findings : rule.limits.archiveFindings s = .ok fs) :
    (rule.inspectArchive url package net w).1 = .ok fs := by
  rw [inspectArchive, Session.outcome_bind, summary]
  show (Session.liftFault (rule.limits.archiveFindings s) net _).1 = _
  rw [findings]
  rfl

theorem archiveSigns_of_ok (rule : HiddenCode) {url : String} {s : ArchiveSummary}
    {fs : List Finding} (tarball : p.dist.tarball = some url)
    (summary : (rule.inspect url p.name rule.limits.measuresEntropy net w).1 = .ok s)
    (findings : rule.limits.archiveFindings s = .ok fs) :
    (rule.archiveSigns p net w).1 = .ok (.inspected fs) := by
  unfold archiveSigns
  rw [tarball]
  dsimp only
  rw [Session.bind_of_ok (Session.run_attempt _), rule.inspectArchive_of_ok summary findings]
  rfl

theorem archiveSigns_of_error (rule : HiddenCode) {url : String} {e : Failure}
    (tarball : p.dist.tarball = some url)
    (failed : (rule.inspect url p.name rule.limits.measuresEntropy net w).1 = .error e) :
    (rule.archiveSigns p net w).1 =
      if e.aboutTarball then .ok (.unavailable e.message) else .error e := by
  have inspected : (rule.inspectArchive url p.name net w).1 = .error e := by
    rw [inspectArchive, Session.outcome_bind, failed]
    rfl
  unfold archiveSigns
  rw [tarball]
  dsimp only
  rw [Session.bind_of_ok (Session.run_attempt _), inspected]
  dsimp only
  split_ifs <;> rfl

theorem run_inspect_standard (url : String) :
    standard.inspect url p.name standard.limits.measuresEntropy net w =
      Archive.analyze .standard url p.name true net w := by
  have measures : standard.limits.measuresEntropy = true := rfl
  rw [measures]
  rfl

/-- The size of whatever an archive holds can be shown. -/
theorem memberLimit_lt_limit : (Archive.memberLimit 50000000 : Int) < Binary64.limit := by
  decide +kernel

/-- A retrieval with a URL ends with a summary of sizes that can be shown, or with a failure that
is about the archive unless an input escapes. -/
theorem analyze_answers {url : String} (net : Network)
    (workable : Archive.IsWorkable w.disk p.name) (tarball : p.dist.tarball = some url) :
    (∃ s, (Archive.analyze .standard url p.name true net w).1 = .ok s ∧ IsAnswered net p ∧
      ∀ f ∈ s.largestFiles, f.size < Binary64.limit) ∨
    ∃ e, (Archive.analyze .standard url p.name true net w).1 = .error e ∧
      (e.aboutTarball = true ↔ IsAnswered net p) := by
  have answered (given : url ≠ "") :
      IsAnswered net p ↔ ¬Archive.Escapes net url p.name := by
    unfold IsAnswered
    rw [tarball]
    constructor
    · exact fun all => all url rfl given
    · rintro stays _ ⟨⟩ -
      exact stays
  by_cases given : url = ""
  · subst given
    refine .inr ⟨.missingUrl, rfl, iff_of_true rfl fun url same nonempty => ?_⟩
    rw [tarball] at same
    cases same
    exact absurd rfl nonempty
  have ends : Archive.Retrieved net url p.name
      (Archive.analyze .standard url p.name true net w).1 :=
    Archive.analyze_ends (by simpa using given) workable
  generalize (Archive.analyze .standard url p.name true net w).1 = outcome at ends ⊢
  rw [answered given]
  cases ends with
  | @summary s stays sizes =>
    exact .inl ⟨s, rfl, stays, fun f mem => (sizes f mem).2.trans_lt memberLimit_lt_limit⟩
  | @failed e escapes =>
    refine .inr ⟨e, rfl, ?_⟩
    rw [← escapes, Bool.not_eq_false]

theorem exists_archiveSigns_iff (net : Network) (workable : Archive.IsWorkable w.disk p.name) :
    (∃ a, (standard.archiveSigns p net w).1 = .ok a) ↔ IsAnswered net p := by
  rcases tarball : p.dist.tarball with _ | url
  · rw [archiveSigns_of_none _ tarball]
    refine iff_of_true ⟨_, rfl⟩ fun url given => ?_
    rw [tarball] at given
    cases given
  obtain ⟨s, summary, answered, sizes⟩ | ⟨e, failed, answered⟩ :=
    analyze_answers net workable tarball
  · obtain ⟨fs, findings, -⟩ := CodeLimits.exists_standardFindings sizes
    rw [← run_inspect_standard] at summary
    rw [archiveSigns_of_ok standard tarball summary findings]
    exact iff_of_true ⟨_, rfl⟩ answered
  · rw [← run_inspect_standard] at failed
    rw [archiveSigns_of_error standard tarball failed, ← answered]
    by_cases about : e.aboutTarball = true
    · rw [if_pos about]
      exact iff_of_true ⟨_, rfl⟩ about
    · rw [if_neg about]
      exact iff_of_false nofun about

/-- What a result shows beside the findings. -/
def otherDetails (p : Package) (s : Signs) : Fields :=
  [("total_risk", s.risk.shown),
   ("has_obfuscation", .bool (s.findings.any fun f => f.type != unavailableType)),
   ("package_size", .nat p.dist.unpackedSize)]

/-- The result of the rule with its standard weight. -/
def verdict (p : Package) (s : Signs) : RuleResult :=
  { deduction := .int (Tier.ofRisk s.risk).outOfTen,
    bonus := 0,
    details := ("findings", .ofFindings s.findings) :: otherDetails p s,
    level := (Tier.ofRisk s.risk).level }

theorem conclude_standardWeight (p : Package) (s : Signs) :
    conclude (.number standardWeight) p s = .ok (verdict p s) :=
  RuleResult.deducting_standardWeight s.risk _

/-- That an archive is not available is no sign of anything. -/
theorem otherDetails_unavailable (p : Package) (size : List Finding) (suspicious : List String)
    (reason : String) :
    otherDetails p ⟨size, .unavailable reason, suspicious⟩ =
      otherDetails p ⟨size, .noArchive, suspicious⟩ := by
  have hidden : (Signs.findings ⟨size, .unavailable reason, suspicious⟩).any
        (fun f => f.type != unavailableType) =
      (Signs.findings ⟨size, .noArchive, suspicious⟩).any
        fun f => f.type != unavailableType := by
    simp [Signs.findings, ArchiveSigns.findings]
  rw [otherDetails, hidden]
  rfl

/-- That an archive is not available adds one finding and counts for nothing. -/
theorem verdict_unavailable (p : Package) (size : List Finding) (suspicious : List String)
    (reason : String) :
    RuleResult.Adds (unavailable reason) (verdict p ⟨size, .noArchive, suspicious⟩)
      (verdict p ⟨size, .unavailable reason, suspicious⟩) := by
  refine ⟨size, nameFindings suspicious, otherDetails p ⟨size, .noArchive, suspicious⟩, ?_, ?_⟩
  · rw [verdict, Signs.findings, ArchiveSigns.findings, List.append_nil]
  · rw [← otherDetails_unavailable p size suspicious reason]
    rfl

/-- The signs in a package of which the findings about its size and archive are known. -/
def signs (p : Package) (size : List Finding) (archive : ArchiveSigns) : Signs :=
  { size, archive, suspicious := p.files.filter FileName.isSuspicious }

theorem evaluate_eq_ok_iff :
    (standard.evaluate p net w).1 = .ok r ↔
      ∃ size archive, CodeLimits.standard.sizeFindings p.dist.unpackedSize = .ok size ∧
        (standard.archiveSigns p net w).1 = .ok archive ∧ verdict p (signs p size archive) = r := by
  rw [evaluate, Session.outcome_bind, Session.run_liftFault, bind_eq_ok]
  refine exists_congr fun size => ?_
  rw [mapError_eq_ok, Session.outcome_bind, bind_eq_ok, exists_and_left]
  refine and_congr_right fun _ => exists_congr fun archive => and_congr_right fun _ => ?_
  rw [Session.run_lift]
  change conclude (.number standardWeight) p (signs p size archive) = _ ↔ _
  rw [conclude_standardWeight, Except.ok.injEq]

theorem exists_evaluate_iff :
    (∃ r, (standard.evaluate p net w).1 = .ok r) ↔
      p.dist.unpackedSize < Binary64.limit ∧ ∃ a, (standard.archiveSigns p net w).1 = .ok a := by
  rw [← CodeLimits.exists_sizeFindings_iff]
  simp only [evaluate_eq_ok_iff]
  constructor
  · rintro ⟨r, size, archive, isSize, isArchive, -⟩
    exact ⟨⟨size, isSize⟩, archive, isArchive⟩
  · rintro ⟨⟨size, isSize⟩, archive, isArchive⟩
    exact ⟨_, size, archive, isSize, isArchive, rfl⟩

theorem evaluate_of_summary {url : String} {s : ArchiveSummary}
    (workable : Archive.IsWorkable w.disk p.name) (tarball : p.dist.tarball = some url)
    (summary : (Archive.analyze .standard url p.name true net w).1 = .ok s)
    (result : (standard.evaluate p net w).1 = .ok r) :
    ∃ fs rest, r.details = ("findings", .ofFindings fs) :: rest ∧ CodeLimits.AreSigns fs := by
  obtain ⟨size, archive, isSize, isArchive, rfl⟩ := evaluate_eq_ok_iff.1 result
  obtain ⟨_, same, -, sizes⟩ | ⟨_, failed, -⟩ := analyze_answers net workable tarball
  · rw [summary] at same
    cases same
    obtain ⟨fs, findings, areSigns⟩ := CodeLimits.exists_standardFindings sizes
    rw [← run_inspect_standard] at summary
    rw [archiveSigns_of_ok standard tarball summary findings] at isArchive
    cases isArchive
    have first := (CodeLimits.areSigns_sizeFindings isSize).append areSigns
    exact ⟨_, _, rfl, first.append (CodeLimits.areSigns_nameFindings _)⟩
  · rw [summary] at failed
    cases failed

theorem evaluate_of_failure {url : String} {e : Failure} (tarball : p.dist.tarball = some url)
    (failed : (Archive.analyze .standard url p.name true net w).1 = .error e)
    (result : (standard.evaluate p net w).1 = .ok r) :
    ∃ before, (standard.evaluate (withoutArchive p) net w).1 = .ok before ∧
      RuleResult.Adds (unavailable e.message) before r := by
  obtain ⟨size, archive, isSize, isArchive, rfl⟩ := evaluate_eq_ok_iff.1 result
  rw [← run_inspect_standard] at failed
  rw [archiveSigns_of_error standard tarball failed] at isArchive
  split_ifs at isArchive
  cases isArchive
  have before : (standard.evaluate (withoutArchive p) net w).1 =
      .ok (verdict (withoutArchive p) (signs (withoutArchive p) size .noArchive)) :=
    evaluate_eq_ok_iff.2 ⟨size, .noArchive, isSize, archiveSigns_of_none _ rfl, rfl⟩
  exact ⟨_, before, verdict_unavailable p size _ e.message⟩

/-- A workspace with nothing on its disk. -/
def bareWorkspace : Workspace := ⟨.empty, [], []⟩

/-- A package that says where its archive is and nothing else. -/
def archivedAt (url : String) : Package :=
  let bare : Package := default
  { bare with name := "p", dist := { bare.dist with tarball := some url } }

theorem isWorkable_empty (package : String) : Archive.IsWorkable Disk.empty package := by
  have nothing {l : Location} (ne : l ≠ []) : Disk.empty.at? l = none := by
    rw [Disk.at?_of_ne_root ne]
    rfl
  have onlyDirectories {l : Location} {e : Entry} (there : Disk.empty.at? l = some e) :
      e = .directory := by
    rcases eq_or_ne l [] with rfl | ne
    · cases there
      rfl
    · rw [nothing ne] at there
      cases there
  refine ⟨⟨fun l target there => ?_, fun l name there => ?_⟩, fun front _ content there => ?_⟩
  · cases onlyDirectories there
  · exact absurd (nothing (by simp)) there
  · cases onlyDirectories there

end HiddenCode

end PackageRisk
