import Mathlib.Tactic.Common
import PackageRisk.Archive.Retrieve
import PackageRisk.Proofs.Fetch
import PackageRisk.Proofs.Rules.Standard

/-!
# Failures that a report can record

Scoring records every failure of a rule but one: that of a rule without an evaluation. No part of
the library beside `Rule.evaluate` ends with that one: the retrieval of archives does not
(`Archive.recordable_analyze`), and a standard rule does not as long as the retrieval that it uses
does not (`Rule.IsStandard.recordable_answer`).
-/

namespace PackageRisk

/-- An outcome that is not the failure of a rule without an evaluation. -/
def Recordable {α : Type} (outcome : Except Failure α) : Prop :=
  ∀ kind, outcome ≠ .error (.unimplementedRule kind)

section Outcomes

variable {α β : Type}

theorem recordable_ok (a : α) : Recordable (.ok a : Except Failure α) := nofun

theorem recordable_ofFault (x : Except Fault α) : Recordable (Failure.ofFault x) := by
  rcases x with e | a <;> exact nofun

theorem recordable_orFail (x : Checked α) (record : String) : Recordable (x.orFail record) := by
  rcases x with a | issues <;> exact nofun

theorem Recordable.bind {x : Except Failure α} {f : α → Except Failure β} (first : Recordable x)
    (second : ∀ a, Recordable (f a)) : Recordable (x >>= f) := by
  intro kind ends
  rcases bind_eq_error.1 ends with failed | ⟨a, -, failed⟩
  · exact first kind failed
  · exact second a kind failed

end Outcomes

namespace Session

variable {α β : Type} {s : Session α}

/-- A session that never ends with the failure of a rule without an evaluation. -/
def Recordable (s : Session α) : Prop := ∀ net w, PackageRisk.Recordable (s net w).1

theorem recordable_pure (a : α) : (pure a : Session α).Recordable :=
  fun _ _ => recordable_ok a

theorem recordable_fault (cause : Fault) : (fail (.fault cause) : Session α).Recordable :=
  fun _ _ => nofun

theorem recordable_lift {x : Except Failure α} (recordable : PackageRisk.Recordable x) :
    (lift x).Recordable := by
  intro net w
  rw [run_lift]
  exact recordable

theorem recordable_liftFault (x : Except Fault α) : (liftFault x).Recordable := by
  intro net w
  rw [run_liftFault]
  rcases x with e | a <;> exact nofun

theorem Recordable.bind {f : α → Session β} (first : s.Recordable)
    (second : ∀ a, (f a).Recordable) : (s >>= f).Recordable := by
  intro net w
  rw [outcome_bind]
  exact (first net w).bind fun a => second a net _

theorem Recordable.thenAlways {last : Session Unit} (first : s.Recordable)
    (after : last.Recordable) : (s.thenAlways last).Recordable := by
  intro net w
  rw [Session.thenAlways, bind_of_ok (run_attempt s), outcome_bind]
  exact (after net _).bind fun _ => recordable_lift (first net w) net _

theorem recordable_namesOf (path : String) : (namesOf path).Recordable :=
  fun _ _ => recordable_ok _

theorem recordable_fetch (follow : Bool) (url : String) : (fetch follow url).Recordable := by
  intro net w kind ends
  have settles := @fetch_settles net
  obtain ⟨outcome, settles, faults⟩ := settles follow url
  rw [settles.outcome_eq] at ends
  obtain ⟨cause, same⟩ := faults _ ends
  cases same

end Session

namespace Archive

variable {d : Disk} {root : Location} {settings : ArchiveSettings}

theorem recordable_checkNames (ms : List Tar.Member) : Recordable (checkNames d root ms) := by
  induction ms with
  | nil => exact recordable_ok ()
  | cons m rest ih =>
    refine .bind ?_ fun _ => ih
    unfold checkName
    split_ifs
    · exact nofun
    · split
      · split_ifs <;> exact nofun
      · exact nofun

theorem recordable_extractArchive (content : ByteArray) :
    Recordable (extractArchive d root content).1 := by
  unfold extractArchive extract
  split
  · exact nofun
  · next ms _ =>
    have checked : Recordable (checkNames d root ms) := recordable_checkNames ms
    split
    · next e refused =>
      rw [refused] at checked
      exact checked
    · split <;> exact nofun

theorem recordable_fileEntropy (path : String) : Recordable (fileEntropy d root path) := by
  have looked : Recordable (resolveInside d root path) := by
    unfold resolveInside
    split
    · exact nofun
    · split
      · exact nofun
      · split
        · exact nofun
        · split_ifs <;> exact nofun
  unfold fileEntropy readInside
  split_ifs
  · exact nofun
  · refine .bind (.bind looked fun l => ?_) fun _ => recordable_ok _
    split <;> exact nofun

theorem recordable_describe (entropies : Bool) (files : List PackageFile) :
    Recordable (describe d root entropies files) := by
  induction files with
  | nil => exact recordable_ok []
  | cons f rest ih =>
    unfold describe
    dsimp only
    split_ifs
    · exact (recordable_fileEntropy f.path).bind fun _ => ih.bind fun _ => recordable_ok _
    · exact (recordable_ok none).bind fun _ => ih.bind fun _ => recordable_ok _

theorem recordable_changing (path : String) (step : Disk → Disk.Changed) :
    (changing path step).Recordable := by
  refine .bind (fun _ _ => recordable_ok _) fun d => ?_
  split_ifs
  · exact Session.recordable_fault _
  · refine .bind (fun _ _ => recordable_ok _) fun _ => ?_
    split
    · exact Session.recordable_pure ()
    · exact Session.recordable_fault _

theorem recordable_cleanUp (path : Path) : (cleanUp path).Recordable := by
  refine .bind (Session.recordable_namesOf _) fun names => .bind (fun _ _ => recordable_ok _) ?_
  intro d
  split
  · exact fun _ _ => recordable_ok _
  · exact Session.recordable_fault _
  · exact Session.recordable_pure ()

theorem recordable_download (url : String) (file : List String) :
    (download settings url file).Recordable := by
  unfold download
  split
  · exact Session.recordable_fault _
  · split_ifs
    · exact fun _ _ => nofun
    · exact fun _ _ => nofun
    · refine .bind (Session.recordable_fetch true url) fun reply => ?_
      split
      · split_ifs
        · exact fun _ _ => nofun
        · refine .bind (recordable_changing _ _) fun _ => ?_
          split_ifs
          · exact Session.recordable_pure _
          · exact fun _ _ => nofun
      all_goals exact fun _ _ => nofun

theorem recordable_unpack (file target : List String) (size : Nat) (entropies : Bool) :
    (unpack settings file target size entropies).Recordable := by
  refine .bind (recordable_changing _ _) fun _ => .bind (fun _ _ => recordable_ok _) fun d =>
    .bind (Session.recordable_liftFault _) fun root => ?_
  split
  · exact fun _ _ => nofun
  · refine .bind (fun _ _ => recordable_ok _) fun _ =>
      .bind (Session.recordable_lift (recordable_extractArchive _)) fun _ =>
        Session.recordable_lift ?_
    exact (recordable_describe _ _).bind fun _ => recordable_ok _

/-- The retrieval of an archive ends with a summary or with a failure that a report can record. -/
theorem recordable_analyze (settings : ArchiveSettings) (url package : String) (entropies : Bool) :
    (analyze settings url package entropies).Recordable := by
  unfold analyze
  split_ifs
  · exact fun _ _ => nofun
  · refine .bind (recordable_cleanUp _) fun _ => .bind (Session.recordable_namesOf _) fun names =>
      .bind (recordable_changing _ _) fun _ => ?_
    exact .thenAlways (.bind (recordable_download _ _) fun _ => recordable_unpack _ _ _ _)
      (recordable_cleanUp _)

end Archive

/-! ## Standard rules -/

/-- A retrieval that fails only with what a report can record. -/
def Inspector.Recordable (inspect : Inspector) : Prop :=
  ∀ url package entropies, (inspect url package entropies).Recordable

variable {n : Number} {options : Fields} {inspect : Inspector} {rule : StandardRule} {p : Package}

theorem RuleResult.recordable_deducting (weight : Value) (risk : Risk) (details : Fields) :
    Recordable (deducting weight risk details) :=
  (recordable_ofFault _).bind fun _ => (recordable_orFail _ _).bind fun _ => recordable_ok _

theorem RuleResult.recordable_rewarding (given : Value) (details : Fields) :
    Recordable (rewarding given details) :=
  (recordable_orFail _ _).bind fun _ => recordable_ok _

theorem HiddenCode.recordable_evaluate {rule : HiddenCode} (inspected : rule.inspect.Recordable) :
    (rule.evaluate p).Recordable := by
  refine .bind (Session.recordable_liftFault _) fun size => .bind ?_ fun archive =>
    Session.recordable_lift (RuleResult.recordable_deducting _ _ _)
  unfold archiveSigns
  split
  · exact Session.recordable_pure _
  · next url _ =>
    intro net w kind ends
    have inner : (rule.inspectArchive url p.name).Recordable :=
      (inspected _ _ _).bind fun _ => Session.recordable_liftFault _
    rw [Session.outcome_bind, Session.run_attempt] at ends
    rcases failed : (rule.inspectArchive url p.name net w).1 with e | findings
    · rw [failed] at ends
      dsimp only [bind, Except.bind] at ends
      split_ifs at ends
      cases ends
      exact inner net w kind failed
    · rw [failed] at ends
      cases ends

theorem StandardRule.Judges.recordable {judge : Package → Except Failure RuleResult}
    (judges : rule.Judges n options judge) (p : Package) : Recordable (judge p) := by
  cases judges with
  | networkAccess made =>
    exact (recordable_ofFault _).bind fun _ => RuleResult.recordable_deducting _ _ _
  | installScripts => exact RuleResult.recordable_deducting _ _ _
  | publication => exact RuleResult.recordable_deducting _ _ _
  | signing =>
    unfold Signing.evaluate
    dsimp only
    split
    · exact RuleResult.recordable_rewarding _ _
    · exact (recordable_ofFault _).bind fun _ => RuleResult.recordable_rewarding _ _
    · exact RuleResult.recordable_deducting _ _ _
  | billOfMaterials =>
    unfold BillOfMaterials.evaluate
    dsimp only
    split_ifs
    · exact recordable_ok _
    · exact RuleResult.recordable_rewarding _ _

/-- A standard rule answers with a result or with a failure that a report can record. -/
theorem Rule.IsStandard.recordable_answer {made : Rule}
    (is : made.IsStandard rule n options inspect) (inspected : inspect.Recordable) (p : Package) :
    (made.answer p).Recordable := by
  obtain ⟨run, runs, answers⟩ | off := is.answer p
  · rw [answers]
    cases runs with
    | ofPackage judges => exact Session.recordable_lift (judges.recordable p)
    | ofArchive => exact HiddenCode.recordable_evaluate inspected
  · rw [off]
    exact Session.recordable_pure _

end PackageRisk
