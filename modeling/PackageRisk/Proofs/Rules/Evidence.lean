import PackageRisk.Proofs.Package.Scripts
import PackageRisk.Proofs.Rules.Dependencies
import PackageRisk.Proofs.Rules.NetworkAccess
import PackageRisk.Proofs.Rules.Weights

/-!
# More evidence counts for no less

A package with one script or one dependency more (`Package.Adds`) runs the old scripts in the old
order among the new ones, and names all modules that it named before, whatever group a name comes
from. So its risk is no smaller, its tier no lower, and for every weight the deduction no smaller
and still within the weight (`evidence_monotone`).
-/

namespace PackageRisk

/-- The place of a risk level in order of gravity. -/
def RiskLevel.rank : RiskLevel → Nat
  | .none => 0
  | .low => 1
  | .medium => 2
  | .high => 3
  | .error => 4

/-! ## Tiers -/

namespace Tier

variable {n d d' : Number} {q : ℚ} {t t' : Tier}

theorem ofRisk_mono {r r' : Risk} (le : r.quarters ≤ r'.quarters) :
    (ofRisk r).level.rank ≤ (ofRisk r').level.rank := by
  unfold ofRisk
  split_ifs <;> first | decide | omega

theorem amount_mono {h k : ℚ} (low : 0 ≤ h) (le : h ≤ k) (high : k ≤ q)
    (tiers : t.level.rank ≤ t'.level.rank) : amount q h k t ≤ amount q h k t' := by
  cases t <;> cases t' <;> first | exact absurd tiers (by decide) | (simp only [amount]; linarith)

/-- Without a binary64 form of a weight every tier deducts all of it or nothing. -/
theorem deductionOf_of_not_inRange (value : n.Is q) (outside : ¬n.InRange)
    (taken : t.deductionOf n = .ok d) : d.Is (amount q 0 q t) := by
  cases deductionOf_eq_ok_iff.1 taken with
  | nothing => rfl
  | half floored => exact absurd floored (Share.floorOf_ne_ok outside)
  | threeQuarters floored => exact absurd floored (Share.floorOf_ne_ok outside)
  | whole => exact value

/-- A higher tier deducts no less, and every tier deducts between nothing and the weight. -/
theorem deductionOf_mono (value : n.Is q) (nonneg : 0 ≤ q) (tiers : t.level.rank ≤ t'.level.rank)
    (one : t.deductionOf n = .ok d) (two : t'.deductionOf n = .ok d') :
    ∃ a b, d.Is a ∧ d'.Is b ∧ a ≤ b ∧ b ≤ q := by
  have top (t : Tier) : t.level.rank ≤ Tier.whole.level.rank := by cases t <;> decide
  by_cases inRange : n.InRange
  · obtain ⟨h, k, low, le, high, amounts⟩ := exists_deductionOf value nonneg inRange
    obtain ⟨_, same, isAmount⟩ := amounts t
    obtain ⟨_, same', isAmount'⟩ := amounts t'
    cases one.symm.trans same
    cases two.symm.trans same'
    exact ⟨_, _, isAmount, isAmount', amount_mono low le high tiers,
      amount_mono low le high (top t')⟩
  · exact ⟨_, _, deductionOf_of_not_inRange value inRange one,
      deductionOf_of_not_inRange value inRange two, amount_mono le_rfl nonneg le_rfl tiers,
      amount_mono le_rfl nonneg le_rfl (top t')⟩

end Tier

/-! ## Packages with more evidence -/

/-- One package is another one with a script for a hook that had none, or with one dependency
more. -/
inductive Package.Adds (p : Package) : Package → Prop
  | script {scripts : Fields} {hook script : String} (runs : hook ∈ lifecycleHooks)
      (lacks : ∀ old ≠ "", Fields.get? p.scripts hook ≠ some (.text old)) (given : script ≠ "")
      (added : Fields.get? scripts hook = some (.text script))
      (others : ∀ key ≠ hook, Fields.get? scripts key = Fields.get? p.scripts key) :
      Adds p { p with scripts }
  | dependency {added : String × String} {dependencies : List (String × String)}
      (more : dependencies.Perm (added :: p.dependencies)) : Adds p { p with dependencies }
  | devDependency {added : String × String} {devDependencies : List (String × String)}
      (more : devDependencies.Perm (added :: p.devDependencies)) : Adds p { p with devDependencies }
  | optionalDependency {added : String × String} {optionalDependencies : List (String × String)}
      (more : optionalDependencies.Perm (added :: p.optionalDependencies)) :
      Adds p { p with optionalDependencies }

variable {p p' : Package}

namespace Package.Adds

theorem lifecycleScripts (adds : p.Adds p') :
    p.lifecycleScripts.Sublist p'.lifecycleScripts := by
  cases adds with
  | @script scripts hook script runs lacks given added others =>
    refine hookScripts_sublist fun key _ old nonempty there => ?_
    have apart : key ≠ hook := by
      rintro rfl
      exact lacks old nonempty there
    rw [others key apart]
    exact there
  | dependency => exact .refl _
  | devDependency => exact .refl _
  | optionalDependency => exact .refl _

theorem names (adds : p.Adds p') : NetworkAccess.names p ⊆ NetworkAccess.names p' := by
  have grown {added : String × String} {old new : List (String × String)}
      (more : new.Perm (added :: old)) : Fields.keys old ⊆ Fields.keys new :=
    fun name mem => (more.map _).mem_iff.2 (List.mem_cons_of_mem _ mem)
  intro name
  rw [NetworkAccess.mem_names_iff, NetworkAccess.mem_names_iff]
  cases adds with
  | script => exact id
  | dependency more => exact Or.imp_left fun mem => grown more mem
  | devDependency more => exact Or.imp_right (Or.imp_left fun mem => grown more mem)
  | optionalDependency more => exact Or.imp_right (Or.imp_right fun mem => grown more mem)

end Package.Adds

/-! ## Risks -/

theorem Risk.total_mono {rs rs' : List Risk} (sub : rs.Sublist rs') :
    (total rs).quarters ≤ (total rs').quarters := by
  have step (r : Risk) (rs : List Risk) :
      (total (r :: rs)).quarters = r.quarters + (total rs).quarters := rfl
  induction sub with
  | slnil => exact le_rfl
  | cons r _ ih =>
    rw [step]
    exact ih.trans (Nat.le_add_left _ _)
  | cons_cons r _ ih =>
    rw [step, step]
    exact Nat.add_le_add_left ih _

theorem InstallScripts.risk_mono (sub : p.lifecycleScripts.Sublist p'.lifecycleScripts) :
    (risk p).quarters ≤ (risk p').quarters :=
  Risk.total_mono (((sub.map _).filter _).map _)

namespace NetworkAccess

variable {rule : NetworkAccess} {found found' : Signs}

theorem hookSigns_cons_eq_ok_iff {s : String × String} {rest : List (String × String)}
    {hooks : List (String × String × List Finding)} :
    rule.hookSigns (s :: rest) = .ok hooks ↔
      ∃ signs later, rule.scriptSigns s.2 = .ok signs ∧ rule.hookSigns rest = .ok later ∧
        hooks = if signs.isEmpty then later else (s.1, s.2, signs) :: later := by
  rw [hookSigns, bind_eq_ok]
  constructor
  · rintro ⟨signs, here, more⟩
    obtain ⟨later, there, ⟨⟩⟩ := bind_eq_ok.1 more
    exact ⟨signs, later, here, there, rfl⟩
  · rintro ⟨signs, later, here, there, rfl⟩
    exact ⟨signs, here, bind_eq_ok.2 ⟨later, there, rfl⟩⟩

/-- More scripts have more signs, and those of the old ones among them. -/
theorem hookSigns_sublist {scripts scripts' : List (String × String)}
    {hooks hooks' : List (String × String × List Finding)} (sub : scripts.Sublist scripts')
    (one : rule.hookSigns scripts = .ok hooks) (two : rule.hookSigns scripts' = .ok hooks') :
    hooks.Sublist hooks' := by
  induction sub generalizing hooks hooks' with
  | slnil =>
    cases one
    cases two
    exact .slnil
  | cons s _ ih =>
    obtain ⟨signs, later, -, there, rfl⟩ := hookSigns_cons_eq_ok_iff.1 two
    split_ifs
    · exact ih one there
    · exact (ih one there).cons _
  | cons_cons s _ ih =>
    obtain ⟨signs, later, here, there, rfl⟩ := hookSigns_cons_eq_ok_iff.1 one
    obtain ⟨signs', later', here', there', rfl⟩ := hookSigns_cons_eq_ok_iff.1 two
    cases here.symm.trans here'
    split_ifs
    · exact ih there there'
    · exact (ih there there').cons_cons _

/-- More scripts and more names of dependencies are no smaller risk. -/
theorem risk_mono (sub : p.lifecycleScripts.Sublist p'.lifecycleScripts)
    (named : names p ⊆ names p') (one : rule.signs p = .ok found)
    (two : rule.signs p' = .ok found') : found.risk.quarters ≤ found'.risk.quarters := by
  obtain ⟨hooks, scripts, more⟩ := bind_eq_ok.1 one
  obtain ⟨dependencies, signs, ⟨⟩⟩ := bind_eq_ok.1 more
  obtain ⟨hooks', scripts', more'⟩ := bind_eq_ok.1 two
  obtain ⟨dependencies', signs', ⟨⟩⟩ := bind_eq_ok.1 more'
  have fewer : dependencies.length ≤ dependencies'.length := by
    rw [length_dependencySigns signs, length_dependencySigns signs']
    exact (List.subperm_of_subset (nodup_names p) named).countP_le _
  exact Nat.add_le_add (Risk.total_mono ((hookSigns_sublist sub scripts scripts').map _))
    (Nat.mul_le_mul_right _ fewer)

end NetworkAccess

/-! ## Results -/

/-- A result that deducts no more than another one, which stays within a weight, and whose level is
no higher. -/
structure RuleResult.AtMost (r r' : RuleResult) (weight : ℚ) : Prop where
  deduction : ∃ a b, r.deduction.Is a ∧ r'.deduction.Is b ∧ a ≤ b ∧ b ≤ weight
  level : r.level.rank ≤ r'.level.rank

variable {n : Number} {q : ℚ} {r r' : RuleResult} {risk risk' : Risk} {details details' : Fields}

theorem RuleResult.deducting_mono (value : n.Is q) (nonneg : 0 ≤ q)
    (le : risk.quarters ≤ risk'.quarters)
    (one : deducting (.number n) risk details = .ok r)
    (two : deducting (.number n) risk' details' = .ok r') : r.AtMost r' q := by
  obtain ⟨d, taken, -, rfl⟩ := deducting_eq_ok.1 one
  obtain ⟨d', taken', -, rfl⟩ := deducting_eq_ok.1 two
  exact ⟨Tier.deductionOf_mono value nonneg (Tier.ofRisk_mono le) taken taken', Tier.ofRisk_mono le⟩

theorem NetworkAccess.exists_evaluate {rule : NetworkAccess} {modules : List String}
    (value : n.Is q) (nonneg : 0 ≤ q) (inRange : n.InRange) (weight : rule.weight = .number n)
    (analyzes : ∀ script, ∃ signs, rule.analyze script = .ok signs)
    (named : rule.modules = modules.map .text) (p : Package) : ∃ r, rule.evaluate p = .ok r := by
  obtain ⟨hooks, scripts⟩ : ∃ hooks, rule.hookSigns p.lifecycleScripts = .ok hooks :=
    exists_hookSigns_iff.2 fun s _ => analyzes s.2
  obtain ⟨dependencies, signs⟩ :
      ∃ signs, dependencySigns rule.modules (dependenciesOf p) = .ok signs :=
    named ▸ exists_dependencySigns
  have found : rule.signs p = .ok ⟨hooks, dependencies⟩ :=
    bind_eq_ok.2 ⟨hooks, scripts, bind_eq_ok.2 ⟨dependencies, signs, rfl⟩⟩
  unfold evaluate
  rw [found, weight]
  exact RuleResult.exists_deducting value nonneg inRange _ _

/-- Evidence never counts against itself: with one script of a hook or one dependency more, the
rules about install scripts and about network access deduct no less, no more than their weight, and
at no lower level. That holds for every weight that is a number from zero on, whatever the modules
are and whatever analyzes the scripts. If the weight has a binary64 form, modules have names and
all scripts can be analyzed, there are such results. -/
theorem evidence_monotone (value : n.Is q) (nonneg : 0 ≤ q) (adds : p.Adds p') :
    ((∀ r r', InstallScripts.evaluate (.number n) p = .ok r →
        InstallScripts.evaluate (.number n) p' = .ok r' → r.AtMost r' q) ∧
      (n.InRange → ∃ r r', InstallScripts.evaluate (.number n) p = .ok r ∧
        InstallScripts.evaluate (.number n) p' = .ok r')) ∧
    ∀ rule : NetworkAccess, rule.weight = .number n →
      (∀ r r', rule.evaluate p = .ok r → rule.evaluate p' = .ok r' → r.AtMost r' q) ∧
      (n.InRange → (∀ script, ∃ signs, rule.analyze script = .ok signs) →
        (∃ modules : List String, rule.modules = modules.map .text) →
        ∃ r r', rule.evaluate p = .ok r ∧ rule.evaluate p' = .ok r') := by
  refine ⟨⟨fun r r' one two => ?_, fun inRange => ?_⟩, fun rule weight =>
    ⟨fun r r' one two => ?_, fun inRange analyzes named => ?_⟩⟩
  · exact RuleResult.deducting_mono value nonneg
      (InstallScripts.risk_mono adds.lifecycleScripts) one two
  · obtain ⟨r, one⟩ := RuleResult.exists_deducting value nonneg inRange (InstallScripts.risk p) _
    obtain ⟨r', two⟩ := RuleResult.exists_deducting value nonneg inRange (InstallScripts.risk p') _
    exact ⟨r, r', one, two⟩
  · obtain ⟨found, signs, one⟩ := bind_eq_ok.1 one
    obtain ⟨found', signs', two⟩ := bind_eq_ok.1 two
    rw [weight] at one two
    exact RuleResult.deducting_mono value nonneg (NetworkAccess.risk_mono adds.lifecycleScripts
      adds.names (ofFault_eq_ok.1 signs) (ofFault_eq_ok.1 signs')) one two
  · obtain ⟨modules, named⟩ := named
    obtain ⟨r, one⟩ :=
      NetworkAccess.exists_evaluate value nonneg inRange weight analyzes named p
    obtain ⟨r', two⟩ :=
      NetworkAccess.exists_evaluate value nonneg inRange weight analyzes named p'
    exact ⟨r, r', one, two⟩

/-- A package with a script that is run on installation. -/
def scriptedPackage : Package :=
  { (default : Package) with scripts := [("install", .text "node -e 'fetch(1)'")] }

/-- A first script, for a rule with the weight seven and a half whose analyzer sees nothing. -/
theorem evidence_scriptedPackage :
    (Number.float (.ofQuotient false 15 2)).Is (15 / 2) ∧ (default : Package).Adds scriptedPackage ∧
      (∃ r r', InstallScripts.evaluate (.number (.float (.ofQuotient false 15 2))) default = .ok r ∧
        InstallScripts.evaluate (.number (.float (.ofQuotient false 15 2))) scriptedPackage =
          .ok r' ∧ r.AtMost r' (15 / 2)) ∧
      ∃ r r', NetworkAccess.evaluate ⟨.number (.float (.ofQuotient false 15 2)), [.text "axios"],
          fun _ => .ok []⟩ default = .ok r ∧
        NetworkAccess.evaluate ⟨.number (.float (.ofQuotient false 15 2)), [.text "axios"],
          fun _ => .ok []⟩ scriptedPackage = .ok r' ∧ r.AtMost r' (15 / 2) := by
  have value : (Number.float (.ofQuotient false 15 2)).Is (15 / 2) := by
    rw [Number.is_float]
    decide +kernel
  have adds : (default : Package).Adds scriptedPackage := by
    refine .script (by decide : "install" ∈ lifecycleHooks) nofun
      (by decide : "node -e 'fetch(1)'" ≠ "") rfl fun key apart => ?_
    have other : (key == "install") = false := beq_eq_false_iff_ne.2 apart
    rw [Fields.get?, List.lookup_cons, other]
    rfl
  have inRange : (Number.float (.ofQuotient false 15 2)).InRange := nofun
  obtain ⟨⟨least, scripts⟩, network⟩ := evidence_monotone value (by norm_num) adds
  obtain ⟨r, r', one, two⟩ := scripts inRange
  obtain ⟨most, calls⟩ := network ⟨_, [.text "axios"], fun _ => .ok []⟩ rfl
  obtain ⟨s, s', one', two'⟩ := calls inRange (fun _ => ⟨[], rfl⟩) ⟨["axios"], rfl⟩
  exact ⟨value, adds, ⟨r, r', one, two, least r r' one two⟩, s, s', one', two',
    most s s' one' two'⟩

end PackageRisk
