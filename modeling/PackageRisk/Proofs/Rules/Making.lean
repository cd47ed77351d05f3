import PackageRisk.Proofs.Registry
import PackageRisk.Proofs.Scoring.Standard

/-!
# When the standard rules can be made

Of the six rules five can be made from any settings. The one about network access takes the modules
that its options add for keys, so it can be made just when they can be listed and each can be a key
(`exists_standard_iff`). Settings are accepted with any options, so that they pass their check says
nothing about it. A registry that is made has just the six rules, each as it is configured
(`standard_configured`).
-/

namespace PackageRisk

namespace NetworkAccess

/-- Options that add what cannot be listed, or something that cannot be a key. -/
inductive HasUnusableModules (options : Fields) : Prop
  | unlisted (none : ∀ items,
      moduleItems (optionOr options "extra_network_modules" (.list [])) ≠ .ok items)
  | unusable {items : List Value} {m : Value}
      (listed : moduleItems (optionOr options "extra_network_modules" (.list [])) = .ok items)
      (mem : m ∈ items) (noKey : m.canBeKey = false)

variable {weight : Value} {options : Fields}

theorem modulesFor_eq_ok_iff {modules : List Value} :
    modulesFor options = .ok modules ↔
      ∃ items, moduleItems (optionOr options "extra_network_modules" (.list [])) = .ok items ∧
        Script.networkModules.map .text ++ items = modules := by
  rw [modulesFor, bind_eq_ok]
  exact exists_congr fun items => and_congr_right' ⟨Except.ok.inj, congrArg _⟩

theorem exists_ofOptions_iff :
    (∃ rule, ofOptions weight options = .ok rule) ↔ ¬HasUnusableModules options := by
  constructor
  · rintro ⟨rule, made⟩ unusable
    obtain ⟨modules, known, made⟩ := bind_eq_ok.1 made
    obtain ⟨items, listed, rfl⟩ := modulesFor_eq_ok_iff.1 known
    cases unusable with
    | unlisted none => exact none items listed
    | @unusable items' m listed' mem noKey =>
      obtain rfl := Except.ok.inj (listed.symm.trans listed')
      split at made
      · cases made
      · rename_i usable
        have key := List.find?_eq_none.1 usable m (List.mem_append_right _ mem)
        simp [noKey] at key
  · intro usable
    rcases listed : moduleItems (optionOr options "extra_network_modules" (.list [])) with e | items
    · exact absurd (.unlisted (by simp [listed])) usable
    · let modules := Script.networkModules.map Value.text ++ items
      have keys : modules.find? (!·.canBeKey) = none := by
        rw [List.find?_eq_none]
        intro m mem noKey
        rw [Bool.not_eq_true'] at noKey
        rcases List.mem_append.1 mem with known | added
        · obtain ⟨name, -, rfl⟩ := List.mem_map.1 known
          cases noKey
        · exact usable (.unusable listed added noKey)
      refine ⟨⟨weight, modules, Script.analyze modules⟩,
        bind_eq_ok.2 ⟨modules, modulesFor_eq_ok_iff.2 ⟨items, listed, rfl⟩, ?_⟩⟩
      rw [keys]
      rfl

end NetworkAccess

namespace StandardRule

variable {settings : RuleSettings} {inspect : Inspector} {rule : StandardRule} {e : Failure}

theorem exists_configured_iff :
    (∃ made, rule.configured settings inspect = .ok made) ↔
      (rule = .networkAccess → ¬NetworkAccess.HasUnusableModules settings.options) := by
  have made : (∃ made, rule.configured settings inspect = .ok made) ↔
      ∃ made, rule.make (.number (settings.weight.getD rule.standardWeight)) settings.options
        inspect = .ok made := by
    unfold configured
    simp only [bind_eq_ok]
    constructor
    · rintro ⟨_, made, ok, -⟩
      exact ⟨made, ok⟩
    · rintro ⟨made, ok⟩
      exact ⟨_, made, ok, rfl⟩
  rw [made]
  cases rule with
  | networkAccess =>
    simp only [make, bind_eq_ok, ofFault_eq_ok, forall_const]
    rw [← NetworkAccess.exists_ofOptions_iff]
    constructor
    · rintro ⟨_, rule, ok, -⟩
      exact ⟨rule, ok⟩
    · rintro ⟨rule, ok⟩
      exact ⟨_, rule, ok, rfl⟩
  | _ => exact iff_of_true ⟨_, rfl⟩ nofun

theorem configured_eq_error (failed : rule.configured settings inspect = .error e) :
    ∃ cause, e = .fault cause := by
  rcases bind_eq_error.1 failed with unmade | ⟨_, -, ⟨⟩⟩
  cases rule with
  | networkAccess =>
    rcases bind_eq_error.1 unmade with fault | ⟨_, -, ⟨⟩⟩
    rcases made : NetworkAccess.ofOptions (.number (settings.weight.getD _)) settings.options
      with cause | rule
    · rw [made] at fault
      exact ⟨cause, (Except.error.inj fault).symm⟩
    · rw [made] at fault
      cases fault
  | _ => cases unmade

/-- A rule is made switched on, and stays so unless the settings switch it off. -/
theorem enabled_of_configured {made : Rule}
    (configured : rule.configured settings inspect = .ok made) :
    made.enabled = settings.enabled := by
  obtain ⟨plain, ok, ⟨⟩⟩ := bind_eq_ok.1 configured
  have fresh : plain.enabled = true := by
    cases rule with
    | networkAccess =>
      obtain ⟨_, -, ⟨⟩⟩ := bind_eq_ok.1 ok
      rfl
    | _ =>
      cases ok
      rfl
  split_ifs with on
  · rw [fresh, on]
  · rw [Bool.not_eq_true] at on
    rw [on]
    rfl

end StandardRule

namespace Registry

variable {settings : Settings} {inspect : Inspector} {e : Failure}

theorem exists_foldlM_add {rules : List Rule} {r : Registry}
    (distinct : (r.names ++ rules.map (·.name)).Nodup) :
    ∃ final, rules.foldlM Registry.add r = .ok final := by
  induction rules generalizing r with
  | nil => exact ⟨r, rfl⟩
  | cons rule rest ih =>
    have free : ¬r.has rule.name = true := by
      rw [has_eq_true_iff]
      rintro ⟨other, mem, same⟩
      refine List.disjoint_of_nodup_append distinct (List.mem_map_of_mem mem) ?_
      rw [same]
      exact List.mem_cons_self
    have added : r.add rule = .ok ⟨r.rules ++ [rule]⟩ := if_neg free
    obtain ⟨final, later⟩ := ih (r := ⟨r.rules ++ [rule]⟩) (by simpa [names] using distinct)
    rw [List.foldlM_cons]
    exact ⟨final, bind_eq_ok.2 ⟨_, added, later⟩⟩

theorem exists_standard_of_rules {rules : List Rule}
    (made : settings.standardRules inspect = .ok rules) :
    ∃ r, Registry.standard settings inspect = .ok r := by
  obtain ⟨r, added⟩ : ∃ r, rules.foldlM Registry.add .empty = .ok r := by
    refine exists_foldlM_add ?_
    rw [map_name_of_configured (mapM_eq_ok made)]
    decide
  exact ⟨r, bind_eq_ok.2 ⟨rules, made, added⟩⟩

/-- The standard rules can be made just when the modules of the one about network access can be
used. -/
theorem exists_standard_iff :
    (∃ r, Registry.standard settings inspect = .ok r) ↔
      ¬NetworkAccess.HasUnusableModules (settings.rule NetworkAccess.ruleName).options := by
  constructor
  · rintro ⟨r, built⟩
    obtain ⟨made, _, configured, -⟩ := List.forall₂_cons_left_iff.1 (rules_standard built)
    exact StandardRule.exists_configured_iff.1 ⟨made, configured⟩ rfl
  · intro usable
    have each : ∀ rule ∈ StandardRule.all,
        ∃ made, rule.configured (settings.rule rule.name) inspect = .ok made := by
      intro rule _
      rw [StandardRule.exists_configured_iff]
      rintro rfl
      exact usable
    obtain ⟨rules, made⟩ := exists_mapM_ok each
    exact exists_standard_of_rules made

theorem standard_eq_error (failed : Registry.standard settings inspect = .error e) :
    ∃ cause, e = .fault cause := by
  rcases made : settings.standardRules inspect with e' | rules
  · obtain ⟨rule, -, unmade⟩ := mapM_eq_error made
    rw [Registry.standard, made] at failed
    obtain rfl := Except.error.inj failed
    exact StandardRule.configured_eq_error unmade
  · obtain ⟨r, built⟩ := exists_standard_of_rules made
    rw [built] at failed
    cases failed

end Registry

/-- A standard rule as settings configure it: it evaluates packages as that rule does, with the
weight and the options of the settings, and is switched on just when they say so. -/
structure Rule.IsConfigured (made : Rule) (rule : StandardRule) (settings : Settings)
    (inspect : Inspector) : Prop where
  standard : made.IsStandard rule (settings.weightOf rule) (settings.rule rule.name).options inspect
  enabled : made.enabled = (settings.rule rule.name).enabled

/-- Settings of any kind, accepted ones among them, make a registry of the standard rules just when
the modules that the options of the rule about network access add can be used. The registry has the
six rules and no other, each under its name, in order and as it is configured; and where none is
made, the options are at fault. -/
theorem Registry.standard_configured (settings : Settings) (inspect : Inspector) :
    ((∃ r, Registry.standard settings inspect = .ok r) ↔
        ¬NetworkAccess.HasUnusableModules (settings.rule NetworkAccess.ruleName).options) ∧
      (∀ r, Registry.standard settings inspect = .ok r →
        r.names = StandardRule.all.map StandardRule.name ∧ r.names.Nodup ∧
          List.Forall₂ (fun rule made => made.IsConfigured rule settings inspect)
            StandardRule.all r.rules) ∧
      ∀ e, Registry.standard settings inspect = .error e → ∃ cause, e = .fault cause := by
  refine ⟨exists_standard_iff, fun r built => ?_, fun e => standard_eq_error⟩
  have configured := rules_standard built
  have names : r.names = StandardRule.all.map StandardRule.name := map_name_of_configured configured
  refine ⟨names, ?_, configured.imp fun rule made one => ?_⟩
  · rw [names]
    decide
  · exact ⟨StandardRule.isStandard_of_configured one, StandardRule.enabled_of_configured one⟩

/-- Settings with a number where modules are listed. -/
def numberedModules : Value :=
  .object [("rules", .object [("external-network-call", .object [("options",
    .object [("extra_network_modules", .int 5)])])])]

theorem numberedModules_end_registry :
    ∃ settings, Settings.check numberedModules = .valid settings ∧
      ¬∃ r, Registry.standard settings (fun _ _ _ => Session.fail .missingUrl) = .ok r := by
  refine ⟨_, rfl, ?_⟩
  rintro ⟨r, ⟨⟩⟩

end PackageRisk
