import PackageRisk.Proofs.Rules.Weights
import PackageRisk.Proofs.Script.Escapes
import PackageRisk.Proofs.Script.Search

/-!
# When scripts can be searched

A script can be searched for network access just when no string that the search reads has an
escape with a huge number (`exists_analyze_iff`). Nothing else can keep the rule about network
access from giving a result: with its standard weight and no options it evaluates a package just
when all scripts that hooks run can be searched (`evaluate_isOk_iff_noHugeEscape`).
-/

namespace PackageRisk

namespace Script

/-- A string that the search of a tree reads has an escape with a huge number. -/
def Tree.HasHugeEscape (t : Tree) : Prop :=
  ∃ path u pieces e, t.at? path = some u ∧ u.decoded? = some pieces ∧ .escape e ∈ pieces ∧ e.IsHuge

/-- The text of a script has such a string. -/
def HasHugeEscape (source : String) : Prop :=
  Text.allBlank source.toList = false ∧ ∃ t, parse? source = some t ∧ t.HasHugeEscape

variable {modules : List Value} {source : String} {t : Tree}

theorem Tree.isReadable_iff_noHugeEscape : t.IsReadable ↔ ¬t.HasHugeEscape := by
  constructor
  · rintro readable ⟨path, u, pieces, e, there, reads, mem, huge⟩
    have decoded := readable (path, u) (mem_places_iff.2 there) pieces reads
    exact (exists_decodePieces_iff pieces).1 decoded e mem huge
  · rintro small ⟨path, u⟩ there pieces reads
    refine (exists_decodePieces_iff pieces).2 fun e mem huge => small ?_
    exact ⟨path, u, pieces, e, mem_places_iff.1 there, reads, mem, huge⟩

theorem exists_analyze_iff :
    (∃ fs, analyze modules source = .ok fs) ↔ ¬HasHugeEscape source := by
  unfold analyze HasHugeEscape
  rcases Text.allBlank source.toList
  · rw [if_neg Bool.false_ne_true]
    rcases parse? source with _ | t
    · exact iff_of_true ⟨[], rfl⟩ (by rintro ⟨-, t, ⟨⟩, -⟩)
    · dsimp only
      rw [search_tree, exists_findings_iff, Tree.isReadable_iff_noHugeEscape]
      simp
  · exact iff_of_true ⟨[], rfl⟩ (by rintro ⟨⟨⟩, -⟩)

end Script

namespace NetworkAccess

variable {rule : NetworkAccess} {p : Package}

/-- The rule with its standard weight and no options. -/
def standard : NetworkAccess :=
  ⟨.number standardWeight, Script.networkModules.map .text,
    Script.analyze (Script.networkModules.map .text)⟩

theorem ofOptions_standard : ofOptions (.number standardWeight) [] = .ok standard := rfl

theorem standard_analyze (script : String) :
    standard.analyze script = Script.analyze (Script.networkModules.map .text) script := rfl

theorem exists_scriptSigns_iff {script : String} :
    (∃ signs, rule.scriptSigns script = .ok signs) ↔ ∃ fs, rule.analyze script = .ok fs := by
  constructor
  · rintro ⟨signs, found⟩
    obtain ⟨fs, analyzed, -⟩ := bind_eq_ok.1 found
    exact ⟨fs, analyzed⟩
  · rintro ⟨fs, analyzed⟩
    exact ⟨_, bind_eq_ok.2 ⟨fs, analyzed, rfl⟩⟩

theorem exists_hookSigns_iff {scripts : List (String × String)} :
    (∃ hooks, rule.hookSigns scripts = .ok hooks) ↔
      ∀ h ∈ scripts, ∃ fs, rule.analyze h.2 = .ok fs := by
  induction scripts with
  | nil => exact iff_of_true ⟨[], rfl⟩ nofun
  | cons h rest ih =>
    obtain ⟨hook, script⟩ := h
    rw [List.forall_mem_cons, ← ih, ← exists_scriptSigns_iff]
    constructor
    · rintro ⟨hooks, found⟩
      obtain ⟨signs, here, more⟩ := bind_eq_ok.1 found
      obtain ⟨later, there, -⟩ := bind_eq_ok.1 more
      exact ⟨⟨signs, here⟩, later, there⟩
    · rintro ⟨⟨signs, here⟩, later, there⟩
      exact ⟨_, bind_eq_ok.2 ⟨signs, here, bind_eq_ok.2 ⟨later, there, rfl⟩⟩⟩

/-- Among modules with names the one that a name contains can always be looked for. -/
theorem exists_moduleIn? {modules : List String} {name : String} :
    ∃ found, moduleIn? name (modules.map .text) = .ok found := by
  induction modules with
  | nil => exact ⟨none, rfl⟩
  | cons m rest ih =>
    rw [List.map_cons, moduleIn?]
    split_ifs
    · exact ⟨_, rfl⟩
    · exact ih

theorem exists_dependencySigns {modules : List String} {dependencies : List (String × Value)} :
    ∃ signs, dependencySigns (modules.map .text) dependencies = .ok signs := by
  induction dependencies with
  | nil => exact ⟨[], rfl⟩
  | cons d rest ih =>
    obtain ⟨found, isFound⟩ : ∃ found, moduleIn? d.1 (modules.map .text) = .ok found :=
      exists_moduleIn?
    obtain ⟨later, isLater⟩ := ih
    exact ⟨_, bind_eq_ok.2 ⟨found, isFound, bind_eq_ok.2 ⟨later, isLater, rfl⟩⟩⟩

/-- The signs of a package can be told just when all its scripts can be searched. -/
theorem exists_signs_iff :
    (∃ found, standard.signs p = .ok found) ↔
      ∀ h ∈ p.lifecycleScripts, ∃ fs, standard.analyze h.2 = .ok fs := by
  rw [← exists_hookSigns_iff]
  constructor
  · rintro ⟨found, told⟩
    obtain ⟨hooks, known, -⟩ := bind_eq_ok.1 told
    exact ⟨hooks, known⟩
  · rintro ⟨hooks, known⟩
    obtain ⟨others, named⟩ :
        ∃ signs, dependencySigns standard.modules (dependenciesOf p) = .ok signs :=
      exists_dependencySigns
    exact ⟨_, bind_eq_ok.2 ⟨hooks, known, bind_eq_ok.2 ⟨others, named, rfl⟩⟩⟩

theorem exists_evaluate_iff :
    (∃ r, standard.evaluate p = .ok r) ↔
      ∀ h ∈ p.lifecycleScripts, ∃ fs, standard.analyze h.2 = .ok fs := by
  rw [← exists_signs_iff]
  constructor
  · rintro ⟨r, result⟩
    obtain ⟨found, told, -⟩ := bind_eq_ok.1 result
    exact ⟨found, ofFault_eq_ok.1 told⟩
  · rintro ⟨found, told⟩
    have inRange : standardWeight.InRange := by
      rintro k ⟨⟩
      exact lt_trans (by decide) Number.two_pow_lt_limit
    have value : standardWeight.Is 20 := rfl
    obtain ⟨r, deducted⟩ := RuleResult.exists_deducting value (by norm_num) inRange found.risk
      [("findings", .ofFindings found.findings), ("total_risk", found.risk.shown),
        ("has_network_calls", .bool !found.findings.isEmpty)]
    exact ⟨r, bind_eq_ok.2 ⟨found, ofFault_eq_ok.2 told, deducted⟩⟩

/-- A call with a number of 32 bits in its string. -/
def hugeCall : String := "f(\"\\u\x7b80000000\x7d\")"

end NetworkAccess

end PackageRisk
