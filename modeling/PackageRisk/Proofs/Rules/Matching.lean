import Mathlib.Data.List.Infix
import PackageRisk.Proofs.Rules.Dependencies

/-!
# Which dependencies name which module

Merging the groups of dependencies puts each name where it is listed first, with the version of the
last group that lists it (`version_of_mem`). The names that contain a module are then reported one
by one, each with the first module that it contains (`forall₂_dependencySigns`). Groups that an
installation does not bring along, such as that of peers, are never read.
-/

namespace PackageRisk

/-- A text is found in another one just when it is part of it. -/
theorem Text.contains_iff {needle cs : List Char} : contains needle cs = true ↔ needle <:+: cs := by
  induction cs with
  | nil => rw [contains, List.isEmpty_iff, List.infix_nil]
  | cons c rest ih =>
    rw [contains, Bool.or_eq_true, ih, List.isPrefixOf_iff_prefix, List.infix_cons_iff]

namespace Fields

variable {α : Type} {fields : List (String × α)} {key : String} {v : α}

/-- The value that a key was given last. -/
def last? (fields : List (String × α)) (key : String) : Option α := get? fields.reverse key

theorem get?_of_mem (once : (keys fields).Nodup) (mem : (key, v) ∈ fields) :
    get? fields key = some v := by
  obtain ⟨before, after, rfl⟩ := List.append_of_mem mem
  refine List.lookup_eq_some_iff.2 ⟨before, after, rfl, fun field earlier => ?_⟩
  rw [keys, List.map_append, List.map_cons] at once
  have apart := (List.nodup_append.1 once).2.2 field.1 (List.mem_map_of_mem earlier) key
    List.mem_cons_self
  exact bne_iff_ne.2 apart.symm

theorem notMem_keys_of_last? (none : last? fields key = none) : key ∉ keys fields := by
  intro mem
  obtain ⟨field, listed, rfl⟩ := List.mem_map.1 mem
  have apart := List.lookup_eq_none_iff.1 none field (List.mem_reverse.2 listed)
  exact bne_iff_ne.1 apart rfl

end Fields

namespace NetworkAccess

variable {modules : List String} {name module : String} {version : Value}
  {listed : List Fields} {groups groups' : List (String × Fields)}

/-- A module is the first in a list that is part of a name. -/
def IsModuleOf (modules : List String) (name module : String) : Prop :=
  ∃ before after, modules = before ++ module :: after ∧ module.toList <:+: name.toList ∧
    ∀ m ∈ before, ¬m.toList <:+: name.toList

/-- A version is what the last group that lists a name says. -/
def IsVersionOf (listed : List Fields) (name : String) (version : Value) : Prop :=
  ∃ before group after, listed = before ++ group :: after ∧
    Fields.last? group name = some version ∧ ∀ later ∈ after, name ∉ Fields.keys later

/-! ## Merged groups -/

theorem mergedDependencies_eq (listed : List Fields) :
    mergedDependencies listed = Fields.merge [] listed.flatten :=
  List.foldl_flatten.symm

theorem nodup_keys_mergedDependencies (listed : List Fields) :
    (Fields.keys (mergedDependencies listed)).Nodup := by
  rw [mergedDependencies_eq]
  exact Fields.nodup_keys_merge List.nodup_nil

theorem mem_keys_mergedDependencies :
    name ∈ Fields.keys (mergedDependencies listed) ↔
      ∃ group ∈ listed, name ∈ Fields.keys group := by
  rw [mergedDependencies_eq, Fields.mem_keys_merge]
  simp only [Fields.keys, List.map_nil, List.not_mem_nil, false_or, List.map_flatten,
    List.mem_flatten, List.mem_map, exists_exists_and_eq_and]

/-- What was put last into all groups is what the last group that lists the name was given. -/
theorem isVersionOf_of_last? (found : Fields.last? listed.flatten name = some version) :
    IsVersionOf listed name version := by
  induction listed using List.reverseRecOn with
  | nil => cases found
  | append_singleton before group ih =>
    rw [Fields.last?, List.flatten_append, List.flatten_singleton, List.reverse_append,
      Fields.get?, List.lookup_append, Option.or_eq_some_iff] at found
    obtain here | ⟨none, earlier⟩ := found
    · exact ⟨before, group, [], rfl, here, fun later mem => absurd mem List.not_mem_nil⟩
    · obtain ⟨first, there, after, rfl, last, others⟩ := ih earlier
      refine ⟨first, there, after ++ [group], by simp, last, fun later mem => ?_⟩
      obtain old | new := List.mem_append.1 mem
      · exact others later old
      · obtain rfl := List.mem_singleton.1 new
        exact Fields.notMem_keys_of_last? none

theorem version_of_mem (mem : (name, version) ∈ mergedDependencies listed) :
    IsVersionOf listed name version := by
  have found := Fields.get?_of_mem (nodup_keys_mergedDependencies listed) mem
  rw [mergedDependencies_eq, Fields.get?_merge] at found
  apply isVersionOf_of_last?
  rw [Fields.last?]
  exact (Option.or_none).symm.trans found

/-! ## Names that contain a module -/

theorem isModuleOf_iff :
    (modules.find? fun m => Text.contains m.toList name.toList) = some module ↔
      IsModuleOf modules name module := by
  rw [List.find?_eq_some_iff_append, IsModuleOf, Text.contains_iff]
  simp only [Bool.not_eq_true', ← Bool.not_eq_true, Text.contains_iff]
  tauto

/-- Whether a name contains one of the modules. -/
def containsAny (modules : List String) (name : String) : Bool :=
  modules.any fun m => Text.contains m.toList name.toList

theorem containsAny_iff : containsAny modules name = true ↔
    ∃ m ∈ modules, m.toList <:+: name.toList := by
  simp only [containsAny, List.any_eq_true, Text.contains_iff]

/-- The signs of dependencies are those of the names that contain a module, one by one. -/
theorem forall₂_dependencySigns {dependencies : Fields} {signs : List Finding}
    (found : dependencySigns (modules.map .text) dependencies = .ok signs) :
    List.Forall₂ (fun d sign => ∃ module, IsModuleOf modules d.1 module ∧
        sign = dependencyFinding d.1 d.2 (.text module))
      (dependencies.filter fun d => containsAny modules d.1) signs := by
  rw [dependencySigns_eq] at found
  cases found
  induction dependencies with
  | nil => exact .nil
  | cons d rest ih =>
    rw [List.filter_cons, List.filterMap_cons]
    cases first : modules.find? fun m => Text.contains m.toList d.1.toList with
    | none =>
      have free : containsAny modules d.1 = false := by
        simpa [containsAny] using first
      simpa [free] using ih
    | some module =>
      have isModule : IsModuleOf modules d.1 module := isModuleOf_iff.1 first
      have named : containsAny modules d.1 = true := by
        obtain ⟨before, after, parts, part, -⟩ := isModule
        exact containsAny_iff.2 ⟨module, by simp [parts], part⟩
      rw [if_pos named]
      exact .cons ⟨module, isModule, rfl⟩ ih

/-! ## Grouped dependencies -/

/-- The groups that an installation brings along, in their order; one that is missing is empty. -/
def installed (groups : List (String × Fields)) : List Fields :=
  installedGroups.map fun group => (Fields.get? groups group).getD []

theorem installed_congr
    (alike : ∀ group ≠ "peerDependencies", Fields.get? groups' group = Fields.get? groups group) :
    installed groups' = installed groups := by
  refine List.map_congr_left fun group mem => ?_
  have other : group ≠ "peerDependencies" := by
    rintro rfl
    exact absurd mem (by decide)
  rw [alike group other]

/-- The groups of a package are merged to the dependencies that the rule looks at. -/
theorem dependenciesOf_eq (p : Package) :
    dependenciesOf p = (installedDependencies p.dependencyMaps).map fun d => (d.1, .text d.2) := rfl

/-- The signs in grouped dependencies are one for each name that some group of an installation lists
and that contains a module. They come in the order in which the groups list the names first. Each
has the first module that the name contains and the version of the last group that lists the name.
What the group of peers lists is never looked at. -/
theorem groupedSigns_one_by_one (modules : List String) (groups : List (String × Fields)) :
    let listed := installed groups
    let order := Fields.keys listed.flatten
    ∃ names signs, groupedSigns (modules.map .text) groups = .ok signs ∧
      (∀ name, name ∈ names ↔ (∃ group ∈ listed, name ∈ Fields.keys group) ∧
        ∃ m ∈ modules, m.toList <:+: name.toList) ∧
      names.Nodup ∧ (names.Pairwise fun a b => order.idxOf a < order.idxOf b) ∧
      List.Forall₂ (fun name sign => ∃ module version, IsModuleOf modules name module ∧
        IsVersionOf listed name version ∧ sign = dependencyFinding name version (.text module))
        names signs ∧
      ∀ groups', (∀ group ≠ "peerDependencies",
          Fields.get? groups' group = Fields.get? groups group) →
        groupedSigns (modules.map .text) groups' = .ok signs := by
  intro listed order
  let named : Fields := (mergedDependencies listed).filter fun d => containsAny modules d.1
  have sublist : (Fields.keys named).Sublist (Fields.keys (mergedDependencies listed)) :=
    List.filter_sublist.map _
  have all : groupedSigns (modules.map .text) groups =
      dependencySigns (modules.map .text) (mergedDependencies listed) := rfl
  obtain ⟨signs, found⟩ : ∃ signs,
      dependencySigns (modules.map .text) (mergedDependencies listed) = .ok signs :=
    ⟨_, dependencySigns_eq modules _⟩
  refine ⟨Fields.keys named, signs, all.trans found, fun name => ?_,
    (nodup_keys_mergedDependencies listed).sublist sublist, ?_, ?_, fun groups' alike => ?_⟩
  · rw [← mem_keys_mergedDependencies, ← containsAny_iff]
    simp [named, Fields.keys, List.mem_filter]
  · have ordered := Fields.pairwise_keys_merge listed.flatten
    rw [← mergedDependencies_eq] at ordered
    exact ordered.sublist sublist
  · have versions : ∀ d ∈ named, IsVersionOf listed d.1 d.2 :=
      fun d mem => version_of_mem (List.mem_filter.1 mem).1
    have paired := (List.forall₂_and_left _ _).2 ⟨versions, forall₂_dependencySigns found⟩
    refine List.forall₂_map_left_iff.2 (paired.imp fun d sign h => ?_)
    obtain ⟨isVersion, module, isModule, reported⟩ := h
    exact ⟨module, d.2, isModule, isVersion, reported⟩
  · rw [← found, ← all, groupedSigns, groupedSigns]
    exact congrArg (fun l => dependencySigns _ (mergedDependencies l)) (installed_congr alike)

end NetworkAccess

end PackageRisk
