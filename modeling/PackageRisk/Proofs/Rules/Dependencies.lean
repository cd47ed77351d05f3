import PackageRisk.Proofs.Fields
import PackageRisk.Proofs.Results
import PackageRisk.Rules.NetworkAccess

/-!
# Dependencies that name a module

Groups of dependencies are merged into one map, which has each name once, whatever groups it is in
(`mem_names_iff`, `nodup_names`). Each name that contains that of a module is one sign
(`length_dependencySigns`), so the number of signs depends neither on the order of the names nor on
the group that a name comes from.
-/

namespace PackageRisk

namespace NetworkAccess

variable {p : Package} {name : String} {modules : List Value} {e : Fault}
  {dependencies : List (String × Value)} {signs : List Finding}

/-- The names of the dependencies that are looked at. -/
def names (p : Package) : List String := Fields.keys (dependenciesOf p)

theorem names_eq (p : Package) :
    names p = Fields.keys
      (mergedDependencies [p.dependencies, p.devDependencies, p.optionalDependencies]) := by
  rw [names, dependenciesOf, Fields.keys, List.map_map]
  rfl

/-- A name is looked at if it is in one of the three groups that an installation brings along. -/
theorem mem_names_iff :
    name ∈ names p ↔ name ∈ Fields.keys p.dependencies ∨ name ∈ Fields.keys p.devDependencies ∨
      name ∈ Fields.keys p.optionalDependencies := by
  rw [names_eq, mergedDependencies, List.foldl_cons, List.foldl_cons, List.foldl_cons,
    List.foldl_nil, Fields.mem_keys_merge, Fields.mem_keys_merge, Fields.mem_keys_merge]
  simp [Fields.keys, or_assoc]

theorem nodup_names (p : Package) : (names p).Nodup := by
  rw [names_eq, mergedDependencies]
  exact Fields.nodup_keys_merge (Fields.nodup_keys_merge (Fields.nodup_keys_merge List.nodup_nil))

/-! ## Counting the signs -/

/-- Whether a name contains that of a module. -/
def namesModule (modules : List Value) (name : String) : Bool :=
  match moduleIn? name modules with
  | .ok (some _) => true
  | _ => false

/-- The first module that is no name is what every search that fails stops at. -/
theorem moduleIn?_error_unique {other : String} {e' : Fault}
    (one : moduleIn? name modules = .error e) (two : moduleIn? other modules = .error e') :
    e = e' := by
  induction modules with
  | nil => cases one
  | cons m rest ih =>
    cases m
    case text m =>
      unfold moduleIn? at one two
      split_ifs at one two
      exact ih one two
    all_goals
      cases one
      cases two
      rfl

theorem dependencySigns_eq_error_iff :
    dependencySigns modules dependencies = .error e ↔
      ∃ name ∈ Fields.keys dependencies, moduleIn? name modules = .error e := by
  induction dependencies with
  | nil => simp [dependencySigns, Fields.keys]
  | cons dependency rest ih =>
    obtain ⟨name, version⟩ := dependency
    simp only [Fields.keys, List.map_cons, List.exists_mem_cons_iff] at ih ⊢
    rw [dependencySigns, bind_eq_error]
    constructor
    · rintro (here | ⟨found, one, more⟩)
      · exact .inl here
      · rcases bind_eq_error.1 more with later | ⟨signs, -, ⟨⟩⟩
        exact .inr (ih.1 later)
    · rintro (here | ⟨other, mem, there⟩)
      · exact .inl here
      -- an earlier name that fails, too, fails for the same module
      · rcases one : moduleIn? name modules with e' | found
        · exact .inl (congrArg Except.error (moduleIn?_error_unique one there))
        · exact .inr ⟨found, rfl, bind_eq_error.2 (.inl (ih.2 ⟨other, mem, there⟩))⟩

theorem length_dependencySigns (found : dependencySigns modules dependencies = .ok signs) :
    signs.length = (Fields.keys dependencies).countP (namesModule modules) := by
  induction dependencies generalizing signs with
  | nil =>
    cases found
    rfl
  | cons dependency rest ih =>
    obtain ⟨name, version⟩ := dependency
    obtain ⟨here, one, more⟩ := bind_eq_ok.1 found
    obtain ⟨later, others, ends⟩ := bind_eq_ok.1 more
    rw [Fields.keys, List.map_cons, List.countP_cons, namesModule, one]
    rcases here with _ | module
    · cases ends
      exact ih others
    · cases ends
      exact congrArg (· + 1) (ih others)

/-! ## Modules that have names -/

theorem moduleIn?_eq (name : String) (modules : List String) :
    moduleIn? name (modules.map .text) =
      .ok ((modules.find? fun m => Text.contains m.toList name.toList).map .text) := by
  induction modules with
  | nil => rfl
  | cons m rest ih =>
    rw [List.map_cons, moduleIn?, List.find?_cons]
    cases Text.contains m.toList name.toList with
    | true => rfl
    | false => exact ih

theorem dependencySigns_eq (modules : List String) (dependencies : List (String × Value)) :
    dependencySigns (modules.map .text) dependencies =
      .ok (dependencies.filterMap fun d =>
        (modules.find? fun m => Text.contains m.toList d.1.toList).map
          fun m => dependencyFinding d.1 d.2 (.text m)) := by
  induction dependencies with
  | nil => rfl
  | cons d rest ih =>
    rw [dependencySigns, moduleIn?_eq, ih, List.filterMap_cons]
    cases modules.find? fun m => Text.contains m.toList d.1.toList with
    | none => rfl
    | some m => rfl

end NetworkAccess

end PackageRisk
