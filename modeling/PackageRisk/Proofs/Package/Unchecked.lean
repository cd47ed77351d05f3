import PackageRisk.Proofs.Package.Parts

/-!
# What a document answers unchecked

The scripts of an accepted document are those of its package (`lifecycleScripts_eq`,
`allScripts_eq`). Its dependencies are the package's if they are under the registry's keys, for
those alone are looked at (`dependencyMaps_eq`); and its sizes are the package's amounts if none of
them is a text and none is under the field's own key alone (`sizes_agree_iff`).
-/

namespace PackageRisk

variable {fields dist : Fields} {p : Package} {key : String} {n : Nat}

/-! ## Numbers that are read -/

namespace Check

theorem is_of_wholeOf {x : Binary64} {k : Int} (read : wholeOf x = .valid k) :
    (Number.float x).Is k := by
  unfold wholeOf at read
  split at read
  · cases read
  · next q value =>
    split_ifs at read with fraction large
    · cases read
    · cases read
    · cases read
      rw [Number.is_float, value, Rat.den_eq_one_iff _ |>.1 (not_ne_iff.1 fraction)]

/-- A whole number that is read from an amount is that amount. -/
theorem is_of_whole {v : Value} {a : Number} {k : Int} (amount : v.number? = some a)
    (read : whole v = .valid k) : a.Is k := by
  cases v with
  | bool b =>
    cases amount
    cases read
    rfl
  | number m =>
    cases amount
    cases a with
    | int a =>
      cases read
      rfl
    | float x => exact is_of_wholeOf read
  | _ => cases amount

theorem exists_whole_of_size {v : Value} {n : Nat} (given : v ≠ .null) (read : size v = .valid n) :
    ∃ k : Int, whole v = .valid k ∧ k = n := by
  obtain ⟨k, within, rfl⟩ := Checked.map_eq_valid.1 read
  have plain : orZero (bounded (.atLeast 0) .int whole) v = bounded (.atLeast 0) .int whole v := by
    cases v <;> first | rfl | exact absurd rfl given
  rw [plain] at within
  obtain ⟨m, isWhole, atLeast⟩ := Checked.andThen_eq_valid.1 within
  split_ifs at atLeast with holds
  · cases atLeast
    exact ⟨k, isWhole, (Int.toNat_of_nonneg (Number.le_int.1 holds)).symm⟩
  · cases atLeast

theorem whole_empty (k : Int) : whole (.text "") ≠ .valid k := by
  have unread : Numeral.settingInt? "" = none := by decide
  unfold whole
  simp only [unread]
  exact nofun

end Check

theorem Value.is_zero_of_not_given {v : Value} {a : Number} (amount : v.number? = some a)
    (missing : v.isGiven = false) : a.Is 0 := by
  cases v with
  | bool b =>
    cases amount
    cases b
    · rfl
    · cases missing
  | number m =>
    cases amount
    rw [Value.isGiven, Bool.not_eq_false'] at missing
    exact Number.is_zero_of_isZero missing
  | _ => cases amount

namespace Value

/-- A map of texts as pairs. -/
def textPairs (texts : List (String × String)) : List (Value × Value) :=
  texts.map fun t => (.text t.1, .text t.2)

theorem sameKey_number {v : Value} {a : Number} {q : ℚ} (amount : v.number? = some a)
    (value : a.Is q) : v.sameKey (.nat n) = true ↔ q = n := by
  have size : (Number.int n).Is (n : ℚ) := rfl
  have same : v.sameKey (.nat n) = (a.le (.int n) && (Number.int n).le a) := by
    cases v <;> cases amount <;> rfl
  rw [same, value.le_eq size, size.le_eq value, Bool.and_eq_true, decide_eq_true_iff,
    decide_eq_true_iff, le_antisymm_iff]

theorem sameKey_zero : (Value.number 0).sameKey (.nat n) = true ↔ n = 0 := by
  have zero : (0 : Number).Is 0 := rfl
  rw [sameKey_number rfl zero, eq_comm, Nat.cast_eq_zero]

end Value

namespace Document

/-- The fields of a document's distribution. -/
def distribution (fields : Fields) : Fields :=
  match Fields.get? fields "dist" with
  | some (.object dist) => dist
  | _ => []

/-! ## Scripts and dependencies -/

theorem givenField_of_object {inner : Fields}
    (found : Fields.get? fields key = some (.object inner)) :
    givenField? fields key = if inner.isEmpty then none else some (.object inner) := by
  rw [givenField?, found]
  cases inner <;> rfl

theorem fieldPairs_of_object {inner : Fields}
    (found : Fields.get? fields key = some (.object inner)) :
    fieldPairs fields key = .ok (inner.map fun f => (.text f.1, f.2)) := by
  rw [fieldPairs, givenField_of_object found]
  cases inner
  all_goals rfl

theorem fieldPairs_of_absent
    (absent : Fields.get? fields key = none ∨ Fields.get? fields key = some .null) :
    fieldPairs fields key = .ok [] := by
  rw [fieldPairs, givenField?]
  obtain absent | absent := absent
  · rw [absent]
  · rw [absent]
    rfl

/-- Scripts that are read are an object's, or there are none. -/
theorem scripts_cases
    (read : fieldOr ["scripts"] [] (.orEmptyObject .object) fields = .valid p.scripts) :
    Fields.get? fields "scripts" = some (.object p.scripts) ∨
      (Fields.get? fields "scripts" = none ∨ Fields.get? fields "scripts" = some .null) ∧
        p.scripts = [] := by
  rw [fieldOr_cons] at read
  cases found : Fields.get? fields "scripts" with
  | none =>
    rw [found] at read
    exact .inr ⟨.inl rfl, (Checked.valid.inj read).symm⟩
  | some v =>
    rw [found] at read
    have accepted := Checked.inside_eq_valid.1 read
    cases v with
    | null => exact .inr ⟨.inr rfl, (Checked.valid.inj accepted).symm⟩
    | object scripts => exact .inl (by rw [Checked.valid.inj accepted])
    | _ => cases accepted

theorem allScripts_eq (parts : Package.Parts fields p) :
    allScripts (.object fields) = .ok (p.scripts.map fun f => (.text f.1, f.2)) := by
  obtain found | ⟨absent, none⟩ := scripts_cases parts.scripts
  · exact fieldPairs_of_object found
  · rw [none]
    exact fieldPairs_of_absent absent

theorem lifecycleScripts_eq (parts : Package.Parts fields p) :
    lifecycleScripts (.object fields) = .ok p.lifecycleScripts := by
  rw [lifecycleScripts, Package.lifecycleScripts]
  obtain found | ⟨absent, none⟩ := scripts_cases parts.scripts
  · rw [givenField_of_object found]
    cases p.scripts <;> rfl
  · rw [none, givenField?]
    obtain absent | absent := absent <;> rw [absent] <;> rfl

theorem textPairs_of_fieldsOf {inner : Fields} {texts : List (String × String)}
    (read : Check.fieldsOf .text inner = .valid texts) :
    inner.map (fun f => (Value.text f.1, f.2)) = Value.textPairs texts := by
  have same := Check.fieldsOf_eq_valid_iff.1 read
  unfold Value.textPairs
  rw [← List.forall₂_eq_eq_eq, List.forall₂_map_left_iff, List.forall₂_map_right_iff]
  refine same.imp fun f t one => ?_
  obtain ⟨k, v⟩ := f
  obtain ⟨rfl, isText⟩ := one
  cases v <;> cases isText
  rfl

/-- A document answers a group of dependencies that is under the registry's key. -/
theorem fieldPairs_group {others : List String} {group : List (String × String)}
    (read : fieldOr (key :: others) [] .versions fields = .valid group) :
    fieldPairs fields key =
      .ok (if Fields.get? fields key = none then [] else Value.textPairs group) := by
  rw [fieldOr_cons] at read
  split_ifs with absent
  · exact fieldPairs_of_absent (.inl absent)
  · obtain ⟨v, found⟩ := Option.ne_none_iff_exists'.1 absent
    rw [found] at read
    have accepted := Checked.inside_eq_valid.1 read
    cases v with
    | null =>
      cases accepted
      exact fieldPairs_of_absent (.inr found)
    | object inner =>
      rw [fieldPairs_of_object found, textPairs_of_fieldsOf accepted]
    | _ => cases accepted

theorem dependencyMaps_eq (parts : Package.Parts fields p) :
    dependencyMaps (.object fields) = .ok (p.dependencyMaps.map fun g =>
      (g.1, if Fields.get? fields g.1 = none then [] else Value.textPairs g.2)) := by
  rw [dependencyMaps, dependencyGroups, List.mapM_cons, List.mapM_cons, List.mapM_cons,
    List.mapM_cons, fieldPairs_group parts.dependencies, fieldPairs_group parts.devDependencies,
    fieldPairs_group parts.peerDependencies, fieldPairs_group parts.optionalDependencies]
  rfl

theorem dependencyMaps_agree_iff (parts : Package.Parts fields p) :
    dependencyMaps (.object fields) =
        .ok (p.dependencyMaps.map fun g => (g.1, Value.textPairs g.2)) ↔
      ∀ g ∈ p.dependencyMaps, Fields.get? fields g.1 = none → g.2 = [] := by
  rw [dependencyMaps_eq parts, Except.ok.injEq, List.map_inj_left]
  refine forall₂_congr fun g _ => ?_
  rw [Prod.mk.injEq, eq_self, true_and]
  split_ifs with absent
  · rw [eq_comm, Value.textPairs, List.map_eq_nil_iff, forall_prop_of_true absent]
  · exact iff_of_true rfl (absurd · absent)

/-! ## Sizes -/

/-- A size as a document answers it. -/
def statedSize (dist : Fields) (key : String) : Value :=
  (givenField? dist key).getD (.number 0)

/-- Whether a size is under the registry's key, as what counts as an amount; zero may be absent. -/
def StatesSize (dist : Fields) (key : String) (n : Nat) : Prop :=
  match Fields.get? dist key with
  | some (.text _) => False
  | some _ => True
  | none => n = 0

/-- The distribution that is answered is the one that is read. -/
theorem distribution_parts (parts : Package.Parts fields p) :
    Distribution.Parts (distribution fields) p.dist := by
  have read := parts.dist
  rw [fieldOr_cons] at read
  unfold distribution
  cases found : Fields.get? fields "dist" with
  | none =>
    rw [found] at read
    rw [← Checked.valid.inj read]
    exact Distribution.check_eq_valid_iff.1 rfl
  | some v =>
    rw [found] at read
    have accepted := Checked.inside_eq_valid.1 read
    cases v with
    | null => exact Distribution.check_eq_valid_iff.1 accepted
    | object inner => exact Distribution.check_eq_valid_iff.1 accepted
    | _ => cases accepted

theorem sizeMetrics_eq (parts : Package.Parts fields p) :
    sizeMetrics (.object fields) = .ok
      [("unpacked_size", statedSize (distribution fields) "unpackedSize"),
       ("file_count", statedSize (distribution fields) "fileCount"),
       ("tarball_size", statedSize (distribution fields) "size")] := by
  have read := parts.dist
  rw [fieldOr_cons] at read
  rw [sizeMetrics]
  unfold distribution
  cases found : Fields.get? fields "dist" with
  | none =>
    rw [givenField?, found]
    rfl
  | some v =>
    rw [found] at read
    have accepted := Checked.inside_eq_valid.1 read
    cases v with
    | null =>
      rw [givenField?, found]
      rfl
    | object inner =>
      rw [givenField_of_object found]
      cases inner <;> rfl
    | _ => cases accepted

theorem sameKey_of_number {v : Value} {a : Number} (amount : v.number? = some a)
    (read : Check.size v = .valid n) :
    ((if v.isGiven then some v else none).getD (.number 0)).sameKey (.nat n) = true := by
  have given : v ≠ .null := by
    rintro rfl
    cases amount
  obtain ⟨k, whole, size⟩ := Check.exists_whole_of_size given read
  have value : a.Is k := Check.is_of_whole amount whole
  rw [size, Int.cast_natCast] at value
  cases isGiven : v.isGiven with
  | true => exact (Value.sameKey_number amount value).2 rfl
  | false =>
    have zero : (n : ℚ) = 0 :=
      value.value.symm.trans (Value.is_zero_of_not_given amount isGiven).value
    exact Value.sameKey_zero.2 (Nat.cast_eq_zero.1 zero)

theorem sameKey_statedSize {others : List String}
    (read : fieldOr (key :: others) 0 .size dist = .valid n) :
    (statedSize dist key).sameKey (.nat n) = true ↔ StatesSize dist key n := by
  rw [fieldOr_cons] at read
  unfold statedSize StatesSize givenField?
  cases found : Fields.get? dist key with
  | none => exact Value.sameKey_zero
  | some v =>
    rw [found] at read
    have accepted := Checked.inside_eq_valid.1 read
    cases v with
    | null =>
      have zero : Check.size .null = .valid 0 := Check.size_nat 0
      rw [zero] at accepted
      exact iff_of_true (Value.sameKey_zero.2 (Checked.valid.inj accepted).symm) trivial
    | text s =>
      refine iff_of_false ?_ not_false
      by_cases empty : s = ""
      · have given : Value.text s ≠ .null := nofun
        obtain ⟨k, whole, -⟩ := Check.exists_whole_of_size given accepted
        rw [empty] at whole
        exact absurd whole (Check.whole_empty k)
      · have given : (Value.text s).isGiven = true := by
          simp [Value.isGiven, empty]
        simp only [given]
        exact Bool.false_ne_true
    | bool b => exact iff_of_true (sameKey_of_number rfl accepted) trivial
    | number m => exact iff_of_true (sameKey_of_number rfl accepted) trivial
    | _ => cases accepted

theorem sizes_agree_iff (parts : Package.Parts fields p) :
    ∃ sizes, sizeMetrics (.object fields) = .ok sizes ∧
      (List.Forall₂ (fun s t => s.1 = t.1 ∧ s.2.sameKey t.2 = true) sizes p.sizeMetrics ↔
        StatesSize (distribution fields) "unpackedSize" p.dist.unpackedSize ∧
          StatesSize (distribution fields) "fileCount" p.dist.fileCount ∧
          StatesSize (distribution fields) "size" p.dist.size) := by
  have read := distribution_parts parts
  refine ⟨_, sizeMetrics_eq parts, ?_⟩
  rw [Package.sizeMetrics, List.forall₂_cons, List.forall₂_cons, List.forall₂_cons,
    sameKey_statedSize read.unpackedSize, sameKey_statedSize read.fileCount,
    sameKey_statedSize read.size]
  simp

/-! ## All answers -/

/-- An accepted document answers the scripts of its package, its dependencies just when each group
that is not empty is under the registry's key, and its sizes just when each is an amount under the
registry's key, or zero and nowhere. -/
theorem answers_of_check (accepted : Package.check (.object fields) = .valid p) :
    lifecycleScripts (.object fields) = .ok p.lifecycleScripts ∧
      allScripts (.object fields) = .ok (p.scripts.map fun f => (.text f.1, f.2)) ∧
      (dependencyMaps (.object fields) =
          .ok (p.dependencyMaps.map fun g => (g.1, Value.textPairs g.2)) ↔
        ∀ g ∈ p.dependencyMaps, Fields.get? fields g.1 = none → g.2 = []) ∧
      ∃ sizes, sizeMetrics (.object fields) = .ok sizes ∧
        (List.Forall₂ (fun s t => s.1 = t.1 ∧ s.2.sameKey t.2 = true) sizes p.sizeMetrics ↔
          StatesSize (distribution fields) "unpackedSize" p.dist.unpackedSize ∧
            StatesSize (distribution fields) "fileCount" p.dist.fileCount ∧
            StatesSize (distribution fields) "size" p.dist.size) := by
  have parts := Package.check_eq_valid_iff.1 accepted
  exact ⟨lifecycleScripts_eq parts, allScripts_eq parts, dependencyMaps_agree_iff parts,
    sizes_agree_iff parts⟩

/-- A document with the registry's keys and sizes as amounts of several kinds. -/
theorem answers_of_check_amounts :
    let fields : Fields := [("name", .text "p"), ("scripts", .object [("install", .text "make")]),
      ("devDependencies", .object [("a", .text "1")]), ("optional_dependencies", .null),
      ("dist", .object [("unpackedSize", .bool true), ("fileCount", .null), ("size", .int 7)])]
    ∃ p, Package.check (.object fields) = .valid p ∧
      lifecycleScripts (.object fields) = .ok p.lifecycleScripts ∧
      dependencyMaps (.object fields) =
        .ok (p.dependencyMaps.map fun g => (g.1, Value.textPairs g.2)) ∧
      ∃ sizes, sizeMetrics (.object fields) = .ok sizes ∧
        List.Forall₂ (fun s t => s.1 = t.1 ∧ s.2.sameKey t.2 = true) sizes p.sizeMetrics := by
  intro fields
  obtain ⟨p, accepted⟩ : ∃ p, Package.check (.object fields) = .valid p := ⟨_, rfl⟩
  obtain ⟨scripts, -, groups, sizes, found, same⟩ := answers_of_check accepted
  cases accepted
  refine ⟨_, rfl, scripts, groups.2 ?_, sizes, found, same.2 ⟨trivial, trivial, trivial⟩⟩
  intro g among absent
  fin_cases among
  · rfl
  · cases absent
  · rfl
  · rfl

/-- A document with a group of dependencies under the field's own key: the package has the group,
and the document answers that it is empty. -/
theorem ownKey_unanswered :
    let fields : Fields :=
      [("name", .text "p"), ("dev_dependencies", .object [("axios", .text "1")])]
    ∃ p, Package.check (.object fields) = .valid p ∧ p.devDependencies = [("axios", "1")] ∧
      dependencyMaps (.object fields) = .ok (dependencyGroups.map (·, [])) ∧
      dependencyMaps (.object fields) ≠
        .ok (p.dependencyMaps.map fun g => (g.1, Value.textPairs g.2)) := by
  intro fields
  refine ⟨_, rfl, rfl, rfl, ?_⟩
  exact nofun

end Document
end PackageRisk
