import PackageRisk.Proofs.Package.Parts
import PackageRisk.Proofs.Packument

/-!
# Metadata from two documents

The metadata of a version are put together from the document about the version and, where that is
silent, from the document about the package (`Assembled`). Eight fields are chosen from both by what
counts as given (`FirstGiven`), and all others are those of the version (`OwnParts`). A lookup ends
with metadata just when they are assembled so and pass the check of packages
(`RegistryClient.metadata_eq_ok_iff`, `Packument.check_assemble_eq_valid_iff`).
-/

namespace PackageRisk

namespace Packument

variable {package version key name : String} {document fields : Fields} {v u otherwise : Value}
  {vs : List Value} {m : Package} {keys : List String}

/-! ## Choices -/

/-- The first of several values that counts as given, or what stands in if none does. -/
inductive FirstGiven (otherwise : Value) : List Value → Value → Prop
  | here {v : Value} {rest : List Value} (given : v.isGiven = true) :
    FirstGiven otherwise (v :: rest) v
  | later {v u : Value} {rest : List Value} (missing : v.isGiven = false)
    (after : FirstGiven otherwise rest u) : FirstGiven otherwise (v :: rest) u
  | none : FirstGiven otherwise [] otherwise

theorem FirstGiven.unique (first : FirstGiven otherwise vs v)
    (first' : FirstGiven otherwise vs u) : v = u := by
  induction first with
  | here given =>
    cases first' with
    | here => rfl
    | later missing => rw [given] at missing; cases missing
  | later missing _ ih =>
    cases first' with
    | here given => rw [missing] at given; cases given
    | later _ after => exact ih after
  | none =>
    cases first'
    rfl

theorem firstGiven_append (vs : List Value) :
    FirstGiven otherwise vs (firstGiven (vs ++ [otherwise])) := by
  induction vs with
  | nil => exact .none
  | cons v rest ih =>
    have next : firstGiven (v :: rest ++ [otherwise]) =
        v.orElse (firstGiven (rest ++ [otherwise])) := by
      cases rest <;> rfl
    rw [next, Value.orElse]
    split_ifs with given
    · exact .here given
    · exact .later (Bool.eq_false_iff.2 given) ih

/-- What stands in may be looked at itself before. -/
theorem FirstGiven.append (first : FirstGiven otherwise vs v) :
    FirstGiven otherwise (vs ++ [otherwise]) v := by
  induction first with
  | here given => exact .here given
  | later missing _ ih => exact .later missing ih
  | none =>
    cases given : otherwise.isGiven with
    | true => exact .here given
    | false => exact .later given .none

theorem firstGiven_iff (vs : List Value) :
    FirstGiven otherwise (vs ++ [otherwise]) v ↔ firstGiven (vs ++ [otherwise]) = v := by
  have holds : FirstGiven otherwise (vs ++ [otherwise]) (firstGiven (vs ++ [otherwise])) :=
    (firstGiven_append vs).append
  constructor
  · exact holds.unique
  · rintro rfl
    exact holds

/-- A text or an object. -/
def IsTextOrObject (v : Value) : Prop :=
  ∃ t : TextOrObject, t.toValue = v

/-- The license that a value stands for: itself or the first item of it, if that is a text or an
object, and else none. -/
inductive LicenseForm : Value → Value → Prop
  | self {v : Value} (own : IsTextOrObject v) : LicenseForm v v
  | first {v : Value} {rest : List Value} (own : IsTextOrObject v) : LicenseForm (.list (v :: rest)) v
  | none {v : Value} (notSelf : ¬IsTextOrObject v)
    (notFirst : ∀ u rest, v = .list (u :: rest) → ¬IsTextOrObject u) : LicenseForm v .null

theorem isTextOrObject_text (s : String) : IsTextOrObject (.text s) :=
  ⟨.text s, rfl⟩

theorem isTextOrObject_object (fs : Fields) : IsTextOrObject (.object fs) :=
  ⟨.object fs, rfl⟩

theorem not_isTextOrObject (notText : ∀ s, v ≠ .text s) (notObject : ∀ fs, v ≠ .object fs) :
    ¬IsTextOrObject v := by
  rintro ⟨t, rfl⟩
  cases t with
  | text s => exact notText s rfl
  | object fs => exact notObject fs rfl

theorem LicenseForm.unique {a : Value} (form : LicenseForm a v) (form' : LicenseForm a u) :
    v = u := by
  cases form with
  | self own =>
    cases form' with
    | self => rfl
    | first => exact absurd own (not_isTextOrObject nofun nofun)
    | none notSelf => exact absurd own notSelf
  | first own =>
    cases form' with
    | self list => exact absurd list (not_isTextOrObject nofun nofun)
    | first => rfl
    | none _ notFirst => exact absurd own (notFirst _ _ rfl)
  | none notSelf notFirst =>
    cases form' with
    | self own => exact absurd own notSelf
    | first own => exact absurd own (notFirst _ _ rfl)
    | none => rfl

/-- The license is a form of the first given of four values. -/
theorem exists_licenseForm (document fields : Fields) :
    ∃ chosen, FirstGiven (field document "licenses")
        [field fields "license", field fields "licenses", field document "license",
          field document "licenses"] chosen ∧
      LicenseForm chosen (licenseOf document fields) := by
  refine ⟨_, (firstGiven_append [_, _, _]).append, ?_⟩
  have whole : [field fields "license", field fields "licenses", field document "license"] ++
      [field document "licenses"] = [field fields "license", field fields "licenses",
        field document "license", field document "licenses"] := rfl
  rw [whole, licenseOf]
  generalize firstGiven _ = chosen
  cases chosen with
  | text s => exact .self (isTextOrObject_text s)
  | object fs => exact .self (isTextOrObject_object fs)
  | list items =>
    cases items with
    | nil => exact .none (not_isTextOrObject nofun nofun) nofun
    | cons first rest =>
      cases first with
      | text s => exact .first (isTextOrObject_text s)
      | object fs => exact .first (isTextOrObject_object fs)
      | _ =>
        refine .none (not_isTextOrObject nofun nofun) fun u rest same => ?_
        cases same
        exact not_isTextOrObject nofun nofun
  | _ => exact .none (not_isTextOrObject nofun nofun) nofun

/-! ## Assembled fields -/

/-- What a field is chosen as: the version's own, or else the package's, or else the version's as it
is. -/
def Shared (document fields : Fields) (key : String) (v : Value) : Prop :=
  FirstGiven (field fields key) [field fields key, field document key] v

theorem get?_withShared :
    Fields.get? (withShared document fields key) name =
      if name = key ∧ (field fields key).isGiven = false ∧ (field document key).isGiven = true then
        some (field document key)
      else Fields.get? fields name := by
  unfold withShared
  dsimp only
  by_cases applies : (field fields key).isGiven = false ∧ (field document key).isGiven = true
  · rw [applies.1, applies.2]
    simp only [Bool.not_false, Bool.true_and, if_true, Fields.get?_put, and_true]
  · have kept : ¬((!(field fields key).isGiven && (field document key).isGiven) = true) := by
      rw [Bool.and_eq_true, Bool.not_eq_true']
      exact applies
    rw [if_neg kept, if_neg fun all => applies all.2]

/-- Each shared field is chosen, and all others are kept. -/
theorem get?_foldl_withShared :
    Fields.get? (keys.foldl (withShared document) fields) name =
      if name ∈ keys ∧ (field fields name).isGiven = false ∧
          (field document name).isGiven = true then some (field document name)
      else Fields.get? fields name := by
  induction keys generalizing fields with
  | nil => simp
  | cons key rest ih =>
    rw [List.foldl_cons, ih, get?_withShared]
    by_cases here : name = key
    · subst here
      by_cases applies : (field fields name).isGiven = false ∧ (field document name).isGiven = true
      · have chosen : field (withShared document fields name) name = field document name := by
          rw [field, get?_withShared, if_pos ⟨rfl, applies⟩]
          rfl
        simp [chosen, applies]
      · have kept : field (withShared document fields name) name = field fields name := by
          rw [field, get?_withShared, if_neg fun all => applies all.2]
          rfl
        rw [kept, if_neg fun all => applies all.2, if_neg fun all => applies all.2,
          if_neg fun all => applies all.2]
    · have kept : field (withShared document fields key) name = field fields name := by
        rw [field, get?_withShared, if_neg fun all => here all.1]
        rfl
      rw [kept]
      simp [here]

/-- What is under a key of the assembled fields. -/
theorem get?_assemble :
    Fields.get? (assemble package version document fields) key =
      if key = "license" then some (licenseOf document fields)
      else if key ∈ sharedKeys ∧ (field fields key).isGiven = false ∧
          (field document key).isGiven = true then some (field document key)
      else if key = "version" then some (.text version)
      else if key = "name" then
        some (firstGiven [field fields "name", field document "name", .text package])
      else Fields.get? fields key := by
  unfold assemble
  dsimp only
  rw [Fields.get?_put, get?_foldl_withShared, Fields.get?_put, Fields.get?_put]
  by_cases shared : key ∈ sharedKeys
  · have own : key ≠ "version" ∧ key ≠ "name" := by
      constructor <;>
      · rintro rfl
        exact absurd shared (by decide)
    have kept : field (Fields.put "version" (.text version) (Fields.put "name"
        (firstGiven [field fields "name", field document "name", .text package]) fields)) key =
        field fields key := by
      rw [field, Fields.get?_put, Fields.get?_put, if_neg own.1, if_neg own.2]
      rfl
    rw [kept]
  · simp only [shared, false_and, if_false]

/-- The shared keys of the assembled fields hold what is chosen. -/
theorem shared_assemble (shared : key ∈ sharedKeys) :
    Shared document fields key (field (assemble package version document fields) key) := by
  have apart : key ≠ "license" ∧ key ≠ "version" ∧ key ≠ "name" := by
    refine ⟨?_, ?_, ?_⟩ <;>
    · rintro rfl
      exact absurd shared (by decide)
  rw [field, get?_assemble, if_neg apart.1, if_neg apart.2.1, if_neg apart.2.2]
  cases own : (field fields key).isGiven with
  | true =>
    rw [if_neg fun all => nomatch all.2.1]
    exact .here own
  | false =>
    cases lent : (field document key).isGiven with
    | true =>
      rw [if_pos ⟨shared, rfl, rfl⟩]
      exact .later own (.here lent)
    | false =>
      rw [if_neg fun all => nomatch all.2.2]
      exact .later own (.later lent .none)

end Packument

/-! ## What the check of packages reads -/

/-- A field for which null stands for the default is read as null if it is absent. -/
theorem fieldOr_eq_valid_iff_field {α : Type} {a default : α} {check : Check α} {key : String}
    {fields : Fields} (null : check .null = .valid default) :
    fieldOr [key] default check fields = .valid a ↔
      check (Packument.field fields key) = .valid a := by
  rw [fieldOr_cons, Packument.field]
  cases Fields.get? fields key with
  | none =>
    show Checked.valid default = _ ↔ check .null = _
    rw [null]
  | some v => exact Checked.inside_eq_valid

/-- Parts of a package that are read from the document about the version alone. -/
structure Package.OwnParts (fields : Fields) (m : Package) : Prop where
  scripts : fieldOr ["scripts"] [] (.orEmptyObject .object) fields = .valid m.scripts
  dependencies : fieldOr ["dependencies"] [] .versions fields = .valid m.dependencies
  devDependencies :
    fieldOr ["devDependencies", "dev_dependencies"] [] .versions fields = .valid m.devDependencies
  peerDependencies : fieldOr ["peerDependencies", "peer_dependencies"] [] .versions fields =
    .valid m.peerDependencies
  optionalDependencies :
    fieldOr ["optionalDependencies", "optional_dependencies"] [] .versions fields =
      .valid m.optionalDependencies
  dist : fieldOr ["dist"] .unknown (.orEmptyObject Distribution.check) fields = .valid m.dist
  files : fieldOr ["files"] [] (.orEmptyList (.list .text)) fields = .valid m.files
  publisher : fieldOr ["_npmUser", "npm_user"] none (.optional Publisher.check) fields =
    .valid m.publisher
  sbom : fieldOr ["sbom"] none (.optional TextOrObject.check) fields = .valid m.sbom

/-! ## Assembled metadata -/

namespace Packument

variable {package version key package' version' : String} {document document' fields : Fields}
  {v : Value} {m m' : Package}

/-- The metadata of a version that is requested under a name, from the document about the package
and the fields of the version. -/
structure Assembled (package version : String) (document fields : Fields) (m : Package) : Prop where
  version : m.version = version
  name : FirstGiven (.text package)
    [field fields "name", field document "name", .text package] (.text m.name)
  description : Shared document fields "description" (.ofText? m.description)
  homepage : Shared document fields "homepage" (.ofText? m.homepage)
  repository : Shared document fields "repository" (.ofTextOrObject? m.repository)
  author : Shared document fields "author" (.ofTextOrObject? m.author)
  maintainers :
    Shared document fields "maintainers" (.list (m.maintainers.map TextOrObject.toValue)) ∨
      Shared document fields "maintainers" .null ∧ m.maintainers = []
  license : ∃ chosen, FirstGiven (field document "licenses")
      [field fields "license", field fields "licenses", field document "license",
        field document "licenses"] chosen ∧
    LicenseForm chosen (.ofTextOrObject? m.license)
  own : m.OwnParts fields

/-- The keys that may be taken from the document about the package, or are set. -/
def assembledKeys : List String := "name" :: "version" :: "license" :: sharedKeys

theorem get?_assemble_of_notMem (own : key ∉ assembledKeys) :
    Fields.get? (assemble package version document fields) key = Fields.get? fields key := by
  simp only [assembledKeys, List.mem_cons, not_or] at own
  obtain ⟨name, version, license, shared⟩ := own
  rw [get?_assemble, if_neg license, if_neg fun all => shared all.1, if_neg version, if_neg name]

theorem shared_iff (shared : key ∈ sharedKeys) :
    Shared document fields key v ↔
      field (assemble package version document fields) key = v := by
  have holds : Shared document fields key (field (assemble package version document fields) key) :=
    shared_assemble shared
  constructor
  · exact holds.unique
  · rintro rfl
    exact holds

/-- The parts of a version depend on what it has under other keys. -/
theorem ownParts_congr {fields' : Fields}
    (same : ∀ key ∉ assembledKeys, Fields.get? fields' key = Fields.get? fields key)
    (own : m.OwnParts fields) : m.OwnParts fields' := by
  have keeps {α : Type} {default : α} {check : Check α} {spellings : List String}
      (apart : ∀ k ∈ spellings, k ∉ assembledKeys) :
      fieldOr spellings default check fields' = fieldOr spellings default check fields :=
    fieldOr_congr fun k mem => same k (apart k mem)
  exact ⟨(keeps (by decide)).trans own.scripts, (keeps (by decide)).trans own.dependencies,
    (keeps (by decide)).trans own.devDependencies, (keeps (by decide)).trans own.peerDependencies,
    (keeps (by decide)).trans own.optionalDependencies, (keeps (by decide)).trans own.dist,
    (keeps (by decide)).trans own.files, (keeps (by decide)).trans own.publisher,
    (keeps (by decide)).trans own.sbom⟩

theorem required_name_iff {s : String} :
    required "name" .text (assemble package version document fields) = .valid s ↔
      FirstGiven (.text package) [field fields "name", field document "name", .text package]
        (.text s) := by
  have found : Fields.get? (assemble package version document fields) "name" = _ := get?_assemble
  have apart : "name" ∉ sharedKeys := by decide
  rw [if_neg (by decide), if_neg fun all => apart all.1, if_neg (by decide), if_pos rfl] at found
  rw [required, found]
  exact Checked.inside_eq_valid.trans (Check.text_eq_valid_iff.trans
    (firstGiven_iff [_, _]).symm)

theorem fieldOr_version_iff {s : String} :
    fieldOr ["version"] "" .text (assemble package version document fields) = .valid s ↔
      s = version := by
  have found : Fields.get? (assemble package version document fields) "version" = _ :=
    get?_assemble
  have apart : "version" ∉ sharedKeys := by decide
  rw [if_neg (by decide), if_neg fun all => apart all.1, if_pos rfl] at found
  rw [fieldOr_cons, found]
  refine Checked.inside_eq_valid.trans (Check.text_eq_valid_iff.trans ?_)
  rw [Value.text.injEq, eq_comm]

theorem fieldOr_license_iff {t : Option TextOrObject} :
    fieldOr ["license"] none (.optional TextOrObject.check)
        (assemble package version document fields) = .valid t ↔
      ∃ chosen, FirstGiven (field document "licenses")
          [field fields "license", field fields "licenses", field document "license",
            field document "licenses"] chosen ∧
        LicenseForm chosen (.ofTextOrObject? t) := by
  have found : Fields.get? (assemble package version document fields) "license" = _ :=
    get?_assemble
  rw [if_pos rfl] at found
  rw [fieldOr_cons, found]
  refine Checked.inside_eq_valid.trans (Check.optional_textOrObject_eq_valid_iff.trans ?_)
  obtain ⟨chosen, first, form⟩ := exists_licenseForm document fields
  constructor
  · intro same
    exact ⟨chosen, first, same ▸ form⟩
  · rintro ⟨chosen', first', form'⟩
    rw [first'.unique first] at form'
    exact form.unique form'

theorem fieldOr_text_iff {key : String} {s : Option String} (shared : key ∈ sharedKeys) :
    fieldOr [key] none (.optional .text) (assemble package version document fields) = .valid s ↔
      Shared document fields key (.ofText? s) := by
  have null : Check.optional .text .null = .valid none := rfl
  rw [fieldOr_eq_valid_iff_field null, Check.optional_text_eq_valid_iff, shared_iff shared]

theorem fieldOr_textOrObject_iff {key : String} {t : Option TextOrObject}
    (shared : key ∈ sharedKeys) :
    fieldOr [key] none (.optional TextOrObject.check)
        (assemble package version document fields) = .valid t ↔
      Shared document fields key (.ofTextOrObject? t) := by
  have null : Check.optional TextOrObject.check .null = .valid none := rfl
  rw [fieldOr_eq_valid_iff_field null, Check.optional_textOrObject_eq_valid_iff,
    shared_iff shared]

theorem fieldOr_maintainers_iff {ts : List TextOrObject} :
    fieldOr ["maintainers"] [] (.orEmptyList (.list TextOrObject.check))
        (assemble package version document fields) = .valid ts ↔
      Shared document fields "maintainers" (.list (ts.map TextOrObject.toValue)) ∨
        Shared document fields "maintainers" .null ∧ ts = [] := by
  have null : Check.orEmptyList (.list TextOrObject.check) .null = .valid [] := rfl
  rw [fieldOr_eq_valid_iff_field null, Check.orEmptyList_textOrObject_eq_valid_iff,
    shared_iff (by decide), shared_iff (by decide)]

/-- The check accepts what is assembled just when it accepts each of the parts. -/
theorem check_assemble_eq_valid_iff :
    Package.check (.object (assemble package version document fields)) = .valid m ↔
      Assembled package version document fields m := by
  rw [Package.check_eq_valid_iff]
  constructor
  · intro parts
    exact {
      version := fieldOr_version_iff.1 parts.version
      name := required_name_iff.1 parts.name
      description := (fieldOr_text_iff (by decide)).1 parts.description
      homepage := (fieldOr_text_iff (by decide)).1 parts.homepage
      repository := (fieldOr_textOrObject_iff (by decide)).1 parts.repository
      author := (fieldOr_textOrObject_iff (by decide)).1 parts.author
      maintainers := fieldOr_maintainers_iff.1 parts.maintainers
      license := fieldOr_license_iff.1 parts.license
      own := ownParts_congr (fun key own => (get?_assemble_of_notMem own).symm)
        ⟨parts.scripts, parts.dependencies, parts.devDependencies, parts.peerDependencies,
          parts.optionalDependencies, parts.dist, parts.files, parts.publisher, parts.sbom⟩ }
  · intro assembled
    have own : m.OwnParts (assemble package version document fields) :=
      ownParts_congr (fun key own => get?_assemble_of_notMem own) assembled.own
    exact {
      version := fieldOr_version_iff.2 assembled.version
      name := required_name_iff.2 assembled.name
      description := (fieldOr_text_iff (by decide)).2 assembled.description
      homepage := (fieldOr_text_iff (by decide)).2 assembled.homepage
      repository := (fieldOr_textOrObject_iff (by decide)).2 assembled.repository
      author := (fieldOr_textOrObject_iff (by decide)).2 assembled.author
      maintainers := fieldOr_maintainers_iff.2 assembled.maintainers
      license := fieldOr_license_iff.2 assembled.license
      scripts := own.scripts
      dependencies := own.dependencies
      devDependencies := own.devDependencies
      peerDependencies := own.peerDependencies
      optionalDependencies := own.optionalDependencies
      dist := own.dist
      files := own.files
      publisher := own.publisher
      sbom := own.sbom }

/-- Metadata that are assembled from the same fields of a version differ in nothing but what may be
taken from the document about the package, or is set. -/
theorem Assembled.agree (assembled : Assembled package version document fields m)
    (assembled' : Assembled package' version' document' fields m') :
    m' = { m with
      name := m'.name, version := m'.version, description := m'.description,
      homepage := m'.homepage, repository := m'.repository, author := m'.author,
      maintainers := m'.maintainers, license := m'.license } := by
  have own := assembled.own
  have own' := assembled'.own
  have read {α : Type} {x : Checked α} {a b : α} (first : x = .valid a) (second : x = .valid b) :
      b = a := Checked.valid.inj (second.symm.trans first)
  have scripts := read own.scripts own'.scripts
  have dependencies := read own.dependencies own'.dependencies
  have devDependencies := read own.devDependencies own'.devDependencies
  have peerDependencies := read own.peerDependencies own'.peerDependencies
  have optionalDependencies := read own.optionalDependencies own'.optionalDependencies
  have dist := read own.dist own'.dist
  have files := read own.files own'.files
  have publisher := read own.publisher own'.publisher
  have sbom := read own.sbom own'.sbom
  cases m'
  simp only at *
  subst scripts dependencies devDependencies peerDependencies optionalDependencies dist files
    publisher sbom
  rfl

theorem describe_eq_ok_iff {wanted : Value} :
    describe package wanted document (.object fields) = .ok m ↔
      Package.check (.object (assemble package wanted.plain document fields)) = .valid m := by
  unfold describe
  dsimp only
  generalize Package.check (.object (assemble package wanted.plain document fields)) = outcome
  cases outcome with
  | valid m' => rw [Except.ok.injEq, Checked.valid.injEq]
  | invalid issues => exact iff_of_false nofun nofun

end Packument

namespace RegistryClient

open Packument

variable {r : RegistryClient} {package v : String} {net : Network} {w : Workspace}
  {document versions fields tags : Fields} {m : Package}

/-- A lookup of a version that the document describes checks what is assembled for it. -/
theorem metadata_eq_ok_iff (fetched : (r.packument package net w).1 = .ok document)
    (named : field document "versions" = .object versions)
    (there : Fields.get? versions v = some (.object fields)) :
    (r.metadata package (some (.text v)) net w).1 = .ok m ↔
      Package.check (.object (assemble package v document fields)) = .valid m := by
  have under : mapUnder document "versions" = .ok versions := by
    refine mapUnder_eq_ok_iff.2 (.inr ⟨?_, named⟩)
    rw [named]
    cases versions with
    | nil => cases there
    | cons first rest => rfl
  have found : versionUnder versions (.text v) = .ok (.object fields) := by
    rw [versionUnder, field, there, Option.getD_some]
  have described : Packument.version package (some (.text v)) document =
      describe package (.text v) document (.object fields) := by
    rw [version_some, under]
    exact congrArg (· >>= describe package (.text v) document)
      (mapError_eq_ok (f := Failure.fault).2 found)
  have looked : (r.metadata package (some (.text v)) net w).1 =
      describe package (.text v) document (.object fields) := by
    rw [run_metadata, fetched]
    exact described
  rw [looked]
  exact describe_eq_ok_iff

/-- Without a version the one that is tagged as the latest is looked up. -/
theorem metadata_none (fetched : (r.packument package net w).1 = .ok document)
    (tagged : field document "dist-tags" = .object tags)
    (latest : field tags "latest" = .text v) (nonempty : v ≠ "") :
    r.metadata package none net w = r.metadata package (some (.text v)) net w := by
  have given : (field tags "latest").isGiven = true := by
    rw [latest]
    simpa [Value.isGiven] using nonempty
  have sought : Packument.latest package document = .ok (.text v) :=
    seeks_none_iff.1 (latest ▸ .latest tagged given)
  have same : Packument.version package none document =
      Packument.version package (some (.text v)) document := by
    rw [version_none, sought]
    rfl
  have first : r.packument package net w = (.ok document, (r.packument package net w).2) :=
    Prod.ext fetched rfl
  rw [metadata, metadata, Session.bind_of_ok first, Session.bind_of_ok first, same]

/-- A lookup of a version that the document describes ends with metadata just when what is assembled
passes the check, and these are assembled from both documents. Metadata from the same fields of a
version differ in nothing but what both documents decide. Without a version the lookup is that of
the version that is tagged as the latest. -/
theorem metadata_assembled (r : RegistryClient) (package v : String) (net : Network)
    (w : Workspace) (fetched : (r.packument package net w).1 = .ok document)
    (named : field document "versions" = .object versions)
    (there : Fields.get? versions v = some (.object fields)) :
    (∀ m, (r.metadata package (some (.text v)) net w).1 = .ok m ↔
      Package.check (.object (assemble package v document fields)) = .valid m) ∧
    (∀ m, (r.metadata package (some (.text v)) net w).1 = .ok m ↔
      Assembled package v document fields m) ∧
    (∀ m package' v' document' m', Assembled package v document fields m →
      Assembled package' v' document' fields m' →
        m' = { m with
          name := m'.name, version := m'.version, description := m'.description,
          homepage := m'.homepage, repository := m'.repository, author := m'.author,
          maintainers := m'.maintainers, license := m'.license }) ∧
    ∀ tags, field document "dist-tags" = .object tags → field tags "latest" = .text v → v ≠ "" →
      r.metadata package none net w = r.metadata package (some (.text v)) net w := by
  refine ⟨fun m => metadata_eq_ok_iff fetched named there, fun m => ?_, ?_, ?_⟩
  · rw [metadata_eq_ok_iff fetched named there, check_assemble_eq_valid_iff]
  · exact fun m package' v' document' m' assembled assembled' => assembled.agree assembled'
  · exact fun tags tagged latest nonempty => metadata_none fetched tagged latest nonempty

/-- A registry with one document, about the package `p`. -/
def publishing (text : String) : Network := fun url =>
  if url = "https://registry.npmjs.org/p" then .response 200 none [text.toUTF8]
  else .response 404 none []

/-- The homepage of all versions is given, and that of the only version is not. -/
def sharedHomepage : Network :=
  publishing "\x7b\"homepage\":\"h\",\"dist-tags\":\x7b\"latest\":\"1\"\x7d,\"versions\":\x7b\"1\":\x7b\x7d\x7d\x7d"

/-- It is found, whether the version is named or not. -/
theorem metadata_assembled_sharedHomepage :
    let r := ofUrl "https://registry.npmjs.org" false
    let document : Fields := [("homepage", .text "h"), ("dist-tags", .object [("latest", .text "1")]),
      ("versions", .object [("1", .object [])])]
    (r.packument "p" sharedHomepage default).1 = .ok document ∧
      ∃ m, (r.metadata "p" (some (.text "1")) sharedHomepage default).1 = .ok m ∧
        (r.metadata "p" none sharedHomepage default).1 = .ok m ∧
        Assembled "p" "1" document [] m ∧ m.homepage = some "h" := by
  intro r document
  have fetched : (r.packument "p" sharedHomepage default).1 = .ok document := by cbv
  have named : field document "versions" = .object [("1", .object [])] := rfl
  obtain ⟨checked, assembled, -, latest⟩ := metadata_assembled r "p" "1" sharedHomepage default
    fetched named rfl
  have same := latest [("latest", .text "1")] rfl rfl (by decide)
  have valid : Package.check (.object (assemble "p" "1" document [])) =
      .valid { (default : Package) with
        name := "p", version := "1", homepage := some "h", dist := .unknown } := by cbv
  have found := (checked _).2 valid
  exact ⟨fetched, _, found, same ▸ found, (assembled _).1 found, rfl⟩

/-- The licenses of all versions are an empty text. -/
def blankLicenses : Network :=
  publishing "\x7b\"licenses\":\"\",\"versions\":\x7b\"1.0.0\":\x7b\x7d\x7d\x7d"

/-- No license is given, but the empty text is taken for one. -/
theorem blankLicenses_are_license :
    let r := ofUrl "https://registry.npmjs.org" false
    let document : Fields := [("licenses", .text ""), ("versions", .object [("1.0.0", .object [])])]
    (r.packument "p" blankLicenses default).1 = .ok document ∧
      (∀ v ∈ [field [] "license", field [] "licenses", field document "license",
        field document "licenses"], v.isGiven = false) ∧
      ∃ m, (r.metadata "p" (some (.text "1.0.0")) blankLicenses default).1 = .ok m ∧
        m.license ≠ none := by
  intro r document
  have licensed : ((r.metadata "p" (some (.text "1.0.0")) blankLicenses default).1.toOption.map
      fun m => m.license.isSome) = some true := by decide +kernel
  obtain ⟨m, found, some⟩ := Option.map_eq_some_iff.1 licensed
  refine ⟨by cbv, by decide, m, toOption_eq_some_iff.1 found, fun none => ?_⟩
  rw [none] at some
  cases some

end RegistryClient

end PackageRisk
