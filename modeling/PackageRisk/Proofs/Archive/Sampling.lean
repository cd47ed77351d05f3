import Mathlib.Data.List.Nodup
import PackageRisk.Proofs.Archive.Inspection
import PackageRisk.Proofs.Disk.Listing

/-!
# Samples of scripts

Below the destination of an extraction all is as the members' names say (`IsUnpacked`): the
names that lead to a file are names as paths have them, and the file is read by them. An
inspection looks scripts up by their paths again, but by another reading of these: drives are
refused and backslashes separate names. So which file a sample is read from is a matter of the
paths alone (`SampledFrom`), and an inspection ends with a summary just when each script that it
lists has a sample (`inspect_samples_scripts`).
-/

namespace PackageRisk.Archive

open Disk Location

variable {d d' : Disk} {root : Location} {m : Tar.Member} {ms : List Tar.Member}
  {names : List String} {path : String} {content : ByteArray} {f g : PackageFile}
  {files : List PackageFile}

/-! ## Building a package -/

theorem makeRoom_builds (straight : d.Straight [] names) : d.Builds (makeRoom d names).2 := by
  unfold makeRoom
  split_ifs
  · exact .refl
  · exact makePath_builds (straight.mono ( List.dropLast_prefix names))

theorem writeMember_builds (straight : d.Straight [] (namesOf root m.name)) :
    d.Builds (writeMember d root m).2 := by
  have room := makeRoom_builds straight
  have straight' := room.grows.straight straight
  rcases writeMember_disk d root m with ⟨-, same⟩ | ⟨-, same | same | same⟩
  · rw [same]
    exact .refl
  · rwa [same]
  · rw [same]
    exact room.trans (write_builds straight' m.content)
  · rw [same]
    exact room.trans (makeDirectory_builds straight')

theorem writeMembers_builds (straight : ∀ m ∈ ms, d.Straight [] (namesOf root m.name)) :
    d.Builds (writeMembers d root ms).2 := by
  induction ms generalizing d with
  | nil => exact .refl
  | cons m rest ih =>
    rw [List.forall_mem_cons] at straight
    have first := writeMember_builds straight.1
    rw [writeMembers_cons]
    split_ifs
    · exact first.trans (ih fun n mem => first.grows.straight (straight.2 n mem))
    · exact first

/-! ## What was unpacked -/

/-- A name as the components of a path have it, and that can be looked up. -/
def IsFileName (name : String) : Prop :=
  Path.IsName name ∧ IsPlain name ∧ ¬HasNul name

/-- A directory of files, directories and links with names as the components of a path have them. -/
structure IsFileTree (d : Disk) (root : Location) : Prop where
  lists : d.ListsOnce root
  named : ∀ names, d.at? (root ++ names) ≠ none → ∀ name ∈ names, Path.IsName name

/-- A directory with what was extracted to it: files are read by the names that lead to them. -/
structure IsUnpacked (d : Disk) (root : Location) : Prop where
  sound : d.IsSound root
  plain : ∀ name ∈ root, IsPlain name ∧ ¬HasNul name
  named : ∀ names, d.at? (root ++ names) ≠ none → ∀ name ∈ names, IsFileName name

theorem isFileName_of_mem_descend {front : List String} {name : String}
    (noNul : ∀ other ∈ namesOf root path, ¬HasNul other) (initial : front <+: namesOf root path)
    (mem : name ∈ (descend [] front).drop root.length) : IsFileName name := by
  obtain ⟨among, plain⟩ :=
    (mem_of_mem_descend (List.mem_of_mem_drop mem)).resolve_left List.not_mem_nil
  have last : name ∈ (namesOf root path).drop root.length := by
    obtain ⟨back, whole⟩ := initial
    rw [← whole, List.drop_append]
    exact List.mem_append_left _ (drop_descend_subset _ _ mem)
  rw [namesOf, List.drop_left, List.mem_filter] at last
  obtain ⟨piece, split, same⟩ := List.mem_map.1 last.1
  refine ⟨⟨by simpa using last.2, plain.1, fun slash => ?_⟩, plain,
    noNul name (initial.subset among)⟩
  rw [← same, String.toList_ofList] at slash
  cases Path.not_isCut_of_mem_splitWhere split slash

theorem isUnpacked_of_extract (fresh : IsFresh d root)
    (straight : ∀ m ∈ ms, d.Straight [] (namesOf root m.name))
    (extracted : extract d root ms = (.ok (), d')) : IsUnpacked d' root := by
  obtain ⟨passes, rfl⟩ := extract_eq_ok fresh straight extracted
  have sound := (writeMembers_builds straight).isSound
    (isSound_of_empty fresh.directory fresh.empty)
  have noNul : ∀ m ∈ ms, ∀ other ∈ namesOf root m.name, ¬HasNul other := fun m mem =>
    noNul_namesOf (fun name among => (fresh.plain name among).2) (passes m mem).2
  have holds : (writeMembers d root ms).2.Holds fun l _ =>
      root <+: l → l ≠ root → ∀ name ∈ l.drop root.length, IsFileName name := by
    refine writeMembers_holds ?_ straight ?_ ?_
    · intro entry mem below ne
      exact absurd (fresh.empty entry.1 below ne) (at?_ne_none_of_mem mem)
    · intro m mem front initial _ _ name among
      exact isFileName_of_mem_descend (noNul m mem) initial among
    · intro m mem _ _ name among
      exact isFileName_of_mem_descend (noNul m mem) List.prefix_rfl among
  refine ⟨sound, fresh.plain, fun names there name mem => ?_⟩
  obtain ⟨e, held⟩ := Option.ne_none_iff_exists'.1 there
  have below : root <+: root ++ names := List.prefix_append _ _
  have ne : root ++ names ≠ root := by
    intro same
    rw [List.append_right_eq_self.1 same] at mem
    cases mem
  have named := holds _ ((sound.listsOnce.mem_iff below ne).2 held) below ne
  rw [List.drop_left] at named
  exact named name mem

/-- So is the directory of the package. -/
theorem IsUnpacked.packageRoot (unpacked : IsUnpacked d root) :
    IsUnpacked d (packageRoot d root) := by
  unfold Archive.packageRoot
  split
  · next name _ =>
    split_ifs with directory
    · rw [isDirectory_iff] at directory
      have named := unpacked.named [name] (by rw [directory]; exact nofun)
      refine ⟨unpacked.sound.child directory, forall_mem_snoc unpacked.plain ?_, ?_⟩
      · exact (named name List.mem_cons_self).2
      · intro names there other mem
        rw [List.append_assoc] at there
        exact unpacked.named _ there other (List.mem_cons_of_mem _ mem)
    · exact unpacked
  · exact unpacked

theorem IsUnpacked.isFileTree (unpacked : IsUnpacked d root) : IsFileTree d root :=
  ⟨unpacked.sound.listsOnce, fun names there name mem => (unpacked.named names there name mem).1⟩

namespace IsFileTree

theorem named_of_file (files : IsFileTree d root)
    (held : d.at? (root ++ names) = some (.file content)) : ∀ name ∈ names, Path.IsName name :=
  files.named names (by rw [held]; exact nofun)

/-- The files of a package are just those that are below its directory. -/
theorem mem_filesOf_iff (files : IsFileTree d root) :
    f ∈ filesOf d root ↔
      ∃ names, f.path = Text.join "/" names ∧ d.at? (root ++ names) = some (.file f.content) := by
  rw [filesOf, List.mem_mergeSort, List.mem_map]
  constructor
  · rintro ⟨⟨names, content⟩, mem, rfl⟩
    exact ⟨names, rfl, files.lists.mem_filesBelow_iff.1 mem⟩
  · rintro ⟨names, spelled, held⟩
    refine ⟨(names, f.content), files.lists.mem_filesBelow_iff.2 held, ?_⟩
    rw [← spelled]

/-- Files with different names have different paths. -/
theorem nodup_paths (files : IsFileTree d root) :
    ((filesOf d root).map PackageFile.path).Nodup := by
  have perm : ((filesOf d root).map PackageFile.path).Perm
      (((d.filesBelow root).map Prod.fst).map (Text.join "/")) := by
    rw [List.map_map]
    exact ((List.mergeSort_perm _ _).map _).trans (.of_eq (List.map_map ..))
  refine perm.nodup_iff.2 (files.lists.nodup_filesBelow.map_on ?_)
  have isName {names : List String} (mem : names ∈ (d.filesBelow root).map Prod.fst) :
      ∀ name ∈ names, Path.IsName name := by
    obtain ⟨⟨names, held⟩, among, rfl⟩ := List.mem_map.1 mem
    exact files.named_of_file (files.lists.mem_filesBelow_iff.1 among)
  intro names mem names' mem' same
  exact Path.join_inj (isName mem) (isName mem') same

end IsFileTree

/-! ## Looking files up -/

/-- The sample of a file is read from the one that its path leads to with slashes in place of its
backslashes; a path with a drive or a backslash at its head is not followed. -/
structure SampledFrom (files : List PackageFile) (f g : PackageFile) : Prop where
  noDrive : Path.hasDrive f.path = false
  noBackslash : f.path.toList.head? ≠ some '\\'
  among : g ∈ files
  path : g.path = Text.join "/" (Path.components (Path.forwardSlashes f.path))

theorem insideNames?_eq_some_iff :
    insideNames? path = some names ↔
      (path ≠ "" ∧ path.toList.head? ≠ some '/' ∧ path.toList.head? ≠ some '\\' ∧
        Path.hasDrive path = false ∧ ".." ∉ Path.components (Path.forwardSlashes path)) ∧
      Path.components (Path.forwardSlashes path) = names := by
  have relative : (Path.parse (Path.forwardSlashes path)).isAbsolute = false ↔
      path.toList.head? ≠ some '/' ∧ path.toList.head? ≠ some '\\' := by
    rw [← Bool.not_eq_true, Path.isAbsolute_iff, Path.head?_forwardSlashes, not_or]
  have followed : (path.isEmpty || (Path.parse (Path.forwardSlashes path)).isAbsolute ||
        Path.hasDrive path || (Path.parse (Path.forwardSlashes path)).parts.contains "..") =
        false ↔
      path ≠ "" ∧ path.toList.head? ≠ some '/' ∧ path.toList.head? ≠ some '\\' ∧
        Path.hasDrive path = false ∧ ".." ∉ Path.components (Path.forwardSlashes path) := by
    rw [Bool.or_eq_false_iff, Bool.or_eq_false_iff, Bool.or_eq_false_iff, relative,
      Path.parse_parts]
    simp [and_assoc]
  unfold insideNames?
  dsimp only
  split_ifs with refused
  · refine iff_of_false nofun fun passes => ?_
    rw [followed.2 passes.1] at refused
    cases refused
  · rw [Bool.not_eq_true] at refused
    rw [Option.some_inj, and_iff_right (followed.1 refused), Path.parse_parts]

/-- The names of a path that is followed lead down only. -/
theorem plain_of_insideNames (inside : insideNames? path = some names) :
    ∀ name ∈ names, IsPlain name := by
  obtain ⟨⟨-, -, -, -, noUp⟩, rfl⟩ := insideNames?_eq_some_iff.1 inside
  intro name mem
  constructor
  · rintro rfl
    exact Path.dot_notMem_components _ mem
  · rintro rfl
    exact noUp mem

theorem plain_of_inside (unpacked : IsUnpacked d root) (inside : insideNames? path = some names) :
    ∀ name ∈ root ++ names, IsPlain name :=
  List.forall_mem_append.2
    ⟨fun name mem => (unpacked.plain name mem).1, plain_of_insideNames inside⟩

/-- A path that is followed leads to the place of its names. -/
theorem resolveInside_of_inside (unpacked : IsUnpacked d root) (noNul : ¬HasNul path)
    (inside : insideNames? path = some names) :
    resolveInside d root path =
      if names = [] then .error (.invalidPath path) else .ok (root ++ names) := by
  have plain := plain_of_inside unpacked inside
  obtain ⟨-, rfl⟩ := insideNames?_eq_some_iff.1 inside
  have noNuls : ∀ name ∈ root ++ Path.components (Path.forwardSlashes path), ¬HasNul name := by
    refine List.forall_mem_append.2 ⟨fun name mem => (unpacked.plain name mem).2, ?_⟩
    exact fun name mem nul => noNul (hasNul_of_forwardSlashes (hasNul_iff.2 ⟨name, mem, nul⟩))
  have resolves {l : Location} (below : root <+: l) (plain : ∀ name ∈ l, IsPlain name)
      (noNuls : ∀ name ∈ l, ¬HasNul name) : d.resolve l = .ok l := by
    have resolved := resolve_of_straight (unpacked.sound.straight below plain)
      (fun dot => (plain "." dot).1 rfl) noNuls
    rwa [descend_plain plain, List.nil_append] at resolved
  have base := resolves List.prefix_rfl (fun name mem => (unpacked.plain name mem).1)
    fun name mem => (unpacked.plain name mem).2
  have whole := resolves (List.prefix_append _ _) plain noNuls
  have below : (root ++ Path.components (Path.forwardSlashes path)).isWithin root = true :=
    isWithin_iff.2 (List.prefix_append _ _)
  unfold resolveInside
  rw [inside]
  dsimp only
  rw [base]
  dsimp only
  rw [whole]
  simp [below]

/-- The root is no file. -/
theorem IsUnpacked.ne_nil_of_file (unpacked : IsUnpacked d root)
    (file : d.at? (root ++ names) = some (.file content)) : names ≠ [] := by
  rintro rfl
  rw [List.append_nil, unpacked.sound.directory root List.prefix_rfl] at file
  cases file

theorem IsUnpacked.named_of_mem (unpacked : IsUnpacked d root) (mem : f ∈ filesOf d root) :
    ∃ names, f.path = Text.join "/" names ∧ d.at? (root ++ names) = some (.file f.content) ∧
      ∀ name ∈ names, IsFileName name := by
  obtain ⟨names, spelled, held⟩ := unpacked.isFileTree.mem_filesOf_iff.1 mem
  exact ⟨names, spelled, held, unpacked.named names (by rw [held]; exact nofun)⟩

/-- By a path that is followed the file at its place is read. -/
theorem readInside_of_inside (unpacked : IsUnpacked d root) (noNul : ¬HasNul path)
    (inside : insideNames? path = some names) :
    readInside d root path = .ok content ↔ d.at? (root ++ names) = some (.file content) := by
  rw [← unpacked.sound.read_eq_ok_iff (List.prefix_append _ _) (plain_of_inside unpacked inside)]
  constructor
  · intro readable
    obtain ⟨l, resolved, readable⟩ := bind_eq_ok.1 readable
    rw [resolveInside_of_inside unpacked noNul inside] at resolved
    split_ifs at resolved
    cases resolved
    split at readable
    · next old same =>
      cases readable
      exact same
    · cases readable
  · intro same
    have file := (unpacked.sound.read_eq_ok_iff (List.prefix_append _ _)
      (plain_of_inside unpacked inside)).1 same
    refine bind_eq_ok.2 ⟨root ++ names, ?_, ?_⟩
    · rw [resolveInside_of_inside unpacked noNul inside, if_neg (unpacked.ne_nil_of_file file)]
    · rw [same]
      rfl

theorem inside_of_readInside (readable : readInside d root path = .ok content) :
    ∃ names, insideNames? path = some names := by
  obtain ⟨l, resolved, -⟩ := bind_eq_ok.1 readable
  unfold resolveInside at resolved
  rcases inside : insideNames? path with _ | names
  · rw [inside] at resolved
    cases resolved
  · exact ⟨names, rfl⟩

/-- The path of a file is followed to the file that its sample is read from. -/
theorem SampledFrom.inside (sampled : SampledFrom (filesOf d root) f g)
    (unpacked : IsUnpacked d root) (mem : f ∈ filesOf d root) :
    ∃ parts, insideNames? f.path = some parts ∧
      d.at? (root ++ parts) = some (.file g.content) := by
  obtain ⟨noDrive, noBackslash, among, path⟩ := sampled
  obtain ⟨names, spelled, -, named⟩ := unpacked.named_of_mem mem
  obtain ⟨parts, spelled', file, namedParts⟩ := unpacked.named_of_mem among
  -- no name of a file has a slash, so one path has no other names
  have components : Path.components (Path.forwardSlashes f.path) = parts :=
    Path.join_inj (fun name => Path.isName_of_mem_components)
      (fun name mem => (namedParts name mem).1) (path.symm.trans spelled')
  refine ⟨parts, insideNames?_eq_some_iff.2 ⟨⟨?_, ?_, noBackslash, noDrive, ?_⟩, components⟩, file⟩
  · intro empty
    rw [empty] at components
    exact unpacked.ne_nil_of_file file components.symm
  · rw [spelled]
    exact Path.head?_join_ne_slash fun name mem => (named name mem).1
  · rw [components]
    exact fun up => (namedParts ".." up).2.1.2 rfl

theorem sampledFrom_of_inside (unpacked : IsUnpacked d root)
    (inside : insideNames? f.path = some names)
    (file : d.at? (root ++ names) = some (.file content)) :
    SampledFrom (filesOf d root) f ⟨Text.join "/" names, content⟩ := by
  obtain ⟨⟨-, -, noBackslash, noDrive, -⟩, components⟩ := insideNames?_eq_some_iff.1 inside
  refine ⟨noDrive, noBackslash, ?_, ?_⟩
  · exact unpacked.isFileTree.mem_filesOf_iff.2 ⟨names, rfl, file⟩
  · rw [components]

/-- What is read for a file of a package. -/
theorem readInside_eq_ok_iff (unpacked : IsUnpacked d root) (mem : f ∈ filesOf d root) :
    readInside d root f.path = .ok content ↔
      ∃ g, SampledFrom (filesOf d root) f g ∧ g.content = content := by
  obtain ⟨names, spelled, -, named⟩ := unpacked.named_of_mem mem
  have noNul : ¬HasNul f.path := by
    rw [spelled]
    exact noNul_join fun name mem => (named name mem).2.2
  constructor
  · intro readable
    obtain ⟨parts, inside⟩ := inside_of_readInside readable
    have file := (readInside_of_inside unpacked noNul inside).1 readable
    exact ⟨_, sampledFrom_of_inside unpacked inside file, rfl⟩
  · rintro ⟨g, sampled, rfl⟩
    obtain ⟨parts, inside, file⟩ := sampled.inside unpacked mem
    exact (readInside_of_inside unpacked noNul inside).2 file

/-- A file without a backslash in its path is sampled from itself, or not at all. -/
theorem sampledFrom_self_iff (unpacked : IsUnpacked d root) (mem : f ∈ filesOf d root)
    (noBackslash : '\\' ∉ f.path.toList) :
    SampledFrom (filesOf d root) f g ↔ Path.hasDrive f.path = false ∧ g = f := by
  obtain ⟨names, spelled, held, named⟩ := unpacked.named_of_mem mem
  have path : f.path = Text.join "/" (Path.components (Path.forwardSlashes f.path)) := by
    rw [Path.forwardSlashes_of_notMem noBackslash, spelled,
      Path.components_join fun name mem => (named name mem).1]
  constructor
  · rintro ⟨noDrive, -, among, path'⟩
    obtain ⟨names', spelled', held', named'⟩ := unpacked.named_of_mem among
    refine ⟨noDrive, ?_⟩
    rw [← path, spelled, spelled'] at path'
    have same := Path.join_inj (fun name mem => (named' name mem).1)
      (fun name mem => (named name mem).1) path'
    rw [same, held] at held'
    obtain ⟨fpath, fcontent⟩ := f
    obtain ⟨gpath, gcontent⟩ := g
    cases held'
    exact congrArg (PackageFile.mk · fcontent) (spelled'.trans (path'.trans spelled.symm))
  · rintro ⟨noDrive, rfl⟩
    refine ⟨noDrive, fun head => noBackslash (List.mem_of_head? head), mem, path⟩

/-! ## Summaries -/

/-- How a file is listed by an inspection that measures entropies: a script with the entropy of
the first octets of the file that it is sampled from, and any other file without one. -/
structure Lists (files : List PackageFile) (f : PackageFile) (r : ArchiveFile) : Prop where
  path : r.path = f.path
  size : r.size = f.size
  script : isScript f.path = true → ∃ g, SampledFrom files f g ∧
    r.entropy = some (entropy (g.content.extract 0 sampleSize).toList)
  other : isScript f.path = false → r.entropy = none

theorem fileEntropy_eq_ok_iff (unpacked : IsUnpacked d root) (mem : f ∈ filesOf d root)
    {measured : Option Binary64} :
    fileEntropy d root f.path = .ok measured ↔
      (isScript f.path = true → ∃ g, SampledFrom (filesOf d root) f g ∧
        measured = some (entropy (g.content.extract 0 sampleSize).toList)) ∧
      (isScript f.path = false → measured = none) := by
  unfold fileEntropy
  by_cases script : isScript f.path = true
  · rw [if_neg (by simp [script])]
    constructor
    · intro found
      obtain ⟨content, readable, ⟨⟩⟩ := bind_eq_ok.1 found
      obtain ⟨g, sampled, rfl⟩ := (readInside_eq_ok_iff unpacked mem).1 readable
      refine ⟨fun _ => ⟨g, sampled, rfl⟩, fun other => ?_⟩
      rw [script] at other
      cases other
    · rintro ⟨found, -⟩
      obtain ⟨g, sampled, rfl⟩ := found script
      exact bind_eq_ok.2 ⟨_, (readInside_eq_ok_iff unpacked mem).2 ⟨g, sampled, rfl⟩, rfl⟩
  · simp [script, eq_comm]

theorem describe_eq_ok_iff (unpacked : IsUnpacked d root) (among : files ⊆ filesOf d root)
    {listed : List ArchiveFile} :
    describe d root true files = .ok listed ↔
      List.Forall₂ (Lists (filesOf d root)) files listed := by
  induction files generalizing listed with
  | nil =>
    constructor
    · rintro ⟨⟩
      exact .nil
    · rintro ⟨⟩
      rfl
  | cons f rest ih =>
    rw [List.cons_subset] at among
    rw [describe_cons, if_pos rfl]
    constructor
    · intro described
      obtain ⟨measured, found, described⟩ := bind_eq_ok.1 described
      obtain ⟨later, others, ⟨⟩⟩ := bind_eq_ok.1 described
      obtain ⟨script, other⟩ := (fileEntropy_eq_ok_iff unpacked among.1).1 found
      exact .cons ⟨rfl, rfl, script, other⟩ ((ih among.2).1 others)
    · rintro (_ | ⟨⟨path, size, script, other⟩, others⟩)
      refine bind_eq_ok.2 ⟨_, (fileEntropy_eq_ok_iff unpacked among.1).2 ⟨script, other⟩, ?_⟩
      refine bind_eq_ok.2 ⟨_, (ih among.2).2 others, ?_⟩
      rw [← path, ← size]

theorem exists_forall₂_iff {α β : Type} {R : α → β → Prop} {items : List α} :
    (∃ results, List.Forall₂ R items results) ↔ ∀ item ∈ items, ∃ result, R item result := by
  induction items with
  | nil => exact iff_of_true ⟨[], .nil⟩ (List.forall_mem_nil _)
  | cons item rest ih =>
    rw [List.forall_mem_cons, ← ih]
    constructor
    · rintro ⟨_, _ | ⟨first, others⟩⟩
      exact ⟨⟨_, first⟩, _, others⟩
    · rintro ⟨⟨result, first⟩, results, others⟩
      exact ⟨result :: results, .cons first others⟩

theorem exists_lists_iff :
    (∃ r, Lists files f r) ↔ (isScript f.path = true → ∃ g, SampledFrom files f g) := by
  constructor
  · rintro ⟨r, listed⟩ script
    obtain ⟨g, sampled, -⟩ := listed.script script
    exact ⟨g, sampled⟩
  · intro sampled
    by_cases script : isScript f.path = true
    · obtain ⟨g, sampled⟩ := sampled script
      refine ⟨⟨f.path, f.size, some _⟩, rfl, rfl, fun _ => ⟨g, sampled, rfl⟩, fun other => ?_⟩
      rw [script] at other
      cases other
    · exact ⟨⟨f.path, f.size, none⟩, rfl, rfl, fun is => absurd is script, fun _ => rfl⟩

theorem noLinks_workDisk : workDisk.NoLinks := by
  intro l target
  rw [at?_workDisk]
  split_ifs <;> simp

/-- What is below the destination once members were extracted to it. -/
def unpackedDisk (ms : List Tar.Member) : Disk :=
  (extract workDisk ["tmp", "p", "extract"] ms).2

theorem extract_workDisk
    (done : (extract workDisk ["tmp", "p", "extract"] ms).1.toOption.isSome = true) :
    extract workDisk ["tmp", "p", "extract"] ms = (.ok (), unpackedDisk ms) := by
  unfold unpackedDisk
  generalize extract workDisk ["tmp", "p", "extract"] ms = outcome at done
  rcases outcome with ⟨e | _, later⟩
  · cases done
  · rfl

/-- A package with a script, with another one whose path reads like that of the first, and with a
text. -/
def scriptMembers : List Tar.Member :=
  [⟨"package/a/b.js", .file, "hhhh".toUTF8⟩, ⟨"package/a\\b.js", .file, "hi".toUTF8⟩,
    ⟨"package/README.md", .file, "x".toUTF8⟩]

/-- A member with a colon where a drive has it. -/
def driveMember : Tar.Member := ⟨"package/c:x.js", .file, "hi".toUTF8⟩

end PackageRisk.Archive
