import PackageRisk.Archive.Inspect
import PackageRisk.Proofs.Archive.Extraction

/-!
# How an inspection ends

A file below a root is looked up by its path from there. On a disk without links that fails only
for reasons that are about the path, so an inspection of what was extracted ends with no other
failure (`inspect_error`), and the files that it lists are no larger than the archive's members
(`inspect_ok`).
-/

namespace PackageRisk.Archive

open Disk Location

variable {d : Disk} {root : Location}

theorem hasNul_of_forwardSlashes {path : String} (nul : HasNul (Path.forwardSlashes path)) :
    HasNul path := by
  rw [HasNul, Path.forwardSlashes, String.toList_ofList] at nul
  obtain ⟨c, mem, same⟩ := List.mem_map.1 nul
  split_ifs at same
  · cases same
  · rwa [same] at mem

/-- Looking up a path that has no NUL does not fail but for the path. -/
theorem resolveInside_error {path : String} {e : Failure} (noLinks : d.NoLinks)
    (plain : ∀ name ∈ root, IsPlain name ∧ ¬HasNul name) (noNul : ¬HasNul path)
    (failed : resolveInside d root path = .error e) : e.aboutTarball = true := by
  have plainRoot : ∀ name ∈ root, IsPlain name := fun name mem => (plain name mem).1
  have noDot : "." ∉ root := fun mem => (plainRoot "." mem).1 rfl
  have base := resolve_of_straight (noLinks.straight : d.Straight [] root) noDot
    fun name mem => (plain name mem).2
  rw [descend_plain plainRoot, List.nil_append] at base
  unfold resolveInside at failed
  split at failed
  · cases failed
    rfl
  · next names inside =>
    rw [base] at failed
    dsimp only at failed
    have components : names = Path.components (Path.forwardSlashes path) := by
      unfold insideNames? at inside
      dsimp only at inside
      split_ifs at inside
      exact (Option.some.inj inside).symm
    have whole := resolve_of_straight (noLinks.straight : d.Straight [] (root ++ names))
      (by
        rw [List.mem_append, not_or, components]
        exact ⟨noDot, Path.dot_notMem_components _⟩)
      (by
        intro name mem nul
        rcases List.mem_append.1 mem with mem | mem
        · exact (plain name mem).2 nul
        · rw [components] at mem
          exact noNul (hasNul_of_forwardSlashes (hasNul_iff.2 ⟨name, mem, nul⟩)))
    rw [whole] at failed
    dsimp only at failed
    split_ifs at failed
    cases failed
    rfl

theorem readInside_error {path : String} {e : Failure} (noLinks : d.NoLinks)
    (plain : ∀ name ∈ root, IsPlain name ∧ ¬HasNul name) (noNul : ¬HasNul path)
    (failed : readInside d root path = .error e) : e.aboutTarball = true := by
  obtain failed | ⟨l, -, failed⟩ := bind_eq_error.1 failed
  · exact resolveInside_error noLinks plain noNul failed
  · split at failed
    · cases failed
    · cases failed
      rfl

theorem describe_cons {entropies : Bool} {f : PackageFile} {rest : List PackageFile} :
    describe d root entropies (f :: rest) =
      (if entropies then fileEntropy d root f.path else .ok none) >>= fun measured =>
        describe d root entropies rest >>= fun listed =>
          .ok (⟨f.path, f.size, measured⟩ :: listed) := by
  rw [describe]
  split_ifs <;>
  · refine bind_congr fun measured => ?_
    exact bind_congr fun listed => rfl

theorem fileEntropy_error {path : String} {e : Failure} (noLinks : d.NoLinks)
    (plain : ∀ name ∈ root, IsPlain name ∧ ¬HasNul name) (noNul : ¬HasNul path)
    (failed : fileEntropy d root path = .error e) : e.aboutTarball = true := by
  unfold fileEntropy at failed
  split_ifs at failed
  obtain failed | ⟨content, -, ⟨⟩⟩ := bind_eq_error.1 failed
  exact readInside_error noLinks plain noNul failed

theorem describe_error {entropies : Bool} {files : List PackageFile} {e : Failure}
    (noLinks : d.NoLinks) (plain : ∀ name ∈ root, IsPlain name ∧ ¬HasNul name)
    (noNul : ∀ f ∈ files, ¬HasNul f.path) (failed : describe d root entropies files = .error e) :
    e.aboutTarball = true := by
  induction files generalizing e with
  | nil => cases failed
  | cons f rest ih =>
    rw [List.forall_mem_cons] at noNul
    rw [describe_cons] at failed
    obtain failed | ⟨measured, -, failed⟩ := bind_eq_error.1 failed
    · split_ifs at failed
      exact fileEntropy_error noLinks plain noNul.1 failed
    · obtain failed | ⟨listed, -, ⟨⟩⟩ := bind_eq_error.1 failed
      exact ih noNul.2 failed

/-- Files are listed one by one with their paths and sizes. -/
theorem describe_ok {entropies : Bool} {files : List PackageFile} {listed : List ArchiveFile}
    (described : describe d root entropies files = .ok listed) :
    (listed.map fun r => (r.path, r.size)) = files.map fun f => (f.path, (f.size : Int)) := by
  induction files generalizing listed with
  | nil =>
    cases described
    rfl
  | cons f rest ih =>
    rw [describe_cons] at described
    obtain ⟨measured, -, rest⟩ := bind_eq_ok.1 described
    obtain ⟨later, others, ⟨⟩⟩ := bind_eq_ok.1 rest
    rw [List.map_cons, List.map_cons, ih others]

theorem firstOf_subset {α : Type} (n : Int) (items : List α) : firstOf n items ⊆ items := by
  unfold firstOf
  split_ifs <;> exact List.take_subset _ _

/-- A file of a package is one that is below the root. -/
theorem exists_of_mem_filesOf {f : PackageFile} (mem : f ∈ filesOf d root) :
    ∃ entry ∈ d.entries, root <+: entry.1 ∧ entry.1 ≠ root ∧
      entry.2 = .file f.content ∧ f.path = Text.join "/" (entry.1.drop root.length) := by
  rw [filesOf, List.mem_mergeSort, List.mem_map] at mem
  obtain ⟨⟨names, content⟩, mem, rfl⟩ := mem
  obtain ⟨⟨names', e⟩, mem, isFile⟩ := List.mem_filterMap.1 mem
  obtain ⟨entry, among, isBelow⟩ := List.mem_filterMap.1 mem
  split_ifs at isBelow with below
  cases isBelow
  split at isFile
  · next held =>
    cases isFile
    rw [Bool.and_eq_true, Location.isWithin_iff] at below
    refine ⟨entry, among, below.1, ?_, held, rfl⟩
    rintro rfl
    simp at below
  · cases isFile

theorem noNul_join {names : List String} (noNul : ∀ name ∈ names, ¬HasNul name) :
    ¬HasNul (Text.join "/" names) := by
  unfold Text.join
  induction names with
  | nil =>
    rw [String.intercalate_nil]
    decide
  | cons name rest ih =>
    rw [List.forall_mem_cons] at noNul
    rcases eq_or_ne rest [] with rfl | more
    · rw [String.intercalate_singleton]
      exact noNul.1
    · rw [String.intercalate_cons_of_ne_nil more]
      unfold HasNul at *
      rw [String.toList_append, String.toList_append, List.mem_append, List.mem_append, not_or,
        not_or]
      exact ⟨⟨noNul.1, by decide⟩, ih noNul.2⟩

theorem packageRoot_plain {limit : Nat} (holds : d.Holds (Listed root limit))
    (plain : ∀ name ∈ root, IsPlain name ∧ ¬HasNul name) :
    root <+: packageRoot d root ∧
      ∀ name ∈ packageRoot d root, IsPlain name ∧ ¬HasNul name := by
  unfold packageRoot
  split
  · next name only =>
    split_ifs
    · refine ⟨List.prefix_append _ _, fun other mem => ?_⟩
      rcases List.mem_append.1 mem with mem | mem
      · exact plain other mem
      · rw [List.mem_singleton.1 mem]
        obtain ⟨entry, among, here⟩ :=
          List.mem_filterMap.1 (only ▸ List.mem_singleton_self name : name ∈ d.names root)
        split_ifs at here with below
        rw [Bool.and_eq_true, Location.isWithin_iff, beq_iff_eq] at below
        refine (holds entry among below.1 ?_).1 name (List.mem_of_getLast? here)
        rintro same
        rw [same] at below
        omega
    · exact ⟨List.prefix_rfl, plain⟩
  · exact ⟨List.prefix_rfl, plain⟩

theorem filesOf_listed {limit : Nat} {f : PackageFile}
    (plain : ∀ name ∈ root, IsPlain name ∧ ¬HasNul name) (holds : d.Holds (Listed root limit))
    (mem : f ∈ filesOf d (packageRoot d root)) : ¬HasNul f.path ∧ f.size ≤ limit := by
  obtain ⟨within, -⟩ := packageRoot_plain holds plain
  obtain ⟨entry, among, below, ne, held, path⟩ := exists_of_mem_filesOf mem
  have deeper : entry.1 ≠ root := by
    intro same
    rw [same] at below ne
    exact ne (within.eq_of_length_le below.length_le)
  obtain ⟨names, sizes⟩ := holds entry among (within.trans below) deeper
  refine ⟨?_, sizes f.content held⟩
  rw [path]
  exact noNul_join fun name mem => (names name (List.mem_of_mem_drop mem)).2

/-- An inspection fails only for reasons that are about the archive. -/
theorem inspect_error {limit : Nat} {maxFiles size : Int} {entropies : Bool} {e : Failure}
    (noLinks : d.NoLinks) (plain : ∀ name ∈ root, IsPlain name ∧ ¬HasNul name)
    (holds : d.Holds (Listed root limit))
    (failed : inspect d root maxFiles size entropies = .error e) : e.aboutTarball = true := by
  obtain ⟨-, plainRoot⟩ := packageRoot_plain holds plain
  obtain failed | ⟨files, -, ⟨⟩⟩ := bind_eq_error.1 failed
  refine describe_error noLinks plainRoot (fun f mem => ?_) failed
  exact (filesOf_listed plain holds (firstOf_subset maxFiles _ mem)).1

/-- An inspection lists no larger files than there are. -/
theorem inspect_ok {limit : Nat} {maxFiles size : Int} {entropies : Bool} {s : ArchiveSummary}
    {f : ArchiveFile} (plain : ∀ name ∈ root, IsPlain name ∧ ¬HasNul name)
    (holds : d.Holds (Listed root limit))
    (summarised : inspect d root maxFiles size entropies = .ok s) (mem : f ∈ s.largestFiles) :
    0 ≤ f.size ∧ f.size ≤ limit := by
  obtain ⟨files, described, ⟨⟩⟩ := bind_eq_ok.1 summarised
  obtain ⟨g, among, same⟩ := List.mem_map.1 (describe_ok described ▸ List.mem_map_of_mem mem)
  have size : (g.size : Int) = f.size := congrArg Prod.snd same
  have := (filesOf_listed plain holds (firstOf_subset maxFiles _ among)).2
  omega

end PackageRisk.Archive
