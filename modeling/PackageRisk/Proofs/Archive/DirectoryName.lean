import PackageRisk.Proofs.Archive.WorkDirectory

/-!
# Names of directories

A name that is made for a directory is not empty, has letters, digits and four marks only, and does
not start with a dot (`IsDirectoryName`). What is such a name already is kept, and nothing else is
(`directoryName_eq_self_iff`), so making a name of a name changes nothing. A name without slashes
that is neither of the two names of dots is one step down, so the directory of a package is a child
of the directory that they are all made in (`workPath_isChild`).
-/

namespace PackageRisk

namespace Path

/-- A path read from where another one leads; an absolute one does not depend on that. -/
def join (base p : Path) : Path :=
  if p.isAbsolute then p else { base with parts := base.parts ++ p.parts }

/-- A path without its last component. -/
def parent (p : Path) : Path :=
  { p with parts := p.parts.dropLast }

/-- A path with one component more than another one. -/
structure IsChild (p base : Path) : Prop where
  named : p.parts ≠ []
  parent_eq : p.parent = base

variable {name : String}

/-- A name is a path of one component. -/
theorem parse_of_isName (isName : IsName name) : parse name = ⟨"", [name]⟩ := by
  have root : (parse name).root = "" := by
    have relative : ¬(parse name).isAbsolute = true := fun absolute =>
      isName.noSlash (List.mem_of_head? (isAbsolute_iff.1 absolute))
    simpa [isAbsolute] using relative
  show Path.mk (parse name).root (parse name).parts = _
  rw [root, parse_parts, components_of_isName isName]

@[simp]
theorem join_name (base : Path) (name : String) :
    base.join ⟨"", [name]⟩ = { base with parts := base.parts ++ [name] } := rfl

theorem isChild_join_name (base : Path) (name : String) :
    (base.join ⟨"", [name]⟩).IsChild base where
  named := by simp
  parent_eq := by rw [join_name, parent, List.dropLast_concat]

end Path

namespace Archive

variable {name package : String}

/-- The names that are made for directories. -/
structure IsDirectoryName (name : String) : Prop where
  ne_empty : name ≠ ""
  chars : ∀ c ∈ name.toList, c.isAlphanum = true ∨ c ∈ ['@', '.', '_', '-']
  noDot : name.toList.head? ≠ some '.'

theorem isDirectoryChar_iff {c : Char} :
    isDirectoryChar c = true ↔ c.isAlphanum = true ∨ c ∈ ['@', '.', '_', '-'] := by
  simp [isDirectoryChar, or_assoc]

theorem isDirectoryName_directoryName (package : String) :
    IsDirectoryName (directoryName package) where
  ne_empty := (isName_directoryName package).ne_empty
  chars _ mem := isDirectoryChar_iff.1 (isDirectoryChar_of_mem mem)
  noDot := by
    obtain ⟨c, cs, spelled, noDot⟩ := directoryName_eq_cons package
    rw [spelled, List.head?_cons, Ne, Option.some.injEq]
    exact noDot

/-- A directory's character for each one of a name. -/
def keptChars (package : String) : List Char :=
  package.toList.map fun c => if isDirectoryChar c then c else '-'

/-- What has no dot in front has a directory that is spelled like it. -/
theorem toList_directoryName {c : Char} {cs : List Char} (spelled : keptChars package = c :: cs)
    (noDot : c ≠ '.') : (directoryName package).toList = c :: cs := by
  unfold keptChars at spelled
  unfold directoryName
  dsimp only
  rw [spelled, List.dropWhile_cons_of_neg (by simpa using noDot), if_neg (by simp),
    String.toList_ofList]

theorem keptChars_of_isDirectoryChar (chars : ∀ c ∈ name.toList, isDirectoryChar c = true) :
    keptChars name = name.toList := by
  refine (List.map_congr_left fun c mem => ?_).trans (List.map_id _)
  rw [if_pos (chars c mem), id]

/-- Just the names that are made for directories are kept as they are. -/
theorem directoryName_eq_self_iff : directoryName name = name ↔ IsDirectoryName name := by
  constructor
  · intro kept
    rw [← kept]
    exact isDirectoryName_directoryName name
  · intro made
    have kept : keptChars name = name.toList :=
      keptChars_of_isDirectoryChar fun c mem => isDirectoryChar_iff.2 (made.chars c mem)
    rcases spelled : name.toList with _ | ⟨c, cs⟩
    · exact absurd (String.toList_eq_nil_iff.1 spelled) made.ne_empty
    · have noDot : c ≠ '.' := by
        have := made.noDot
        rwa [spelled, List.head?_cons, Ne, Option.some.injEq] at this
      rw [← String.toList_inj, toList_directoryName (kept.trans spelled) noDot, spelled]

/-- Where directories of packages are made. -/
def tempPath (settings : ArchiveSettings) : Path :=
  Path.parse (settings.tempDir.getD standardTempDir)

theorem workPath_eq_join (settings : ArchiveSettings) (package : String) :
    workPath settings package = (tempPath settings).join (Path.parse (directoryName package)) := by
  rw [Path.parse_of_isName (isName_directoryName package), Path.join_name]
  rfl

/-- Whatever a package is called, the name of its directory is a path of one component that does not
lead up, made of few characters and not of dots, and making a name of it again changes nothing; and
the directory is a child of the one where all of them are made. -/
theorem workPath_isChild (settings : ArchiveSettings) (package : String) :
    IsDirectoryName (directoryName package) ∧
      (Path.parse (directoryName package) = ⟨"", [directoryName package]⟩ ∧
        directoryName package ≠ "." ∧ directoryName package ≠ "..") ∧
      ((∀ name, directoryName name = name ↔ IsDirectoryName name) ∧
        directoryName (directoryName package) = directoryName package) ∧
      workPath settings package =
        (tempPath settings).join (Path.parse (directoryName package)) ∧
      (workPath settings package).IsChild (tempPath settings) := by
  have made := isDirectoryName_directoryName package
  have single := Path.parse_of_isName (isName_directoryName package)
  have plain := isPlain_directoryName package
  have below := workPath_eq_join settings package
  refine ⟨made, ⟨single, plain.1, plain.2⟩, ⟨fun name => directoryName_eq_self_iff, ?_⟩, below, ?_⟩
  · exact directoryName_eq_self_iff.2 made
  · rw [below, single]
    exact Path.isChild_join_name _ _

end Archive

end PackageRisk
