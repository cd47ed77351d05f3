import PackageRisk.Archive.Retrieve
import PackageRisk.Proofs.Archive.Containment
import PackageRisk.Proofs.Disk.Contents
import PackageRisk.Proofs.Session

/-!
# The directory that an archive is worked on in

Its name is made of the package's name and is always one name, but it may be too long. On a disk
that is a usable tree the directory is emptied and made again (`prepare_ends`), so whatever was
there before cannot be taken for a part of the archive.
-/

namespace PackageRisk.Archive

open Disk Location

variable {net : Network} {w : Workspace} {d d' : Disk} {l : Location} {package : String}
  {names : List String}

/-! ## Its name -/

theorem isDirectoryChar_of_mem {c : Char} (mem : c ∈ (directoryName package).toList) :
    isDirectoryChar c = true := by
  unfold directoryName at mem
  dsimp only at mem
  split_ifs at mem
  · exact List.all_eq_true.1 (by decide : "package".toList.all isDirectoryChar = true) c mem
  · rw [String.toList_ofList] at mem
    obtain ⟨given, -, rfl⟩ := List.mem_map.1 ((List.dropWhile_sublist _).subset mem)
    split_ifs with kept
    · exact kept
    · rfl

/-- A name of a directory starts with a character, and that is no dot. -/
theorem directoryName_eq_cons (package : String) :
    ∃ c cs, (directoryName package).toList = c :: cs ∧ c ≠ '.' := by
  unfold directoryName
  dsimp only
  split_ifs with nothing
  · exact ⟨'p', "ackage".toList, rfl, by decide⟩
  · rw [String.toList_ofList]
    rcases kept : (package.toList.map fun c => if isDirectoryChar c then c else '-').dropWhile
      (· == '.') with _ | ⟨c, cs⟩
    · rw [kept] at nothing
      exact absurd rfl nothing
    · refine ⟨c, cs, rfl, fun dot => ?_⟩
      have first := List.head?_dropWhile_not (· == '.')
        (package.toList.map fun c => if isDirectoryChar c then c else '-')
      rw [kept, dot] at first
      cases first

theorem notMem_directoryName {c : Char} (refused : isDirectoryChar c = false) :
    c ∉ (directoryName package).toList := by
  intro mem
  rw [isDirectoryChar_of_mem mem] at refused
  cases refused

theorem directoryName_ne {name : String} (dots : ∀ c, name.toList.head? = some c → c = '.') :
    directoryName package ≠ name := by
  rintro rfl
  obtain ⟨c, cs, spelled, noDot⟩ := directoryName_eq_cons package
  exact noDot (dots c (by rw [spelled]; rfl))

theorem isName_directoryName (package : String) : Path.IsName (directoryName package) where
  ne_empty := directoryName_ne (by simp)
  ne_dot := directoryName_ne (by simp)
  noSlash := notMem_directoryName (by decide)

theorem isPlain_directoryName (package : String) : IsPlain (directoryName package) :=
  ⟨directoryName_ne (by simp), directoryName_ne (by simp)⟩

theorem noNul_directoryName (package : String) : ¬HasNul (directoryName package) :=
  notMem_directoryName (by decide)

/-- The names that lead to the directory for a package. -/
def workNames (package : String) : List String :=
  ["tmp", "npm-security-score", directoryName package]

theorem workNames_isName (package : String) : ∀ name ∈ workNames package, Path.IsName name := by
  simp only [workNames, List.forall_mem_cons]
  exact ⟨⟨by decide, by decide, by decide⟩, ⟨by decide, by decide, by decide⟩,
    isName_directoryName package, List.forall_mem_nil _⟩

theorem workNames_plain (package : String) :
    ∀ name ∈ workNames package, IsPlain name ∧ ¬HasNul name := by
  simp only [workNames, List.forall_mem_cons]
  exact ⟨by decide, by decide, ⟨isPlain_directoryName package, noNul_directoryName package⟩,
    List.forall_mem_nil _⟩

theorem text_workPath (package : String) :
    (workPath .standard package).text = Location.text (workNames package) := by
  have base : Path.parse standardTempDir = ⟨"/", ["tmp", "npm-security-score"]⟩ := by decide
  simp only [workPath, ArchiveSettings.standard, Option.getD_none, base]
  rfl

/-! ## Steps on its path -/

theorem isAbsolute_text (names : List String) :
    (Path.parse (Location.text names)).isAbsolute = true := by
  rw [Path.isAbsolute_iff, Location.text, String.toList_append]
  rfl

theorem run_namesOf_text (plain : ∀ name ∈ names, Path.IsName name) :
    Session.namesOf (Location.text names) net w = (.ok names, w) := by
  show (Except.ok (if (Path.parse (Location.text names)).isAbsolute then
    Path.components (Location.text names) else _), w) = _
  rw [if_pos (isAbsolute_text names), Path.components_text plain]

/-- The names that lead to where directories for packages are made. -/
def tempNames (settings : ArchiveSettings) (home : Location) : List String :=
  let base := Path.parse (settings.tempDir.getD standardTempDir)
  if base.isAbsolute then base.parts else home ++ base.parts

theorem tempNames_standard (home : Location) :
    tempNames .standard home = ["tmp", "npm-security-score"] := by
  have base : Path.parse standardTempDir = ⟨"/", ["tmp", "npm-security-score"]⟩ := by decide
  simp only [tempNames, ArchiveSettings.standard, Option.getD_none, base]
  rfl

/-- The path of the directory for a package leads there and then to its name. -/
theorem run_namesOf_workPath (settings : ArchiveSettings) (package : String) :
    Session.namesOf (workPath settings package).text net w =
      (.ok (tempNames settings w.home ++ [directoryName package]), w) := by
  let base := Path.parse (settings.tempDir.getD standardTempDir)
  have isName : ∀ name ∈ base.parts ++ [directoryName package], Path.IsName name :=
    forall_mem_snoc (fun _ => Path.isName_of_mem_components) (isName_directoryName package)
  obtain ⟨components, absolute⟩ := Path.parse_text (p := workPath settings package)
    (Path.root_parse _) (by simp [workPath]) isName
  show (Except.ok (if (Path.parse (workPath settings package).text).isAbsolute then
    Path.components (workPath settings package).text else
      w.home ++ Path.components (workPath settings package).text), w) = _
  rw [components, absolute]
  show (Except.ok (if base.isAbsolute then base.parts ++ [directoryName package] else
    w.home ++ (base.parts ++ [directoryName package])), w) = (Except.ok ((if base.isAbsolute then
      base.parts else w.home ++ base.parts) ++ [directoryName package]), w)
  split_ifs
  · rfl
  · rw [List.append_assoc]

theorem noNul_text (plain : ∀ name ∈ names, Path.IsName name)
    (noNul : ∀ name ∈ names, ¬HasNul name) : ¬HasNul (Location.text names) := by
  rw [hasNul_iff, Path.components_text plain]
  rintro ⟨name, mem, nul⟩
  exact noNul name mem nul

theorem run_changing {path : String} (noNul : ¬HasNul path) (step : Disk → Changed) :
    changing path step net w =
      ((step w.disk).1.mapError fun e => .fault (.system e path),
        { w with disk := (step w.disk).2 }) := by
  have passes : path.toList.contains '\x00' = false := by
    simpa [HasNul] using noNul
  unfold changing
  rw [Session.bind_of_ok rfl, if_neg (by rw [passes]; exact Bool.false_ne_true)]
  rcases step w.disk with ⟨e | _, later⟩ <;> rfl

/-- A disk without what is at the end of a way. -/
def cleared (d : Disk) (names : List String) : Disk :=
  if d.isThere names then d.removeTree names else d

/-- Cleaning up does not fail on a usable way. -/
theorem run_cleanUp {path : Path} (text : path.text = Location.text names)
    (plain : ∀ name ∈ names, Path.IsName name) (usable : w.disk.Usable names) :
    cleanUp path net w = (.ok (), { w with disk := cleared w.disk names }) := by
  unfold cleanUp cleared isThere
  rw [text, Session.bind_of_ok (run_namesOf_text plain), Session.bind_of_ok rfl]
  by_cases isOpen : w.disk.IsOpen names
  · rw [(enter_eq_ok_iff usable.straight).2 ⟨usable.makeable.fits, isOpen, rfl⟩]
    rfl
  · rw [enter_of_not_isOpen usable.straight usable.makeable isOpen]
    rfl

theorem at?_cleared (tree : d.IsTree) (usable : d.Usable names)
    (plain : ∀ name ∈ names, IsPlain name) (ne_nil : names ≠ []) (ne : l ≠ []) :
    (cleared d names).at? l = if names <+: l then none else d.at? l := by
  have here : descend [] names = names := by rw [descend_plain plain, List.nil_append]
  unfold cleared isThere
  by_cases isOpen : d.IsOpen names
  · rw [(enter_eq_ok_iff usable.straight).2 ⟨usable.makeable.fits, isOpen, rfl⟩]
    have laid := usable.isLaid fun front initial => (isOpen.mono initial).there
    have directory := laid names List.prefix_rfl
    rw [here] at directory
    exact at?_removeTree plain ne_nil usable.straight isOpen usable.makeable.fits directory ne
  · rw [enter_of_not_isOpen usable.straight usable.makeable isOpen]
    show d.at? l = _
    split_ifs with below
    · refine tree.gone_below ?_ below
      by_contra there
      refine isOpen (isOpen_of_there tree.noLinks.straight usable.makeable.short
        usable.makeable.clear ?_)
      intro front initial
      have plainFront : ∀ name ∈ front, IsPlain name := fun name mem =>
        plain name (initial.subset mem)
      rw [descend_plain plainFront, List.nil_append]
      exact fun gone => there (tree.gone_below gone initial)
    · rfl

/-! ## Fresh directories -/

theorem descend_initial (plain : ∀ name ∈ names, IsPlain name) {front : List String}
    (initial : front <+: names) : descend [] front = front := by
  rw [descend_plain fun name mem => plain name (initial.subset mem), List.nil_append]

/-- Where nothing is, a directory is made that has nothing below it. -/
theorem isFresh_ensureDirectory (usable : d.Usable names)
    (plain : ∀ name ∈ names, IsPlain name ∧ ¬HasNul name)
    (gone : ∀ l, names <+: l → d.at? l = none) :
    (d.ensureDirectory names).1 = .ok () ∧ IsFresh (d.ensureDirectory names).2 names := by
  have plain' : ∀ name ∈ names, IsPlain name := fun name mem => (plain name mem).1
  obtain ⟨ensured, laid⟩ := usable.ensurePath
  refine ⟨ensured, ⟨fun front initial => ?_, plain, fun l below ne => ?_⟩⟩
  · have directory := laid front initial
    rwa [descend_initial plain' initial] at directory
  · rcases ensurePath_makes usable.straight l with same | ⟨-, -, front, initial, rfl, -⟩
    · exact same.trans (gone l below)
    · rw [descend_initial plain' initial] at below ne
      exact absurd (initial.eq_of_length_le below.length_le) ne

theorem IsFresh.isLaid (fresh : IsFresh d names) : d.IsLaid names := by
  intro front initial
  rw [descend_initial (fun name mem => (fresh.plain name mem).1) initial]
  exact fresh.directory front initial

/-- A name in a fresh directory is not taken. -/
theorem IsFresh.vacant {name : String} (fresh : IsFresh d names) (plain : IsPlain name)
    (short : ∀ other ∈ names ++ [name], other.utf8ByteSize ≤ nameLimit)
    (fits : Fits (names ++ [name])) : d.Vacant names name where
  fits := fits.of_initial (List.prefix_append _ _)
  isOpen := fresh.isLaid.isOpen fun other mem => short other (List.mem_append_left _ mem)
  directory := fresh.isLaid names List.prefix_rfl
  plain := plain
  short := short name (by simp)
  fitsAll := fits
  gone := by
    rw [descend_initial (fun name mem => (fresh.plain name mem).1) List.prefix_rfl]
    exact fresh.empty _ (List.prefix_append _ _) (by simp)

/-- A directory that is made beside a file of a fresh one is fresh as well. -/
theorem IsFresh.beside {file name : String} (fresh : IsFresh d names) (content : ByteArray)
    (ne : name ≠ file) (plain : IsPlain name ∧ ¬HasNul name)
    (short : ∀ other ∈ names ++ [name], other.utf8ByteSize ≤ nameLimit)
    (fits : Fits (names ++ [name])) (noLinks : d.NoLinks) :
    let d' := d.put (names ++ [file]) (.file content)
    (d'.ensureDirectory (names ++ [name])).1 = .ok () ∧
      IsFresh (d'.ensureDirectory (names ++ [name])).2 (names ++ [name]) ∧
      (d'.ensureDirectory (names ++ [name])).2.at? (names ++ [file]) = some (.file content) := by
  intro d'
  have grows : d.Grows d' := by
    refine grows_put (by simp) ?_
    rw [fresh.empty _ (List.prefix_append _ _) (by simp)]
    exact .written content
  have gone : ∀ l, names ++ [name] <+: l → d'.at? l = none := by
    intro l below
    have inside : names <+: l := (List.prefix_append _ _).trans below
    have apart : l ≠ names ++ [file] := by
      rintro rfl
      have same := below.eq_of_length (by simp)
      exact ne (List.singleton_inj.1 (List.append_cancel_left same))
    have deeper : l ≠ names := by
      rintro rfl
      have := below.length_le
      rw [List.length_append, List.length_singleton] at this
      omega
    rw [at?_put (by simp), if_neg apart]
    exact fresh.empty l inside deeper
  have plainAll := forall_mem_snoc fresh.plain plain
  have usable : d'.Usable (names ++ [name]) := by
    refine ⟨(grows.noLinks noLinks).straight, ⟨short, fits, ?_⟩, fun content file => ?_⟩
    · intro front initial ne content file
      have shorter := (List.prefix_concat_iff.1 initial).resolve_left ne
      rw [grows.isLaid fresh.isLaid front shorter] at file
      cases file
    · rw [descend_initial (fun other mem => (plainAll other mem).1) List.prefix_rfl,
        gone _ List.prefix_rfl] at file
      cases file
  obtain ⟨ensured, fresh'⟩ := isFresh_ensureDirectory usable plainAll gone
  refine ⟨ensured, fresh', ?_⟩
  rw [ensureDirectory, (ensurePath_makes usable.straight).file_iff]
  exact at?_put_self (by simp)

/-! ## The directory for a package -/

/-- A disk on which the directory for a package can be made: a tree without links, with no file
on the way to it. -/
structure IsWorkable (d : Disk) (package : String) : Prop where
  tree : d.IsTree
  free : ∀ front, front <+: workNames package → ∀ content, d.at? front ≠ some (.file content)

theorem workNames_short (short : (directoryName package).utf8ByteSize ≤ nameLimit) :
    ∀ name ∈ workNames package, name.utf8ByteSize ≤ nameLimit := by
  simp only [workNames, List.forall_mem_cons]
  exact ⟨by decide, by decide, short, List.forall_mem_nil _⟩

theorem fits_workNames {name : String}
    (short : (directoryName package).utf8ByteSize ≤ nameLimit)
    (shortToo : name.utf8ByteSize ≤ nameLimit) : Fits (workNames package ++ [name]) := by
  have tmp : "tmp".utf8ByteSize = 3 := rfl
  have base : "npm-security-score".utf8ByteSize = 18 := rfl
  have slash : "/".utf8ByteSize = 1 := rfl
  unfold nameLimit at short shortToo
  simp only [Fits, Location.text, Text.join, workNames, List.cons_append, List.nil_append,
    String.intercalate_cons_cons, String.intercalate_singleton, String.utf8ByteSize_append, tmp,
    base, slash, pathLimit]
  omega

theorem isName_child {name : String} (isName : Path.IsName name) :
    ∀ other ∈ workNames package ++ [name], Path.IsName other :=
  forall_mem_snoc (workNames_isName package) isName

theorem short_child {name : String} (short : (directoryName package).utf8ByteSize ≤ nameLimit)
    (shortToo : name.utf8ByteSize ≤ nameLimit) :
    ∀ other ∈ workNames package ++ [name], other.utf8ByteSize ≤ nameLimit :=
  forall_mem_snoc (workNames_short short) shortToo

theorem plain_child {name : String} (plain : IsPlain name ∧ ¬HasNul name) :
    ∀ other ∈ workNames package ++ [name], IsPlain other ∧ ¬HasNul other :=
  forall_mem_snoc (workNames_plain package) plain

theorem isName_archiveName : Path.IsName archiveName := ⟨by decide, by decide, by decide⟩

theorem isName_extractName : Path.IsName extractName := ⟨by decide, by decide, by decide⟩

theorem IsWorkable.usable (workable : IsWorkable d package)
    (short : (directoryName package).utf8ByteSize ≤ nameLimit) :
    d.Usable (workNames package) := by
  have plain : ∀ name ∈ workNames package, IsPlain name := fun name mem =>
    (workNames_plain package name mem).1
  refine ⟨workable.tree.noLinks.straight, ⟨workNames_short short, ?_, ?_⟩, ?_⟩
  · exact (fits_workNames short (by decide : "".utf8ByteSize ≤ _)).of_initial
      (List.prefix_append _ _)
  · intro front initial _
    rw [descend_initial plain initial]
    exact workable.free front initial
  · rw [descend_initial plain List.prefix_rfl]
    exact workable.free _ List.prefix_rfl

/-- The disk on which an archive is retrieved. -/
def prepared (d : Disk) (package : String) : Disk :=
  ((cleared d (workNames package)).ensureDirectory (workNames package)).2

theorem noLinks_cleared (tree : d.IsTree) (usable : d.Usable names)
    (plain : ∀ name ∈ names, IsPlain name) (ne_nil : names ≠ []) : (cleared d names).NoLinks := by
  intro l target link
  rcases eq_or_ne l [] with rfl | ne
  · cases link
  · rw [at?_cleared tree usable plain ne_nil ne] at link
    split_ifs at link
    exact tree.noLinks l target link

theorem usable_cleared (tree : d.IsTree) (usable : d.Usable names)
    (plain : ∀ name ∈ names, IsPlain name) (ne_nil : names ≠ []) :
    (cleared d names).Usable names := by
  have noFile : ∀ front, front <+: names → ∀ content,
      (cleared d names).at? (descend [] front) ≠ some (.file content) := by
    intro front initial content file
    rw [descend_initial plain initial] at file
    rcases eq_or_ne front [] with rfl | ne
    · cases file
    · rw [at?_cleared tree usable plain ne_nil ne] at file
      split_ifs at file with whole
      rcases eq_or_ne front names with rfl | shorter
      · exact whole List.prefix_rfl
      · refine usable.makeable.clear front initial shorter content ?_
        rwa [descend_initial plain initial]
  exact ⟨(noLinks_cleared tree usable plain ne_nil).straight,
    ⟨usable.makeable.short, usable.makeable.fits, fun front initial _ => noFile front initial⟩,
    noFile names List.prefix_rfl⟩

/-- The directory for a package is fresh, whatever was there before. -/
theorem isFresh_prepared (workable : IsWorkable d package)
    (short : (directoryName package).utf8ByteSize ≤ nameLimit) :
    ((cleared d (workNames package)).ensureDirectory (workNames package)).1 = .ok () ∧
      IsFresh (prepared d package) (workNames package) ∧ (prepared d package).NoLinks := by
  have plain : ∀ name ∈ workNames package, IsPlain name := fun name mem =>
    (workNames_plain package name mem).1
  have ne_nil : workNames package ≠ [] := List.cons_ne_nil _ _
  have usable := workable.usable short
  have usable' := usable_cleared workable.tree usable plain ne_nil
  obtain ⟨ensured, fresh⟩ := isFresh_ensureDirectory usable' (workNames_plain package)
    fun l below => by
      have ne : l ≠ [] := by
        rintro rfl
        exact ne_nil (List.prefix_nil.1 below)
      rw [at?_cleared workable.tree usable plain ne_nil ne, if_pos below]
  refine ⟨ensured, fresh, ?_⟩
  exact (ensurePath_makes usable'.straight).grows.noLinks
    (noLinks_cleared workable.tree usable plain ne_nil)

end PackageRisk.Archive
