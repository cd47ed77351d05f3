import PackageRisk.Proofs.Archive.Sampling
import PackageRisk.Proofs.Disk.Arrivals

/-!
# Looking files up through links

A path is looked up below a root on a disk with any links, as long as none of them leads in a
circle. Two kinds of paths are refused: those that lead away by their text (`LeadsAway`), and
those that lead away, or to the root itself, by the links on them. What is left leads to a place
below the root, and what is read is the file there (`resolveInside_stays_inside`).
-/

namespace PackageRisk

namespace Disk

open Location

variable {d : Disk} {P : Location → Prop} {here l : Location} {names : List String}

/-- Links with targets that are paths. -/
def HasPaths (d : Disk) : Prop :=
  ∀ l target, d.at? l = some (.link target) → ¬HasNul target

theorem Arrives.noNul (arrives : d.Arrives P here names l) (hasPaths : d.HasPaths)
    (start : ∀ name ∈ here, ¬HasNul name) (noNul : ∀ name ∈ names, ¬HasNul name) :
    ∀ name ∈ l, ¬HasNul name := by
  induction arrives with
  | here => exact start
  | stay _ _ ih => exact ih start (List.forall_mem_cons.1 noNul).2
  | up _ _ ih =>
    refine ih (fun name mem => start name ?_) (List.forall_mem_cons.1 noNul).2
    exact List.dropLast_subset _ mem
  | down _ _ _ _ ih =>
    obtain ⟨first, later⟩ := List.forall_mem_cons.1 noNul
    exact ih (forall_mem_snoc start first) later
  | link _ _ held _ _ ihFollowed ih =>
    refine ih (ihFollowed ?_ fun name mem nul => ?_) (List.forall_mem_cons.1 noNul).2
    · unfold linkStart
      split_ifs
      · exact List.forall_mem_nil _
      · exact start
    · exact hasPaths _ _ held (hasNul_iff.2 ⟨name, mem, nul⟩)

/-- Without circles of links every path is resolved to a place without links on it. -/
theorem LoopFree.resolve (loopFree : d.LoopFree) (noDot : "." ∉ names)
    (noNul : ∀ name ∈ names, ¬HasNul name) :
    ∃ l, d.resolve names = .ok l ∧ d.Arrives Anywhere [] names l ∧ d.Settled Anywhere l := by
  obtain ⟨l, arrives⟩ := loopFree.arrives [] names
  exact ⟨l, resolve_of_arrives arrives noDot noNul, arrives, arrives.settled settled_nil⟩

/-- What is read from a place without links on it is the file there. -/
theorem Settled.read (settled : d.Settled P l) {content : ByteArray}
    (readable : d.read l = .ok content) : d.at? l = some (.file content) := by
  obtain ⟨k, entered, found⟩ := bind_eq_ok.1 readable
  obtain rfl := settled.arrives.unique (arrives_of_enter entered)
  split at found
  · next held =>
    cases found
    exact held
  all_goals cases found

end Disk

namespace Archive

open Disk Location

variable {d : Disk} {path s : String} {root names : List String} {base l : Location}

/-- A path is empty, absolute or on a drive, or a piece of it leads up. -/
def LeadsAway (path : String) : Prop :=
  path = "" ∨ path.toList.head? = some '/' ∨ path.toList.head? = some '\\' ∨
    Path.hasDriveLetter path.toList = true ∨ ".." ∈ Path.pieces path

instance : Decidable (LeadsAway path) := inferInstanceAs (Decidable (_ ∨ _ ∨ _ ∨ _ ∨ _))

/-- The names that a path leads through below a root. -/
def namesInside (path : String) : List String :=
  Path.components (Path.forwardSlashes path)

theorem hasDriveLetter_iff {cs : List Char} :
    Path.hasDriveLetter cs = true ↔ ∃ c rest, cs = c :: ':' :: rest ∧ c.isAlpha = true := by
  constructor
  · intro letter
    unfold Path.hasDriveLetter at letter
    split at letter
    · next c rest => exact ⟨c, rest, rfl, letter⟩
    · cases letter
  · rintro ⟨c, rest, rfl, alpha⟩
    exact alpha

/-- Neither a drive letter nor its colon is a separator. -/
theorem hasDriveLetter_forwardSlashes :
    Path.hasDriveLetter (Path.forwardSlashes path).toList = Path.hasDriveLetter path.toList := by
  rw [Bool.eq_iff_iff, hasDriveLetter_iff, hasDriveLetter_iff, Path.forwardSlashes,
    String.toList_ofList]
  constructor
  · rintro ⟨c, rest, spelled, alpha⟩
    obtain ⟨c', behind, split, first, spelled⟩ := List.map_eq_cons_iff.1 spelled
    obtain ⟨colon, rest', split', second, -⟩ := List.map_eq_cons_iff.1 spelled
    have sameColon : colon = ':' := by
      split_ifs at second
      · cases second
      · exact second
    have same : c' = c := by
      split_ifs at first
      · rw [← first] at alpha
        cases alpha
      · exact first
    rw [split, split', sameColon, same]
    exact ⟨c, rest', rfl, alpha⟩
  · rintro ⟨c, rest, split, alpha⟩
    have other : c ≠ '\\' := by
      rintro rfl
      cases alpha
    rw [split]
    simp [other, alpha]

theorem hasDrive_of_letter (letter : Path.hasDriveLetter path.toList = true) :
    Path.hasDrive path = true := by
  simp [Path.hasDrive, hasDriveLetter_forwardSlashes, letter]

theorem insideNames?_of_leadsAway (away : LeadsAway path) : insideNames? path = none := by
  rw [Option.eq_none_iff_forall_ne_some]
  intro names inside
  obtain ⟨⟨notEmpty, noSlash, noBackslash, noDrive, noUp⟩, -⟩ := insideNames?_eq_some_iff.1 inside
  rcases away with empty | slash | backslash | letter | up
  · exact notEmpty empty
  · exact noSlash slash
  · exact noBackslash backslash
  · rw [hasDrive_of_letter letter] at noDrive
    cases noDrive
  · refine noUp ?_
    rw [Path.components_forwardSlashes, List.mem_filter]
    exact ⟨up, by decide⟩

theorem resolveInside_of_none (refused : insideNames? path = none) :
    resolveInside d root path = .error (.invalidPath path) := by
  unfold resolveInside
  rw [refused]

theorem noDot_append (noDot : "." ∉ names) : "." ∉ names ++ namesInside path := by
  rw [List.mem_append, not_or]
  exact ⟨noDot, Path.dot_notMem_components _⟩

theorem noNul_append (noNuls : ∀ name ∈ names, ¬HasNul name) (noNul : ¬HasNul path) :
    ∀ name ∈ names ++ namesInside path, ¬HasNul name := by
  refine List.forall_mem_append.2 ⟨noNuls, fun name mem nul => noNul ?_⟩
  exact hasNul_of_forwardSlashes (hasNul_iff.2 ⟨name, mem, nul⟩)

/-- A path that is not refused at once is looked up where its names lead from the root. -/
theorem resolveInside_of_resolves (inside : insideNames? path = some names)
    (rooted : d.resolve root = .ok base) (resolved : d.resolve (base ++ names) = .ok l) :
    resolveInside d root path =
      if l ≠ base ∧ base <+: l then .ok l else .error (.invalidPath path) := by
  unfold resolveInside
  rw [inside]
  dsimp only
  rw [rooted]
  dsimp only
  rw [resolved]
  by_cases same : l = base
  · simp [same]
  · by_cases below : base <+: l
    · simp [same, below, isWithin_iff.2 below]
    · simp [same, below, isWithin_iff]

/-- The names of a path lead from a root to the same place as from the place of the root. -/
theorem resolve_append (loopFree : d.LoopFree) (hasPaths : d.HasPaths) (noDot : "." ∉ root)
    (noNuls : ∀ name ∈ root, ¬HasNul name) (noNul : ¬HasNul path)
    (rooted : d.resolve root = .ok base) :
    ∃ l, d.resolve (root ++ namesInside path) = .ok l ∧
      d.resolve (base ++ namesInside path) = .ok l ∧ d.Settled Anywhere l := by
  obtain ⟨base', resolved, arrives, settled⟩ := loopFree.resolve noDot noNuls
  obtain rfl := Except.ok.inj (rooted.symm.trans resolved)
  obtain ⟨l, below⟩ := loopFree.arrives base (namesInside path)
  refine ⟨l, ?_, ?_, below.settled settled⟩
  · exact resolve_of_arrives (arrives_append_iff.2 ⟨base, arrives, below⟩) (noDot_append noDot)
      (noNul_append noNuls noNul)
  · exact resolve_of_arrives (arrives_append_iff.2 ⟨base, settled.arrives, below⟩)
      (noDot_append settled.noDot)
      (noNul_append (arrives.noNul hasPaths (List.forall_mem_nil _) noNuls) noNul)

/-- A package with a link to itself and one that leaves it, and a link to the package. -/
def linkDisk : Disk :=
  ⟨[(["current"], .link "pkg"), (["secret"], .file .empty), (["pkg"], .directory),
    (["pkg", "index.js"], .file .empty), (["pkg", "dist"], .link "."),
    (["pkg", "away"], .link "../secret")]⟩

theorem linkDisk_link {target : String} (held : linkDisk.at? l = some (.link target)) :
    l = ["current"] ∧ target = "pkg" ∨ l = ["pkg", "dist"] ∧ target = "." ∨
      l = ["pkg", "away"] ∧ target = "../secret" := by
  rw [at?_of_ne_root (ne_root_of_held held nofun)] at held
  simp only [linkDisk, lookup_cons_eq, List.lookup_nil] at held
  split_ifs at held <;> simp_all

theorem noLink_linkDisk (other : l ∉ [["current"], ["pkg", "dist"], ["pkg", "away"]]) :
    ∀ target, linkDisk.at? l ≠ some (.link target) := by
  intro target held
  rcases linkDisk_link held with ⟨rfl, -⟩ | ⟨rfl, -⟩ | ⟨rfl, -⟩ <;> simp at other

theorem hasPaths_linkDisk : linkDisk.HasPaths := by
  intro l target held
  rcases linkDisk_link held with ⟨-, rfl⟩ | ⟨-, rfl⟩ | ⟨-, rfl⟩ <;> decide

theorem linkDisk_current :
    linkDisk.Arrives Anywhere (linkStart [] "pkg") (Path.components "pkg") ["pkg"] := by
  rw [show linkStart [] "pkg" = [] by decide +kernel,
    show Path.components "pkg" = ["pkg"] by decide +kernel]
  exact .down (by decide) trivial (noLink_linkDisk (by decide)) .here

theorem linkDisk_dist :
    linkDisk.Arrives Anywhere (linkStart ["pkg"] ".") (Path.components ".") ["pkg"] := by
  rw [show linkStart ["pkg"] "." = ["pkg"] by decide +kernel,
    show Path.components "." = [] by decide +kernel]
  exact .here

theorem linkDisk_away :
    linkDisk.Arrives Anywhere (linkStart ["pkg"] "../secret") (Path.components "../secret")
      ["secret"] := by
  rw [show linkStart ["pkg"] "../secret" = ["pkg"] by decide +kernel,
    show Path.components "../secret" = ["..", "secret"] by decide +kernel]
  exact .up rfl (.down (by decide) trivial (noLink_linkDisk (by decide)) .here)

theorem loopFree_linkDisk : linkDisk.LoopFree := by
  intro here name target held
  rcases linkDisk_link held with ⟨l, rfl⟩ | ⟨l, rfl⟩ | ⟨l, rfl⟩
  all_goals
    have above := congrArg List.dropLast l
    rw [List.dropLast_concat] at above
    rw [above]
  · exact ⟨_, linkDisk_current⟩
  · exact ⟨_, linkDisk_dist⟩
  · exact ⟨_, linkDisk_away⟩

theorem linkDisk_root : linkDisk.Arrives Anywhere [] ["current"] ["pkg"] :=
  .link (by decide) trivial rfl linkDisk_current .here

end Archive

end PackageRisk
