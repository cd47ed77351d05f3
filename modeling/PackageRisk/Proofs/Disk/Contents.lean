import PackageRisk.Proofs.Disk.Ensuring

/-!
# What a disk holds

Steps that change a disk only add entries where they were asked to, so a property of all
entries is kept when the new ones have it (`Holds`). On a disk that is a tree nothing is left of
a directory once it was removed, and a file that is written to a directory is read back.
-/

namespace PackageRisk.Disk

open Location

variable {d d' : Disk} {l : Location} {e : Entry} {name : String} {front names : List String}
  {P : Location → Entry → Prop} {content : ByteArray}

/-! ## All entries -/

/-- A property of every entry at its place. -/
def Holds (d : Disk) (P : Location → Entry → Prop) : Prop := ∀ e ∈ d.entries, P e.1 e.2

theorem mem_putEntry {entries : List (Location × Entry)} {new : Location × Entry}
    (mem : new ∈ putEntry l e entries) : new = (l, e) ∨ new ∈ entries := by
  induction entries with
  | nil => exact .inl (List.mem_singleton.1 mem)
  | cons first rest ih =>
    obtain ⟨k, old⟩ := first
    unfold putEntry at mem
    split_ifs at mem
    · rcases List.mem_cons.1 mem with rfl | mem
      · exact .inl rfl
      · exact .inr (List.mem_cons_of_mem _ mem)
    · rcases List.mem_cons.1 mem with rfl | mem
      · exact .inr List.mem_cons_self
      · exact (ih mem).imp_right (List.mem_cons_of_mem _)

theorem Holds.put (holds : d.Holds P) (new : P l e) : (d.put l e).Holds P := by
  intro entry mem
  rcases mem_putEntry mem with rfl | old
  · exact new
  · exact holds entry old

theorem Holds.makeDirectory (holds : d.Holds P) (straight : d.Straight [] names)
    (new : P (descend [] names) .directory) : (d.makeDirectory names).2.Holds P := by
  rcases makeDirectory_cases straight with same | ⟨-, -, same⟩
  · rwa [same]
  · rw [same]
    exact holds.put new

theorem Holds.makePath (holds : d.Holds P) (straight : d.Straight [] names)
    (new : ∀ front, front <+: names → P (descend [] front) .directory) :
    (d.makePath names.reverse).2.Holds P := by
  induction names using List.reverseRecOn with
  | nil => exact holds
  | append_singleton front name ih =>
    have last := new _ List.prefix_rfl
    have straightFront := (straight_snoc_iff.1 straight).1
    by_cases there : front = [] ∨ d.isThere front = true
    · rw [makePath_snoc_of_there there]
      exact holds.makeDirectory straight last
    · have above := ih straightFront fun first initial =>
        new first (initial.trans (List.prefix_append _ _))
      have makes := makePath_makes straightFront
      rcases made : d.makePath front.reverse with ⟨outcome, later⟩
      rw [made] at above makes
      rcases makePath_snoc_of_missing name there made with ⟨-, same⟩ | ⟨-, -, same⟩ | ⟨-, same⟩
      · rw [same]
        exact above.makeDirectory (makes.grows.straight straight) last
      · rwa [same]
      · rwa [same]

theorem Holds.write (holds : d.Holds P) (straight : d.Straight [] names)
    (new : P (descend [] names) (.file content)) : (d.write names content).2.Holds P := by
  rcases write_cases straight content with same | ⟨-, -, same⟩
  · rwa [same]
  · rw [same]
    exact holds.put new

theorem lookup_ne_none_of_mem {entries : List (Location × Entry)} {entry : Location × Entry}
    (mem : entry ∈ entries) : entries.lookup entry.1 ≠ none := by
  induction entries with
  | nil => cases mem
  | cons first rest ih =>
    obtain ⟨k, old⟩ := first
    rw [lookup_cons_eq]
    split_ifs with same
    · simp
    · rcases List.mem_cons.1 mem with rfl | mem
      · exact absurd rfl same
      · exact ih mem

theorem at?_ne_none_of_mem {entry : Location × Entry} (mem : entry ∈ d.entries) :
    d.at? entry.1 ≠ none := by
  rcases eq_or_ne entry.1 [] with root | ne
  · rw [root, at?_root]
    simp
  · rw [at?_of_ne_root ne]
    exact lookup_ne_none_of_mem mem

/-! ## Trees -/

/-- A disk without links. -/
def NoLinks (d : Disk) : Prop := ∀ l target, d.at? l ≠ some (.link target)

theorem NoLinks.straight (noLinks : d.NoLinks) : d.Straight [] names :=
  fun _ _ target => noLinks _ target

theorem Grows.noLinks (grows : d.Grows d') (noLinks : d.NoLinks) : d'.NoLinks :=
  fun l target link => noLinks l target (grows.link_iff.1 link)

theorem NoLinks.ensureDirectory_grows (noLinks : d.NoLinks) (names : List String) :
    d.Grows (d.ensureDirectory names).2 :=
  (ensurePath_makes noLinks.straight).grows

/-- A disk without links, on which only directories have something below them. -/
structure IsTree (d : Disk) : Prop where
  noLinks : d.NoLinks
  above : ∀ l name, d.at? (l ++ [name]) ≠ none → d.at? l = some .directory

theorem IsTree.gone_below (tree : d.IsTree) (gone : d.at? l = none) (below : l <+: names) :
    d.at? names = none := by
  obtain ⟨rest, rfl⟩ := below
  induction rest using List.reverseRecOn with
  | nil => rwa [List.append_nil]
  | append_singleton rest name ih =>
    by_contra there
    rw [← List.append_assoc] at there
    have directory := tree.above _ _ there
    rw [ih] at directory
    cases directory

/-- Once a directory was removed, nothing is left there, and all else stays. -/
theorem at?_removeTree (plain : ∀ name ∈ names, IsPlain name) (ne_nil : names ≠ [])
    (straight : d.Straight [] names) (isOpen : d.IsOpen names) (fits : Fits names)
    (directory : d.at? names = some .directory) (ne : l ≠ []) :
    (d.removeTree names).at? l = if names <+: l then none else d.at? l := by
  rcases List.eq_nil_or_concat names with rfl | ⟨front, name, rfl⟩
  · exact absurd rfl ne_nil
  rw [List.concat_eq_append] at *
  have plainFront : ∀ other ∈ front, IsPlain other := fun other mem =>
    plain other (List.mem_append_left _ mem)
  have entered := (enter_eq_ok_iff (straight_snoc_iff.1 straight).1).2
    ⟨fits.of_initial (List.prefix_append _ _), (isOpen_snoc_iff.1 isOpen).1, rfl⟩
  rw [descend_plain plainFront, List.nil_append] at entered
  unfold removeTree
  rw [List.getLast?_concat, List.dropLast_concat, entered]
  dsimp only
  rw [directory]
  exact at?_prune ne

/-! ## Files -/

theorem write_of_plain (content : ByteArray) (last : names.getLast? = some name)
    (plain : IsPlain name) :
    d.write names content = match d.enter names with
      | .ok l => match d.at? l with
        | some (.file _) => (.ok (), d.put l (.file content))
        | _ => (.error .isDirectory, d)
      | .error .absent => match d.vacancy names with
        | .ok l => (.ok (), d.put l (.file content))
        | .error .alreadyThere => (.error .absent, d)
        | .error e => (.error e, d)
      | .error e => (.error e, d) := by
  unfold write
  rw [last]
  split
  · next same => exact absurd (Option.some.inj same) plain.1
  · next same => exact absurd (Option.some.inj same) plain.2
  · next same => cases same
  · rfl

theorem write_of_vacant (straight : d.Straight [] (front ++ [name]))
    (vacant : d.Vacant front name) :
    d.write (front ++ [name]) content =
      (.ok (), d.put (descend [] front ++ [name]) (.file content)) := by
  have plain := vacant.plain
  have closed : ¬d.IsOpen (front ++ [name]) := by
    intro isOpen
    have there := (isOpen_snoc_iff.1 isOpen).2.2 plain
    exact there.2 vacant.gone
  have missing := enter_of_not_isOpen straight vacant.makeable closed
  have room := (vacancy_snoc_eq_ok_iff (straight_snoc_iff.1 straight).1).2 ⟨vacant, rfl⟩
  rw [write_of_plain content List.getLast?_concat plain, missing]
  dsimp only
  rw [room]

theorem read_of_file (straight : d.Straight [] names) (isOpen : d.IsOpen names)
    (fits : Fits names) (file : d.at? (descend [] names) = some (.file content)) :
    d.read names = .ok content := by
  refine bind_eq_ok.2 ⟨_, (enter_eq_ok_iff straight).2 ⟨fits, isOpen, rfl⟩, ?_⟩
  rw [file]

end PackageRisk.Disk
