import PackageRisk.Proofs.Disk.Making

/-!
# Making sure of directories

`ensureDirectory` makes a directory and those that lead to it, unless they are there. On a way
without links it succeeds when no name is too long and no file is in the way
(`Usable.ensureDirectory`), and then all places of the way are directories.
-/

namespace PackageRisk.Disk

open Location

variable {d d' : Disk} {l : Location} {name : String} {front names : List String}

/-! ## Ways that lead nowhere -/

theorem follow_single_of_gone (directory : d.at? l = some .directory) (plain : IsPlain name)
    (short : name.utf8ByteSize ≤ nameLimit) (gone : d.at? (l ++ [name]) = none) :
    d.follow l [name] = .error .absent := by
  unfold follow
  rw [walk, if_neg (by simp [isDirectory_iff.2 directory]), if_neg (by simpa using plain.1),
    if_neg (by simpa using plain.2), if_neg (not_lt.2 short), gone]

/-- A way without links, files and long names can be followed, or something is missing. -/
theorem follow_of_not_isOpen (straight : d.Straight [] names)
    (short : ∀ name ∈ names, name.utf8ByteSize ≤ nameLimit)
    (clear : ∀ front, front <+: names → front ≠ names →
      ∀ content, d.at? (descend [] front) ≠ some (.file content))
    (closed : ¬d.IsOpen names) : d.follow [] names = .error .absent := by
  induction names using List.reverseRecOn with
  | nil => exact absurd isOpen_nil closed
  | append_singleton front name ih =>
    obtain ⟨straightFront, noLink⟩ := straight_snoc_iff.1 straight
    rw [follow_append straightFront]
    by_cases isOpen : d.IsOpen front
    · have directory : d.at? (descend [] front) = some .directory := by
        rcases held : d.at? (descend [] front) with _ | content | _ | target
        · exact absurd held isOpen.there
        · exact absurd held (clear front (List.prefix_append _ _)
            (ne_snoc_of_initial List.prefix_rfl) content)
        · rfl
        · exact absurd held (straightFront front List.prefix_rfl target)
      rw [(follow_eq_ok_iff straightFront).2 ⟨isOpen, rfl⟩]
      have stuck : ¬d.Leads (descend [] front) name := fun leads =>
        closed (isOpen_snoc_iff.2 ⟨isOpen, leads⟩)
      simp only [Leads, directory, true_and, not_forall, not_and] at stuck
      obtain ⟨plain, gone⟩ := stuck
      exact follow_single_of_gone directory plain (short name (by simp))
        (not_not.1 (gone (short name (by simp))))
    · rw [ih straightFront (fun other mem => short other (List.mem_append_left _ mem)) ?_ isOpen]
      · rfl
      · intro first initial _
        exact clear first (initial.trans (List.prefix_append _ _)) (ne_snoc_of_initial initial)

theorem enter_of_not_isOpen (straight : d.Straight [] names) (makeable : d.Makeable names)
    (closed : ¬d.IsOpen names) : d.enter names = .error .absent := by
  have fits := makeable.fits
  unfold Fits at fits
  unfold enter
  rw [if_neg (not_le.2 fits), walkWithin_of_straight straight]
  exact follow_of_not_isOpen straight makeable.short makeable.clear closed

/-! ## Ways of directories -/

/-- All places of a way are directories. -/
def IsLaid (d : Disk) (names : List String) : Prop :=
  ∀ front, front <+: names → d.at? (descend [] front) = some .directory

theorem IsLaid.straight (laid : d.IsLaid names) : d.Straight [] names := by
  intro front initial target link
  rw [laid front initial] at link
  cases link

theorem Grows.isLaid (grows : d.Grows d') (laid : d.IsLaid names) : d'.IsLaid names :=
  fun front initial => grows.directory (laid front initial)

theorem IsLaid.isOpen (laid : d.IsLaid names)
    (short : ∀ name ∈ names, name.utf8ByteSize ≤ nameLimit) : d.IsOpen names := by
  refine isOpen_of_there laid.straight short ?_ fun front initial => ?_
  · intro front initial _ content file
    rw [laid front initial] at file
    cases file
  · rw [laid front initial]
    simp

/-- A way that can be made sure of: no link and no file is on it, and no name is too long. -/
structure Usable (d : Disk) (names : List String) : Prop where
  straight : d.Straight [] names
  makeable : d.Makeable names
  free : ∀ content, d.at? (descend [] names) ≠ some (.file content)

/-- What is there on such a way is a directory. -/
theorem Usable.directory (usable : d.Usable names) (initial : front <+: names)
    (there : d.at? (descend [] front) ≠ none) : d.at? (descend [] front) = some .directory := by
  rcases held : d.at? (descend [] front) with _ | content | _ | target
  · exact absurd held there
  · rcases eq_or_ne front names with rfl | ne
    · exact absurd held (usable.free content)
    · exact absurd held (usable.makeable.clear front initial ne content)
  · rfl
  · exact absurd held (usable.straight front initial target)

theorem Usable.isLaid (usable : d.Usable names)
    (there : ∀ front, front <+: names → d.at? (descend [] front) ≠ none) : d.IsLaid names :=
  fun front initial => usable.directory initial (there front initial)

theorem Usable.of_initial (usable : d.Usable names) (initial : front <+: names) :
    d.Usable front where
  straight := usable.straight.mono initial
  makeable := usable.makeable.of_initial initial
  free content := by
    rcases eq_or_ne front names with rfl | ne
    · exact usable.free content
    · exact usable.makeable.clear front initial ne content

theorem Usable.of_snoc (usable : d.Usable (front ++ [name])) : d.Usable front :=
  usable.of_initial (List.prefix_append _ _)

/-- A way remains usable as long as there are only directories on it. -/
theorem Usable.of_directories (usable : d.Usable names)
    (there : ∀ front, front <+: names →
      d'.at? (descend [] front) = none ∨ d'.at? (descend [] front) = some .directory) :
    d'.Usable names where
  straight front initial target link := by
    rcases there front initial with gone | directory
    · rw [gone] at link
      cases link
    · rw [directory] at link
      cases link
  makeable := by
    refine ⟨usable.makeable.short, usable.makeable.fits, fun front initial _ content file => ?_⟩
    rcases there front initial with gone | directory
    · rw [gone] at file
      cases file
    · rw [directory] at file
      cases file
  free content file := by
    rcases there names List.prefix_rfl with gone | directory
    · rw [gone] at file
      cases file
    · rw [directory] at file
      cases file

theorem IsLaid.usable (laid : d.IsLaid names)
    (short : ∀ name ∈ names, name.utf8ByteSize ≤ nameLimit) (fits : Fits names) :
    d.Usable names where
  straight := laid.straight
  makeable := by
    refine ⟨short, fits, fun front initial _ content file => ?_⟩
    rw [laid front initial] at file
    cases file
  free content file := by
    rw [laid names List.prefix_rfl] at file
    cases file

theorem Makes.usable {P : Location → Prop} (makes : d.Makes P d') (usable : d.Usable names) :
    d'.Usable names where
  straight := makes.grows.straight usable.straight
  makeable := makes.makeable_iff.2 usable.makeable
  free content file := usable.free content (makes.file_iff.1 file)

/-! ## Making sure -/

theorem makeDirectory_of_error {e : SystemFault} (failed : (d.makeDirectory names).1 = .error e) :
    d.makeDirectory names = (.error e, d) := by
  unfold makeDirectory at failed ⊢
  split at failed
  · cases failed
  · cases failed
    rfl

theorem ensurePath_snoc :
    d.ensurePath (front ++ [name]).reverse =
      if (d.makeDirectory (front ++ [name])).1 = .error .absent then
        if (d.ensurePath front.reverse).1 = .ok () then
          unlessDirectory (front ++ [name])
            ((d.ensurePath front.reverse).2.makeDirectory (front ++ [name]))
        else d.ensurePath front.reverse
      else unlessDirectory (front ++ [name]) (d.makeDirectory (front ++ [name])) := by
  rw [List.reverse_concat, ensurePath, List.reverse_cons, List.reverse_reverse]
  split_ifs with absent ensured
  · rw [makeDirectory_of_error absent]
    dsimp only
    rcases made : d.ensurePath front.reverse with ⟨_ | _, later⟩
    · rw [made] at ensured
      cases ensured
    · rfl
  · rw [makeDirectory_of_error absent]
    dsimp only
    rcases made : d.ensurePath front.reverse with ⟨_ | _, later⟩
    · rfl
    · rw [made] at ensured
      exact absurd rfl ensured
  · split
    · next later made =>
      rw [made] at absent
      exact absurd rfl absent
    · rfl

/-- Directories are made where nothing was. -/
theorem ensurePath_makes (straight : d.Straight [] names) :
    d.Makes (d.OnWay names) (d.ensurePath names.reverse).2 := by
  induction names using List.reverseRecOn with
  | nil => exact Makes.refl d
  | append_singleton front name ih =>
    obtain ⟨straight, -⟩ := straight_snoc_iff.1 straight
    have above : d.Makes (d.OnWay (front ++ [name])) (d.ensurePath front.reverse).2 := by
      refine (ih straight).mono ?_
      rintro l ⟨first, initial, rfl, makeable⟩
      exact ⟨first, initial.trans (List.prefix_append _ _), rfl, makeable⟩
    rw [ensurePath_snoc]
    split_ifs
    · rw [unlessDirectory_disk]
      refine above.trans ((makeDirectory_makes name (above.grows.straight straight)).mono ?_)
      rintro l ⟨first, initial, rfl, makeable⟩
      exact ⟨first, initial, rfl, above.makeable_iff.1 makeable⟩
    · exact above
    · rw [unlessDirectory_disk]
      exact makeDirectory_makes name straight

/-- The last directory of a way whose other places are directories. -/
theorem Usable.unlessDirectory (usable : d.Usable (front ++ [name])) (laid : d.IsLaid front) :
    (unlessDirectory (front ++ [name]) (d.makeDirectory (front ++ [name]))).1 = .ok () ∧
      (d.makeDirectory (front ++ [name])).2.IsLaid (front ++ [name]) := by
  have straight := usable.of_snoc.straight
  obtain ⟨goesOn, there⟩ := makeDirectory_of_there usable.straight usable.makeable
    fun first initial => by simp [laid first initial]
  have makes := makeDirectory_makes name straight
  have laid' := (makes.usable usable).isLaid there
  refine ⟨?_, laid'⟩
  rcases goesOn with made | taken
  · rcases made' : d.makeDirectory (front ++ [name]) with ⟨_ | _, later⟩
    · rw [made'] at made
      cases made
    · rfl
  · rw [makeDirectory_of_error taken] at laid' ⊢
    have isOpen := laid'.isOpen usable.makeable.short
    have entered := (enter_eq_ok_iff usable.straight).2 ⟨usable.makeable.fits, isOpen, rfl⟩
    unfold Disk.unlessDirectory entryAt?
    simp only [entered, laid' _ List.prefix_rfl]

/-- A usable way is laid, and nothing else is changed. -/
theorem Usable.ensurePath (usable : d.Usable names) :
    (d.ensurePath names.reverse).1 = .ok () ∧ (d.ensurePath names.reverse).2.IsLaid names := by
  induction names using List.reverseRecOn with
  | nil =>
    refine ⟨rfl, fun front initial => ?_⟩
    rw [List.prefix_nil.1 initial]
    rfl
  | append_singleton front name ih =>
    obtain ⟨ensured, laid⟩ := ih usable.of_snoc
    have makes := ensurePath_makes usable.of_snoc.straight
    rw [ensurePath_snoc]
    split_ifs with absent
    · rw [unlessDirectory_disk]
      exact (makes.usable usable).unlessDirectory laid
    · rw [unlessDirectory_disk]
      refine usable.unlessDirectory ?_
      by_cases isOpen : d.IsOpen front
      · exact usable.of_snoc.isLaid fun first initial => (isOpen.mono initial).there
      · have missing := enter_of_not_isOpen usable.of_snoc.straight usable.of_snoc.makeable isOpen
        refine absurd ?_ absent
        simp only [makeDirectory, vacancy, List.getLast?_concat, List.dropLast_concat, missing]
        rfl

theorem short_of_unlessDirectory (straight : d.Straight [] (front ++ [name]))
    (done : (unlessDirectory (front ++ [name]) (d.makeDirectory (front ++ [name]))).1 = .ok ()) :
    ∀ other ∈ front ++ [name], other.utf8ByteSize ≤ nameLimit := by
  have straightFront := (straight_snoc_iff.1 straight).1
  by_cases vacant : d.Vacant front name
  · exact vacant.makeable.short
  · obtain ⟨e, -, failed⟩ := makeDirectory_of_not_vacant straightFront vacant
    rw [failed, unlessDirectory] at done
    split at done
    · next held =>
      unfold entryAt? at held
      split at held
      · next l entered =>
        exact ((enter_eq_ok_iff straight).1 entered).2.1.short
      · cases held
    · cases done

/-- Making sure of a directory with too long a name fails. -/
theorem short_of_ensurePath (straight : d.Straight [] names)
    (ensured : (d.ensurePath names.reverse).1 = .ok ()) :
    ∀ name ∈ names, name.utf8ByteSize ≤ nameLimit := by
  rcases List.eq_nil_or_concat names with rfl | ⟨front, name, rfl⟩
  · exact List.forall_mem_nil _
  · rw [List.concat_eq_append] at *
    have makes := ensurePath_makes (straight_snoc_iff.1 straight).1
    rw [ensurePath_snoc] at ensured
    split_ifs at ensured with absent above
    · exact short_of_unlessDirectory (makes.grows.straight straight) ensured
    · exact absurd ensured above
    · exact short_of_unlessDirectory straight ensured

end PackageRisk.Disk
