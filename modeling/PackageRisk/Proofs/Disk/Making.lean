import PackageRisk.Proofs.Disk.Ways
import PackageRisk.Proofs.Results

/-!
# Making directories

Which directories `makeDirectory` and `makePath` make on a way without links. A directory is
made where nothing was (`Makes`), and making those that lead to a place makes just the missing
ones that can be made: `makePath_makes` bounds them from above, `makePath_of_makeable` from
below.
-/

namespace PackageRisk.Disk

open Location

variable {d d' d'' : Disk} {l : Location} {name : String} {front names : List String}
  {P Q : Location → Prop}

/-- A disk with more directories, all at places that satisfy a test. -/
def Makes (d : Disk) (P : Location → Prop) (d' : Disk) : Prop :=
  ∀ l, d'.at? l = d.at? l ∨ d.at? l = none ∧ d'.at? l = some .directory ∧ P l

theorem Makes.refl (d : Disk) : d.Makes P d := fun _ => .inl rfl

theorem Makes.mono (makes : d.Makes P d') (weaker : ∀ l, P l → Q l) : d.Makes Q d' := by
  intro l
  rcases makes l with same | ⟨gone, made, place⟩
  · exact .inl same
  · exact .inr ⟨gone, made, weaker l place⟩

theorem Makes.trans (first : d.Makes P d') (second : d'.Makes P d'') : d.Makes P d'' := by
  intro l
  rcases first l with same | ⟨gone, made, place⟩
  · rw [← same]
    exact second l
  · rcases second l with same | ⟨gone', -, -⟩
    · exact .inr ⟨gone, same.trans made, place⟩
    · rw [made] at gone'
      cases gone'

theorem Makes.grows (makes : d.Makes P d') : d.Grows d' := by
  intro l
  rcases makes l with same | ⟨gone, made, -⟩
  · rw [same]
    exact .stays _
  · rw [gone, made]
    exact .made

theorem Makes.file_iff (makes : d.Makes P d') {content : ByteArray} :
    d'.at? l = some (.file content) ↔ d.at? l = some (.file content) := by
  rcases makes l with same | ⟨gone, made, -⟩
  · rw [same]
  · simp [gone, made]

theorem makes_put (ne : l ≠ []) (gone : d.at? l = none) (place : P l) :
    d.Makes P (d.put l .directory) := by
  intro k
  rw [at?_put ne]
  by_cases same : k = l
  · subst same
    exact .inr ⟨gone, if_pos rfl, place⟩
  · exact .inl (if_neg same)

/-! ## Ways that can be made -/

/-- A way that the system can make where it is missing: no name and not the whole is too long,
and no file is in between. -/
structure Makeable (d : Disk) (names : List String) : Prop where
  short : ∀ name ∈ names, name.utf8ByteSize ≤ nameLimit
  fits : Fits names
  clear : ∀ front, front <+: names → front ≠ names →
    ∀ content, d.at? (descend [] front) ≠ some (.file content)

theorem Makes.makeable_iff (makes : d.Makes P d') : d'.Makeable names ↔ d.Makeable names := by
  constructor
  · rintro ⟨short, fits, clear⟩
    exact ⟨short, fits, fun front initial ne content file =>
      clear front initial ne content (makes.file_iff.2 file)⟩
  · rintro ⟨short, fits, clear⟩
    exact ⟨short, fits, fun front initial ne content file =>
      clear front initial ne content (makes.file_iff.1 file)⟩

/-- The text of a way is not longer than that of a longer way. -/
theorem textSize_mono (initial : front <+: names) :
    (Location.text front).utf8ByteSize ≤ (Location.text names).utf8ByteSize := by
  obtain ⟨back, rfl⟩ := initial
  rcases eq_or_ne back [] with rfl | more
  · rw [List.append_nil]
  rcases eq_or_ne front [] with rfl | some
  · simp [Location.text, Text.join]
  · simp only [Location.text, Text.join, String.intercalate_append_of_ne_nil some more,
      String.utf8ByteSize_append]
    omega

theorem Fits.of_initial (fits : Fits names) (initial : front <+: names) : Fits front :=
  Nat.lt_of_le_of_lt (textSize_mono initial) fits

theorem ne_snoc_of_initial {first : List String} (initial : first <+: front) :
    first ≠ front ++ [name] := by
  rintro rfl
  have := initial.length_le
  rw [List.length_append, List.length_singleton] at this
  omega

theorem Makeable.of_initial (makeable : d.Makeable names) (initial : front <+: names) :
    d.Makeable front := by
  refine ⟨fun other mem => makeable.short other (initial.subset mem),
    makeable.fits.of_initial initial, fun first shorter ne => ?_⟩
  refine makeable.clear first (shorter.trans initial) ?_
  rintro rfl
  exact ne (shorter.eq_of_length_le initial.length_le)

theorem Makeable.of_snoc (makeable : d.Makeable (front ++ [name])) : d.Makeable front :=
  makeable.of_initial (List.prefix_append _ _)

/-- What is there above the end of such a way is a directory. -/
theorem Makeable.directory (makeable : d.Makeable (front ++ [name]))
    (straight : d.Straight [] front) (there : d.at? (descend [] front) ≠ none) :
    d.at? (descend [] front) = some .directory := by
  rcases held : d.at? (descend [] front) with _ | content | _ | target
  · exact absurd held there
  · exact absurd held (makeable.clear front (List.prefix_append _ _)
      (ne_snoc_of_initial List.prefix_rfl) content)
  · rfl
  · exact absurd held (straight front List.prefix_rfl target)

theorem Leads.short (leads : d.Leads l name) : name.utf8ByteSize ≤ nameLimit := by
  by_cases dot : name = "."
  · rw [dot]
    decide
  by_cases up : name = ".."
  · rw [up]
    decide
  exact (leads.2 ⟨dot, up⟩).1

theorem IsOpen.short (isOpen : d.IsOpen names) :
    ∀ name ∈ names, name.utf8ByteSize ≤ nameLimit := by
  intro name mem
  obtain ⟨front, back, rfl⟩ := List.append_of_mem mem
  refine (isOpen front name ⟨back, ?_⟩).short
  rw [List.append_assoc, List.singleton_append]

/-- A way is open when all its places are there and none but the last is a file. -/
theorem isOpen_of_there (straight : d.Straight [] names)
    (short : ∀ name ∈ names, name.utf8ByteSize ≤ nameLimit)
    (clear : ∀ front, front <+: names → front ≠ names →
      ∀ content, d.at? (descend [] front) ≠ some (.file content))
    (there : ∀ front, front <+: names → d.at? (descend [] front) ≠ none) : d.IsOpen names := by
  intro front name initial
  have shorter : front <+: names := (List.prefix_append _ _).trans initial
  have ne : front ≠ names := by
    rintro rfl
    exact ne_snoc_of_initial initial rfl
  refine ⟨?_, fun plain => ⟨short name ?_, ?_⟩⟩
  · rcases held : d.at? (descend [] front) with _ | content | _ | target
    · exact absurd held (there front shorter)
    · exact absurd held (clear front shorter ne content)
    · rfl
    · exact absurd held (straight front shorter target)
  · exact initial.subset (by simp)
  · rw [← step_plain plain, ← descend_snoc]
    exact there _ initial

/-! ## One directory -/

/-- A name that is not taken in the directory that a way leads to. -/
structure IsRoom (d : Disk) (front : List String) (here : Location) (name : String) : Prop where
  entered : d.enter front = .ok here
  directory : d.at? here = some .directory
  plain : IsPlain name
  short : name.utf8ByteSize ≤ nameLimit
  fits : Fits (front ++ [name])
  gone : d.at? (here ++ [name]) = none

theorem vacancy_eq_ok_iff :
    d.vacancy (front ++ [name]) = .ok l ↔
      ∃ here, d.IsRoom front here name ∧ l = here ++ [name] := by
  unfold vacancy
  rw [List.getLast?_concat, List.dropLast_concat]
  constructor
  · intro vacant
    obtain ⟨here, entered, rest⟩ := bind_eq_ok.1 vacant
    split_ifs at rest with directory special long longPath taken
    rw [Except.ok.injEq] at rest
    refine ⟨here, ⟨entered, isDirectory_iff.1 (by simpa using directory), ?_, not_lt.1 long,
      not_le.1 longPath, by simpa using taken⟩, rest.symm⟩
    simpa [IsPlain] using special
  · rintro ⟨here, room, rfl⟩
    have fits := room.fits
    unfold Fits at fits
    refine bind_eq_ok.2 ⟨here, room.entered, ?_⟩
    simp [isDirectory_iff.2 room.directory, room.plain.1, room.plain.2, room.gone,
      not_lt.2 room.short, not_le.2 fits]

/-- A name that is not taken in the directory that an open way leads to. -/
structure Vacant (d : Disk) (front : List String) (name : String) : Prop where
  fits : Fits front
  isOpen : d.IsOpen front
  directory : d.at? (descend [] front) = some .directory
  plain : IsPlain name
  short : name.utf8ByteSize ≤ nameLimit
  fitsAll : Fits (front ++ [name])
  gone : d.at? (descend [] front ++ [name]) = none

theorem vacancy_snoc_eq_ok_iff (straight : d.Straight [] front) :
    d.vacancy (front ++ [name]) = .ok l ↔
      d.Vacant front name ∧ l = descend [] front ++ [name] := by
  rw [vacancy_eq_ok_iff]
  constructor
  · rintro ⟨here, room, rfl⟩
    obtain ⟨fits, isOpen, rfl⟩ := (enter_eq_ok_iff straight).1 room.entered
    exact ⟨⟨fits, isOpen, room.directory, room.plain, room.short, room.fits, room.gone⟩, rfl⟩
  · rintro ⟨vacant, rfl⟩
    have entered := (enter_eq_ok_iff straight).2 ⟨vacant.fits, vacant.isOpen, rfl⟩
    exact ⟨_, ⟨entered, vacant.directory, vacant.plain, vacant.short, vacant.fitsAll, vacant.gone⟩,
      rfl⟩

theorem Vacant.ne_nil : descend [] front ++ [name] ≠ [] := by simp

theorem Vacant.descend_eq (vacant : d.Vacant front name) :
    descend [] (front ++ [name]) = descend [] front ++ [name] := by
  rw [descend_snoc, step_plain vacant.plain]

theorem Vacant.makeable (vacant : d.Vacant front name) : d.Makeable (front ++ [name]) := by
  refine ⟨forall_mem_snoc vacant.isOpen.short vacant.short, vacant.fitsAll, ?_⟩
  · intro first initial ne content file
    rcases List.prefix_concat_iff.1 initial with same | shorter
    · exact ne same
    rcases eq_or_ne first front with rfl | ne
    · rw [vacant.directory] at file
      cases file
    · obtain ⟨back, rfl⟩ := shorter
      rcases back with _ | ⟨next, back⟩
      · simp at ne
      · have leads := vacant.isOpen first next ⟨back, by simp⟩
        rw [leads.1] at file
        cases file

theorem makeDirectory_of_vacant (straight : d.Straight [] front) (vacant : d.Vacant front name) :
    d.makeDirectory (front ++ [name]) =
      (.ok (), d.put (descend [] front ++ [name]) .directory) := by
  rw [makeDirectory, (vacancy_snoc_eq_ok_iff straight).2 ⟨vacant, rfl⟩]

theorem makeDirectory_of_not_vacant (straight : d.Straight [] front)
    (taken : ¬d.Vacant front name) :
    ∃ e, d.vacancy (front ++ [name]) = .error e ∧
      d.makeDirectory (front ++ [name]) = (.error e, d) := by
  rw [makeDirectory]
  rcases vacancy : d.vacancy (front ++ [name]) with e | l
  · exact ⟨e, rfl, rfl⟩
  · exact absurd ((vacancy_snoc_eq_ok_iff straight).1 vacancy).1 taken

/-- The places that a way leads through, itself included, as far as it can be made. -/
def OnWay (d : Disk) (names : List String) (l : Location) : Prop :=
  ∃ front, front <+: names ∧ l = descend [] front ∧ d.Makeable front

theorem makeDirectory_makes (name : String) (straight : d.Straight [] front) :
    d.Makes (d.OnWay (front ++ [name])) (d.makeDirectory (front ++ [name])).2 := by
  by_cases vacant : d.Vacant front name
  · rw [makeDirectory_of_vacant straight vacant]
    refine makes_put Vacant.ne_nil vacant.gone ?_
    exact ⟨_, List.prefix_rfl, vacant.descend_eq.symm, vacant.makeable⟩
  · obtain ⟨e, -, failed⟩ := makeDirectory_of_not_vacant straight vacant
    rw [failed]
    exact Makes.refl d

@[simp]
theorem unlessDirectory_disk (changed : Changed) :
    (unlessDirectory names changed).2 = changed.2 := by
  rcases changed with ⟨e | _, later⟩
  · rw [unlessDirectory]
    split <;> rfl
  · rfl

/-- The disk after an attempt to make a directory at the end of a way. -/
theorem makeDirectory_cases (straight : d.Straight [] names) :
    (d.makeDirectory names).2 = d ∨
      descend [] names ≠ [] ∧ d.at? (descend [] names) = none ∧
        (d.makeDirectory names).2 = d.put (descend [] names) .directory := by
  rcases List.eq_nil_or_concat names with rfl | ⟨front, name, rfl⟩
  · exact .inl rfl
  · rw [List.concat_eq_append] at *
    obtain ⟨straight, -⟩ := straight_snoc_iff.1 straight
    by_cases vacant : d.Vacant front name
    · rw [makeDirectory_of_vacant straight vacant, vacant.descend_eq]
      exact .inr ⟨Vacant.ne_nil, vacant.gone, rfl⟩
    · obtain ⟨e, -, failed⟩ := makeDirectory_of_not_vacant straight vacant
      rw [failed]
      exact .inl rfl

/-! ## All directories of a way -/

theorem isOpen_of_isThere (straight : d.Straight [] names) (there : d.isThere names = true) :
    d.IsOpen names := by
  unfold isThere at there
  rcases entered : d.enter names with e | l
  · rw [entered] at there
    cases there
  · exact ((enter_eq_ok_iff straight).1 entered).2.1

/-- The outcomes after which `makePath` goes on. -/
def GoesOn (outcome : Except SystemFault Unit) : Prop :=
  outcome = .ok () ∨ outcome = .error .alreadyThere

theorem makePath_snoc_of_there (there : front = [] ∨ d.isThere front = true) :
    d.makePath (front ++ [name]).reverse = d.makeDirectory (front ++ [name]) := by
  rw [List.reverse_concat, makePath, List.isEmpty_reverse, List.reverse_reverse,
    List.reverse_cons, List.reverse_reverse, if_pos (by simpa using there)]

theorem makePath_snoc_of_missing (name : String)
    (missing : ¬(front = [] ∨ d.isThere front = true)) {outcome : Except SystemFault Unit}
    (made : d.makePath front.reverse = (outcome, d')) :
    (GoesOn outcome ∧
      d.makePath (front ++ [name]).reverse = d'.makeDirectory (front ++ [name])) ∨
    (GoesOn outcome ∧ name = "." ∧ d.makePath (front ++ [name]).reverse = (.ok (), d')) ∨
    ¬GoesOn outcome ∧ d.makePath (front ++ [name]).reverse = (outcome, d') := by
  rw [List.reverse_concat, makePath, List.isEmpty_reverse, List.reverse_reverse,
    List.reverse_cons, List.reverse_reverse, if_neg (by simpa using missing), made]
  by_cases goesOn : GoesOn outcome
  · have next : (if name == "." then (.ok (), d') else d'.makeDirectory (front ++ [name])) =
          d'.makeDirectory (front ++ [name]) ∨
        name = "." ∧ (if name == "." then (.ok (), d') else
          d'.makeDirectory (front ++ [name])) = ((.ok (), d') : Changed) := by
      by_cases dot : name = "."
      · exact .inr ⟨dot, by simp [dot]⟩
      · exact .inl (by simp [dot])
    rcases goesOn with rfl | rfl
    · exact next.imp (⟨.inl rfl, ·⟩) fun stays => .inl ⟨.inl rfl, stays⟩
    · exact next.imp (⟨.inr rfl, ·⟩) fun stays => .inl ⟨.inr rfl, stays⟩
  · refine .inr (.inr ⟨goesOn, ?_⟩)
    rcases outcome with e | _
    · cases e
      case alreadyThere => exact absurd (.inr rfl) goesOn
      all_goals rfl
    · exact absurd (.inl rfl) goesOn

/-- A way is made of directories where nothing was. -/
theorem makePath_makes (straight : d.Straight [] names) :
    d.Makes (d.OnWay names) (d.makePath names.reverse).2 := by
  induction names using List.reverseRecOn with
  | nil => exact Makes.refl d
  | append_singleton front name ih =>
    obtain ⟨straight, -⟩ := straight_snoc_iff.1 straight
    have above : d.Makes (d.OnWay (front ++ [name])) (d.makePath front.reverse).2 := by
      refine (ih straight).mono ?_
      rintro l ⟨first, initial, rfl, makeable⟩
      exact ⟨first, initial.trans (List.prefix_append _ _), rfl, makeable⟩
    have last : d.Makes (d.OnWay (front ++ [name]))
        ((d.makePath front.reverse).2.makeDirectory (front ++ [name])).2 := by
      refine above.trans ((makeDirectory_makes name (above.grows.straight straight)).mono ?_)
      rintro l ⟨first, initial, rfl, makeable⟩
      exact ⟨first, initial, rfl, above.makeable_iff.1 makeable⟩
    by_cases there : front = [] ∨ d.isThere front = true
    · rw [makePath_snoc_of_there there]
      exact makeDirectory_makes name straight
    · rcases made : d.makePath front.reverse with ⟨outcome, later⟩
      rw [made] at above last
      rcases makePath_snoc_of_missing name there made with
        ⟨-, same⟩ | ⟨-, -, same⟩ | ⟨-, same⟩
      · rw [same]
        exact last
      · rw [same]
        exact above
      · rw [same]
        exact above

theorem vacancy_of_taken (straight : d.Straight [] front) (isOpen : d.IsOpen front)
    (directory : d.at? (descend [] front) = some .directory)
    (makeable : d.Makeable (front ++ [name])) (taken : ¬d.Vacant front name) :
    d.vacancy (front ++ [name]) = .error .alreadyThere := by
  have fits := makeable.fits.of_initial (List.prefix_append front [name])
  have short := makeable.short name (by simp)
  have fitsAll := makeable.fits
  unfold vacancy
  rw [List.getLast?_concat, List.dropLast_concat]
  dsimp only
  rw [(enter_eq_ok_iff straight).2 ⟨fits, isOpen, rfl⟩]
  show (if _ then _ else _) = _
  rw [if_neg (by simp [isDirectory_iff.2 directory])]
  by_cases plain : IsPlain name
  · have held : (d.at? (descend [] front ++ [name])).isSome = true := by
      rw [Option.isSome_iff_ne_none]
      exact fun gone => taken ⟨fits, isOpen, directory, plain, short, fitsAll, gone⟩
    unfold Fits at fitsAll
    rw [if_neg (by simpa [IsPlain] using plain), if_neg (not_lt.2 short),
      if_neg (not_le.2 fitsAll), if_pos held]
  · rw [if_pos]
    simpa [IsPlain, imp_iff_not_or] using plain

/-- Making the last directory of a way whose other places are there. -/
theorem makeDirectory_of_there (straight : d.Straight [] (front ++ [name]))
    (makeable : d.Makeable (front ++ [name]))
    (there : ∀ first, first <+: front → d.at? (descend [] first) ≠ none) :
    GoesOn (d.makeDirectory (front ++ [name])).1 ∧
      ∀ first, first <+: front ++ [name] →
        (d.makeDirectory (front ++ [name])).2.at? (descend [] first) ≠ none := by
  obtain ⟨straight, noLink⟩ := straight_snoc_iff.1 straight
  have isOpen := isOpen_of_there straight makeable.of_snoc.short makeable.of_snoc.clear there
  have directory := makeable.directory straight (there front List.prefix_rfl)
  by_cases vacant : d.Vacant front name
  · have grows := (makeDirectory_makes name straight).grows
    rw [makeDirectory_of_vacant straight vacant] at grows ⊢
    refine ⟨.inl rfl, fun first initial => ?_⟩
    rcases List.prefix_concat_iff.1 initial with rfl | shorter
    · simp [vacant.descend_eq]
    · exact grows.ne_none (there first shorter)
  · have taken := vacancy_of_taken straight isOpen directory makeable vacant
    rw [makeDirectory, taken]
    refine ⟨.inr rfl, fun first initial => ?_⟩
    rcases List.prefix_concat_iff.1 initial with rfl | shorter
    · by_cases plain : IsPlain name
      · intro gone
        rw [descend_snoc, step_plain plain] at gone
        exact vacant ⟨makeable.of_snoc.fits, isOpen, directory, plain,
          makeable.short name (by simp), makeable.fits, gone⟩
      · exact (isOpen_snoc_iff.2 ⟨isOpen, directory, fun is => absurd is plain⟩).there
    · exact there first shorter

/-- All places of a way that can be made are there afterwards. -/
theorem makePath_of_makeable (straight : d.Straight [] names) (makeable : d.Makeable names)
    (some : names ≠ []) :
    GoesOn (d.makePath names.reverse).1 ∧
      ∀ front, front <+: names → (d.makePath names.reverse).2.at? (descend [] front) ≠ none := by
  induction names using List.reverseRecOn with
  | nil => exact absurd rfl some
  | append_singleton front name ih =>
    obtain ⟨straightFront, -⟩ := straight_snoc_iff.1 straight
    by_cases there : front = [] ∨ d.isThere front = true
    · rw [makePath_snoc_of_there there]
      refine makeDirectory_of_there straight makeable fun first initial => ?_
      rcases there with rfl | there
      · simp [List.prefix_nil.1 initial]
      · exact (isOpen_of_isThere straightFront there).mono initial |>.there
    · have makes := makePath_makes straightFront
      rcases made : d.makePath front.reverse with ⟨outcome, later⟩
      have before := ih straightFront makeable.of_snoc fun root => there (.inl root)
      rw [made] at before makes
      have last := makeDirectory_of_there (makes.grows.straight straight)
        (makes.makeable_iff.2 makeable) before.2
      rcases makePath_snoc_of_missing name there made with
        ⟨-, same⟩ | ⟨-, rfl, same⟩ | ⟨stops, -⟩
      · rw [same]
        exact last
      · rw [same]
        refine ⟨.inl rfl, fun first initial => ?_⟩
        rcases List.prefix_concat_iff.1 initial with rfl | shorter
        · rw [descend_snoc, step_dot]
          exact before.2 front List.prefix_rfl
        · exact before.2 first shorter
      · exact absurd before.1 stops

/-- So are those of its part that can be made, whatever is behind that part. -/
theorem makePath_there (straight : d.Straight [] names) (initial : front <+: names)
    (makeable : d.Makeable front) :
    (d.makePath names.reverse).2.at? (descend [] front) ≠ none := by
  rcases eq_or_ne front [] with rfl | some
  · simp
  induction names using List.reverseRecOn with
  | nil => exact absurd (List.prefix_nil.1 initial) some
  | append_singleton above name ih =>
    rcases List.prefix_concat_iff.1 initial with rfl | shorter
    · exact (makePath_of_makeable straight makeable some).2 _ List.prefix_rfl
    obtain ⟨straightAbove, -⟩ := straight_snoc_iff.1 straight
    by_cases there : above = [] ∨ d.isThere above = true
    · refine (makePath_makes straight).grows.ne_none ?_
      rcases there with rfl | there
      · simp [List.prefix_nil.1 shorter]
      · exact (isOpen_of_isThere straightAbove there).mono shorter |>.there
    · have before := ih straightAbove shorter
      have makes := makePath_makes straightAbove
      rcases made : d.makePath above.reverse with ⟨outcome, later⟩
      rw [made] at before makes
      have last := makeDirectory_makes name (makes.grows.straight straightAbove)
      rcases makePath_snoc_of_missing name there made with
        ⟨-, same⟩ | ⟨-, -, same⟩ | ⟨-, same⟩
      · rw [same]
        exact last.grows.ne_none before
      · rw [same]
        exact before
      · rw [same]
        exact before

/-- A name behind a way that was made is vacant if nothing was there. -/
theorem Makes.vacant (makes : d.Makes (d.OnWay front) d') (straight : d.Straight [] front)
    (makeable : d.Makeable (front ++ [name])) (plain : ∀ other ∈ front ++ [name], IsPlain other)
    (there : ∀ first, first <+: front → d'.at? (descend [] first) ≠ none)
    (gone : d.at? (front ++ [name]) = none) : d'.Vacant front name := by
  have makeable := makes.makeable_iff.2 makeable
  have straight := makes.grows.straight straight
  have descended {first : List String} (initial : first <+: front) : descend [] first = first := by
    have among := (initial.trans (List.prefix_append front [name])).subset
    rw [descend_plain fun other mem => plain other (among mem), List.nil_append]
  refine ⟨makeable.of_snoc.fits,
    isOpen_of_there straight makeable.of_snoc.short makeable.of_snoc.clear there,
    makeable.directory straight (there front List.prefix_rfl), plain name (by simp),
    makeable.short name (by simp), makeable.fits, ?_⟩
  rw [descended List.prefix_rfl]
  rcases makes (front ++ [name]) with same | ⟨-, -, first, initial, same, -⟩
  · rw [same, gone]
  · rw [descended initial] at same
    exact absurd same.symm (ne_snoc_of_initial initial)

/-- A way to where nothing is can be made if its names do not lead elsewhere. -/
theorem makePath_of_missing (straight : d.Straight [] (front ++ [name]))
    (makeable : d.Makeable (front ++ [name])) (plain : ∀ other ∈ front ++ [name], IsPlain other)
    (gone : d.at? (front ++ [name]) = none) :
    (d.makePath (front ++ [name]).reverse).1 = .ok () := by
  obtain ⟨straightFront, -⟩ := straight_snoc_iff.1 straight
  by_cases there : front = [] ∨ d.isThere front = true
  · have vacant := (Makes.refl d).vacant straightFront makeable plain (fun first initial => by
      rcases there with rfl | there
      · simp [List.prefix_nil.1 initial]
      · exact (isOpen_of_isThere straightFront there).mono initial |>.there) gone
    rw [makePath_snoc_of_there there, makeDirectory_of_vacant straightFront vacant]
  · have makes := makePath_makes straightFront
    have before := makePath_of_makeable straightFront makeable.of_snoc fun root => there (.inl root)
    rcases made : d.makePath front.reverse with ⟨outcome, later⟩
    rw [made] at before makes
    rcases makePath_snoc_of_missing name there made with ⟨-, same⟩ | ⟨-, -, same⟩ | ⟨stops, -⟩
    · rw [same, makeDirectory_of_vacant (makes.grows.straight straightFront)
        (makes.vacant straightFront makeable plain before.2 gone)]
    · rw [same]
    · exact absurd before.1 stops

/-! ## Files -/

/-- A file is written at the place that its way leads to, or nowhere. -/
theorem write_cases (straight : d.Straight [] names) (content : ByteArray) :
    (d.write names content).2 = d ∨
      descend [] names ≠ [] ∧
        Becomes (d.at? (descend [] names)) (some (.file content)) ∧
        (d.write names content).2 = d.put (descend [] names) (.file content) := by
  unfold write
  split
  · exact .inl rfl
  · exact .inl rfl
  · exact .inl rfl
  · split
    · next l entered =>
      obtain ⟨-, -, rfl⟩ := (enter_eq_ok_iff straight).1 entered
      split
      · next old held =>
        refine .inr ⟨?_, ?_, rfl⟩
        · rintro root
          rw [root] at held
          cases held
        · rw [held]
          exact .rewritten old content
      · exact .inl rfl
    · split
      · next l vacant =>
        rcases List.eq_nil_or_concat names with rfl | ⟨front, name, rfl⟩
        · cases vacant
        · rw [List.concat_eq_append] at *
          obtain ⟨straight, -⟩ := straight_snoc_iff.1 straight
          obtain ⟨room, rfl⟩ := (vacancy_snoc_eq_ok_iff straight).1 vacant
          rw [room.descend_eq]
          refine .inr ⟨Vacant.ne_nil, ?_, rfl⟩
          rw [room.gone]
          exact .written content
      · exact .inl rfl
      · exact .inl rfl
    · exact .inl rfl

end PackageRisk.Disk
