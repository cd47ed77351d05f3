import PackageRisk.Proofs.Archive.MemberNames
import PackageRisk.Proofs.Disk.Making

/-!
# What an extraction can reach

A name is checked for where it leads, not for what it leads through. The file or directory of
a member is always written inside of the destination, but a name may leave the destination on
its way, and the directories that are missing there are made: `writeMembers_outside_iff` says
which. Everything else outside stays as it was, and no link is ever made.
-/

namespace PackageRisk.Archive

open Disk Location

variable {d d' : Disk} {root l : Location} {m : Tar.Member} {ms rest : List Tar.Member}
  {names front : List String}

/-! ## One member -/

theorem makeRoom_makes (straight : d.Straight [] names) :
    d.Makes (d.OnWay names.dropLast) (makeRoom d names).2 := by
  unfold makeRoom
  split_ifs
  · exact Makes.refl d
  · exact makePath_makes (straight.mono ( List.dropLast_prefix names))

theorem makeRoom_there (straight : d.Straight [] names) (initial : front <+: names.dropLast)
    (makeable : d.Makeable front) : (makeRoom d names).2.at? (descend [] front) ≠ none := by
  have straight := straight.mono ( List.dropLast_prefix names)
  unfold makeRoom
  split_ifs with there
  · exact (isOpen_of_isThere straight there).mono initial |>.there
  · exact makePath_there straight initial makeable

/-- For a member room is made, and then a file is written or a directory is made. -/
theorem writeMember_disk (d : Disk) (root : Location) (m : Tar.Member) :
    m.kind = .other ∧ (writeMember d root m).2 = d ∨
    m.kind ≠ .other ∧ ((writeMember d root m).2 = (makeRoom d (namesOf root m.name)).2 ∨
      (writeMember d root m).2 =
        ((makeRoom d (namesOf root m.name)).2.write (namesOf root m.name) m.content).2 ∨
      (writeMember d root m).2 =
        ((makeRoom d (namesOf root m.name)).2.makeDirectory (namesOf root m.name)).2) := by
  unfold writeMember
  dsimp only
  rcases makeRoom d (namesOf root m.name) with ⟨outcome, later⟩
  cases m.kind with
  | other => exact .inl ⟨rfl, rfl⟩
  | file =>
    refine .inr ⟨nofun, ?_⟩
    rcases outcome with e | _
    · exact .inl rfl
    · exact .inr (.inl rfl)
  | directory =>
    refine .inr ⟨nofun, ?_⟩
    rcases outcome with e | _
    · exact .inl rfl
    · refine .inr (.inr ?_)
      dsimp only
      split
      · next same => rw [unlessDirectory_disk, same]
      · rfl

/-- Nothing is written for a member but at its own place, after room was made for it. -/
theorem writeMember_cases (straight : d.Straight [] (namesOf root m.name)) :
    m.kind = .other ∧ (writeMember d root m).2 = d ∨
    m.kind ≠ .other ∧ ((writeMember d root m).2 = (makeRoom d (namesOf root m.name)).2 ∨
      ∃ e, descend [] (namesOf root m.name) ≠ [] ∧
        Becomes ((makeRoom d (namesOf root m.name)).2.at? (descend [] (namesOf root m.name)))
          (some e) ∧
        (writeMember d root m).2 =
          (makeRoom d (namesOf root m.name)).2.put (descend [] (namesOf root m.name)) e) := by
  have straight' := (makeRoom_makes straight).grows.straight straight
  rcases writeMember_disk d root m with ⟨kind, same⟩ | ⟨kind, same | same | same⟩
  · exact .inl ⟨kind, same⟩
  · exact .inr ⟨kind, .inl same⟩
  · refine .inr ⟨kind, ?_⟩
    rw [same]
    rcases write_cases straight' m.content with stays | ⟨ne, becomes, written⟩
    · exact .inl stays
    · exact .inr ⟨_, ne, becomes, written⟩
  · refine .inr ⟨kind, ?_⟩
    rw [same]
    rcases makeDirectory_cases straight' with stays | ⟨ne, gone, made⟩
    · exact .inl stays
    · refine .inr ⟨.directory, ne, ?_, made⟩
      rw [gone]
      exact .made

theorem writeMember_grows (straight : d.Straight [] (namesOf root m.name)) :
    d.Grows (writeMember d root m).2 := by
  have room := (makeRoom_makes straight).grows
  rcases writeMember_cases straight with ⟨-, same⟩ | ⟨-, same | ⟨e, ne, becomes, same⟩⟩
  · rw [same]
    exact Grows.refl d
  · rw [same]
    exact room
  · rw [same]
    exact room.trans (grows_put ne becomes)

theorem writeMember_outside (straight : d.Straight [] (namesOf root m.name))
    (inside : root <+: descend [] (namesOf root m.name)) (outside : ¬root <+: l) :
    (writeMember d root m).2.at? l = d.at? l ∨
      (writeMember d root m).2.at? l = some .directory := by
  have room : (makeRoom d (namesOf root m.name)).2.at? l = d.at? l ∨
      (makeRoom d (namesOf root m.name)).2.at? l = some .directory := by
    rcases makeRoom_makes straight l with stays | ⟨-, made, -⟩
    · exact .inl stays
    · exact .inr made
  rcases writeMember_cases straight with ⟨-, same⟩ | ⟨-, same | ⟨e, ne, -, same⟩⟩
  · exact .inl (by rw [same])
  · rwa [same]
  · rwa [same, at?_put ne, if_neg (by rintro rfl; exact outside inside)]

/-- Outside of the destination a member makes the directories on its way that are missing. -/
theorem writeMember_outside_iff (straight : d.Straight [] (namesOf root m.name))
    (inside : root <+: descend [] (namesOf root m.name)) (outside : ¬root <+: l) :
    (writeMember d root m).2.at? l ≠ d.at? l ↔
      d.at? l = none ∧ m.kind ≠ .other ∧ d.OnWay (namesOf root m.name).dropLast l := by
  have makes := makeRoom_makes straight
  have same : m.kind ≠ .other →
      (writeMember d root m).2.at? l = (makeRoom d (namesOf root m.name)).2.at? l := by
    intro kind
    rcases writeMember_cases straight with ⟨other, -⟩ | ⟨-, same | ⟨e, ne, -, same⟩⟩
    · exact absurd other kind
    · rw [same]
    · rw [same, at?_put ne, if_neg]
      rintro rfl
      exact outside inside
  constructor
  · intro changed
    have kind : m.kind ≠ .other := by
      intro other
      rcases writeMember_cases straight with ⟨-, stays⟩ | ⟨kind, -⟩
      · rw [stays] at changed
        exact changed rfl
      · exact kind other
    rw [same kind] at changed
    rcases makes l with stays | ⟨gone, -, onWay⟩
    · exact absurd stays changed
    · exact ⟨gone, kind, onWay⟩
  · rintro ⟨gone, kind, front, initial, rfl, makeable⟩
    rw [same kind, gone]
    exact makeRoom_there straight initial makeable

/-! ## All members -/

/-- A place on the way of a member that is written when its turn comes. -/
def Strays (d : Disk) (root : Location) (ms : List Tar.Member) (l : Location) : Prop :=
  ∃ before m after, ms = before ++ m :: after ∧ (writeMembers d root before).1 = .ok () ∧
    m.kind ≠ .other ∧
      (writeMembers d root before).2.OnWay (namesOf root m.name).dropLast l

theorem writeMembers_cons :
    writeMembers d root (m :: rest) =
      if (writeMember d root m).1 = .ok () then
        writeMembers (writeMember d root m).2 root rest
      else writeMember d root m := by
  rw [writeMembers]
  rcases writeMember d root m with ⟨e | _, later⟩
  · rfl
  · rfl

theorem strays_cons_iff :
    Strays d root (m :: rest) l ↔
      m.kind ≠ .other ∧ d.OnWay (namesOf root m.name).dropLast l ∨
        (writeMember d root m).1 = .ok () ∧ Strays (writeMember d root m).2 root rest l := by
  constructor
  · rintro ⟨before, turn, after, split, written, kind, onWay⟩
    rcases before with _ | ⟨first, before⟩
    · cases split
      exact .inl ⟨kind, onWay⟩
    · cases split
      rw [writeMembers_cons] at written onWay
      split_ifs at written onWay with done
      · exact .inr ⟨done, before, turn, after, rfl, written, kind, onWay⟩
      · exact absurd written done
  · rintro (⟨kind, onWay⟩ | ⟨done, before, turn, after, rfl, written, kind, onWay⟩)
    · exact ⟨[], m, rest, rfl, rfl, kind, onWay⟩
    · refine ⟨m :: before, turn, after, rfl, ?_, kind, ?_⟩
      · rwa [writeMembers_cons, if_pos done]
      · rwa [writeMembers_cons, if_pos done]

theorem writeMembers_grows (straight : ∀ m ∈ ms, d.Straight [] (namesOf root m.name)) :
    d.Grows (writeMembers d root ms).2 := by
  induction ms generalizing d with
  | nil => exact Grows.refl d
  | cons m rest ih =>
    rw [List.forall_mem_cons] at straight
    have first := writeMember_grows straight.1
    rw [writeMembers_cons]
    split_ifs
    · exact first.trans (ih fun m mem => first.straight (straight.2 m mem))
    · exact first

/-- Outside of the destination just the directories are made that are missing on the ways of
members. -/
theorem writeMembers_outside_iff (straight : ∀ m ∈ ms, d.Straight [] (namesOf root m.name))
    (inside : ∀ m ∈ ms, root <+: descend [] (namesOf root m.name)) (outside : ¬root <+: l) :
    (writeMembers d root ms).2.at? l ≠ d.at? l ↔ d.at? l = none ∧ Strays d root ms l := by
  induction ms generalizing d with
  | nil =>
    refine iff_of_false (fun changed => changed rfl) ?_
    rintro ⟨-, before, m, after, split, -⟩
    simp at split
  | cons m rest ih =>
    rw [List.forall_mem_cons] at straight inside
    have first := writeMember_outside_iff straight.1 inside.1 outside
    have grows := writeMember_grows straight.1
    have straight' := fun n mem => grows.straight (straight.2 n mem)
    have later := ih straight' inside.2
    have growsLater := writeMembers_grows straight'
    rw [strays_cons_iff, writeMembers_cons]
    by_cases done : (writeMember d root m).1 = .ok ()
    · rw [if_pos done]
      by_cases here : (writeMember d root m).2.at? l = d.at? l
      · have notFirst := mt first.2 (not_not_intro here)
        rw [← here, later, here]
        simp only [done, true_and]
        constructor
        · rintro ⟨gone, strays⟩
          exact ⟨gone, .inr strays⟩
        · rintro ⟨gone, onWay | strays⟩
          · exact absurd ⟨gone, onWay⟩ notFirst
          · exact ⟨gone, strays⟩
      · obtain ⟨gone, onWay⟩ := first.1 here
        refine iff_of_true ?_ ⟨gone, .inl onWay⟩
        rw [gone] at here ⊢
        exact growsLater.ne_none here
    · rw [if_neg done, first]
      simp only [done, false_and, or_false]

/-- What is outside of the destination stays, or a directory is made there. -/
theorem writeMembers_outside (straight : ∀ m ∈ ms, d.Straight [] (namesOf root m.name))
    (inside : ∀ m ∈ ms, root <+: descend [] (namesOf root m.name)) (outside : ¬root <+: l) :
    (writeMembers d root ms).2.at? l = d.at? l ∨
      (writeMembers d root ms).2.at? l = some .directory := by
  induction ms generalizing d with
  | nil => exact .inl rfl
  | cons m rest ih =>
    rw [List.forall_mem_cons] at straight inside
    have grows := writeMember_grows straight.1
    have later := ih (fun n mem => grows.straight (straight.2 n mem)) inside.2
    have first := writeMember_outside straight.1 inside.1 outside
    rw [writeMembers_cons]
    split_ifs
    · rcases later with stays | made
      · rwa [stays]
      · exact .inr made
    · exact first

/-! ## Extraction -/

/-- A destination that was just made: directories lead to it, and nothing is below it. -/
structure IsFresh (d : Disk) (root : Location) : Prop where
  directory : ∀ front, front <+: root → d.at? front = some .directory
  plain : ∀ name ∈ root, IsPlain name ∧ ¬HasNul name
  empty : ∀ l, root <+: l → l ≠ root → d.at? l = none

/-- Only outside of a fresh destination a name can meet a link. -/
theorem IsFresh.straight (fresh : IsFresh d root)
    (noLink : ∀ front, front <+: names → ¬root <+: descend [] front →
      ∀ target, d.at? (descend [] front) ≠ some (.link target)) : d.Straight [] names := by
  intro front initial target link
  by_cases within : root <+: descend [] front
  · by_cases same : descend [] front = root
    · rw [same, fresh.directory root List.prefix_rfl] at link
      cases link
    · rw [fresh.empty _ within same] at link
      cases link
  · exact noLink front initial within target link

/-- The fault of names with a character that no path may have. -/
def nulFault : Failure := .fault (.wrongValue "embedded null byte")

/-- What the check of a name says that is not refused. -/
theorem checkName_of_not_refused (fresh : IsFresh d root)
    (straight : d.Straight [] (namesOf root m.name)) (passes : ¬Refused root m.name) :
    checkName d root m.name = if HasNul m.name then .error nulFault else .ok () := by
  have relative : isRelative m.name = true := by
    by_contra refused
    exact passes (.inl (by simpa using refused))
  split_ifs with nul
  · exact checkName_of_nul (fun name mem => (fresh.plain name mem).1) straight relative nul
  · rw [checkName_of_relative fresh.plain straight relative nul, if_neg passes]

/-- What the check of a name says that is refused. -/
theorem checkName_of_refused (fresh : IsFresh d root)
    (straight : d.Straight [] (namesOf root m.name)) (refused : Refused root m.name) :
    checkName d root m.name = .error
      (if isRelative m.name = true → ¬HasNul m.name then .invalidPath m.name else nulFault) := by
  by_cases relative : isRelative m.name = true
  · by_cases nul : HasNul m.name
    · rw [if_neg fun noNul => noNul relative nul]
      exact checkName_of_nul (fun name mem => (fresh.plain name mem).1) straight relative nul
    · rw [if_pos fun _ => nul, checkName_of_relative fresh.plain straight relative nul,
        if_pos refused]
  · rw [if_pos fun is => absurd is relative]
    exact checkName_of_not_relative (by simpa using relative)

/-- The first name with such a character ends the check of names that are not refused. -/
theorem checkNames_of_not_refused (rest : List Tar.Member) (fresh : IsFresh d root)
    {before : List Tar.Member}
    (straight : ∀ m ∈ before, d.Straight [] (namesOf root m.name))
    (passes : ∀ m ∈ before, ¬Refused root m.name) :
    checkNames d root (before ++ rest) =
      if ∀ m ∈ before, ¬HasNul m.name then checkNames d root rest else .error nulFault := by
  induction before with
  | nil => rw [if_pos (List.forall_mem_nil _), List.nil_append]
  | cons m before ih =>
    rw [List.forall_mem_cons] at straight passes
    rw [List.cons_append, checkNames, checkName_of_not_refused fresh straight.1 passes.1]
    by_cases nul : HasNul m.name
    · rw [if_pos nul, if_neg fun noNul => noNul m List.mem_cons_self nul]
      rfl
    · rw [if_neg nul]
      simp only [List.forall_mem_cons, nul, not_false_eq_true, true_and]
      rw [← ih straight.2 passes.2]
      rfl

/-- A disk with a directory for archives and in it one for a package. -/
def workDisk : Disk :=
  ⟨[(["tmp"], .directory), (["tmp", "p"], .directory), (["tmp", "p", "extract"], .directory)]⟩

theorem at?_workDisk :
    workDisk.at? l = if l <+: ["tmp", "p", "extract"] then some .directory else none := by
  rcases eq_or_ne l [] with rfl | ne
  · rfl
  rw [at?_of_ne_root ne, workDisk, lookup_cons_eq, lookup_cons_eq, lookup_cons_eq]
  have initial : l <+: ["tmp", "p", "extract"] ↔
      l = ["tmp"] ∨ l = ["tmp", "p"] ∨ l = ["tmp", "p", "extract"] := by
    rw [← List.mem_inits]
    simp [ne]
  split_ifs <;> simp_all

theorem isFresh_workDisk : IsFresh workDisk ["tmp", "p", "extract"] where
  directory front initial := by rw [at?_workDisk, if_pos initial]
  plain := by decide
  empty l within ne := by
    rw [at?_workDisk, if_neg]
    exact fun initial => ne (initial.eq_of_length (Nat.le_antisymm initial.length_le
      within.length_le))

/-- A member whose name leaves the destination through a directory that is missing. -/
def strayMember : Tar.Member := ⟨"../../evil/../p/extract/x", .file, .empty⟩

end PackageRisk.Archive
