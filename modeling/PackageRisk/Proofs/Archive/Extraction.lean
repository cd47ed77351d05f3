import PackageRisk.Proofs.Archive.Containment
import PackageRisk.Proofs.Disk.Contents

/-!
# How an extraction ends

The names of members are checked in order, and the first one that does not pass decides how an
extraction ends: only a name that could be looked up but for a NUL in it ends with a failure
that is not about the archive (`extract_error`). Below the destination there are afterwards just
the members' files and the directories on their ways (`extract_holds`).
-/

namespace PackageRisk.Archive

open Disk Location

variable {d d' : Disk} {root l : Location} {m : Tar.Member} {ms rest : List Tar.Member}
  {names : List String} {P : Location → Entry → Prop}

/-- The first name that does not pass the check has a NUL, and could be looked up without. -/
def NulComesFirst (root : Location) (ms : List Tar.Member) : Prop :=
  ∃ before m after, ms = before ++ m :: after ∧
    (∀ n ∈ before, ¬Refused root n.name ∧ ¬HasNul n.name) ∧
    isRelative m.name = true ∧ HasNul m.name

theorem nulComesFirst_cons_iff :
    NulComesFirst root (m :: rest) ↔
      isRelative m.name = true ∧ HasNul m.name ∨
        (¬Refused root m.name ∧ ¬HasNul m.name) ∧ NulComesFirst root rest := by
  constructor
  · rintro ⟨before, turn, after, split, passes, nul⟩
    rcases before with _ | ⟨first, before⟩
    · cases split
      exact .inl nul
    · cases split
      rw [List.forall_mem_cons] at passes
      exact .inr ⟨passes.1, before, turn, after, rfl, passes.2, nul⟩
  · rintro (nul | ⟨first, before, turn, after, rfl, passes, nul⟩)
    · exact ⟨[], m, rest, rfl, List.forall_mem_nil _, nul⟩
    · exact ⟨m :: before, turn, after, rfl, List.forall_mem_cons.2 ⟨first, passes⟩, nul⟩

/-- How the check of names ends. -/
inductive Checks (root : Location) (ms : List Tar.Member) : Except Failure Unit → Prop
  | passed (passes : ∀ m ∈ ms, ¬Refused root m.name ∧ ¬HasNul m.name) : Checks root ms (.ok ())
  | refused (name : String) (other : ¬NulComesFirst root ms) :
    Checks root ms (.error (.invalidPath name))
  | faulty (nul : NulComesFirst root ms) : Checks root ms (.error nulFault)

theorem checkNames_checks (fresh : IsFresh d root)
    (straight : ∀ m ∈ ms, d.Straight [] (namesOf root m.name)) :
    Checks root ms (checkNames d root ms) := by
  induction ms with
  | nil => exact .passed (List.forall_mem_nil _)
  | cons m rest ih =>
    rw [List.forall_mem_cons] at straight
    obtain ⟨straight, later⟩ := straight
    replace ih := ih later
    by_cases refused : Refused root m.name
    · rw [checkNames, checkName_of_refused fresh straight refused]
      by_cases passes : isRelative m.name = true → ¬HasNul m.name
      · rw [if_pos passes]
        refine .refused m.name fun nul => ?_
        rcases nulComesFirst_cons_iff.1 nul with ⟨relative, nul⟩ | ⟨⟨passes, -⟩, -⟩
        · exact passes relative nul
        · exact passes refused
      · rw [if_neg passes]
        refine .faulty (nulComesFirst_cons_iff.2 (.inl ?_))
        simpa using passes
    · have relative : isRelative m.name = true := by
        by_contra refuses
        exact refused (.inl (by simpa using refuses))
      rw [checkNames, checkName_of_not_refused fresh straight refused]
      by_cases nul : HasNul m.name
      · rw [if_pos nul]
        exact .faulty (nulComesFirst_cons_iff.2 (.inl ⟨relative, nul⟩))
      · rw [if_neg nul]
        show Checks root (m :: rest) (checkNames d root rest)
        generalize checkNames d root rest = outcome at ih ⊢
        cases ih with
        | passed passes => exact .passed (List.forall_mem_cons.2 ⟨⟨refused, nul⟩, passes⟩)
        | refused name other =>
          refine .refused name fun first => ?_
          rcases nulComesFirst_cons_iff.1 first with ⟨-, isNul⟩ | ⟨-, later⟩
          · exact nul isNul
          · exact other later
        | faulty first => exact .faulty (nulComesFirst_cons_iff.2 (.inr ⟨⟨refused, nul⟩, first⟩))

theorem not_nulComesFirst (passes : ∀ m ∈ ms, ¬Refused root m.name ∧ ¬HasNul m.name) :
    ¬NulComesFirst root ms := by
  rintro ⟨before, m, after, rfl, -, -, nul⟩
  exact (passes m (by simp)).2 nul

/-- Of the failures of an extraction one is not about the archive. -/
theorem extract_error (fresh : IsFresh d root) (noLinks : d.NoLinks) {e : Failure}
    (failed : (extract d root ms).1 = .error e) :
    e.aboutTarball = false ↔ NulComesFirst root ms := by
  have checks : Checks root ms (checkNames d root ms) :=
    checkNames_checks fresh fun _ _ => noLinks.straight
  unfold extract at failed
  generalize checkNames d root ms = outcome at checks failed
  cases checks with
  | passed passes =>
    have other := not_nulComesFirst passes
    dsimp only at failed
    split at failed
    · cases failed
    · cases failed
      exact iff_of_false (by simp [Failure.aboutTarball]) other
  | refused name other =>
    cases failed
    exact iff_of_false (by simp [Failure.aboutTarball]) other
  | faulty nul =>
    cases failed
    exact iff_of_true rfl nul

/-- An extraction that succeeds wrote all members, and each name passed the check. -/
theorem extract_eq_ok (fresh : IsFresh d root)
    (straight : ∀ m ∈ ms, d.Straight [] (namesOf root m.name))
    (extracted : extract d root ms = (.ok (), d')) :
    (∀ m ∈ ms, ¬Refused root m.name ∧ ¬HasNul m.name) ∧ (writeMembers d root ms).2 = d' := by
  have checks : Checks root ms (checkNames d root ms) := checkNames_checks fresh straight
  unfold extract at extracted
  generalize checkNames d root ms = outcome at checks extracted
  cases checks with
  | refused => cases extracted
  | faulty => cases extracted
  | passed passes =>
    refine ⟨passes, ?_⟩
    dsimp only at extracted
    split at extracted
    · next later same =>
      cases extracted
      rw [same]
    · cases extracted

theorem extract_ok (fresh : IsFresh d root) (noLinks : d.NoLinks)
    (extracted : (extract d root ms).1 = .ok ()) : ¬NulComesFirst root ms :=
  not_nulComesFirst (extract_eq_ok fresh (fun _ _ => noLinks.straight) (Prod.ext extracted rfl)).1

theorem extract_grows (noLinks : d.NoLinks) : d.Grows (extract d root ms).2 := by
  have grows : d.Grows (writeMembers d root ms).2 :=
    writeMembers_grows fun _ _ => noLinks.straight
  unfold extract
  split
  · exact Grows.refl d
  · split
    · next later same =>
      rwa [same] at grows
    · next e later same =>
      rwa [same] at grows

/-! ## What an extraction leaves -/

theorem noNul_namesOf {member : String} (plain : ∀ name ∈ root, ¬HasNul name)
    (noNul : ¬HasNul member) : ∀ name ∈ namesOf root member, ¬HasNul name := by
  intro name mem nul
  rcases List.mem_append.1 mem with mem | mem
  · exact plain name mem nul
  · obtain ⟨piece, split, rfl⟩ := List.mem_map.1 (List.mem_filter.1 mem).1
    rw [HasNul, String.toList_ofList] at nul
    exact noNul (Path.mem_of_mem_splitWhere split nul)

theorem writeMember_holds (holds : d.Holds P) (straight : d.Straight [] (namesOf root m.name))
    (directories : ∀ front, front <+: namesOf root m.name → P (descend [] front) .directory)
    (file : P (descend [] (namesOf root m.name)) (.file m.content)) :
    (writeMember d root m).2.Holds P := by
  have room : (makeRoom d (namesOf root m.name)).2.Holds P := by
    unfold makeRoom
    split_ifs
    · exact holds
    · exact holds.makePath (straight.mono ( List.dropLast_prefix _)) fun front initial =>
        directories front (initial.trans ( List.dropLast_prefix _))
  have straight' := (makeRoom_makes straight).grows.straight straight
  rcases writeMember_disk d root m with ⟨-, same⟩ | ⟨-, same | same | same⟩
  · rwa [same]
  · rwa [same]
  · rw [same]
    exact room.write straight' file
  · rw [same]
    exact room.makeDirectory straight' (directories _ List.prefix_rfl)

theorem writeMembers_holds (holds : d.Holds P)
    (straight : ∀ m ∈ ms, d.Straight [] (namesOf root m.name))
    (directories : ∀ m ∈ ms, ∀ front, front <+: namesOf root m.name →
      P (descend [] front) .directory)
    (files : ∀ m ∈ ms, P (descend [] (namesOf root m.name)) (.file m.content)) :
    (writeMembers d root ms).2.Holds P := by
  induction ms generalizing d with
  | nil => exact holds
  | cons m rest ih =>
    rw [List.forall_mem_cons] at straight directories files
    have first := writeMember_holds holds straight.1 directories.1 files.1
    have grows := writeMember_grows straight.1
    rw [writeMembers_cons]
    split_ifs
    · exact ih first (fun n mem => grows.straight (straight.2 n mem)) directories.2 files.2
    · exact first

/-- What is below a directory has names that can be looked up, and files have a limited size. -/
def Listed (root : Location) (limit : Nat) (l : Location) (e : Entry) : Prop :=
  root <+: l → l ≠ root → (∀ name ∈ l, IsPlain name ∧ ¬HasNul name) ∧
    ∀ content, e = .file content → content.size ≤ limit

/-- Nothing else is below the destination after an extraction. -/
theorem extract_holds {limit : Nat} (fresh : IsFresh d root) (noLinks : d.NoLinks)
    (sizes : ∀ m ∈ ms, m.content.size ≤ limit) (extracted : (extract d root ms).1 = .ok ()) :
    (extract d root ms).2.Holds (Listed root limit) := by
  have nothing : d.Holds (Listed root limit) := by
    intro entry mem below ne
    exact absurd (fresh.empty entry.1 below ne) (at?_ne_none_of_mem mem)
  have whole : extract d root ms = (.ok (), (extract d root ms).2) := Prod.ext extracted rfl
  obtain ⟨passes, disk⟩ := extract_eq_ok fresh (fun _ _ => noLinks.straight) whole
  have plain : ∀ m ∈ ms, ∀ front, front <+: namesOf root m.name →
      ∀ name ∈ descend [] front, IsPlain name ∧ ¬HasNul name := by
    intro m mem front initial name among
    obtain ⟨among, plain⟩ := (mem_of_mem_descend among).resolve_left List.not_mem_nil
    exact ⟨plain, noNul_namesOf (fun name mem => (fresh.plain name mem).2) (passes m mem).2
      name (initial.subset among)⟩
  rw [← disk]
  refine writeMembers_holds nothing (fun _ _ => noLinks.straight)
    (fun m mem front initial _ _ => ?_) fun m mem _ _ => ?_
  · exact ⟨plain m mem front initial, fun content same => by cases same⟩
  · refine ⟨plain m mem _ List.prefix_rfl, fun content same => ?_⟩
    cases same
    exact sizes m mem

end PackageRisk.Archive
