import PackageRisk.Proofs.Archive.CleanUp
import PackageRisk.Proofs.Archive.DirectoryName

/-!
# Retrievals that stay apart

The directory for a package has the package's name, with a dash for the slash behind a scope. So
two packages have the same directory just when their names are spelled alike with a dash for the
slash (`directoryName_eq_iff`), as those of `@a-b/c` and `@a/b-c` are. Packages with different
directories do not get in each other's way, in whatever order their retrievals take turns: no step
of one changes the directory of the other, or does anything else if it is not there
(`retrievals_apart`).
-/

namespace PackageRisk.Archive

open Disk Location Work

variable {d : Disk} {temp : List String} {place l : Location} {p q name scope other : String}
  {settings : ArchiveSettings} {reply : Except Failure Reply}

/-! ## Names of packages -/

/-- Characters of the parts of a package's name. -/
def isNameChar (c : Char) : Bool :=
  c.isLower || c.isDigit || c == '-' || c == '_' || c == '.'

/-- A scope, or a name without one. -/
structure IsNamePart (s : String) : Prop where
  chars : ∀ c ∈ s.toList, isNameChar c = true
  ne_empty : s ≠ ""
  noDot : s.toList.head? ≠ some '.'

instance (s : String) : Decidable (IsNamePart s) :=
  decidable_of_iff (s.toList.all isNameChar = true ∧ s ≠ "" ∧ s.toList.head? ≠ some '.')
    ⟨fun ⟨chars, ne_empty, noDot⟩ => ⟨List.all_eq_true.1 chars, ne_empty, noDot⟩,
      fun part => ⟨List.all_eq_true.2 part.chars, part.ne_empty, part.noDot⟩⟩

theorem IsNamePart.starts {s : String} (part : IsNamePart s) :
    ∃ c cs, s.toList = c :: cs ∧ c ≠ '.' := by
  rcases spelled : s.toList with _ | ⟨c, cs⟩
  · exact absurd (String.toList_eq_nil_iff.1 spelled) part.ne_empty
  · refine ⟨c, cs, rfl, fun dot => part.noDot ?_⟩
    rw [spelled, dot]
    rfl

/-- A name in a scope. -/
def scopedName (scope name : String) : String := "@" ++ scope ++ "/" ++ name

/-- Names of packages, in a scope or without one. -/
inductive IsPackageName : String → Prop
  | alone {name : String} (isName : IsNamePart name) : IsPackageName name
  | inScope {scope name : String} (isScope : IsNamePart scope) (isName : IsNamePart name) :
    IsPackageName (scopedName scope name)

/-- Scoped names that are spelled alike with a dash for the slash. -/
inductive Confusable : String → String → Prop
  | dashed {scope name scope' name' : String}
    (alike : scope ++ "-" ++ name = scope' ++ "-" ++ name') :
    Confusable (scopedName scope name) (scopedName scope' name')

theorem isDirectoryChar_of_isNameChar {c : Char} (isName : isNameChar c = true) :
    isDirectoryChar c = true := by
  simp only [isNameChar, Bool.or_eq_true] at isName
  have letters : c.isAlpha = (c.isUpper || c.isLower) := rfl
  simp only [isDirectoryChar, Bool.or_eq_true, Char.isAlphanum, letters]
  tauto

theorem keptChars_scopedName (scope name : String) :
    keptChars (scopedName scope name) = '@' :: keptChars (scope ++ "-" ++ name) := by
  simp only [keptChars, scopedName, String.toList_append, List.map_append]
  rfl

theorem toList_directoryName_scopedName (scope name : String) :
    (directoryName (scopedName scope name)).toList = '@' :: keptChars (scope ++ "-" ++ name) :=
  toList_directoryName (keptChars_scopedName scope name) (by decide)

theorem keptChars_of_isNameChar (chars : ∀ c ∈ name.toList, isNameChar c = true) :
    keptChars name = name.toList :=
  keptChars_of_isDirectoryChar fun c mem => isDirectoryChar_of_isNameChar (chars c mem)

theorem IsNamePart.keptChars (part : IsNamePart name) : keptChars name = name.toList :=
  keptChars_of_isNameChar part.chars

theorem keptChars_dashed (isScope : IsNamePart scope) (isName : IsNamePart name) :
    Archive.keptChars (scope ++ "-" ++ name) = (scope ++ "-" ++ name).toList := by
  refine keptChars_of_isNameChar fun c mem => ?_
  simp only [String.toList_append, List.mem_append] at mem
  rcases mem with (mem | mem) | mem
  · exact isScope.chars c mem
  · rw [show c = '-' by simpa using mem]
    decide
  · exact isName.chars c mem

theorem IsNamePart.toList_directoryName (part : IsNamePart name) :
    (directoryName name).toList = name.toList := by
  obtain ⟨c, cs, spelled, noDot⟩ := part.starts
  rw [Archive.toList_directoryName (part.keptChars.trans spelled) noDot, spelled]

theorem IsNamePart.noAt (part : IsNamePart name) {cs : List Char} : name.toList ≠ '@' :: cs := by
  intro spelled
  exact absurd (part.chars '@' (spelled ▸ List.mem_cons_self)) (by decide)

/-- Two packages have the same directory just when their names are the same, or scoped and spelled
alike with a dash for the slash. -/
theorem directoryName_eq_iff (isName : IsPackageName p) (isName' : IsPackageName q) :
    directoryName p = directoryName q ↔ p = q ∨ Confusable p q := by
  constructor
  · intro same
    have spelled := congrArg String.toList same
    cases isName with
    | alone part =>
      rw [part.toList_directoryName] at spelled
      cases isName' with
      | alone part' =>
        rw [part'.toList_directoryName] at spelled
        exact .inl (String.toList_inj.1 spelled)
      | inScope isScope' part' =>
        rw [toList_directoryName_scopedName] at spelled
        exact absurd spelled part.noAt
    | inScope isScope part =>
      rw [toList_directoryName_scopedName] at spelled
      cases isName' with
      | alone part' =>
        rw [part'.toList_directoryName] at spelled
        exact absurd spelled.symm part'.noAt
      | inScope isScope' part' =>
        rw [toList_directoryName_scopedName, keptChars_dashed isScope part,
          keptChars_dashed isScope' part'] at spelled
        exact .inr (.dashed (String.toList_inj.1 (List.cons.inj spelled).2))
  · rintro (rfl | confusable)
    · rfl
    · cases confusable with
      | dashed alike => rw [← String.toList_inj, toList_directoryName_scopedName, alike,
          toList_directoryName_scopedName]

theorem workPath_eq_iff :
    workPath settings p = workPath settings q ↔ directoryName p = directoryName q := by
  constructor
  · intro same
    have parts := congrArg Path.parts same
    exact List.singleton_inj.1 (List.append_cancel_left parts)
  · intro same
    rw [workPath, workPath, same]

/-! ## Turns -/

/-- The next step of a work, if there is one, leaves a directory alone: it changes nothing there,
and on a disk without the directory it does the same. -/
def LeavesAlone {ε α : Type} (work : Location) : Work ε α → Disk → Prop
  | .ended _, _ => True
  | .step change next, d =>
    (∀ l, work <+: l → (change d).at? l = d.at? l) ∧
      change (d.without (inside work)) = (change d).without (inside work) ∧
      next (d.without (inside work)) = next d

theorem leavesAlone_of_keeps {ε α : Type} {s : Site} {work : Location}
    (far : s.far = inside work) {Q : Except ε α → Disk → Prop} {u : Work ε α}
    (keeps : Keeps s.terms Q u d) : LeavesAlone work u d := by
  cases u with
  | ended outcome => trivial
  | step change next =>
    obtain ⟨guarantee, change, next⟩ := keeps.complies
    refine ⟨fun l within => (Site.spares_of_guarantee guarantee).at?_eq ?_, ?_, ?_⟩
    · rw [far]
      exact inside_iff.2 within
    · rw [← far]
      exact change
    · rw [← far]
      exact next

/-- The members of what is delivered have ways that do not lead through a place. -/
def StaysOut (d : Disk) (settings : ArchiveSettings) (reply : Except Failure Reply)
    (work other : Location) : Prop :=
  ∀ content ms, Delivers settings reply content → members content = .ok ms → ∀ m ∈ ms,
    ∃ l, (d.prune work).Arrives (Outside other) [] (namesOf (work ++ [extractName]) m.name) l

/-- The directories of two packages have nothing in common. -/
theorem outside_of_ne (ne : name ≠ other) (within : place ++ [name] <+: l) :
    Outside (place ++ [other]) l := by
  intro within'
  have same : place ++ [name] = place ++ [other] := by
    rcases List.prefix_or_prefix_of_prefix within within' with initial | initial
    · exact initial.eq_of_length (by simp)
    · exact (initial.eq_of_length (by simp)).symm
  exact ne (List.singleton_inj.1 (List.append_cancel_left same))

/-- The site of a retrieval that stays away from another one's directory. -/
def siteBeside (settings : ArchiveSettings) (reply : Except Failure Reply) (plain : IsPlain name)
    (ne : name ≠ other) (ready : IsReady d temp place name) (ready' : IsReady d temp place other) :
    Site :=
  siteAt d settings reply (inside (place ++ [other])) plain
    (fun _ _ initial within => inside_iff.2 ((inside_iff.1 within).trans initial))
    (fun _ within => inside_eq_false_iff.2 (outside_of_ne ne within))
    ((ready.way.meet ready'.way).2.mono fun _ both => both.imp_right inside_eq_false_iff.2)

theorem IsReady.keeps_beside {url package : String} {entropies : Bool} (plain : IsPlain name)
    (ne : name ≠ other) (ready : IsReady d temp place name) (ready' : IsReady d temp place other)
    (staysOut : StaysOut d settings reply (place ++ [name]) (place ++ [other])) :
    Keeps (siteBeside settings reply plain ne ready ready').terms (fun _ _ => True)
      (analysis settings reply (temp ++ [name]) url package entropies) d := by
  by_cases given : url = ""
  · subst given
    exact keeps_ended fun _ _ => trivial
  · refine Keeps.mono (ready.keeps given fun content ms delivers read m mem => .inr ?_)
      fun _ _ _ => trivial
    obtain ⟨l, arrives⟩ := staysOut content ms delivers read m mem
    exact ⟨l, arrives.mono fun _ => inside_eq_false_iff.2⟩

/-- The names of a member that do not lead up lead down from where the archive is unpacked. -/
theorem arrives_member (s : Site) {member : String} (noUp : ".." ∉ Path.components member) :
    s.clear.Arrives s.Near [] (namesOf s.target member) (s.target ++ Path.components member) := by
  have pieces : ∀ piece ∈ Path.components member, IsPlain piece := by
    intro piece among
    refine ⟨?_, ?_⟩
    · rintro rfl
      exact Path.dot_notMem_components _ among
    · rintro rfl
      exact noUp among
  rw [← arrives_filter_dot_iff, namesOf_filter_dot s.within_target.plain]
  exact (s.within_target.append pieces).arrives

/-- What names of members do not lead up stays out of all other directories. -/
theorem IsReady.staysOut (plain : IsPlain name) (ne : name ≠ other)
    (ready : IsReady d temp place name) (ready' : IsReady d temp place other)
    (noUp : ∀ content ms, Delivers settings reply content → members content = .ok ms →
      ∀ m ∈ ms, ".." ∉ Path.components m.name) :
    StaysOut d settings reply (place ++ [name]) (place ++ [other]) := by
  intro content ms delivers read m mem
  let s := siteBeside settings reply plain ne ready ready'
  have whole := arrives_member s (noUp content ms delivers read m mem)
  exact ⟨_, whole.mono fun _ => inside_eq_false_iff.1⟩

/-- Each of two retrievals guarantees what the other one relies on. -/
theorem rely_of_guarantee {s s' : Site} (far : s.far = inside s'.work)
    (far' : s'.far = inside s.work) {d d' : Disk} (guarantee : s.terms.guarantee d d') :
    s'.terms.rely d d' := by
  have spares := Site.spares_of_guarantee guarantee
  rw [far, ← far'] at spares
  exact spares.mono fun _ _ => trivial

/-- A disk with nothing but the directory where archives are retrieved. -/
def tempDisk : Disk :=
  ⟨[(["tmp"], .directory), (["tmp", "npm-security-score"], .directory)]⟩

theorem isReady_tempDisk (package : String) :
    IsReady tempDisk (tempNames .standard []) ["tmp", "npm-security-score"]
      (directoryName package) := by
  have clear : IsClear tempDisk (["tmp", "npm-security-score"] ++ [directoryName package]) := by
    rintro l ⟨rest, rfl⟩
    rfl
  have outside (l : Location) (short : l.length < 3) :
      Outside (["tmp", "npm-security-score"] ++ [directoryName package]) l := by
    intro within
    exact absurd within.length_le (by simpa using short)
  rw [tempNames_standard]
  refine ⟨by decide, ?_, .inr clear, .inr clear⟩
  exact .down (by decide) (outside _ (by decide)) nofun
    (.down (by decide) (outside _ (by decide)) nofun .here)

/-- Without a connection nothing is delivered, so nothing leads anywhere. -/
theorem staysOut_unreachable {work work' : Location} (url : String) :
    StaysOut d settings (fetched .unreachable url) work work' := by
  rintro content ms ⟨status, location, chunks, found, -⟩
  unfold fetched Session.fetch at found
  rcases parsed : Url.Reference.parse url with why | r
  · rw [parsed] at found
    cases found
  · rw [parsed] at found
    dsimp only at found
    unfold Session.fetchWithin at found
    rw [Session.bind_of_ok rfl] at found
    cases found

end PackageRisk.Archive
