import PackageRisk.Proofs.Archive.Lookup
import PackageRisk.Proofs.Disk.Circles

/-!
# What reading a file ends with

The text of a file below a root is read, or the path is refused, or the file cannot be read
(`IsForeseen`). There is one more end, a fault, and it comes from resolving the root or the path,
which is done before anything is read. `fileText_faults_iff` says when: where a name that cannot be
looked up is met, or a circle of links.
-/

namespace PackageRisk.Archive

open Disk Location

variable {d : Disk} {path : String} {root : List String} {base : Location} {f : Fault}

/-- The ends that are foreseen for reading a file: its text, or one of two failures that name its
path. -/
inductive IsForeseen (path : String) : Except Failure String → Prop
  | text (s : String) : IsForeseen path (.ok s)
  | refused : IsForeseen path (.error (.invalidPath path))
  | unreadable (reason : String) : IsForeseen path (.error (.unreadableFile path reason))

/-! ## Paths that are refused by their text -/

theorem hasDrive_eq_false (relative : (Path.forwardSlashes path).toList.head? ≠ some '/')
    (noLetter : ¬Path.hasDriveLetter path.toList = true) : Path.hasDrive path = false := by
  rw [Bool.not_eq_true] at noLetter
  rw [Path.hasDrive, hasDriveLetter_forwardSlashes, noLetter]
  generalize (Path.forwardSlashes path).toList = cs at relative ⊢
  rw [Bool.or_false, Bool.or_eq_false_iff]
  rcases cs with _ | ⟨c, rest⟩
  · exact ⟨rfl, rfl⟩
  · have slash : ¬c = '/' := fun same => relative (congrArg some same)
    refine ⟨?_, ?_⟩
    · rw [← Bool.not_eq_true, List.isPrefixOf_iff_prefix]
      exact fun initial => slash (List.cons_prefix_cons.1 initial).1.symm
    · unfold Path.hasShare
      split
      · next same => exact absurd (List.cons.inj same).1 slash
      · rfl

/-- A path is refused at once just when it leads away by its text. -/
theorem insideNames?_eq_none_iff : insideNames? path = none ↔ LeadsAway path := by
  refine ⟨fun refused => ?_, insideNames?_of_leadsAway⟩
  by_contra stays
  simp only [LeadsAway, not_or] at stays
  obtain ⟨notEmpty, noSlash, noBackslash, noLetter, noUp⟩ := stays
  have relative : (Path.forwardSlashes path).toList.head? ≠ some '/' := by
    rw [Ne, Path.head?_forwardSlashes, not_or]
    exact ⟨noSlash, noBackslash⟩
  have inside : insideNames? path = some (namesInside path) := by
    refine insideNames?_eq_some_iff.2 ⟨⟨notEmpty, noSlash, noBackslash,
      hasDrive_eq_false relative noLetter, fun up => noUp ?_⟩, rfl⟩
    rw [Path.components_forwardSlashes, List.mem_filter] at up
    exact up.1
  rw [inside] at refused
  cases refused

theorem insideNames?_of_not_leadsAway (stays : ¬LeadsAway path) :
    insideNames? path = some (namesInside path) := by
  rcases inside : insideNames? path with _ | names
  · exact absurd (insideNames?_eq_none_iff.1 inside) stays
  · rw [(insideNames?_eq_some_iff.1 inside).2.symm, namesInside]

theorem plain_namesInside (stays : ¬LeadsAway path) : ∀ name ∈ namesInside path, IsPlain name :=
  plain_of_insideNames (insideNames?_of_not_leadsAway stays)

theorem exists_nul_namesInside (nul : HasNul path) : ∃ name ∈ namesInside path, HasNul name := by
  refine hasNul_iff.1 ?_
  rw [HasNul, Path.forwardSlashes, String.toList_ofList, List.mem_map]
  exact ⟨_, nul, rfl⟩

/-! ## Faults -/

/-- Looking up a path is a fault just when it is not refused by its text and its root, or its names
behind the place of the root, are not resolved. -/
theorem resolveInside_faults_iff (noDot : "." ∉ root) :
    resolveInside d root path = .error (.fault f) ↔ ¬LeadsAway path ∧
      (d.Resolves root (.error f) ∨ ∃ base, d.Resolves root (.ok base) ∧
        d.Resolves (base ++ namesInside path) (.error f)) := by
  by_cases away : LeadsAway path
  · rw [resolveInside_of_none (insideNames?_of_leadsAway away)]
    exact iff_of_false nofun fun faults => faults.1 away
  rw [and_iff_right away]
  obtain ⟨outcome, rooted⟩ := d.exists_resolves root
  have resolved := rooted.resolve noDot
  simp only [← resolve_eq_iff noDot, resolved]
  unfold resolveInside
  rw [insideNames?_of_not_leadsAway away, resolved]
  rcases outcome with e | base
  · simp
  · have noDotBelow : "." ∉ base ++ namesInside path :=
      noDot_append fun dot => (rooted.plain noDot "." dot).1 rfl
    simp only [Except.ok.injEq, exists_eq_left', reduceCtorEq, false_or,
      ← resolve_eq_iff noDotBelow]
    split
    · next resolved => simp [resolved]
    · next resolved =>
      rw [resolved]
      split_ifs <;> simp

theorem fileText_of_fault (failed : resolveInside d root path = .error (.fault f)) :
    fileText d root path = .error (.fault f) := by
  rw [fileText, readInside, failed]
  rfl

/-- Reading a file ends as it is foreseen unless looking up its path is a fault. -/
theorem isForeseen_or_fault (d : Disk) (root : List String) (path : String) :
    IsForeseen path (fileText d root path) ∨
      ∃ f, resolveInside d root path = .error (.fault f) := by
  rcases looked : resolveInside d root path with e | l
  · have foreseen : e = .invalidPath path ∨ ∃ f, e = .fault f := by
      unfold resolveInside at looked
      split at looked
      · exact .inl (Except.error.inj looked).symm
      · split at looked
        · exact .inr ⟨_, (Except.error.inj looked).symm⟩
        · split at looked
          · exact .inr ⟨_, (Except.error.inj looked).symm⟩
          · split_ifs at looked
            exact .inl (Except.error.inj looked).symm
    rcases foreseen with rfl | ⟨f, rfl⟩
    · rw [fileText, readInside, looked]
      exact .inl .refused
    · exact .inr ⟨f, rfl⟩
  · left
    rw [fileText, readInside, looked]
    dsimp only [bind, Except.bind]
    rcases d.read l with e | content
    · exact .unreadable _
    · exact .text _

/-- A package with a link to itself. -/
def circleDisk : Disk :=
  ⟨[(["pkg"], .directory), (["pkg", "loop"], .link "loop")]⟩

theorem circleDisk_pkg : circleDisk.Arrives Anywhere [] ["pkg"] ["pkg"] :=
  .down (by decide) trivial (fun _ => nofun) .here

theorem circleDisk_root : circleDisk.Resolves ["pkg"] (.ok ["pkg"]) :=
  .arrives (by decide) circleDisk_pkg

theorem circleDisk_loop :
    circleDisk.Resolves ["pkg", "loop"] (.error (.linkLoop "/pkg/loop")) := by
  have target : linkStart ["pkg"] "loop" = ["pkg"] ∧ Path.components "loop" = ["loop"] := by
    decide +kernel
  have inside : circleDisk.Circles [["pkg", "loop"]] (linkStart ["pkg"] "loop")
      (Path.components "loop") ["pkg", "loop"] := by
    rw [target.1, target.2]
    exact .again (by decide) List.mem_cons_self
  have circles : circleDisk.Circles [] [] ["pkg", "loop"] ["pkg", "loop"] :=
    .down (by decide) (fun _ => nofun)
      (.into (by decide) List.not_mem_nil (show circleDisk.at? (["pkg"] ++ ["loop"]) = _ from rfl)
        inside)
  have loop : circleDisk.enter (normalized (["pkg", "loop"] ++ [])) = .error .loop := by
    decide +kernel
  exact .circle (by decide) circles (by decide) loop

end PackageRisk.Archive
