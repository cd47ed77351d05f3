import PackageRisk.Archive.Extract
import PackageRisk.Proofs.Disk.Ways
import PackageRisk.Proofs.Path

/-!
# Names of members

A name is refused if it cannot be looked up below the destination or if its pieces, taken
without a look at the disk, lead outside of it. On a disk without links on the way of a name
the check of the name comes to just that (`checkName_of_relative`), but for a name with a
character that no path may have, which is a fault.
-/

namespace PackageRisk

open Disk (HasNul)

/-- A path has a character that no path may have just when one of its components does. -/
theorem hasNul_iff {s : String} : HasNul s ↔ ∃ name ∈ Path.components s, HasNul name := by
  unfold HasNul Path.components
  constructor
  · intro nul
    obtain ⟨piece, among, inside⟩ : ∃ piece ∈ Path.splitWhere (· == '/') s.toList, '\x00' ∈ piece :=
      Path.exists_piece nul (by decide)
    refine ⟨String.ofList piece, ?_, by simpa using inside⟩
    rw [List.mem_filter]
    refine ⟨List.mem_map_of_mem among, ?_⟩
    have notEmpty : String.ofList piece ≠ "" := by
      intro empty
      have same : piece = [] := by
        rw [← String.toList_ofList (l := piece), empty]
        rfl
      rw [same] at inside
      cases inside
    have notDot : String.ofList piece ≠ "." := by
      intro dot
      have same : piece = ['.'] := by
        rw [← String.toList_ofList (l := piece), dot]
        rfl
      rw [same] at inside
      exact absurd (List.mem_singleton.1 inside) (by decide)
    simp [notEmpty, notDot]
  · rintro ⟨name, among, inside⟩
    obtain ⟨piece, split, rfl⟩ := List.mem_map.1 (List.mem_filter.1 among).1
    rw [String.toList_ofList] at inside
    exact Path.mem_of_mem_splitWhere split inside

namespace Archive

open Location

variable {d : Disk} {root : Location} {name : String}

/-- A name that is empty or absolute, has a drive, or leads outside of a directory. -/
def Refused (root : Location) (name : String) : Prop :=
  isRelative name = false ∨ ¬root <+: normalized (root ++ Path.components name)

instance : Decidable (Refused root name) := inferInstanceAs (Decidable (_ ∨ _))

theorem namesOf_filter_dot (plain : ∀ name ∈ root, IsPlain name) :
    (namesOf root name).filter (· != ".") = root ++ Path.components name := by
  rw [namesOf, List.filter_append, List.filter_filter]
  congr 1
  · rw [List.filter_eq_self]
    intro name mem
    simpa using (plain name mem).1
  · unfold Path.components
    congr 1
    funext piece
    rw [Bool.and_comm]

theorem noDot_components (name : String) (plain : ∀ name ∈ root, IsPlain name) :
    "." ∉ root ++ Path.components name := by
  rw [List.mem_append, not_or]
  exact ⟨fun dot => (plain "." dot).1 rfl, Path.dot_notMem_components name⟩

/-- The place that a name stands for if there are no links. -/
theorem normalized_eq_descend_namesOf (plain : ∀ name ∈ root, IsPlain name) :
    normalized (root ++ Path.components name) = descend [] (namesOf root name) := by
  rw [normalized_eq_descend, ← namesOf_filter_dot plain, descend_filter_dot]
  exact noDot_components name plain

theorem checkName_of_not_relative (refused : isRelative name = false) :
    checkName d root name = .error (.invalidPath name) := by
  simp [checkName, refused]

theorem straight_components (plain : ∀ name ∈ root, IsPlain name)
    (straight : d.Straight [] (namesOf root name)) :
    d.Straight [] (root ++ Path.components name) := by
  rw [← namesOf_filter_dot plain]
  exact straight.filter_dot

theorem checkName_of_nul (plain : ∀ name ∈ root, IsPlain name)
    (straight : d.Straight [] (namesOf root name)) (relative : isRelative name = true)
    (nul : HasNul name) :
    checkName d root name = .error (.fault (.wrongValue "embedded null byte")) := by
  obtain ⟨piece, among, inside⟩ := hasNul_iff.1 nul
  have straight' := straight_components plain straight
  have fault := Disk.resolve_of_nul ⟨piece, List.mem_append_right _ among, inside⟩
    fun front initial => ⟨_, Disk.arrival_of_straight (straight'.mono initial)
      fun dot => noDot_components name plain (initial.subset dot)⟩
  simp [checkName, relative, fault]

theorem checkName_of_relative (plain : ∀ name ∈ root, IsPlain name ∧ ¬HasNul name)
    (straight : d.Straight [] (namesOf root name)) (relative : isRelative name = true)
    (noNul : ¬HasNul name) :
    checkName d root name = if Refused root name then .error (.invalidPath name) else .ok () := by
  have plainRoot : ∀ name ∈ root, IsPlain name := fun name mem => (plain name mem).1
  have noDot := noDot_components name plainRoot
  have resolved := Disk.resolve_of_straight (straight_components plainRoot straight) noDot
    fun piece mem => by
      rcases List.mem_append.1 mem with mem | mem
      · exact (plain piece mem).2
      · exact fun nul => noNul (hasNul_iff.2 ⟨piece, mem, nul⟩)
  rw [← normalized_eq_descend noDot] at resolved
  simp [checkName, relative, resolved, Refused, Location.isWithin_iff]

end Archive

end PackageRisk
