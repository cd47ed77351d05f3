import Mathlib.Data.List.Forall2
import PackageRisk.Package.Scripts

/-!
# Scripts that hooks run

A hook runs a text that is not empty. So what hooks run depends on such texts alone
(`hookScripts_congr`), and more of them make a longer list in the same order
(`hookScripts_sublist`).
-/

namespace PackageRisk

/-- The script that a hook runs, if it runs one, under the name of the hook. -/
def hookScript? (scripts : Fields) (hook : String) : Option (String × String) :=
  match Fields.get? scripts hook with
  | some (.text s) => if s.isEmpty then none else some (hook, s)
  | _ => none

variable {scripts scripts' : Fields} {hook : String}

theorem hookScripts_eq (scripts : Fields) :
    hookScripts scripts = lifecycleHooks.filterMap (hookScript? scripts) := rfl

theorem hookScript?_eq_some_iff {found : String × String} :
    hookScript? scripts hook = some found ↔
      found.1 = hook ∧ found.2 ≠ "" ∧ Fields.get? scripts hook = some (.text found.2) := by
  obtain ⟨name, script⟩ := found
  unfold hookScript?
  split
  · next s there =>
    simp only [there, Option.ite_none_left_eq_some, String.isEmpty_iff, Option.some.injEq,
      Prod.mk.injEq, Value.text.injEq]
    constructor
    · rintro ⟨given, rfl, rfl⟩
      exact ⟨rfl, given, rfl⟩
    · rintro ⟨rfl, given, rfl⟩
      exact ⟨given, rfl, rfl⟩
  · next other =>
    refine iff_of_false nofun ?_
    rintro ⟨-, -, there⟩
    exact other _ there

theorem hookScripts_congr
    (same : ∀ hook ∈ lifecycleHooks, ∀ script ≠ "",
      Fields.get? scripts hook = some (.text script) ↔
        Fields.get? scripts' hook = some (.text script)) :
    hookScripts scripts = hookScripts scripts' := by
  rw [hookScripts_eq, hookScripts_eq]
  refine List.filterMap_congr fun hook among => Option.ext fun found => ?_
  rw [hookScript?_eq_some_iff, hookScript?_eq_some_iff]
  exact and_congr_right fun _ => and_congr_right fun given => same hook among found.2 given

/-- Where no hook loses its script, the list of all only gets longer. -/
theorem hookScripts_sublist
    (kept : ∀ hook ∈ lifecycleHooks, ∀ script ≠ "",
      Fields.get? scripts hook = some (.text script) →
        Fields.get? scripts' hook = some (.text script)) :
    (hookScripts scripts).Sublist (hookScripts scripts') := by
  have pointwise : ∀ hooks ⊆ lifecycleHooks,
      (hooks.filterMap (hookScript? scripts)).Sublist
        (hooks.filterMap (hookScript? scripts')) := by
    intro hooks among
    induction hooks with
    | nil => exact .slnil
    | cons hook rest ih =>
      rw [List.cons_subset] at among
      rcases old : hookScript? scripts hook with _ | found
      · rw [List.filterMap_cons_none old]
        rcases new : hookScript? scripts' hook with _ | found
        · rw [List.filterMap_cons_none new]
          exact ih among.2
        · rw [List.filterMap_cons_some new]
          exact (ih among.2).cons _
      · obtain ⟨name, given, there⟩ := hookScript?_eq_some_iff.1 old
        have new : hookScript? scripts' hook = some found :=
          hookScript?_eq_some_iff.2 ⟨name, given, kept hook among.1 _ given there⟩
        rw [List.filterMap_cons_some old, List.filterMap_cons_some new]
        exact (ih among.2).cons_cons _
  exact pointwise _ (List.Subset.refl _)

end PackageRisk
