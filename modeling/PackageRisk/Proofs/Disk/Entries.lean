import Mathlib.Data.List.Infix
import PackageRisk.Disk.Write

/-!
# What is at the places of a disk

How setting and removing entries changes what is at each place. Writing only ever puts
directories and files where nothing was, or a file in the place of a file; `Grows` says that of
two disks, and it is kept by any sequence of such steps (`Grows.trans`).
-/

namespace PackageRisk

theorem Location.isWithin_iff {l root : Location} : l.isWithin root = true ↔ root <+: l :=
  List.isPrefixOf_iff_prefix

namespace Disk

variable {d d' d'' : Disk} {l k : Location} {e : Entry}

@[simp]
theorem at?_root : d.at? [] = some .directory := rfl

theorem at?_of_ne_root (ne : l ≠ []) : d.at? l = d.entries.lookup l := by
  rw [at?, if_neg]
  simpa using ne

/-- Where a file or a link is, is not the root. -/
theorem ne_root_of_held (held : d.at? l = some e) (noDirectory : e ≠ .directory) : l ≠ [] := by
  rintro rfl
  exact noDirectory (Option.some.inj held).symm

theorem isDirectory_iff : d.isDirectory l = true ↔ d.at? l = some .directory := by
  unfold isDirectory
  split <;> simp_all

theorem lookup_cons_eq {m : Location} {rest : List (Location × Entry)} :
    ((m, e) :: rest).lookup k = if k = m then some e else rest.lookup k := by
  rw [List.lookup_cons]
  by_cases same : k = m
  · simp [same]
  · simp [same, beq_false_of_ne same]

theorem lookup_putEntry (entries : List (Location × Entry)) :
    (putEntry l e entries).lookup k = if k = l then some e else entries.lookup k := by
  induction entries with
  | nil => rw [putEntry, lookup_cons_eq]
  | cons first rest ih =>
    obtain ⟨m, old⟩ := first
    unfold putEntry
    by_cases here : m = l
    · subst here
      rw [if_pos rfl, lookup_cons_eq, lookup_cons_eq]
      by_cases same : k = m <;> simp [same]
    · rw [if_neg here, lookup_cons_eq, lookup_cons_eq, ih]
      by_cases same : k = m <;> simp [same, here]

theorem at?_put (ne : l ≠ []) :
    (d.put l e).at? k = if k = l then some e else d.at? k := by
  by_cases root : k = []
  · subst root
    rw [if_neg ne.symm, at?_root, at?_root]
  · rw [at?_of_ne_root root, at?_of_ne_root root]
    exact lookup_putEntry d.entries

@[simp]
theorem at?_put_self (ne : l ≠ []) : (d.put l e).at? l = some e := by
  rw [at?_put ne, if_pos rfl]

theorem lookup_filter_within (entries : List (Location × Entry)) :
    (entries.filter fun e => !e.1.isWithin l).lookup k =
      if l <+: k then none else entries.lookup k := by
  induction entries with
  | nil => simp
  | cons first rest ih =>
    obtain ⟨m, old⟩ := first
    by_cases within : l <+: m
    · rw [List.filter_cons_of_neg (by simpa [Location.isWithin_iff] using within), ih,
        lookup_cons_eq]
      by_cases same : k = m <;> simp [same, within]
    · rw [List.filter_cons_of_pos (by simpa [← Location.isWithin_iff] using within),
        lookup_cons_eq, lookup_cons_eq, ih]
      by_cases same : k = m <;> simp [same, within]

theorem at?_prune (ne : k ≠ []) : (d.prune l).at? k = if l <+: k then none else d.at? k := by
  rw [at?_of_ne_root ne, at?_of_ne_root ne]
  exact lookup_filter_within d.entries

/-! ## Growing disks -/

/-- What a place holds after steps that only write. -/
inductive Becomes : Option Entry → Option Entry → Prop
  | stays (held : Option Entry) : Becomes held held
  | made : Becomes none (some .directory)
  | written (content : ByteArray) : Becomes none (some (.file content))
  | rewritten (old content : ByteArray) : Becomes (some (.file old)) (some (.file content))

theorem Becomes.trans {a b c : Option Entry} (first : Becomes a b) (second : Becomes b c) :
    Becomes a c := by
  cases first with
  | stays => exact second
  | made =>
    cases second
    exact .made
  | written content =>
    cases second with
    | stays => exact .written content
    | rewritten _ later => exact .written later
  | rewritten old content =>
    cases second with
    | stays => exact .rewritten old content
    | rewritten _ later => exact .rewritten old later

/-- A disk after steps that only write. -/
def Grows (d d' : Disk) : Prop := ∀ l, Becomes (d.at? l) (d'.at? l)

theorem Grows.refl (d : Disk) : d.Grows d := fun _ => .stays _

theorem Grows.trans (first : d.Grows d') (second : d'.Grows d'') : d.Grows d'' := fun l =>
  (first l).trans (second l)

theorem Grows.directory (grows : d.Grows d') (held : d.at? l = some .directory) :
    d'.at? l = some .directory := by
  have becomes := grows l
  rw [held] at becomes
  generalize d'.at? l = new at becomes ⊢
  cases becomes
  rfl

theorem Grows.link_iff (grows : d.Grows d') {target : String} :
    d'.at? l = some (.link target) ↔ d.at? l = some (.link target) := by
  have becomes := grows l
  generalize d.at? l = old at becomes ⊢
  generalize d'.at? l = new at becomes ⊢
  cases becomes <;> simp

theorem Grows.ne_none (grows : d.Grows d') (held : d.at? l ≠ none) : d'.at? l ≠ none := by
  have becomes := grows l
  intro gone
  rw [gone] at becomes
  generalize d.at? l = old at becomes held
  cases becomes
  contradiction

theorem grows_put (ne : l ≠ []) (becomes : Becomes (d.at? l) (some e)) : d.Grows (d.put l e) := by
  intro k
  rw [at?_put ne]
  by_cases same : k = l
  · rw [if_pos same, same]
    exact becomes
  · rw [if_neg same]
    exact .stays _

end Disk

end PackageRisk
