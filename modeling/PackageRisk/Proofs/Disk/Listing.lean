import Mathlib.Data.List.Perm.Basic
import PackageRisk.Proofs.Disk.Building

/-!
# Listing directories

Where each place has one entry, a directory lists each of its names once
(`ListsOnce.nodup_names`), and all files below it are listed once as well
(`ListsOnce.nodup_filesBelow`). What is listed is what the names lead to. On a sound disk the names
that lead to a place are there for the system just when the place is (`IsSound.isThere_iff`).
-/

namespace PackageRisk.Disk

open Location

variable {d : Disk} {root l : Location} {name : String} {names : List String}
  {content : ByteArray}

/-- Items that are there once at most differ from all that come later. -/
theorem pairwise_ne_of_count_le {α : Type} [BEq α] [LawfulBEq α] {P : α → Prop} {items : List α}
    (once : ∀ a, P a → items.count a ≤ 1) : items.Pairwise fun a b => P a → a ≠ b := by
  induction items with
  | nil => exact .nil
  | cons first rest ih =>
    refine List.pairwise_cons.2 ⟨fun other mem holds same => ?_, ih fun a holds => ?_⟩
    · have twice := once first holds
      have later : 0 < rest.count first := List.count_pos_iff.2 (same ▸ mem)
      rw [List.count_cons_self] at twice
      omega
    · exact Nat.le_trans List.count_le_count_cons (once a holds)

/-- The entry for which a directory lists a name. -/
theorem child_iff {entry : Location × Entry} :
    (if entry.1.isWithin root && entry.1.length == root.length + 1 then entry.1.getLast?
      else none) = some name ↔ entry.1 = root ++ [name] := by
  constructor
  · intro listed
    split_ifs at listed with child
    rw [Bool.and_eq_true, isWithin_iff, beq_iff_eq] at child
    obtain ⟨⟨rest, same⟩, length⟩ := child
    rw [← same, List.length_append] at length
    obtain ⟨last, rfl⟩ := List.length_eq_one_iff.1 (by omega : rest.length = 1)
    rw [← same, List.getLast?_concat, Option.some_inj] at listed
    rw [← same, listed]
  · intro same
    rw [same, if_pos (by simp [isWithin_iff]), List.getLast?_concat]

/-- The entry for which a name below a directory is listed. -/
theorem below_iff {entry : Location × Entry} {e : Entry} :
    (if entry.1.isWithin root && entry.1.length != root.length then
      some (entry.1.drop root.length, entry.2) else none) = some (names, e) ↔
      entry = (root ++ names, e) ∧ names ≠ [] := by
  constructor
  · intro listed
    split_ifs at listed with below
    rw [Bool.and_eq_true, isWithin_iff, bne_iff_ne] at below
    obtain ⟨⟨rest, same⟩, longer⟩ := below
    rw [← same, List.drop_left] at listed
    cases listed
    refine ⟨Prod.ext same.symm rfl, ?_⟩
    rintro rfl
    exact longer (by rw [← same, List.append_nil])
  · rintro ⟨rfl, some⟩
    rw [if_pos (by simp [isWithin_iff, some]), List.drop_left]

namespace ListsOnce

/-- The entries below the root differ in their places from all later ones. -/
theorem apart (lists : d.ListsOnce root) :
    d.entries.Pairwise fun e e' => root <+: e.1 ∧ e.1 ≠ root → e.1 ≠ e'.1 := by
  rw [← List.pairwise_map (f := Prod.fst) (R := fun l l' => root <+: l ∧ l ≠ root → l ≠ l')]
  exact pairwise_ne_of_count_le fun l below => lists.once l below.1 below.2

/-! ## Names -/

theorem mem_names_iff (lists : d.ListsOnce root) :
    name ∈ d.names root ↔ d.at? (root ++ [name]) ≠ none := by
  simp only [names, List.mem_filterMap, child_iff]
  constructor
  · rintro ⟨entry, mem, same⟩
    rw [← same]
    exact at?_ne_none_of_mem mem
  · intro there
    obtain ⟨e, held⟩ := Option.ne_none_iff_exists'.1 there
    exact ⟨_, (lists.mem_iff (List.prefix_append _ _) (by simp)).2 held, rfl⟩

theorem nodup_names (lists : d.ListsOnce root) : (d.names root).Nodup := by
  refine lists.apart.filterMap _ ?_
  intro entry entry' differ name listed name' listed' same
  have here := child_iff.1 listed
  have here' := child_iff.1 listed'
  refine differ ⟨?_, ?_⟩ (by rw [here, here', same])
  · rw [here]
    exact List.prefix_append _ _
  · rw [here]
    simp

/-- A directory with one entry lists just that. -/
theorem names_eq_singleton (lists : d.ListsOnce root)
    (only : ∀ other, d.at? (root ++ [other]) ≠ none ↔ other = name) : d.names root = [name] := by
  refine List.perm_singleton.1 ?_
  refine (List.perm_ext_iff_of_nodup lists.nodup_names (by simp)).2 fun other => ?_
  rw [lists.mem_names_iff, only, List.mem_singleton]

/-! ## Files -/

theorem mem_below_iff (lists : d.ListsOnce root) {e : Entry} :
    (names, e) ∈ d.below root ↔ d.at? (root ++ names) = some e ∧ names ≠ [] := by
  simp only [below, List.mem_filterMap, below_iff]
  constructor
  · rintro ⟨_, mem, rfl, some⟩
    exact ⟨(lists.mem_iff (List.prefix_append _ _) (by simpa using some)).1 mem, some⟩
  · rintro ⟨held, some⟩
    exact ⟨_, (lists.mem_iff (List.prefix_append _ _) (by simpa using some)).2 held, rfl, some⟩

theorem pairwise_below (lists : d.ListsOnce root) :
    (d.below root).Pairwise fun e e' => e.1 ≠ e'.1 := by
  refine lists.apart.filterMap _ ?_
  rintro entry entry' differ ⟨names, e⟩ listed ⟨names', e'⟩ listed' same
  obtain ⟨rfl, some⟩ := below_iff.1 listed
  obtain ⟨rfl, -⟩ := below_iff.1 listed'
  exact differ ⟨List.prefix_append _ _, by simpa using some⟩ (congrArg (root ++ ·) same)

theorem mem_filesBelow_iff (lists : d.ListsOnce root) :
    (names, content) ∈ d.filesBelow root ↔ d.at? (root ++ names) = some (.file content) := by
  constructor
  · intro mem
    obtain ⟨⟨others, e⟩, among, listed⟩ := List.mem_filterMap.1 mem
    split at listed
    · next held =>
      cases listed
      rw [(lists.mem_below_iff.1 among).1]
      exact congrArg some held
    · cases listed
  · intro file
    refine List.mem_filterMap.2 ⟨(names, .file content), lists.mem_below_iff.2 ⟨file, ?_⟩, rfl⟩
    rintro rfl
    rw [List.append_nil, lists.directory] at file
    cases file

theorem nodup_filesBelow (lists : d.ListsOnce root) : ((d.filesBelow root).map Prod.fst).Nodup := by
  refine List.pairwise_map.2 (lists.pairwise_below.filterMap _ ?_)
  intro e e' differ file listed file' listed'
  split at listed
  · split at listed'
    · cases listed
      cases listed'
      exact differ
    · cases listed'
  · cases listed

end ListsOnce

namespace IsSound

/-! ## What the system finds -/

theorem isThere_iff (sound : d.IsSound root) (below : root <+: l)
    (plain : ∀ name ∈ l, IsPlain name) (fits : Fits l)
    (short : ∀ name ∈ l, name.utf8ByteSize ≤ nameLimit) :
    d.isThere l = true ↔ d.at? l ≠ none := by
  have straight := sound.straight below plain
  have descended {front : List String} (initial : front <+: l) : descend [] front = front := by
    rw [descend_plain fun name mem => plain name (initial.subset mem), List.nil_append]
  constructor
  · intro there
    have there := (isOpen_of_isThere straight there).there
    rwa [descended List.prefix_rfl] at there
  · intro there
    have directory (front : List String) (initial : front <+: l) (ne : front ≠ l) :
        d.at? (descend [] front) = some .directory := by
      rw [descended initial]
      exact sound.leads below there initial ne
    have isOpen : d.IsOpen l := by
      refine isOpen_of_there straight short (fun front initial ne content file => ?_)
        fun front initial => ?_
      · rw [directory front initial ne] at file
        cases file
      · by_cases whole : front = l
        · rwa [descended initial, whole]
        · rw [directory front initial whole]
          exact nofun
    unfold isThere
    rw [(enter_eq_ok_iff straight).2 ⟨fits, isOpen, rfl⟩]

end IsSound

/-- Names lead to a file just when it can be read. -/
theorem entryAt?_eq_file_iff :
    d.entryAt? names = some (.file content) ↔ d.read names = .ok content := by
  constructor
  · intro file
    unfold entryAt? at file
    split at file
    · next entered =>
      refine bind_eq_ok.2 ⟨_, entered, ?_⟩
      rw [file]
    · cases file
  · intro readable
    obtain ⟨place, entered, held⟩ := bind_eq_ok.1 readable
    unfold entryAt?
    rw [entered]
    split at held
    · next file =>
      cases held
      exact file
    all_goals cases held

end PackageRisk.Disk
