import Mathlib.Logic.Relation
import PackageRisk.Proofs.Disk.Contents

/-!
# How a disk is built up

What is made and written on a disk without links comes about in steps: an entry is put where a
name is not taken, or a file is written anew (`Puts`). A disk that is built up in such steps below
a directory that was empty is sound there (`IsSound`): each place has one entry, only directories
have something below them, and the system accepts the names that lead to each place. So names read
just the file that they lead to (`IsSound.read_eq_ok_iff`).
-/

namespace PackageRisk.Disk

open Location

variable {d d' : Disk} {root l k : Location} {e : Entry} {name : String}
  {front names : List String} {content : ByteArray}

/-! ## Steps -/

/-- One step: something new is put in a directory, or a file is written anew. -/
inductive Puts (d : Disk) : Disk → Prop
  | new {front : List String} {name : String} {e : Entry} (vacant : d.Vacant front name)
    (noLink : ∀ target, e ≠ .link target) : Puts d (d.put (descend [] front ++ [name]) e)
  | again {l : Location} {old content : ByteArray} (held : d.at? l = some (.file old)) :
    Puts d (d.put l (.file content))

/-- A disk that comes about in steps. -/
def Builds : Disk → Disk → Prop :=
  Relation.ReflTransGen Puts

theorem Puts.builds (puts : d.Puts d') : d.Builds d' :=
  .single puts

theorem Puts.grows (puts : d.Puts d') : d.Grows d' := by
  cases puts with
  | new vacant noLink =>
    refine grows_put Vacant.ne_nil ?_
    rw [vacant.gone]
    rename_i e
    cases e with
    | file content => exact .written content
    | directory => exact .made
    | link target => exact absurd rfl (noLink target)
  | @again l old content held =>
    refine grows_put (ne_root_of_held held nofun) ?_
    rw [held]
    exact .rewritten old content

theorem Builds.grows (builds : d.Builds d') : d.Grows d' := by
  induction builds with
  | refl => exact Grows.refl d
  | tail _ step ih => exact ih.trans step.grows

theorem makeDirectory_builds (straight : d.Straight [] names) :
    d.Builds (d.makeDirectory names).2 := by
  rcases List.eq_nil_or_concat names with rfl | ⟨front, name, rfl⟩
  · exact .refl
  · rw [List.concat_eq_append] at *
    obtain ⟨straight, -⟩ := straight_snoc_iff.1 straight
    by_cases vacant : d.Vacant front name
    · rw [makeDirectory_of_vacant straight vacant]
      exact (Puts.new vacant (by simp)).builds
    · obtain ⟨e, -, failed⟩ := makeDirectory_of_not_vacant straight vacant
      rw [failed]
      exact .refl

theorem makePath_builds (straight : d.Straight [] names) :
    d.Builds (d.makePath names.reverse).2 := by
  induction names using List.reverseRecOn with
  | nil => exact .refl
  | append_singleton front name ih =>
    by_cases there : front = [] ∨ d.isThere front = true
    · rw [makePath_snoc_of_there there]
      exact makeDirectory_builds straight
    · replace ih := ih (straight_snoc_iff.1 straight).1
      rcases made : d.makePath front.reverse with ⟨outcome, later⟩
      rw [made] at ih
      rcases makePath_snoc_of_missing name there made with ⟨-, same⟩ | ⟨-, -, same⟩ | ⟨-, same⟩
      · rw [same]
        exact ih.trans (makeDirectory_builds (ih.grows.straight straight))
      · rwa [same]
      · rwa [same]

theorem write_builds (straight : d.Straight [] names) (content : ByteArray) :
    d.Builds (d.write names content).2 := by
  unfold write
  split
  · exact .refl
  · exact .refl
  · exact .refl
  · split
    · next l _ =>
      split
      · next old held => exact (Puts.again held).builds
      · exact .refl
    · split
      · next l vacant =>
        rcases List.eq_nil_or_concat names with rfl | ⟨front, name, rfl⟩
        · cases vacant
        · rw [List.concat_eq_append] at *
          obtain ⟨room, rfl⟩ := (vacancy_snoc_eq_ok_iff (straight_snoc_iff.1 straight).1).1 vacant
          exact (Puts.new room (by simp)).builds
      · exact .refl
      · exact .refl
    · exact .refl

/-! ## Places of a disk that was built up -/

theorem keys_putEntry (entries : List (Location × Entry)) :
    (putEntry l e entries).map Prod.fst =
      if l ∈ entries.map Prod.fst then entries.map Prod.fst else entries.map Prod.fst ++ [l] := by
  induction entries with
  | nil => rfl
  | cons first rest ih =>
    obtain ⟨k, old⟩ := first
    unfold putEntry
    by_cases same : k = l
    · simp [same]
    · rw [if_neg same, List.map_cons, ih]
      by_cases mem : l ∈ rest.map Prod.fst <;> simp [mem, Ne.symm same]

/-- No place gets a second entry. -/
theorem count_keys_put_le (once : (d.entries.map Prod.fst).count k ≤ 1) :
    ((d.put l e).entries.map Prod.fst).count k ≤ 1 := by
  show ((putEntry l e d.entries).map Prod.fst).count k ≤ 1
  rw [keys_putEntry]
  split_ifs with mem
  · exact once
  · rw [List.count_append]
    by_cases same : l = k
    · subst same
      rw [List.count_eq_zero_of_not_mem mem]
      simp
    · rw [List.count_singleton]
      simpa [same] using once

theorem lookup_of_mem {entries : List (Location × Entry)}
    (once : (entries.map Prod.fst).count l ≤ 1) (mem : (l, e) ∈ entries) :
    entries.lookup l = some e := by
  induction entries with
  | nil => cases mem
  | cons first rest ih =>
    obtain ⟨k, old⟩ := first
    rw [List.map_cons, List.count_cons] at once
    rw [lookup_cons_eq]
    rcases List.mem_cons.1 mem with same | mem
    · cases same
      exact if_pos rfl
    · have there : 0 < (rest.map Prod.fst).count l :=
        List.count_pos_iff.2 (List.mem_map.2 ⟨(l, e), mem, rfl⟩)
      have ne : l ≠ k := by
        rintro rfl
        simp at once
        omega
      rw [if_neg ne]
      exact ih (by omega) mem

theorem textSize_snoc (front : List String) (name : String) :
    (Location.text (front ++ [name])).utf8ByteSize =
      (if front = [] then 0 else (Location.text front).utf8ByteSize) + 1 + name.utf8ByteSize := by
  have slash : "/".utf8ByteSize = 1 := by decide
  rcases eq_or_ne front [] with rfl | some
  · simp [Location.text, Text.join, slash]
  · have single : [name] ≠ [] := List.cons_ne_nil name []
    rw [if_neg some]
    simp only [Location.text, Text.join, String.intercalate_append_of_ne_nil some single,
      String.intercalate_singleton, String.utf8ByteSize_append, slash]
    omega

/-- The text of a way that turns back is not shorter than that of the place it leads to. -/
theorem textSize_descend_le (names : List String) :
    (Location.text (descend [] names)).utf8ByteSize ≤ (Location.text names).utf8ByteSize := by
  induction names using List.reverseRecOn with
  | nil => exact Nat.le_refl _
  | append_singleton front name ih =>
    have longer := textSize_mono (List.prefix_append front [name])
    rw [descend_snoc]
    unfold step
    split_ifs
    · exact Nat.le_trans ih longer
    · exact Nat.le_trans (textSize_mono ( List.dropLast_prefix _)) (Nat.le_trans ih longer)
    · rw [textSize_snoc, textSize_snoc]
      rcases eq_or_ne front [] with rfl | some
      · simp
      · rw [if_neg some]
        split_ifs <;> omega

/-- The names that lead to a vacant place are accepted by the system. -/
theorem Vacant.accepted (vacant : d.Vacant front name) :
    Fits (descend [] front ++ [name]) ∧
      ∀ other ∈ descend [] front ++ [name], other.utf8ByteSize ≤ nameLimit := by
  have makeable := vacant.makeable
  rw [← vacant.descend_eq]
  refine ⟨Nat.lt_of_le_of_lt (textSize_descend_le _) makeable.fits, fun other mem => ?_⟩
  obtain ⟨among, -⟩ := (mem_of_mem_descend mem).resolve_left List.not_mem_nil
  exact makeable.short other among

/-- A directory with one entry for each place below it, which may be a link. -/
structure ListsOnce (d : Disk) (root : Location) : Prop where
  directory : d.at? root = some .directory
  once : ∀ l, root <+: l → l ≠ root → (d.entries.map Prod.fst).count l ≤ 1

/-- A disk below a directory that was empty: directories lead there, no link is below it, each
place has one entry, only directories have something below them, and the system accepts the names
that lead to each place. -/
structure IsSound (d : Disk) (root : Location) : Prop where
  directory : ∀ front, front <+: root → d.at? front = some .directory
  noLink : ∀ l, root <+: l → ∀ target, d.at? l ≠ some (.link target)
  once : ∀ l, root <+: l → l ≠ root → (d.entries.map Prod.fst).count l ≤ 1
  above : ∀ l name, root <+: l → d.at? (l ++ [name]) ≠ none → d.at? l = some .directory
  accepted : ∀ l, root <+: l → l ≠ root → d.at? l ≠ none →
    Fits l ∧ ∀ name ∈ l, name.utf8ByteSize ≤ nameLimit

theorem isSound_of_empty (directory : ∀ front, front <+: root → d.at? front = some .directory)
    (empty : ∀ l, root <+: l → l ≠ root → d.at? l = none) : d.IsSound root where
  directory := directory
  noLink l below target link := by
    by_cases same : l = root
    · rw [same, directory root List.prefix_rfl] at link
      cases link
    · rw [empty l below same] at link
      cases link
  once l below ne := by
    rw [List.count_eq_zero_of_not_mem]
    · exact Nat.zero_le 1
    · intro mem
      obtain ⟨entry, among, rfl⟩ := List.mem_map.1 mem
      exact at?_ne_none_of_mem among (empty _ below ne)
  above l name below there := by
    refine absurd (empty _ (below.trans (List.prefix_append _ _)) ?_) there
    rintro rfl
    exact ne_snoc_of_initial below rfl
  accepted l below ne there := absurd (empty l below ne) there

/-- Where something is after something new was put, a directory was above it before. -/
theorem Vacant.above (vacant : d.Vacant front name)
    (above : d.at? (l ++ [last]) ≠ none → d.at? l = some .directory)
    (there : (d.put (descend [] front ++ [name]) e).at? (l ++ [last]) ≠ none) :
    (d.put (descend [] front ++ [name]) e).at? l = some .directory := by
  rw [at?_put Vacant.ne_nil] at there ⊢
  have directory : d.at? l = some .directory := by
    split_ifs at there with here
    · rw [(List.append_inj' here rfl).1]
      exact vacant.directory
    · exact above there
  rw [if_neg, directory]
  rintro rfl
  rw [vacant.gone] at directory
  cases directory

theorem there_of_there_put_file {place : Location} {old : ByteArray}
    (held : d.at? place = some (.file old))
    (there : (d.put place (.file content)).at? l ≠ none) : d.at? l ≠ none := by
  rw [at?_put (ne_root_of_held held nofun)] at there
  split_ifs at there with here
  · rw [here, held]
    exact nofun
  · exact there

/-- A step keeps a disk sound. -/
theorem Puts.isSound (puts : d.Puts d') (sound : d.IsSound root) : d'.IsSound root := by
  have directory front initial := puts.grows.directory (sound.directory front initial)
  have noLink l (below : root <+: l) target (link : d'.at? l = some (.link target)) : False :=
    sound.noLink l below target (puts.grows.link_iff.1 link)
  cases puts with
  | @new front name e vacant =>
    refine ⟨directory, noLink, fun l below ne => count_keys_put_le (sound.once l below ne),
      fun l last below => vacant.above (sound.above l last below), fun l below ne there => ?_⟩
    rw [at?_put Vacant.ne_nil] at there
    split_ifs at there with here
    · rw [here]
      exact vacant.accepted
    · exact sound.accepted l below ne there
  | @again place old content held =>
    refine ⟨directory, noLink, fun l below ne => count_keys_put_le (sound.once l below ne), ?_,
      fun l below ne there => sound.accepted l below ne (there_of_there_put_file held there)⟩
    intro l last below there
    have above := sound.above l last below (there_of_there_put_file held there)
    rw [at?_put (ne_root_of_held held nofun), if_neg, above]
    rintro rfl
    rw [held] at above
    cases above

theorem Builds.isSound (builds : d.Builds d') (sound : d.IsSound root) : d'.IsSound root := by
  induction builds with
  | refl => exact sound
  | tail _ step ih => exact step.isSound ih

/-! ## Reading what was written -/

theorem ListsOnce.mem_iff (lists : d.ListsOnce root) (below : root <+: l) (ne : l ≠ root) :
    (l, e) ∈ d.entries ↔ d.at? l = some e := by
  have some : l ≠ [] := by
    rintro rfl
    exact ne (List.prefix_nil.1 below).symm
  rw [at?_of_ne_root some]
  constructor
  · exact lookup_of_mem (lists.once l below ne)
  · intro held
    obtain ⟨front, back, split, -⟩ := List.lookup_eq_some_iff.1 held
    rw [split]
    simp

namespace IsSound

theorem listsOnce (sound : d.IsSound root) : d.ListsOnce root :=
  ⟨sound.directory root List.prefix_rfl, sound.once⟩

/-- A directory of a sound disk is one itself. -/
theorem child (sound : d.IsSound root) (held : d.at? (root ++ [name]) = some .directory) :
    d.IsSound (root ++ [name]) where
  directory front initial := by
    rcases List.prefix_concat_iff.1 initial with rfl | shorter
    · exact held
    · exact sound.directory front shorter
  noLink l below := sound.noLink l ((List.prefix_append _ _).trans below)
  once l below _ := by
    refine sound.once l ((List.prefix_append _ _).trans below) ?_
    rintro rfl
    exact ne_snoc_of_initial below rfl
  above l last below := sound.above l last ((List.prefix_append _ _).trans below)
  accepted l below _ := by
    refine sound.accepted l ((List.prefix_append _ _).trans below) ?_
    rintro rfl
    exact ne_snoc_of_initial below rfl

/-- Directories lead to each place. -/
theorem leads (sound : d.IsSound root) (below : root <+: l) (there : d.at? l ≠ none)
    (initial : front <+: l) (ne : front ≠ l) : d.at? front = some .directory := by
  induction l using List.reverseRecOn with
  | nil => exact absurd (List.prefix_nil.1 initial) ne
  | append_singleton above name ih =>
    have shorter : front <+: above := (List.prefix_concat_iff.1 initial).resolve_left ne
    rcases List.prefix_concat_iff.1 below with same | below
    · exact sound.directory front (same ▸ initial)
    · have directory := sound.above above name below there
      by_cases same : front = above
      · rw [same]
        exact directory
      · exact ih below (by rw [directory]; exact nofun) shorter same

/-- Names without dots meet no link. -/
theorem straight (sound : d.IsSound root) (below : root <+: l)
    (plain : ∀ name ∈ l, IsPlain name) : d.Straight [] l := by
  intro front initial target
  rw [descend_plain fun name mem => plain name (initial.subset mem), List.nil_append]
  rcases List.prefix_or_prefix_of_prefix initial below with above | inside
  · rw [sound.directory front above]
    exact nofun
  · exact sound.noLink front inside target

theorem isOpen (sound : d.IsSound root) (below : root <+: l) (ne : l ≠ root)
    (there : d.at? l ≠ none) (plain : ∀ name ∈ l, IsPlain name) : d.IsOpen l := by
  intro front name initial
  have shorter : front <+: l := (List.prefix_append _ _).trans initial
  have descended : descend [] front = front := by
    rw [descend_plain fun other mem => plain other (shorter.subset mem), List.nil_append]
  rw [descended]
  have differs : front ≠ l := by
    rintro rfl
    exact ne_snoc_of_initial initial rfl
  refine ⟨sound.leads below there shorter differs, fun _ => ⟨?_, ?_⟩⟩
  · exact (sound.accepted l below ne there).2 name (initial.subset (by simp))
  · by_cases last : front ++ [name] = l
    · rwa [last]
    · rw [sound.leads below there initial last]
      exact nofun

/-- Names without dots read just the file that they lead to. -/
theorem read_eq_ok_iff (sound : d.IsSound root) (below : root <+: l)
    (plain : ∀ name ∈ l, IsPlain name) :
    d.read l = .ok content ↔ d.at? l = some (.file content) := by
  have straight := sound.straight below plain
  have descended : descend [] l = l := by
    rw [descend_plain plain, List.nil_append]
  constructor
  · intro readable
    obtain ⟨place, entered, held⟩ := bind_eq_ok.1 readable
    obtain ⟨-, -, rfl⟩ := (enter_eq_ok_iff straight).1 entered
    rw [descended] at held
    split at held
    · next file =>
      cases held
      exact file
    all_goals cases held
  · intro file
    have there : d.at? l ≠ none := by
      rw [file]
      exact nofun
    have ne : l ≠ root := by
      rintro rfl
      rw [sound.directory l List.prefix_rfl] at file
      cases file
    exact read_of_file straight (sound.isOpen below ne there plain)
      (sound.accepted l below ne there).1 (by rwa [descended])

end IsSound

end PackageRisk.Disk
