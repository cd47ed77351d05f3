import PackageRisk.Proofs.Archive.Sampling
import PackageRisk.Proofs.Disk.Entering
import PackageRisk.Proofs.Disk.Listing

/-!
# Packages in archives

An archive wraps the files of a package in one directory, with links and devices in between that
are not written. `Stores` says what is then below the destination: the files, the directories on
their ways, and nothing else. A member that is written keeps that (`Stores.writeMember`), and a
member can be written just when the system accepts the names that lead to its place, as no file is
on the way of another one. So an extraction stores all files of a package, in whatever order they
come, or fails for the names (`Wraps.extract`).
-/

namespace PackageRisk.Archive

open Disk Location

variable {d d' : Disk} {root l : Location} {m : Tar.Member} {ms : List Tar.Member}
  {name path : String} {front : List String} {f g : PackageFile}
  {files done : List PackageFile}

/-! ## Files and their places -/

/-- A path of a file in its normal form: names with one slash between them, none of which leads up
or cannot be looked up. -/
structure IsNormal (path : String) : Prop where
  ne_nil : Path.components path ≠ []
  spelled : Text.join "/" (Path.components path) = path
  noUp : ".." ∉ Path.components path
  noNul : ¬HasNul path

instance (path : String) : Decidable (IsNormal path) :=
  decidable_of_iff (Path.components path ≠ [] ∧ Text.join "/" (Path.components path) = path ∧
      ".." ∉ Path.components path ∧ ¬HasNul path)
    ⟨fun ⟨ne_nil, spelled, noUp, noNul⟩ => ⟨ne_nil, spelled, noUp, noNul⟩,
      fun normal => ⟨normal.ne_nil, normal.spelled, normal.noUp, normal.noNul⟩⟩

theorem IsNormal.isFileName (normal : IsNormal path) :
    ∀ name ∈ Path.components path, IsFileName name := by
  intro name mem
  have isName := Path.isName_of_mem_components mem
  refine ⟨isName, ⟨isName.ne_dot, ?_⟩, fun nul => normal.noNul (hasNul_iff.2 ⟨name, mem, nul⟩)⟩
  rintro rfl
  exact normal.noUp mem

theorem isNormal_of_isFileName (isFileName : IsFileName name) : IsNormal name := by
  have components := Path.components_of_isName isFileName.1
  refine ⟨?_, ?_, ?_, isFileName.2.2⟩
  · simp [components]
  · rw [components, Text.join, String.intercalate_singleton]
  · rw [components, List.mem_singleton]
    exact isFileName.2.1.2.symm

/-- The directory that wraps a package. -/
def wrapperName : String := "package"

theorem isFileName_wrapperName : IsFileName wrapperName :=
  ⟨⟨by decide, by decide, by decide⟩, by decide, by decide⟩

namespace PackageFile

/-- The names that lead to a file from the root of its package. -/
def names (f : PackageFile) : List String :=
  Path.components f.path

/-- The member of an archive that holds a file. -/
def member (f : PackageFile) : Tar.Member :=
  ⟨wrapperName ++ "/" ++ f.path, .file, f.content⟩

/-- Where a file is once its archive was extracted. -/
def place (f : PackageFile) (root : Location) : Location :=
  root ++ wrapperName :: f.names

theorem below_place : root <+: f.place root :=
  List.prefix_append _ _

theorem place_prefix_iff : f.place root <+: g.place root ↔ f.names <+: g.names := by
  rw [place, place, List.prefix_append_right_inj, List.prefix_cons_inj]

theorem place_inj : f.place root = g.place root ↔ f.names = g.names := by
  simp [place]

end PackageFile

open PackageFile

theorem isFileName_wrapped (normal : IsNormal f.path) :
    ∀ name ∈ wrapperName :: f.names, IsFileName name :=
  List.forall_mem_cons.2 ⟨isFileName_wrapperName, normal.isFileName⟩

theorem namesOf_join {names : List String} (isName : ∀ name ∈ names, Path.IsName name) :
    namesOf root (Text.join "/" names) = root ++ names := by
  unfold namesOf
  rcases eq_or_ne names [] with rfl | some
  · rfl
  · rw [Path.splitWhere_join some isName, List.filter_eq_self.2]
    intro name mem
    simpa using (isName name mem).ne_empty

theorem namesOf_member (normal : IsNormal f.path) :
    namesOf root f.member.name = f.place root := by
  have spelled : f.member.name = Text.join "/" (wrapperName :: f.names) := by
    have more : f.names ≠ [] := normal.ne_nil
    rw [Text.join, String.intercalate_cons_of_ne_nil more]
    exact congrArg (wrapperName ++ "/" ++ ·) normal.spelled.symm
  rw [spelled, namesOf_join fun name mem => (isFileName_wrapped normal name mem).1, place]

/-- The member of a file passes the check of names. -/
theorem checkName_member (fresh : IsFresh d root) (normal : IsNormal f.path) :
    checkName d root f.member.name = .ok () := by
  have plainRoot : ∀ name ∈ root, IsPlain name := fun name mem => (fresh.plain name mem).1
  have plain : ∀ name ∈ f.place root, IsPlain name :=
    List.forall_mem_append.2 ⟨plainRoot, fun name mem => (isFileName_wrapped normal name mem).2.1⟩
  have sound := isSound_of_empty fresh.directory fresh.empty
  have straight : d.Straight [] (namesOf root f.member.name) := by
    rw [namesOf_member normal]
    exact sound.straight below_place plain
  have relative : isRelative f.member.name = true := by
    simp [isRelative, member, wrapperName, Path.parse, Path.isAbsolute, Path.hasDrive,
      Path.forwardSlashes, Path.hasShare, Path.hasDriveLetter]
    rfl
  have passes : ¬Refused root f.member.name := by
    rintro (refused | outside)
    · rw [relative] at refused
      cases refused
    · rw [normalized_eq_descend_namesOf plainRoot, namesOf_member normal, descend_plain plain,
        List.nil_append] at outside
      exact outside below_place
  have noNul : ¬HasNul f.member.name := by
    simp only [HasNul, member, String.toList_append, List.mem_append, not_or]
    exact ⟨⟨by decide, by decide⟩, normal.noNul⟩
  rw [checkName_of_not_refused fresh straight passes, if_neg noNul]

/-! ## Writing a file -/

/-- A file is written to the place that its names lead to. -/
theorem write_of_ok {content : ByteArray} (sound : d.IsSound root) (below : root <+: l)
    (plain : ∀ name ∈ l, IsPlain name) (written : (d.write l content).1 = .ok ()) :
    (d.write l content).2 = d.put l (.file content) := by
  have settled : d.Settled Anywhere l := by
    intro front name initial
    have straight := sound.straight below plain _ initial
    rw [descend_plain fun other mem => plain other (initial.subset mem)] at straight
    exact ⟨plain name (initial.subset (by simp)), trivial, straight⟩
  rcases write_inv d l with ⟨e, fails⟩ | ⟨place, -, arrives, writes⟩
  · rw [fails] at written
    cases written
  · rw [(writes content).1, arrives.unique settled.arrives]

theorem writeMember_of_ok (sound : d.IsSound root) (plain : ∀ name ∈ f.place root, IsPlain name)
    (way : namesOf root f.member.name = f.place root)
    (written : (writeMember d root f.member).1 = .ok ()) :
    (writeMember d root f.member).2 =
      (makeRoom d (f.place root)).2.put (f.place root) (.file f.content) := by
  have straight := sound.straight below_place plain
  have room := (makeRoom_builds straight).isSound sound
  unfold writeMember at written ⊢
  rw [way] at written ⊢
  dsimp only [member] at written ⊢
  generalize makeRoom d (f.place root) = made at room written ⊢
  rcases made with ⟨e | _, later⟩
  · cases written
  · exact write_of_ok room below_place plain written

/-- Room can be made for what the system accepts if no file is on the way to it. -/
theorem makeRoom_of_makeable (sound : d.IsSound root) (below : root <+: front)
    (plain : ∀ other ∈ front ++ [name], IsPlain other) (makeable : d.Makeable (front ++ [name]))
    (gone : d.at? (front ++ [name]) = none) :
    (makeRoom d (front ++ [name])).1 = .ok () ∧
      (makeRoom d (front ++ [name])).2.Vacant front name := by
  have plainFront : ∀ other ∈ front, IsPlain other := fun other mem =>
    plain other (List.mem_append_left _ mem)
  have straight := sound.straight (below.trans (List.prefix_append front [name])) plain
  have straightFront := sound.straight below plainFront
  have makes := makeRoom_makes straight
  have there (first : List String) (initial : first <+: front) :
      (makeRoom d (front ++ [name])).2.at? (descend [] first) ≠ none := by
    refine makeRoom_there straight ?_ (makeable.of_snoc.of_initial initial)
    rwa [List.dropLast_concat]
  rw [List.dropLast_concat] at makes
  refine ⟨?_, makes.vacant straightFront makeable plain there gone⟩
  unfold makeRoom
  rw [List.dropLast_concat]
  split_ifs with isThere
  · rfl
  · have missing : d.at? front = none := by
      by_contra held
      exact isThere ((sound.isThere_iff below plainFront makeable.of_snoc.fits
        makeable.of_snoc.short).2 held)
    rcases List.eq_nil_or_concat front with rfl | ⟨above, last, rfl⟩
    · cases missing
    · rw [List.concat_eq_append] at *
      exact makePath_of_missing straightFront makeable.of_snoc plainFront missing

theorem writeMember_of_makeable (sound : d.IsSound root)
    (plain : ∀ name ∈ f.place root, IsPlain name)
    (way : namesOf root f.member.name = f.place root) (makeable : d.Makeable (f.place root))
    (gone : d.at? (f.place root) = none) : (writeMember d root f.member).1 = .ok () := by
  obtain ⟨front, name, split, below⟩ : ∃ front name, f.place root = front ++ [name] ∧
      root <+: front := by
    rcases List.eq_nil_or_concat (f.place root) with empty | ⟨front, name, split⟩
    · simp [place] at empty
    · rw [List.concat_eq_append] at split
      refine ⟨front, name, split, (List.prefix_concat_iff.1 (split ▸ below_place)).resolve_left ?_⟩
      rintro whole
      simp [← split, place] at whole
  rw [split] at plain makeable gone
  obtain ⟨made, vacant⟩ := makeRoom_of_makeable sound below plain makeable gone
  have straight := sound.straight (below.trans (List.prefix_append front [name])) plain
  have straight' := (makeRoom_makes straight).grows.straight straight
  unfold writeMember
  rw [way, split]
  dsimp only [member]
  rcases room : makeRoom d (front ++ [name]) with ⟨e | _, later⟩
  · rw [room] at made
    cases made
  · rw [room] at vacant straight'
    dsimp only
    rw [write_of_vacant straight' vacant]

/-! ## What is stored -/

/-- Below a directory are just the files of a package, where its archive has them, and the
directories on their ways. -/
structure Stores (d : Disk) (root : Location) (files : List PackageFile) : Prop where
  sound : d.IsSound root
  plain : ∀ name ∈ root, IsPlain name
  file_iff : ∀ l, root <+: l → ∀ content,
    d.at? l = some (.file content) ↔ ∃ f ∈ files, f.place root = l ∧ f.content = content
  there_iff : ∀ l, root <+: l → l ≠ root → (d.at? l ≠ none ↔ ∃ f ∈ files, l <+: f.place root)

theorem IsFresh.stores (fresh : IsFresh d root) : Stores d root [] where
  sound := isSound_of_empty fresh.directory fresh.empty
  plain name mem := (fresh.plain name mem).1
  file_iff l below content := by
    refine iff_of_false (fun file => ?_) (by simp)
    by_cases same : l = root
    · rw [same, fresh.directory root List.prefix_rfl] at file
      cases file
    · rw [fresh.empty l below same] at file
      cases file
  there_iff l below ne := iff_of_false (not_not_intro (fresh.empty l below ne)) (by simp)

/-- Names that the system accepts for the place of a file. -/
def IsAccepted (root : Location) (f : PackageFile) : Prop :=
  Fits (f.place root) ∧ ∀ name ∈ f.place root, name.utf8ByteSize ≤ nameLimit

instance (root : Location) (f : PackageFile) : Decidable (IsAccepted root f) :=
  inferInstanceAs (Decidable ((Location.text (f.place root)).utf8ByteSize < pathLimit ∧
    ∀ name ∈ f.place root, name.utf8ByteSize ≤ nameLimit))

/-- A file that is not on the way of another one, and none is on its way. -/
def IsApart (f g : PackageFile) : Prop :=
  ¬f.names <+: g.names ∧ ¬g.names <+: f.names

namespace Stores

theorem plain_place (stores : Stores d root done) (normal : IsNormal f.path) :
    ∀ name ∈ f.place root, IsPlain name :=
  List.forall_mem_append.2
    ⟨stores.plain, fun name mem => (isFileName_wrapped normal name mem).2.1⟩

/-- What is stored was accepted. -/
theorem accepted (stores : Stores d root files) (mem : f ∈ files) : IsAccepted root f := by
  have ne : f.place root ≠ root := by simp [place]
  exact stores.sound.accepted _ below_place ne
    ((stores.there_iff _ below_place ne).2 ⟨f, mem, List.prefix_rfl⟩)

/-- A file that is put in its place, once room was made for it, is one more file. -/
theorem file_iff_put {P : Location → Prop} (stores : Stores d root done)
    (apart : ∀ g ∈ done, IsApart g f) (makes : d.Makes P d') (below : root <+: l)
    {content : ByteArray} :
    (d'.put (f.place root) (.file f.content)).at? l = some (.file content) ↔
      ∃ g ∈ done ++ [f], g.place root = l ∧ g.content = content := by
  simp only [List.mem_append, List.mem_singleton, or_and_right, exists_or, exists_eq_left]
  rw [at?_put (by simp [place])]
  by_cases here : l = f.place root
  · have others : ¬∃ g ∈ done, g.place root = l ∧ g.content = content := by
      rintro ⟨g, mem, rfl, -⟩
      exact (apart g mem).1 (place_inj.1 here ▸ List.prefix_rfl)
    rw [if_pos here, or_iff_right others, here]
    simp
  · rw [if_neg here, makes.file_iff, stores.file_iff l below]
    exact (or_iff_left fun itself => here itself.1.symm).symm

/-- What is there then is on the way of that file, or was there before. -/
theorem there_iff_put (stores : Stores d root done) (plain : ∀ name ∈ f.place root, IsPlain name)
    (makes : d.Makes (d.OnWay (f.place root).dropLast) d')
    (sound : (d'.put (f.place root) (.file f.content)).IsSound root) (below : root <+: l)
    (away : l ≠ root) :
    (d'.put (f.place root) (.file f.content)).at? l ≠ none ↔
      ∃ g ∈ done ++ [f], l <+: g.place root := by
  have ne : f.place root ≠ [] := by simp [place]
  simp only [List.mem_append, List.mem_singleton, or_and_right, exists_or, exists_eq_left]
  rw [← stores.there_iff l below away]
  constructor
  · intro there
    by_cases here : l = f.place root
    · exact .inr (here ▸ List.prefix_rfl)
    rw [at?_put ne, if_neg here] at there
    rcases makes l with same | ⟨-, -, first, initial, rfl, -⟩
    · exact .inl (same ▸ there)
    · have initial := initial.trans ( List.dropLast_prefix _)
      rw [descend_plain fun name mem => plain name (initial.subset mem)]
      exact .inr initial
  · intro there
    by_cases here : l = f.place root
    · rw [here, at?_put_self ne]
      exact nofun
    rcases there with there | initial
    · rw [at?_put ne, if_neg here]
      exact makes.grows.ne_none there
    · rw [sound.leads below_place (by rw [at?_put_self ne]; exact nofun) initial here]
      exact nofun

/-- A file that was written is stored with the others. -/
theorem writeMember (stores : Stores d root done) (normal : IsNormal f.path)
    (apart : ∀ g ∈ done, IsApart g f) (written : (writeMember d root f.member).1 = .ok ()) :
    Stores (Archive.writeMember d root f.member).2 root (done ++ [f]) := by
  have plain := stores.plain_place normal
  have way : namesOf root f.member.name = f.place root := namesOf_member normal
  have straight := stores.sound.straight below_place plain
  have makes := makeRoom_makes straight
  have sound := (writeMember_builds (way.symm ▸ straight)).isSound stores.sound
  rw [writeMember_of_ok stores.sound plain way written] at sound ⊢
  exact ⟨sound, stores.plain, fun l below content => stores.file_iff_put apart makes below,
    fun l => stores.there_iff_put plain makes sound⟩

/-- A file can be written just when its names are accepted. -/
theorem writeMember_ok_iff (stores : Stores d root done) (normal : IsNormal f.path)
    (apart : ∀ g ∈ done, IsApart g f) :
    (Archive.writeMember d root f.member).1 = .ok () ↔ IsAccepted root f := by
  constructor
  · intro written
    exact (stores.writeMember normal apart written).accepted (by simp)
  intro accepted
  have plain := stores.plain_place normal
  refine writeMember_of_makeable stores.sound plain (namesOf_member normal)
    ⟨accepted.2, accepted.1, fun front initial ne content file => ?_⟩ ?_
  · rw [descend_plain fun name mem => plain name (initial.subset mem), List.nil_append] at file
    rcases List.prefix_or_prefix_of_prefix initial below_place with above | below
    · rw [stores.sound.directory front above] at file
      cases file
    · obtain ⟨g, mem, rfl, -⟩ := (stores.file_iff front below content).1 file
      exact (apart g mem).1 (place_prefix_iff.1 initial)
  · by_contra there
    obtain ⟨g, mem, initial⟩ :=
      (stores.there_iff _ below_place (by simp [place])).1 there
    exact (apart g mem).2 (place_prefix_iff.1 initial)

theorem perm {files' : List PackageFile} (stores : Stores d root files')
    (perm : files'.Perm files) : Stores d root files where
  sound := stores.sound
  plain := stores.plain
  file_iff l below content := by simp only [stores.file_iff l below, perm.mem_iff]
  there_iff l below away := by simp only [stores.there_iff l below away, perm.mem_iff]

end Stores

/-! ## Archives of packages -/

/-- Files of a package: no path is there twice, and none is a directory of another one. -/
structure IsPackage (files : List PackageFile) : Prop where
  normal : ∀ f ∈ files, IsNormal f.path
  once : (files.map PackageFile.path).Nodup
  apart : ∀ f ∈ files, ∀ g ∈ files, f.names <+: g.names → f.path = g.path

/-- An archive with the files of a package in some order, and with links and devices of safe names
anywhere in between. -/
structure Wraps (d : Disk) (root : Location) (ms : List Tar.Member) (files : List PackageFile) :
    Prop where
  members : (ms.filter (·.kind != .other)).Perm (files.map PackageFile.member)
  safe : ∀ m ∈ ms, m.kind = .other → checkName d root m.name = .ok ()

theorem IsPackage.perm {files' : List PackageFile} (package : IsPackage files)
    (perm : files'.Perm files) : IsPackage files' where
  normal f mem := package.normal f (perm.subset mem)
  once := (perm.map _).nodup_iff.2 package.once
  apart f mem g mem' := package.apart f (perm.subset mem) g (perm.subset mem')

theorem IsPackage.isApart {rest : List PackageFile} (package : IsPackage (done ++ f :: rest)) :
    ∀ g ∈ done, IsApart g f := by
  intro g mem
  have mem' : f ∈ done ++ f :: rest := by simp
  have among : g ∈ done ++ f :: rest := List.mem_append_left _ mem
  have ne : g.path ≠ f.path := by
    have once := package.once
    rw [List.map_append, List.nodup_append] at once
    exact once.2.2 _ (List.mem_map_of_mem mem) _ (by simp)
  exact ⟨fun initial => ne (package.apart g among f mem' initial),
    fun initial => ne (package.apart f mem' g among initial).symm⟩

/-- The files of an archive in the order of its members. -/
theorem Wraps.exists_order (wraps : Wraps d root ms files) :
    ∃ files' : List PackageFile, files'.Perm files ∧
      ms.filter (·.kind != .other) = files'.map PackageFile.member := by
  have members : List.Forall₂ (fun m f => m = member f) (files.map member) files :=
    List.forall₂_map_left_iff.2 (List.forall₂_same.2 fun f _ => rfl)
  obtain ⟨files', same, perm⟩ := List.perm_comp_forall₂ wraps.members members
  refine ⟨files', perm, ?_⟩
  rw [← List.forall₂_eq_eq_eq, List.forall₂_map_right_iff]
  exact same

theorem Wraps.perm {ms' : List Tar.Member} (wraps : Wraps d root ms files) (perm : ms'.Perm ms) :
    Wraps d root ms' files where
  members := (perm.filter _).trans wraps.members
  safe m mem := wraps.safe m (perm.subset mem)

theorem checkNames_of_forall (passes : ∀ m ∈ ms, checkName d root m.name = .ok ()) :
    checkNames d root ms = .ok () := by
  induction ms with
  | nil => rfl
  | cons m rest ih =>
    rw [List.forall_mem_cons] at passes
    rw [checkNames, passes.1]
    exact ih passes.2

theorem Wraps.checkNames (wraps : Wraps d root ms files) (fresh : IsFresh d root)
    (package : IsPackage files) : checkNames d root ms = .ok () := by
  refine checkNames_of_forall fun m mem => ?_
  by_cases kind : m.kind = .other
  · exact wraps.safe m mem kind
  · have written := wraps.members.subset (List.mem_filter.2 ⟨mem, by simpa using kind⟩)
    obtain ⟨f, among, rfl⟩ := List.mem_map.1 written
    exact checkName_member fresh (package.normal f among)

theorem writeMember_of_other (kind : m.kind = .other) : writeMember d root m = (.ok (), d) := by
  rw [writeMember, kind]

/-- All members are written just when their names are accepted, and then their files are stored
with those that are there. -/
theorem Stores.writeMembers (stores : Stores d root done)
    (order : ms.filter (·.kind != .other) = files.map PackageFile.member)
    (package : IsPackage (done ++ files)) :
    ((writeMembers d root ms).1 = .ok () ↔ ∀ f ∈ files, IsAccepted root f) ∧
      ((writeMembers d root ms).1 = .ok () →
        Stores (writeMembers d root ms).2 root (done ++ files)) := by
  -- the files that are stored already are apart from those that are still to come
  induction ms generalizing d done files with
  | nil =>
    obtain rfl : files = [] := by simpa using order.symm
    rw [List.append_nil]
    exact ⟨iff_of_true rfl (List.forall_mem_nil _), fun _ => stores⟩
  | cons m rest ih =>
    rw [writeMembers_cons]
    by_cases kind : m.kind = .other
    · rw [List.filter_cons_of_neg (by simpa using kind)] at order
      rw [writeMember_of_other kind, if_pos rfl]
      exact ih stores order package
    · rw [List.filter_cons_of_pos (by simpa using kind)] at order
      obtain ⟨f, others, rfl, rfl, later⟩ := List.map_eq_cons_iff.1 order.symm
      have normal := package.normal f (by simp)
      have goes := stores.writeMember_ok_iff normal package.isApart
      rw [List.forall_mem_cons, ← goes]
      by_cases first : (Archive.writeMember d root f.member).1 = .ok ()
      · have stores := stores.writeMember normal package.isApart first
        have package : IsPackage (done ++ [f] ++ others) := by simpa using package
        rw [if_pos first, and_iff_right first]
        simpa using ih stores later.symm package
      · rw [if_neg first]
        exact ⟨iff_of_false first fun all => first all.1, fun written => absurd written first⟩

/-- An extraction stores all files if their names are accepted, and it fails if one is not. -/
theorem Wraps.extract (wraps : Wraps d root ms files) (fresh : IsFresh d root)
    (package : IsPackage files) :
    ((∀ f ∈ files, IsAccepted root f) →
      ∃ d', extract d root ms = (.ok (), d') ∧ Stores d' root files) ∧
    ((∃ f ∈ files, ¬IsAccepted root f) →
      ∃ e : SystemFault, (extract d root ms).1 = .error (.extraction e.reason)) := by
  obtain ⟨inOrder, perm, order⟩ := wraps.exists_order
  have ends := fresh.stores.writeMembers order (package.perm perm : IsPackage ([] ++ inOrder))
  unfold Archive.extract
  rw [wraps.checkNames fresh package]
  dsimp only
  generalize writeMembers d root ms = changed at ends
  obtain ⟨outcome, later⟩ := changed
  obtain ⟨goes, stored⟩ := ends
  constructor
  · intro accepted
    obtain rfl : outcome = .ok () := goes.2 fun f mem => accepted f (perm.subset mem)
    exact ⟨later, rfl, (stored rfl).perm perm⟩
  · rintro ⟨f, mem, refused⟩
    rcases outcome with e | _
    · exact ⟨e, rfl⟩
    · exact absurd (goes.1 rfl f (perm.symm.subset mem)) refused

end PackageRisk.Archive
