import PackageRisk.Proofs.Archive.MemberNames
import PackageRisk.Proofs.Work.Directory

/-!
# Retrieving an archive beside others

Extraction and inspection keep to the terms of a site as long as the names of the archive's members
go where the work may go: the check of the names makes sure that each member ends up in the
directory, since no link is made that could lead it elsewhere later. So does the retrieval as a
whole, and when it has ended nothing is left of its directory (`keeps_analysis`).
-/

namespace PackageRisk.Work.Site

open Disk Location
open Archive (namesOf archiveName extractName workPath)

variable {s : Site} {d d' : Disk} {l root : Location} {names front : List String}
  {name path : String} {m : Tar.Member} {ms : List Tar.Member} {content : ByteArray}
  {settings : ArchiveSettings} {reply : Except Failure Reply}

/-! ## Places in the directory -/

/-- A place in the directory of a work that its names lead to. -/
structure Within (s : Site) (l : Location) : Prop where
  within : s.work <+: l
  plain : ∀ name ∈ l, IsPlain name

theorem Within.append (here : s.Within l) (plain : ∀ name ∈ names, IsPlain name) :
    s.Within (l ++ names) where
  within := here.within.trans (List.prefix_append _ _)
  plain := List.forall_mem_append.2 ⟨here.plain, plain⟩

theorem within_child (plain : IsPlain name) : s.Within (s.work ++ [name]) where
  within := List.prefix_append _ _
  plain := forall_mem_snoc (settled_plain s.arrives_work) plain

theorem Within.settled (here : s.Within l) : s.clear.Settled s.Near l := by
  obtain ⟨rest, rfl⟩ := here.within
  have plain := here.plain
  clear here
  induction rest using List.reverseRecOn with
  | nil =>
    rw [List.append_nil]
    exact s.arrives_work.settled settled_nil
  | append_singleton rest name ih =>
    rw [← List.append_assoc] at plain ⊢
    have inside : s.work <+: s.work ++ rest ++ [name] := ⟨rest ++ [name], by simp⟩
    refine (ih fun other mem => plain other (List.mem_append_left _ mem)).snoc
      (plain name (by simp)) (s.apart _ inside) (s.bare _ inside)

theorem Within.arrives (here : s.Within l) : s.clear.Arrives s.Near [] l l :=
  here.settled.arrives

theorem Within.skirts (here : s.Within l) : s.Skirts l := .inr ⟨l, here.arrives⟩

theorem Within.noDot (here : s.Within l) : "." ∉ l := fun dot => (here.plain "." dot).1 rfl

theorem Within.eq_of_resolve (here : s.Within l) (tidy : s.Tidy d)
    (resolved : d.resolve l = .ok root) : root = l :=
  (tidy.arrives_iff.2 here.arrives).eq_of_resolve here.noDot resolved

/-! ## Extraction -/

theorem Lasts.makeRoom {K : Location → Prop} {I : Disk → Prop} (lasts : s.Lasts K I)
    (goes : s.Goes names)
    (allowed : ∀ front l, front <+: names → s.clear.Arrives s.Near [] front l → K l)
    (known : I d) : Keeps s.terms (fun _ => I) (makeRoom names) d := by
  have shorter : names.dropLast <+: names := List.dropLast_prefix names
  refine lasts.see_bind known (fun d tidy => ?_) fun d known => ?_
  · exact (goes.initial shorter).skirts.isThere_without tidy
  · split_ifs
    · exact lasts.ended known _
    · exact lasts.makePath (goes.initial shorter)
        (fun first l initial => allowed first l (initial.trans shorter)) known

/-- What is known while an archive is extracted and inspected. -/
abbrev Working (s : Site) (d : Disk) : Prop := s.Tidy d ∧ s.Made d

/-- How a work ends in its directory: with what is expected of it, or with a failure. -/
def Ends {ε α : Type} (s : Site) (P : α → Disk → Prop) (outcome : Except ε α) (d : Disk) : Prop :=
  s.Working d ∧ ∀ a, outcome = .ok a → P a d

theorem ends_ok {ε α : Type} {P : α → Disk → Prop} {a : α} (known : s.Working d) (holds : P a d) :
    s.Ends P (.ok a : Except ε α) d := by
  refine ⟨known, fun b same => ?_⟩
  cases same
  exact holds

theorem ends_error {ε α : Type} {P : α → Disk → Prop} (e : ε) (known : s.Working d) :
    s.Ends P (.error e : Except ε α) d :=
  ⟨known, nofun⟩

theorem keeps_failed {ε α : Type} {P : α → Disk → Prop} (e : ε) (known : s.Working d) :
    Keeps s.terms (s.Ends P) (.ended (.error e) : Work ε α) d :=
  keeps_ended fun _ others => ends_error e (s.lasts_made.stable known others)

theorem bind_of_ends {ε α β : Type} {P : α → Disk → Prop} {R : Except ε β → Disk → Prop}
    {w : Work ε α} {f : α → Work ε β} (keeps : Keeps s.terms (s.Ends P) w d)
    (later : ∀ a d, s.Working d → P a d → Keeps s.terms R (f a) d)
    (failed : ∀ e d, s.Working d → R (.error e) d) : Keeps s.terms R (w >>= f) d :=
  keeps.bind (fun a d ends => later a d ends.1 (ends.2 a rfl)) fun e _ ends d' others =>
    failed e d' (s.lasts_made.stable ends.1 others)

theorem keeps_writeMember (goes : s.Goes (namesOf root m.name))
    (ends : ∀ l, s.clear.Arrives s.Near [] (namesOf root m.name) l → s.work <+: l)
    (known : s.Working d) : Keeps s.terms (fun _ => s.Working) (writeMember root m) d := by
  have lasts := s.lasts_made
  unfold writeMember
  cases m.kind with
  | other => exact lasts.ended known _
  | file =>
    refine lasts.bind (lasts.makeRoom goes (fun _ _ _ _ => trivial) known) fun _ d known => ?_
    exact lasts.write goes (fun l arrives => ⟨ends l arrives, trivial⟩) known m.content
  | directory =>
    refine lasts.bind (lasts.makeRoom goes (fun _ _ _ _ => trivial) known) fun _ d known => ?_
    have makes := lasts.makeDirectory goes (fun _ _ => trivial) known
    refine makes.followedBy fun outcome d known => ?_
    split
    · exact lasts.unlessDirectory goes known _
    · exact lasts.ended known _

theorem keeps_writeMembers (goes : ∀ m ∈ ms, s.Goes (namesOf root m.name))
    (ends : ∀ m ∈ ms, ∀ l, s.clear.Arrives s.Near [] (namesOf root m.name) l → s.work <+: l)
    (known : s.Working d) : Keeps s.terms (fun _ => s.Working) (writeMembers root ms) d := by
  induction ms generalizing d with
  | nil => exact s.lasts_made.ended known _
  | cons m rest ih =>
    rw [List.forall_mem_cons] at goes ends
    exact s.lasts_made.bind (keeps_writeMember goes.1 ends.1 known) fun _ d known =>
      ih goes.2 ends.2 known

/-- A name that passes the check leads to the destination, now and as long as links stay. -/
theorem ends_of_checkName (here : s.Within root) (tidy : s.Tidy d) {name : String}
    (passed : Archive.checkName d root name = .ok ())
    (arrives : s.clear.Arrives s.Near [] (namesOf root name) l) : root <+: l := by
  have direct := tidy.arrives_iff.2 (arrives_filter_dot_iff.2 arrives)
  rw [Archive.namesOf_filter_dot here.plain] at direct
  have noDot : "." ∉ root ++ Path.components name := by
    rw [List.mem_append, not_or]
    exact ⟨here.noDot, Path.dot_notMem_components name⟩
  unfold Archive.checkName at passed
  split_ifs at passed
  split at passed
  · next l' resolved =>
    obtain rfl := direct.eq_of_resolve noDot resolved
    split_ifs at passed with within
    exact isWithin_iff.1 within
  · cases passed

theorem checkName_without (here : s.Within root) (tidy : s.Tidy d) {name : String}
    (skirts : s.Skirts (namesOf root name)) :
    Archive.checkName (d.without s.far) root name = Archive.checkName d root name := by
  have direct : s.Skirts (root ++ Path.components name) := by
    rw [← Archive.namesOf_filter_dot here.plain]
    exact skirts.imp_right fun ⟨l, arrives⟩ => ⟨l, arrives_filter_dot_iff.2 arrives⟩
  have noDot : "." ∉ root ++ Path.components name := by
    rw [List.mem_append, not_or]
    exact ⟨here.noDot, Path.dot_notMem_components name⟩
  unfold Archive.checkName
  rw [direct.resolve_without tidy noDot]

theorem keeps_checkNames (here : s.Within root) (goes : ∀ m ∈ ms, s.Goes (namesOf root m.name))
    (known : s.Working d) :
    Keeps s.terms (s.Ends fun _ _ => ∀ m ∈ ms, ∀ l,
      s.clear.Arrives s.Near [] (namesOf root m.name) l → s.work <+: l) (checkNames root ms) d := by
  induction ms generalizing d with
  | nil =>
    exact keeps_ended fun _ others => ends_ok (s.lasts_made.stable known others) (by simp)
  | cons m rest ih =>
    rw [List.forall_mem_cons] at goes
    have first : Keeps s.terms (s.Ends fun _ _ => ∀ l,
        s.clear.Arrives s.Near [] (namesOf root m.name) l → s.work <+: l)
        (look fun d => Archive.checkName d root m.name) d := by
      refine keeps_look (fun d' others => ?_) fun d' others d'' later => ?_
      · exact checkName_without here (s.lasts_made.stable known others).1 goes.1.skirts
      · replace known := s.lasts_made.stable known others
        refine ⟨s.lasts_made.stable known later, fun _ passed l arrives => ?_⟩
        exact here.within.trans (ends_of_checkName here known.1 passed arrives)
    refine bind_of_ends first (fun _ d known ends => ?_) fun _ _ => ends_error _
    refine (ih goes.2 known).mono fun outcome d ⟨known, later⟩ => ⟨known, fun a passed => ?_⟩
    exact List.forall_mem_cons.2 ⟨ends, later a passed⟩

theorem keeps_extractArchive (here : s.Within root)
    (goes : ∀ ms, Archive.members content = .ok ms → ∀ m ∈ ms, s.Goes (namesOf root m.name))
    (known : s.Working d) :
    Keeps s.terms (fun _ => s.Working) (extractArchive root content) d := by
  unfold extractArchive
  split
  · exact s.lasts_made.ended known _
  · next ms read =>
    refine bind_of_ends (keeps_checkNames here (goes ms read) known) (fun _ d known ends => ?_)
      fun _ _ known => known
    exact s.lasts_made.mapError (keeps_writeMembers (goes ms read) ends known)

/-! ## Inspection -/

theorem packageRoot_without (here : s.Within l) :
    Archive.packageRoot (d.without s.far) l = Archive.packageRoot d l := by
  have near (k : Location) (below : l <+: k) : s.far k = false :=
    s.apart k (here.within.trans below)
  unfold Archive.packageRoot
  rw [names_without near]
  split
  · unfold isDirectory
    rw [at?_without (near _ (List.prefix_append _ _))]
  · rfl

theorem within_packageRoot (here : s.Within l) (tidy : s.Tidy d) :
    s.Within (Archive.packageRoot d l) := by
  unfold Archive.packageRoot
  split
  · next name _ =>
    split_ifs with directory
    · have within : s.work <+: l ++ [name] := here.within.trans (List.prefix_append _ _)
      refine ⟨within, tidy.plain _ within ?_⟩
      rw [isDirectory_iff.1 directory]
      exact nofun
    · exact here
  · exact here

theorem filesOf_without (here : s.Within l) :
    Archive.filesOf (d.without s.far) l = Archive.filesOf d l := by
  unfold Archive.filesOf filesBelow
  rw [below_without fun k below => s.apart k (here.within.trans below)]

theorem insideNames_plain (inside : Archive.insideNames? path = some names) :
    ∀ name ∈ names, IsPlain name := by
  unfold Archive.insideNames? at inside
  dsimp only at inside
  split_ifs at inside with refused
  cases inside
  simp only [Bool.or_eq_true, not_or, List.contains_iff_mem] at refused
  intro name mem
  refine ⟨?_, ?_⟩
  · rintro rfl
    exact Path.dot_notMem_components _ mem
  · rintro rfl
    exact refused.2 mem

/-- A path below a place in the directory is looked up in the directory. -/
theorem resolveInside_within (here : s.Within root) (tidy : s.Tidy d) :
    Archive.resolveInside (d.without s.far) root path = Archive.resolveInside d root path ∧
      ∀ l, Archive.resolveInside d root path = .ok l → s.Within l := by
  unfold Archive.resolveInside
  rcases inside : Archive.insideNames? path with _ | names
  · exact ⟨rfl, nofun⟩
  dsimp only
  rw [here.skirts.resolve_without tidy here.noDot]
  rcases resolved : d.resolve root with e | base
  · exact ⟨rfl, nofun⟩
  obtain rfl := here.eq_of_resolve tidy resolved
  have whole := here.append (insideNames_plain inside)
  dsimp only
  rw [whole.skirts.resolve_without tidy whole.noDot]
  refine ⟨rfl, fun l found => ?_⟩
  rcases resolved : d.resolve (base ++ names) with e | l'
  · rw [resolved] at found
    cases found
  · rw [resolved] at found
    obtain rfl := whole.eq_of_resolve tidy resolved
    dsimp only at found
    split_ifs at found
    cases found
    exact whole

theorem keeps_readInside (here : s.Within root) (known : s.Working d) :
    Keeps s.terms (fun _ => s.Working) (readInside root path) d := by
  have looks : Keeps s.terms (s.Ends fun l _ => s.Within l)
      (look fun d => Archive.resolveInside d root path) d := by
    refine keeps_look (fun d' others => ?_) fun d' others d'' later => ?_
    · exact (resolveInside_within here (s.lasts_made.stable known others).1).1
    · replace known := s.lasts_made.stable known others
      exact ⟨s.lasts_made.stable known later, (resolveInside_within here known.1).2⟩
  refine bind_of_ends looks (fun l d known within => ?_) fun _ _ known => known
  refine s.lasts_made.look known fun d tidy => ?_
  rw [within.skirts.read_without tidy]

theorem keeps_fileEntropy (here : s.Within root) (known : s.Working d) :
    Keeps s.terms (fun _ => s.Working) (fileEntropy root path) d := by
  unfold fileEntropy
  split_ifs
  · exact s.lasts_made.returns known none
  · exact s.lasts_made.bind (keeps_readInside here known) fun _ _ known =>
      s.lasts_made.returns known _

theorem keeps_describe {entropies : Bool} {files : List Archive.PackageFile}
    (here : s.Within root) (known : s.Working d) :
    Keeps s.terms (fun _ => s.Working) (describe root entropies files) d := by
  induction files generalizing d with
  | nil => exact s.lasts_made.returns known _
  | cons f rest ih =>
    have listed (measured : Option Binary64) {d : Disk} (known : s.Working d) :
        Keeps s.terms (fun _ => s.Working) (describe root entropies rest >>= fun listed =>
          pure ((⟨f.path, f.size, measured⟩ : ArchiveFile) :: listed)) d :=
      s.lasts_made.bind (ih known) fun _ d known => s.lasts_made.returns known _
    rw [describe]
    split_ifs
    · exact s.lasts_made.bind (keeps_fileEntropy here known) fun measured _ known =>
        listed measured known
    · exact s.lasts_made.bind (s.lasts_made.returns known none) fun measured _ known =>
        listed measured known

theorem keeps_inspect {maxFiles size : Int} {entropies : Bool} (here : s.Within l)
    (known : s.Working d) :
    Keeps s.terms (fun _ => s.Working) (inspect l maxFiles size entropies) d := by
  have lasts := s.lasts_made
  unfold inspect
  refine lasts.see_bind known (fun d _ => packageRoot_without here) fun d known => ?_
  have root := within_packageRoot here known.1
  refine lasts.see_bind known (fun d _ => filesOf_without root) fun d known => ?_
  refine lasts.bind (keeps_describe root known) fun _ d known => ?_
  refine lasts.see_bind known (fun d tidy => ?_) fun d known => lasts.returns known _
  have manifest : s.Within (Archive.packageRoot _ l ++ [Archive.manifestName]) :=
    root.append (List.forall_mem_singleton.2 (by decide))
  unfold Archive.hasManifest
  rw [manifest.skirts.entryAt?_without tidy]

/-! ## Download -/

/-- Where the archive is stored. -/
def store (s : Site) : Location := s.work ++ [archiveName]

/-- Where it is unpacked. -/
def target (s : Site) : Location := s.work ++ [extractName]

theorem within_store (s : Site) : s.Within s.store := within_child (by decide)

theorem within_target (s : Site) : s.Within s.target := within_child (by decide)

theorem target_ne_store : s.target ≠ s.store := by
  intro same
  exact absurd (List.append_cancel_left same) (by decide)

theorem goes_store (s : Site) : s.Goes (s.names ++ [archiveName]) ∧
    s.clear.Arrives s.Near [] (s.names ++ [archiveName]) s.store :=
  s.goes_names.snoc s.arrives_work (by decide) s.within_store.within

theorem goes_target (s : Site) : s.Goes (s.names ++ [extractName]) ∧
    s.clear.Arrives s.Near [] (s.names ++ [extractName]) s.target :=
  s.goes_names.snoc s.arrives_work (by decide) s.within_target.within

/-- The archive is in its file. -/
def Stored (s : Site) (content : ByteArray) (d : Disk) : Prop :=
  s.Working d ∧ d.at? s.store = some (.file content)

theorem lasts_stored (s : Site) (content : ByteArray) :
    s.Lasts (· ≠ s.store) (s.Stored content) where
  tidy known := known.1.1
  stable known others := by
    refine ⟨s.lasts_made.stable known.1 others, ?_⟩
    rw [Spares.at?_eq others (inside_iff.2 s.within_store.within)]
    exact known.2
  put known other near ne plain noLink becomes := by
    refine ⟨s.lasts_made.put known.1 trivial near ne plain noLink becomes, ?_⟩
    rw [at?_put ne, if_neg (Ne.symm other)]
    exact known.2

/-- What is written to the file of the archive is there afterwards. -/
theorem keeps_store (known : s.Working d) :
    Keeps s.terms (s.Ends fun _ => s.Stored content) (write (s.names ++ [archiveName]) content)
      d := by
  have ⟨goes, arrives⟩ := s.goes_store
  refine keeps_change (fun d' others => ?_) (fun d' others => ?_) fun d' others d'' later => ?_
  · exact guarantees_write goes (fun l leads => leads.unique arrives ▸ s.within_store.within)
      (s.lasts_made.stable known others).1
  · exact goes.skirts.write_without (s.lasts_made.stable known others).1
  · replace known := s.lasts_made.stable known others
    rcases write_inv d' (s.names ++ [archiveName]) with ⟨e, fails⟩ | ⟨l, room, leads, writes⟩
    · rw [fails] at later ⊢
      exact ends_error e (s.lasts_made.stable known later)
    · obtain ⟨written, becomes, -⟩ := writes content
      obtain rfl := (goes.skirts.arrives known.1 leads).unique arrives
      rw [written] at later ⊢
      have stored : s.Stored content (d'.put s.store (.file content)) := by
        refine ⟨s.lasts_made.put known trivial ?_ room.ne_nil s.within_store.plain nofun becomes,
          at?_put_self room.ne_nil⟩
        exact s.apart _ s.within_store.within
      replace stored := (s.lasts_stored content).stable stored later
      exact ends_ok stored.1 stored

/-- What is received as a whole is in its file. -/
theorem keeps_receive {limit : Int} {held : ByteArray} {chunks : List ByteArray}
    (known : s.Working d) :
    Keeps s.terms (s.Ends fun a d => a.1 = true →
        Archive.receive limit held chunks = (true, a.2) ∧ s.Stored a.2 d)
      (receive limit (s.names ++ [archiveName]) held chunks) d := by
  induction chunks generalizing held d with
  | nil =>
    refine bind_of_ends (keeps_store known) (fun _ d _ stored => ?_) fun _ _ => ends_error _
    refine keeps_ended fun d' others => ?_
    replace stored := (s.lasts_stored held).stable stored others
    exact ends_ok stored.1 fun _ => ⟨rfl, stored⟩
  | cons chunk rest ih =>
    refine bind_of_ends (keeps_store known) (fun _ d known _ => ?_) fun _ _ => ends_error _
    rw [Archive.receive]
    split_ifs
    · exact keeps_ended fun _ others => ends_ok (s.lasts_made.stable known others) (by simp)
    · exact ih known

theorem keeps_changing {α : Type} {Q : Except SystemFault α → Disk → Prop}
    {R : Except Failure α → Disk → Prop} {w : Work SystemFault α}
    (keeps : Keeps s.terms Q w d)
    (stable : ∀ {outcome d d'}, R outcome d → s.terms.rely d d' → R outcome d')
    (never : ∀ e, R (.error e) d)
    (ends : ∀ outcome d, Q outcome d → R (outcome.mapError fun e => .fault (.system e path)) d) :
    Keeps s.terms R (changing path w) d := by
  unfold changing
  split_ifs
  · exact keeps_ended fun _ others => stable (never _) others
  · exact keeps.mapError fun outcome d known _ others => stable (ends outcome d known) others

/-- The same with the failures that a retrieval has for those of the disk. -/
theorem keeps_receiving {limit : Int} {chunks : List ByteArray} (known : s.Working d) :
    Keeps s.terms (s.Ends fun a d => a.1 = true →
        Archive.receive limit .empty chunks = (true, a.2) ∧ s.Stored a.2 d)
      (changing (Location.text (s.names ++ [archiveName]))
        (receive limit (s.names ++ [archiveName]) .empty chunks)) d := by
  refine keeps_changing (keeps_receive known) ?_ (fun e => ends_error e known) ?_
  · intro outcome d d' ⟨known, stored⟩ others
    refine ⟨s.lasts_made.stable known others, fun a same whole => ?_⟩
    exact (stored a same whole).imp_right fun stored => (s.lasts_stored a.2).stable stored others
  · rintro (e | a) d ⟨known, stored⟩
    · exact ends_error _ known
    · exact ends_ok known (stored a rfl)

/-- A download that succeeds has the archive in its file. -/
theorem keeps_download {url : String} (known : s.Working d) :
    Keeps s.terms (s.Ends fun _ d => ∃ content, Delivers settings reply content ∧
        s.Stored content d)
      (download settings url reply (s.names ++ [archiveName])) d := by
  unfold download
  split
  · exact keeps_failed _ known
  split_ifs
  · exact keeps_failed _ known
  · exact keeps_failed _ known
  rcases reply with e | reply
  · exact keeps_failed e known
  rw [ended_ok_bind]
  cases reply with
  | response status location chunks =>
    dsimp only
    split_ifs with unsuccessful
    · exact keeps_failed _ known
    have success : isSuccess status = true := by simpa using unsuccessful
    refine bind_of_ends (keeps_receiving known) (fun a d known stored => ?_) fun _ _ =>
      ends_error _
    obtain ⟨complete, held⟩ := a
    cases complete with
    | false => exact keeps_failed _ known
    | true =>
      obtain ⟨received, stored⟩ := stored rfl
      refine keeps_ended fun d' others => ?_
      replace stored := (s.lasts_stored held).stable stored others
      exact ends_ok stored.1 ⟨held, ⟨status, location, chunks, rfl, success, received⟩, stored⟩
  | timeout detail => exact keeps_failed _ known
  | silence => exact keeps_failed _ known
  | broken detail => exact keeps_failed _ known

/-! ## Retrieval -/

/-- No name on the way to where an archive is unpacked leads to the archive itself. -/
theorem ne_store_of_arrives (initial : front <+: s.names ++ [extractName])
    (arrives : s.clear.Arrives s.Near [] front l) : l ≠ s.store := by
  rcases List.prefix_concat_iff.1 initial with rfl | shorter
  · rw [arrives.unique s.goes_target.2]
    exact target_ne_store
  rcases List.prefix_concat_iff.1 shorter with rfl | shorter
  · rw [arrives.unique s.arrives_work]
    exact fun same => absurd (congrArg List.length same) (by simp [store])
  · obtain ⟨m, first⟩ := s.way.initial shorter
    rw [arrives.unique first]
    rintro rfl
    exact (first.ends s.isRooted_way s.isRooted_way.root).1 s.within_store.within

/-- A look that can find one thing only. -/
theorem Lasts.look_bind {ε α β : Type} {K : Location → Prop} {I J : Disk → Prop}
    {see : Disk → Except ε α} {f : α → Work ε β} (lasts : s.Lasts K I) (a : α) (known : I d)
    (blind : ∀ d, s.Tidy d → see (d.without s.far) = see d)
    (finds : ∀ d b, I d → see d = .ok b → b = a) (weaker : ∀ d, I d → J d)
    (later : ∀ d, I d → Keeps s.terms (fun _ => J) (f a) d) :
    Keeps s.terms (fun _ => J) (Work.look see >>= f) d := by
  have looks : Keeps s.terms (fun outcome d => I d ∧ ∀ b, outcome = .ok b → b = a)
      (Work.look see) d := by
    refine keeps_look (fun d' others => ?_) fun d' others d'' others' => ?_
    · exact blind d' (lasts.tidy (lasts.stable known others))
    · replace known := lasts.stable known others
      exact ⟨lasts.stable known others', fun b => finds d' b known⟩
  refine looks.bind (fun b d ⟨known, same⟩ => ?_) fun _ _ ⟨known, _⟩ d' others => ?_
  · rw [same b rfl]
    exact later d known
  · exact weaker d' (lasts.stable known others)

theorem noDot_target (noDot : "." ∉ s.temp) : "." ∉ s.names ++ [extractName] := by
  simp [names, noDot, s.plain.1.symm, extractName]

/-- An archive is unpacked at its place. -/
theorem Working.resolve_target (known : s.Working d) (noDot : "." ∉ s.temp)
    (resolved : d.resolve (s.names ++ [extractName]) = .ok l) : l = s.target :=
  (known.1.arrives_iff.2 s.goes_target.2).eq_of_resolve (noDot_target noDot) resolved

/-- What is read from the file of the archive is what was stored there. -/
theorem Stored.read_store (known : s.Stored content d) {held : ByteArray}
    (readable : d.read (s.names ++ [archiveName]) = .ok held) : held = content := by
  obtain ⟨l, entered, found⟩ := bind_eq_ok.1 readable
  obtain rfl := (arrives_of_enter entered).unique (known.1.1.arrives_iff.2 s.goes_store.2)
  rw [known.2] at found
  cases found
  rfl

/-- What is unpacked is what was stored, and if the names of its members go where the work may go,
the work keeps to its terms. -/
theorem keeps_unpack {entropies : Bool} {size : Nat} (noDot : "." ∉ s.temp)
    (goes : ∀ ms, Archive.members content = .ok ms →
      ∀ m ∈ ms, s.Goes (namesOf s.target m.name)) (known : s.Stored content d) :
    Keeps s.terms (fun _ => s.Working) (unpack settings (s.names ++ [archiveName])
      (s.names ++ [extractName]) size entropies) d := by
  have lasts := s.lasts_stored content
  have goesTarget := s.goes_target.1
  have goesStore := s.goes_store.1
  have ensures : Keeps s.terms (fun _ => s.Stored content) (changing (Location.text
      (s.names ++ [extractName])) (ensurePath (s.names ++ [extractName]).reverse)) d :=
    keeps_changing (lasts.ensurePath goesTarget (fun _ _ => ne_store_of_arrives) known) lasts.stable
      (fun _ => known) fun _ _ known => known
  refine ensures.bind (fun _ d known => ?_) fun _ _ known _ others => (lasts.stable known others).1
  refine lasts.look_bind s.target known (fun d tidy => ?_)
    (fun d l known found => known.1.resolve_target noDot (mapError_eq_ok.1 found))
    (fun _ known => known.1) fun d known => ?_
  · rw [goesTarget.skirts.resolve_without tidy (noDot_target noDot)]
  refine lasts.look_bind content known (fun d tidy => ?_)
    (fun d held known found => known.read_store (mapError_eq_ok.1 found))
    (fun _ known => known.1) fun d known => ?_
  · rw [goesStore.skirts.read_without tidy]
  refine s.lasts_made.bind (keeps_extractArchive s.within_target goes known.1) fun _ d known => ?_
  exact keeps_inspect s.within_target known

/-- Nothing is left of the directory, or it has names that lead nowhere. -/
def Left (s : Site) (d : Disk) : Prop := ∃ outcome, s.CleanedUp outcome d

theorem Gone.left (gone : s.Gone d) (tidy : s.Tidy d) : s.Left d :=
  ⟨.ok (), tidy, gone⟩

theorem Left.stable (left : s.Left d) (others : s.terms.rely d d') : s.Left d' :=
  left.imp fun _ cleaned => cleaned.stable others

/-- What is known when a work has made sure of its directory: the directory is there, or the work
is over and nothing is. -/
def Entered (s : Site) : Except Failure Unit → Disk → Prop
  | .ok () => fun d => s.Working d
  | .error _ => fun d => s.Left d

theorem keeps_visit {url : String} {entropies : Bool} (noDot : "." ∉ s.temp)
    (goes : ∀ content ms, Delivers settings reply content → Archive.members content = .ok ms →
      ∀ m ∈ ms, s.Goes (namesOf s.target m.name)) (known : s.Working d) :
    Keeps s.terms (fun _ => s.Left) (visit settings reply s.names url path entropies) d := by
  have retrieves : Keeps s.terms (fun _ => s.Working) (do
      let size ← download settings url reply (s.names ++ [archiveName])
      unpack settings (s.names ++ [archiveName]) (s.names ++ [extractName]) size entropies) d := by
    refine bind_of_ends (keeps_download known) (fun size d known stored => ?_) fun _ _ => id
    obtain ⟨content, delivers, stored⟩ := stored
    exact keeps_unpack noDot (goes content · delivers) stored
  refine retrieves.followedBy fun outcome d known => ?_
  refine (keeps_cleanUp _ (known.2.found known.1)).bind (fun _ d cleaned => ?_)
    fun e d cleaned _ others => ?_
  · exact keeps_ended fun _ others => Left.stable ⟨_, cleaned⟩ others
  · exact Left.stable ⟨_, cleaned⟩ others

/-- Work on an archive keeps to its terms if the names of the members of what is delivered go where
the work may go, and when it has ended nothing is left of its directory. -/
theorem keeps_analysis {url package : String} {entropies : Bool} (given : url ≠ "")
    (noDot : "." ∉ s.temp)
    (goes : ∀ content ms, Delivers settings reply content → Archive.members content = .ok ms →
      ∀ m ∈ ms, s.Goes (namesOf s.target m.name)) (found : s.Found d) :
    Keeps s.terms (fun _ => s.Left) (analysis settings reply s.names url package entropies) d := by
  rw [analysis_eq given]
  refine (keeps_cleanUp _ found).bind (fun _ d known => ?_) fun e d cleaned _ others => ?_
  swap
  · exact Left.stable ⟨_, cleaned⟩ others
  have ensures : Keeps s.terms s.Entered (changing (workPath settings package).text
      (ensurePath s.names.reverse)) d := by
    refine keeps_changing (keeps_ensure known) ?_ (fun _ => known.2.left known.1) ?_
    · rintro (e | _) d d' known others
      · exact Left.stable known others
      · exact s.lasts_made.stable known others
    · rintro (e | _) d known
      · exact known.2.left known.1
      · exact known
  refine ensures.bind (fun _ d known => ?_) fun _ _ known _ others => Left.stable known others
  exact keeps_visit noDot goes known

end PackageRisk.Work.Site
