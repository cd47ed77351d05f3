import PackageRisk.Proofs.Work.Site

/-!
# The directory of a work comes and goes

A work makes sure of its directory and removes it, while others have their turn elsewhere. If at
first the directory is a real one or nothing is there (`Site.Found`), then after it was cleaned up
nothing is left of it, unless its name is too long for anything to be there (`keeps_cleanUp`).
After it was made sure of it is there, or nothing is (`keeps_ensure`).
-/

namespace PackageRisk.Work.Site

open Disk Location

variable {s : Site} {d d' : Disk} {l : Location} {e : Entry} {front names : List String}
  {name : String}

/-! ## Ways to the directory -/

theorem arrives_temp (s : Site) : s.clear.Arrives s.Near [] s.temp s.place :=
  s.way.mono fun _ both => both.2

theorem arrives_work (s : Site) : s.clear.Arrives s.Near [] s.names s.work :=
  s.arrives_temp.snoc s.plain (s.apart _ List.prefix_rfl) (s.bare _ List.prefix_rfl)

theorem goes_temp (s : Site) : s.Goes s.temp where
  skirts := .inr ⟨_, s.arrives_temp⟩
  leads front l initial arrives := .inr (s.reach front l initial arrives)

/-- One more name below the directory. -/
theorem Goes.snoc (goes : s.Goes names) (arrives : s.clear.Arrives s.Near [] names l)
    (plain : IsPlain name) (within : s.work <+: l ++ [name]) :
    s.Goes (names ++ [name]) ∧ s.clear.Arrives s.Near [] (names ++ [name]) (l ++ [name]) := by
  have later := arrives.snoc plain (s.apart _ within) (s.bare _ within)
  refine ⟨⟨.inr ⟨_, later⟩, fun front k initial reached => ?_⟩, later⟩
  rcases List.prefix_concat_iff.1 initial with rfl | shorter
  · rw [reached.unique later]
    exact .inl within
  · exact goes.leads front k shorter reached

theorem goes_names (s : Site) : s.Goes s.names :=
  (s.goes_temp.snoc s.arrives_temp s.plain List.prefix_rfl).1

/-! ## With and without the directory -/

/-- Nothing is left of the directory. -/
def Gone (s : Site) (d : Disk) : Prop := ∀ l, s.work <+: l → d.at? l = none

/-- The directory is there, and its names lead to it. -/
structure Made (s : Site) (d : Disk) : Prop where
  entered : d.enter s.names = .ok s.work
  directory : d.at? s.work = some .directory

theorem Gone.stable (gone : s.Gone d) (others : s.terms.rely d d') : s.Gone d' := by
  intro l within
  rw [Spares.at?_eq others (inside_iff.2 within)]
  exact gone l within

theorem Made.of_growsOn (made : s.Made d) (tidy : s.Tidy d) (grows : GrowsOn s.Near d d') :
    s.Made d' where
  entered := enter_of_growsOn grows s.isRooted_near (tidy.arrives_iff.2 s.arrives_work) made.entered
  directory := grows.directory (s.apart _ List.prefix_rfl) made.directory

theorem Tidy.put (tidy : s.Tidy d) (ne : l ≠ []) (plain : ∀ name ∈ l, IsPlain name)
    (becomes : Becomes (d.at? l) (some e)) : s.Tidy (d.put l e) where
  links k near target := ((grows_put ne becomes).link_iff).trans (tidy.links k near target)
  plain k within there := by
    rw [at?_put ne] at there
    split_ifs at there with here
    · rw [here]
      exact plain
    · exact tidy.plain k within there

/-- That nothing is there stays true as long as nothing is put there. -/
theorem lasts_gone (s : Site) : s.Lasts (Outside s.work) fun d => s.Tidy d ∧ s.Gone d where
  tidy known := known.1
  stable known others := ⟨known.1.stable others, known.2.stable others⟩
  put known outside _ ne plain _ becomes := by
    refine ⟨known.1.put ne plain becomes, fun k within => ?_⟩
    rw [at?_put ne, if_neg]
    · exact known.2 k within
    · rintro rfl
      exact outside within

theorem lasts_made (s : Site) : s.Lasts Anywhere fun d => s.Tidy d ∧ s.Made d where
  tidy known := known.1
  stable known others :=
    ⟨known.1.stable others, known.2.of_growsOn known.1 (growsOn_of_rely others)⟩
  put known _ _ ne plain _ becomes :=
    ⟨known.1.put ne plain becomes, known.2.of_growsOn known.1 (grows_put ne becomes).on⟩

/-! ## Making sure -/

/-- What making sure of the directory comes to. -/
def Ensured (s : Site) : Except SystemFault Unit → Disk → Prop
  | .ok () => fun d => s.Tidy d ∧ s.Made d
  | .error _ => fun d => s.Tidy d ∧ s.Gone d

theorem Ensured.stable {outcome : Except SystemFault Unit} (ensured : s.Ensured outcome d)
    (others : s.terms.rely d d') : s.Ensured outcome d' := by
  cases outcome with
  | ok => exact s.lasts_made.stable ensured others
  | error => exact s.lasts_gone.stable ensured others

/-- The last step of it. -/
theorem keeps_makeWork (known : s.Tidy d ∧ s.Gone d) :
    Keeps s.terms s.Ensured (makeDirectory s.names) d := by
  refine keeps_change (fun d' others => ?_) (fun d' others => ?_) fun d' others d'' later => ?_
  · exact guarantees_makeDirectory s.goes_names (s.lasts_gone.stable known others).1
  · exact s.goes_names.skirts.makeDirectory_without (s.lasts_gone.stable known others).1
  · refine Ensured.stable ?_ later
    replace known := s.lasts_gone.stable known others
    rcases makeDirectory_inv d' s.names with ⟨e, failed⟩ | ⟨l, made, room, gone, arrives, entered⟩
    · rw [failed]
      exact known
    · have clear := s.goes_names.skirts.arrives known.1 arrives
      obtain rfl := clear.unique s.arrives_work
      rw [made]
      refine ⟨known.1.put room.ne_nil (settled_plain clear) ?_, entered, at?_put_self room.ne_nil⟩
      rw [gone]
      exact .made

theorem keeps_unlessWork {outcome : Except SystemFault Unit} (ensured : s.Ensured outcome d) :
    Keeps s.terms s.Ensured (unlessDirectory s.names outcome) d := by
  cases outcome with
  | ok => exact keeps_ended fun d' others => ensured.stable others
  | error e =>
    refine keeps_look (fun d' others => ?_) fun d' others d'' later => ?_
    · show unlessThere s.names e (d'.without s.far) = unlessThere s.names e d'
      rw [unlessThere, s.goes_names.skirts.entryAt?_without (ensured.stable others).1]
      rfl
    · have ensured' : s.Ensured (.error e) d' := ensured.stable others
      obtain ⟨tidy, gone⟩ := ensured'
      have missing : d'.entryAt? s.names ≠ some .directory := by
        unfold entryAt?
        rcases entered : d'.enter s.names with e | l
        · simp
        · obtain rfl := (arrives_of_enter entered).unique (tidy.arrives_iff.2 s.arrives_work)
          simp [gone _ List.prefix_rfl]
      have fails : unlessThere s.names e d' = .error e := by
        unfold unlessThere
        split
        · exact absurd ‹_› missing
        · rfl
      rw [fails]
      have known : s.Ensured (.error e) d' := ⟨tidy, gone⟩
      exact known.stable later

/-- No name on the way to the directory leads into it. -/
theorem outside_of_initial (initial : front <+: s.temp) (arrives : s.clear.Arrives s.Near [] front l) :
    Outside s.work l := by
  obtain ⟨m, first⟩ := s.way.initial initial
  rw [arrives.unique first]
  have rooted := (isRooted_outside s.work_ne_nil).and s.isRooted_near
  exact (first.ends rooted rooted.root).1

/-- After a work made sure of its directory it is there, or nothing is if that failed. -/
theorem keeps_ensure (known : s.Tidy d ∧ s.Gone d) :
    Keeps s.terms s.Ensured (ensurePath s.names.reverse) d := by
  have again {d : Disk} (known : s.Tidy d ∧ s.Gone d) : Keeps s.terms s.Ensured
      ((makeDirectory s.names).followedBy (unlessDirectory s.names)) d :=
    (keeps_makeWork known).followedBy fun _ _ => keeps_unlessWork
  show Keeps s.terms s.Ensured (ensurePath (s.temp ++ [s.name]).reverse) d
  rw [List.reverse_concat, ensurePath, List.reverse_cons, List.reverse_reverse]
  refine (keeps_makeWork known).followedBy fun outcome d ensured => ?_
  have otherwise := keeps_unlessWork ensured
  split
  · refine Keeps.bind (s.lasts_gone.ensurePath s.goes_temp (fun _ _ => outside_of_initial) ensured)
      (fun _ _ known => again known) fun _ _ known _ others => ?_
    exact s.lasts_gone.stable known others
  · exact otherwise

/-! ## Cleaning up -/

/-- A disk as a work may find it: the links are where they were, where its directory is to be is a
real directory or nothing, and if anything is there, then in a directory that can be entered. -/
structure Found (s : Site) (d : Disk) : Prop where
  links : ∀ l, Outside s.work l → s.Near l → ∀ target,
    d.at? l = some (.link target) ↔ s.clear.at? l = some (.link target)
  real : d.at? s.work = some .directory ∨ s.Gone d
  usable : d.enter s.temp = .ok s.place ∧ d.at? s.place = some .directory ∨ s.Gone d

theorem isRooted_way (s : Site) : IsRooted fun l => Outside s.work l ∧ s.Near l :=
  (isRooted_outside s.work_ne_nil).and s.isRooted_near

theorem Found.arrives_temp (found : s.Found d) : d.Arrives s.Near [] s.temp s.place :=
  (s.way.congr (fun _ => id) fun k along => found.links k along.1 along.2).mono fun _ both => both.2

theorem Found.noLink (found : s.Found d) (target : String) :
    d.at? s.work ≠ some (.link target) := by
  rcases found.real with directory | gone
  · rw [directory]
    exact nofun
  · rw [gone _ List.prefix_rfl]
    exact nofun

theorem Found.arrives_work (found : s.Found d) : d.Arrives s.Near [] s.names s.work :=
  found.arrives_temp.snoc s.plain (s.apart _ List.prefix_rfl) found.noLink

theorem Found.stable (found : s.Found d) (others : s.terms.rely d d') : s.Found d' where
  links l outside near target :=
    ((growsOn_of_rely others).link_iff near).trans (found.links l outside near target)
  real := by
    rw [Spares.at?_eq others (inside_iff.2 List.prefix_rfl)]
    exact found.real.imp_right fun gone => gone.stable others
  usable := by
    refine found.usable.imp (fun ⟨entered, directory⟩ => ⟨?_, ?_⟩) fun gone => gone.stable others
    · exact enter_of_growsOn (growsOn_of_rely others) s.isRooted_near found.arrives_temp entered
    · exact (growsOn_of_rely others).directory
        (s.arrives_temp.ends s.isRooted_near s.isRooted_near.root) directory

theorem Found.tidy (found : s.Found d) (gone : s.Gone d) : s.Tidy d where
  links l near target := by
    by_cases within : s.work <+: l
    · exact iff_of_false (by rw [gone l within]; exact nofun) (s.bare l within target)
    · exact found.links l within near target
  plain l within there := absurd (gone l within) there

/-- A directory that was made can be found again. -/
theorem Made.found (made : s.Made d) (tidy : s.Tidy d) : s.Found d where
  links l _ := tidy.links l
  real := .inl made.directory
  usable := by
    obtain ⟨m, entered⟩ := enter_initial made.entered
    obtain rfl := (arrives_of_enter entered).unique (tidy.arrives_iff.2 s.arrives_temp)
    refine .inl ⟨entered, ?_⟩
    have noLink (target : String) : d.at? (s.place ++ [s.name]) ≠ some (.link target) := by
      rw [show d.at? (s.place ++ [s.name]) = _ from made.directory]
      exact nofun
    exact ((enter_snoc_eq_ok_iff s.plain entered noLink).1 made.entered).2.1.1

/-- A directory that can be removed. -/
structure Standing (s : Site) (d : Disk) : Prop where
  found : s.Found d
  entered : d.enter s.temp = .ok s.place
  directory : d.at? s.work = some .directory

theorem Standing.stable (standing : s.Standing d) (others : s.terms.rely d d') :
    s.Standing d' where
  found := standing.found.stable others
  entered := enter_of_growsOn (growsOn_of_rely others) s.isRooted_near
    standing.found.arrives_temp standing.entered
  directory := by
    rw [Spares.at?_eq others (inside_iff.2 List.prefix_rfl)]
    exact standing.directory

theorem removeTree_eq (entered : d.enter s.temp = .ok s.place)
    (directory : d.at? s.work = some .directory) : d.removeTree s.names = d.prune s.work := by
  unfold Disk.removeTree
  rw [names, List.getLast?_concat, List.dropLast_concat, entered]
  dsimp only
  rw [show d.at? (s.place ++ [s.name]) = _ from directory]
  rfl

/-- Removing the directory leaves the disk clear of it. -/
theorem Standing.prune (standing : s.Standing d) :
    s.Tidy (d.prune s.work) ∧ s.Gone (d.prune s.work) := by
  have gone : s.Gone (d.prune s.work) := by
    intro l within
    have ne : l ≠ [] := by
      rintro rfl
      exact s.work_ne_nil (List.prefix_nil.1 within)
    rw [at?_prune ne, if_pos within]
  refine ⟨⟨fun l near target => ?_, fun l within there => absurd (gone l within) there⟩, gone⟩
  by_cases within : s.work <+: l
  · exact iff_of_false (by rw [gone l within]; exact nofun) (s.bare l within target)
  · rw [← standing.found.links l within near target, prune_eq_without, at?_without]
    exact inside_eq_false_iff.2 within

theorem keeps_removeTree (standing : s.Standing d) :
    Keeps s.terms (fun outcome d => outcome = .ok () ∧ s.Tidy d ∧ s.Gone d)
      (change fun d => (.ok (), d.removeTree s.names) : Work Failure Unit) d := by
  have removed {d' : Disk} (standing : s.Standing d') : d'.removeTree s.names = d'.prune s.work :=
    removeTree_eq standing.entered standing.directory
  refine keeps_change (fun d' others => ?_) (fun d' others => ?_) fun d' others d'' later => ?_
  · dsimp only
    rw [removed (standing.stable others)]
    exact guarantees (.prune d')
  · have standing := standing.stable others
    have same : ∀ k, s.Near k → (d'.without s.far).at? k = d'.at? k := fun k => at?_without
    have entered := enter_congr s.isRooted_near same standing.found.arrives_temp
    have directory := same s.work (s.apart _ List.prefix_rfl)
    show (Except.ok (), (d'.without s.far).removeTree s.names) =
      (Except.ok (), (d'.removeTree s.names).without s.far)
    rw [removed standing, removeTree_eq (entered.trans standing.entered)
      (directory.trans standing.directory), prune_without]
  · have standing := standing.stable others
    dsimp only at later
    rw [removed standing] at later
    exact ⟨rfl, s.lasts_gone.stable standing.prune later⟩

/-- What a look for the directory comes to. -/
inductive Looked (s : Site) : Except SystemFault Location → Disk → Prop
  | there {d : Disk} (standing : s.Standing d) : Looked s (.ok s.work) d
  | tooLong {d : Disk} (found : s.Found d) (long : d.enter s.names = .error .nameTooLong) :
    Looked s (.error .nameTooLong) d
  | gone {d : Disk} {e : SystemFault} (other : e ≠ .nameTooLong) (tidy : s.Tidy d)
    (gone : s.Gone d) : Looked s (.error e) d

theorem Found.looked (found : s.Found d) : s.Looked (d.enter s.names) d := by
  rcases entered : d.enter s.names with e | l
  · by_cases long : e = .nameTooLong
    · subst long
      exact .tooLong found entered
    · have gone : s.Gone d := by
        rcases found.usable with ⟨temp, place⟩ | gone
        · refine found.real.resolve_left fun directory => ?_
          have there : d.at? (s.place ++ [s.name]) ≠ none := by
            rw [show d.at? (s.place ++ [s.name]) = _ from directory]
            exact nofun
          rcases enter_snoc_of_there s.plain temp place there found.noLink with ok | fails
          · rw [show d.enter (s.temp ++ [s.name]) = _ from entered] at ok
            cases ok
          · rw [show d.enter (s.temp ++ [s.name]) = _ from entered] at fails
            exact long (Except.error.inj fails)
        · exact gone
      exact .gone long (found.tidy gone) gone
  · obtain rfl := (arrives_of_enter entered).unique found.arrives_work
    obtain ⟨m, first⟩ := enter_initial entered
    obtain rfl := (arrives_of_enter first).unique found.arrives_temp
    have leads := ((enter_snoc_eq_ok_iff s.plain first found.noLink).1 entered).2.1
    refine .there ⟨found, first, found.real.resolve_right fun gone => ?_⟩
    exact (leads.2 s.plain).2 (gone _ List.prefix_rfl)

theorem Looked.stable {outcome : Except SystemFault Location} (looked : s.Looked outcome d)
    (others : s.terms.rely d d') : s.Looked outcome d' := by
  cases looked with
  | there standing => exact .there (standing.stable others)
  | tooLong found long =>
    refine .tooLong (found.stable others) ?_
    exact enter_tooLong (growsOn_of_rely others) s.isRooted_near found.arrives_work long
  | gone other tidy gone =>
    obtain ⟨tidy, gone⟩ := s.lasts_gone.stable ⟨tidy, gone⟩ others
    exact .gone other tidy gone

theorem Gone.isThere (gone : s.Gone d) (tidy : s.Tidy d) : d.isThere s.names = false := by
  unfold Disk.isThere
  rcases entered : d.enter s.names with e | l
  · rfl
  · obtain rfl := (arrives_of_enter entered).unique (tidy.arrives_iff.2 s.arrives_work)
    have found : s.Found d := ⟨fun l _ => tidy.links l, .inr gone, .inr gone⟩
    have looked := found.looked
    rw [entered] at looked
    cases looked with
    | there standing =>
      have directory := standing.directory
      rw [gone _ List.prefix_rfl] at directory
      cases directory

/-- What cleaning up comes to: nothing is left of the directory, or its names are too long to lead
anywhere. -/
def CleanedUp (s : Site) : Except Failure Unit → Disk → Prop
  | .ok () => fun d => s.Tidy d ∧ s.Gone d
  | .error _ => fun d => s.Found d ∧ d.enter s.names = .error .nameTooLong

theorem CleanedUp.isThere {outcome : Except Failure Unit} (cleaned : s.CleanedUp outcome d) :
    d.isThere s.names = false := by
  cases outcome with
  | ok => exact cleaned.2.isThere cleaned.1
  | error e =>
    unfold Disk.isThere
    rw [cleaned.2]

theorem CleanedUp.stable {outcome : Except Failure Unit} (cleaned : s.CleanedUp outcome d)
    (others : s.terms.rely d d') : s.CleanedUp outcome d' := by
  cases outcome with
  | ok => exact s.lasts_gone.stable cleaned others
  | error e =>
    exact ⟨cleaned.1.stable others, enter_tooLong (growsOn_of_rely others) s.isRooted_near
      cleaned.1.arrives_work cleaned.2⟩

/-- After a work has cleaned up nothing is left of its directory. -/
theorem keeps_cleanUp (path : String) (found : s.Found d) :
    Keeps s.terms s.CleanedUp (cleanUp path s.names) d := by
  have looks : Keeps s.terms s.Looked (look (·.enter s.names)) d := by
    refine keeps_look (fun d' others => ?_) fun d' others d'' later => ?_
    · exact enter_congr s.isRooted_near (fun k => at?_without) (found.stable others).arrives_work
    · exact (found.stable others).looked.stable later
  refine looks.followedBy fun outcome d looked => ?_
  cases looked with
  | there standing =>
    refine (keeps_removeTree standing).mono fun outcome d ends => ?_
    obtain ⟨rfl, known⟩ := ends
    exact known
  | tooLong found long =>
    have known : s.CleanedUp (.error (.fault (.system .nameTooLong path))) d := ⟨found, long⟩
    exact keeps_ended fun d' others => known.stable others
  | gone other tidy gone =>
    have known : s.CleanedUp (.ok ()) d := ⟨tidy, gone⟩
    have quiet : Keeps s.terms s.CleanedUp (pure () : Work Failure Unit) d :=
      keeps_ended fun d' others => known.stable others
    split
    · next same => cases same
    · next same => exact absurd (Except.error.inj same) other
    · exact quiet

end PackageRisk.Work.Site
