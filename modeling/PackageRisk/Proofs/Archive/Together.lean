import PackageRisk.Proofs.Archive.Apart

/-!
# Many retrievals in one directory

Any number of retrievals whose directories differ, below one directory that is there
(`Hosts`): since the directories that lead there are made already, and no name of a member leads out
of the directory and back, a retrieval changes nothing outside of its own directory. So it is out of
sight of every other one, and ends as it does alone (`Retrieves.keeps`), whatever the others do in
between.
-/

namespace PackageRisk.Archive

open Disk Location Work

variable {d d' : Disk} {temp all : List String} {place l : Location} {name other : String}
  {settings : ArchiveSettings} {reply reply' : Except Failure Reply}

/-- Whether names that are followed from `depth` places below another one never lead above it. -/
def staysBelow : (depth : Nat) → List String → Bool
  | _, [] => true
  | 0, name :: rest => name != ".." && staysBelow 1 rest
  | depth + 1, name :: rest => staysBelow (if name = ".." then depth else depth + 2) rest

theorem staysBelow_of_initial {depth : Nat} {front names : List String} (initial : front <+: names)
    (stays : staysBelow depth names = true) : staysBelow depth front = true := by
  obtain ⟨back, rfl⟩ := initial
  induction front generalizing depth with
  | nil => cases depth <;> rfl
  | cons name rest ih =>
    cases depth with
    | zero =>
      rw [List.cons_append, staysBelow, Bool.and_eq_true] at stays
      rw [staysBelow, stays.1, ih stays.2]
      rfl
    | succ depth => exact ih stays

/-- No name of a member of what is delivered leads out of the directory of the work, where it is
followed from the directory below it. -/
def StaysDown (settings : ArchiveSettings) (reply : Except Failure Reply) : Prop :=
  ∀ content ms, Delivers settings reply content → members content = .ok ms →
    ∀ m ∈ ms, staysBelow 1 (Path.components m.name) = true

/-- What is fetched is what the network answers to some request. -/
theorem staysDown_fetched {net : Network} (staysDown : ∀ url, StaysDown settings (.ok (net url)))
    (url : String) : StaysDown settings (fetched net url) := by
  rintro content ms ⟨status, location, chunks, answered, success, received⟩ read
  obtain ⟨asked, answers⟩ := Session.fetch_relays true url default status location chunks answered
  exact staysDown asked content ms ⟨status, location, chunks, congrArg _ answers, success, received⟩
    read

/-- The directories in a place of works with other names. -/
def elsewhere (place : Location) (all : List String) (name : String) : Location → Bool :=
  fun l => all.any fun other => other != name && l.isWithin (place ++ [other])

theorem elsewhere_iff :
    elsewhere place all name l = true ↔ ∃ other ∈ all, other ≠ name ∧ place ++ [other] <+: l := by
  simp [elsewhere, isWithin_iff]

theorem elsewhere_eq_false_iff :
    elsewhere place all name l = false ↔
      ∀ other ∈ all, other ≠ name → Outside (place ++ [other]) l := by
  rw [← Bool.not_eq_true, elsewhere_iff]
  simp [Outside]

/-- A way that stays outside of each of several places stays outside of all. -/
theorem arrives_outside_all (way : d.Arrives Anywhere [] temp place)
    (ready : ∀ name ∈ all, d.Arrives (Outside (place ++ [name])) [] temp place) :
    d.Arrives (fun l => ∀ name ∈ all, Outside (place ++ [name]) l) [] temp place := by
  induction all with
  | nil => exact way.mono fun _ _ => List.forall_mem_nil _
  | cons name rest ih =>
    rw [List.forall_mem_cons] at ready
    refine (ready.1.meet (ih ready.2)).2.mono fun l both => ?_
    exact List.forall_mem_cons.2 both

theorem way_of_ready (ready : ∀ name ∈ all, IsReady d temp place name) (among : name ∈ all) :
    d.Arrives (fun l => ∀ name ∈ all, Outside (place ++ [name]) l) [] temp place :=
  arrives_outside_all (ready name among).way.anywhere fun other mem => (ready other mem).way

theorem way_among (ready : ∀ name ∈ all, IsReady d temp place name) (among : name ∈ all) :
    d.Arrives (fun l => Outside (place ++ [name]) l ∧ elsewhere place all name l = false) [] temp
      place :=
  (way_of_ready ready among).mono fun _ outside =>
    ⟨outside name among, elsewhere_eq_false_iff.2 fun other mem _ => outside other mem⟩

/-- The site of one of many retrievals. -/
def siteAmong (settings : ArchiveSettings) (reply : Except Failure Reply) (plain : IsPlain name)
    (ready : ∀ name ∈ all, IsReady d temp place name) (among : name ∈ all) : Site :=
  siteAt d settings reply (elsewhere place all name) plain
    (fun _ _ initial within => by
      obtain ⟨other, mem, ne, within⟩ := elsewhere_iff.1 within
      exact elsewhere_iff.2 ⟨other, mem, ne, within.trans initial⟩)
    (fun _ within => elsewhere_eq_false_iff.2 fun _ _ ne => outside_of_ne ne.symm within)
    (way_among ready among)

/-! ## Ways to the directories -/

/-- Where the way to a directory leads, and the places above it. -/
def OnWay (d : Disk) (temp : List String) (place : Location) (l : Location) : Prop :=
  LeadsPast d temp l ∨ l <+: place

theorem outside_of_above (above : l <+: place) : Outside (place ++ [name]) l := by
  intro within
  have shorter := (within.trans above).length_le
  rw [List.length_append, List.length_singleton] at shorter
  omega

theorem OnWay.outside (ready : ∀ name ∈ all, IsReady d temp place name) (among : name ∈ all)
    (onWay : OnWay d temp place l) : Outside (place ++ [name]) l := by
  rcases onWay with ⟨front, initial, arrives⟩ | above
  · obtain ⟨m, first⟩ := (ready name among).way.initial initial
    obtain rfl := arrives.unique first
    have rooted := isRooted_outside (w := place ++ [name]) (by simp)
    exact first.ends rooted rooted.root
  · exact outside_of_above above

/-- Such names lead to places in the directory of a work. -/
theorem exists_arrives_of_staysBelow (s : Site) {depth : Nat} (here : s.Within l)
    (deep : l.length = s.work.length + depth) {pieces : List String} (noDot : "." ∉ pieces)
    (stays : staysBelow depth pieces = true) :
    ∃ m, s.clear.Arrives s.Near l pieces m ∧ s.work <+: m := by
  induction pieces generalizing l depth with
  | nil => exact ⟨l, .here, here.within⟩
  | cons name rest ih =>
    rw [List.mem_cons, not_or] at noDot
    by_cases up : name = ".."
    · subst up
      cases depth with
      | zero => simp [staysBelow] at stays
      | succ depth =>
        have above : s.work <+: l.dropLast :=
          List.prefix_of_prefix_length_le here.within (List.dropLast_prefix l) (by simp; omega)
        have plain : ∀ name ∈ l.dropLast, IsPlain name := fun name mem =>
          here.plain name (List.mem_of_mem_dropLast mem)
        obtain ⟨m, arrives, within⟩ := ih ⟨above, plain⟩ (by simp; omega) noDot.2 stays
        exact ⟨m, .up rfl arrives, within⟩
    · have plain : IsPlain name := ⟨fun dot => noDot.1 dot.symm, up⟩
      have below := here.append (List.forall_mem_singleton.2 plain)
      have stays' : staysBelow (depth + 1) rest = true := by
        cases depth with
        | zero => exact (Bool.and_eq_true_iff.1 stays).2
        | succ depth => rwa [staysBelow, if_neg up] at stays
      obtain ⟨m, arrives, within⟩ := ih below (by simp; omega) noDot.2 stays'
      exact ⟨m, .down plain (s.apart _ below.within) (s.bare _ below.within) arrives, within⟩

theorem exists_arrives_target (s : Site) {pieces : List String} (noDot : "." ∉ pieces)
    (stays : staysBelow 1 pieces = true) :
    ∃ m, s.clear.Arrives s.Near [] (s.target ++ pieces) m ∧ s.work <+: m := by
  obtain ⟨m, arrives, within⟩ := exists_arrives_of_staysBelow s s.within_target
    (by simp [Site.target]) noDot stays
  exact ⟨m, arrives_append_iff.2 ⟨_, s.within_target.arrives, arrives⟩, within⟩

/-- Members with such names have ways. -/
theorem exists_arrives_member (s : Site) {member : String}
    (stays : staysBelow 1 (Path.components member) = true) :
    ∃ l, s.clear.Arrives s.Near [] (namesOf s.target member) l := by
  obtain ⟨l, arrives, -⟩ := exists_arrives_target s (Path.dot_notMem_components member) stays
  refine ⟨l, arrives_filter_dot_iff.1 ?_⟩
  rwa [namesOf_filter_dot s.within_target.plain]

/-- On the ways of such members there are only places above or in the directory. -/
theorem above_or_within_of_leadsPast (s : Site) {member : String}
    (stays : staysBelow 1 (Path.components member) = true)
    (leads : LeadsPast s.clear (namesOf s.target member) l) : l <+: s.target ∨ s.work <+: l := by
  obtain ⟨front, initial, arrives⟩ := leads
  have shorter : front.filter (· != ".") <+: s.target ++ Path.components member := by
    rw [← namesOf_filter_dot s.within_target.plain]
    exact initial.filter _
  have direct := arrives_filter_dot_iff.2 arrives
  rcases List.prefix_or_prefix_of_prefix shorter (List.prefix_append _ _) with above | ⟨rest, past⟩
  · rw [direct.unique (s.within_target.settled.mono above).arrives]
    exact .inl above
  · rw [← past] at shorter direct
    have initial := (List.prefix_append_right_inj _).1 shorter
    obtain ⟨m, arrives, within⟩ := exists_arrives_target s
      (fun dot => Path.dot_notMem_components member (initial.subset dot))
      (staysBelow_of_initial initial stays)
    rw [direct.unique arrives]
    exact .inr within

theorem leadsPast_of_prune {work : Location} (way : d.Arrives (Outside work) [] temp place)
    (leads : LeadsPast (d.prune work) temp l) : LeadsPast d temp l := by
  obtain ⟨front, initial, arrives⟩ := leads
  obtain ⟨m, first⟩ := way.initial initial
  have same : (d.prune work).Arrives (Outside work) [] front m :=
    first.congr (fun _ => id) fun k outside target => by rw [at?_prune_of_outside outside]
  rw [arrives.unique same]
  exact ⟨front, initial, first.anywhere⟩

/-- What one of many retrievals does to a disk: it changes its own directory, or makes a directory
on the way there. -/
theorem does_cases {ready : ∀ name ∈ all, IsReady d temp place name} {plain : IsPlain name}
    {among : name ∈ all} (staysDown : StaysDown settings reply) {d' d'' : Disk}
    (does : (siteAmong settings reply plain ready among).Does d' d'') :
    (∃ l e, place ++ [name] <+: l ∧ d'.HasRoom l ∧ d'' = d'.put l e) ∨
      d'' = d'.prune (place ++ [name]) ∨
      ∃ l, OnWay d temp place l ∧ d'.HasRoom l ∧ d'.at? l = none ∧ d'' = d'.put l .directory := by
  cases does with
  | put e room within => exact .inl ⟨_, e, within, room, rfl⟩
  | prune => exact .inr (.inl rfl)
  | @make l room near gone made =>
    rcases made with leads | ⟨content, ms, delivers, read, m, mem, leads⟩
    · have onWay : OnWay d temp place l := .inl (leadsPast_of_prune (ready name among).way leads)
      exact .inr (.inr ⟨_, onWay, room, gone, rfl⟩)
    · let s := siteAmong settings reply plain ready among
      rcases above_or_within_of_leadsPast s (staysDown content ms delivers read m mem) leads with
        above | within
      · rcases List.prefix_concat_iff.1 above with same | above
        · exact .inl ⟨_, _, same ▸ List.prefix_append _ _, room, rfl⟩
        rcases List.prefix_concat_iff.1 above with same | above
        · exact .inl ⟨_, _, same ▸ List.prefix_rfl, room, rfl⟩
        · exact .inr (.inr ⟨_, .inr above, room, gone, rfl⟩)
      · exact .inl ⟨_, _, within, room, rfl⟩

/-! ## Out of sight of each other -/

/-- A step of one retrieval does what others rely on. -/
theorem rely_of_does {ready : ∀ name ∈ all, IsReady d temp place name} {plain : IsPlain name}
    {plain' : IsPlain other} {among : name ∈ all} {among' : other ∈ all} (ne : name ≠ other)
    {d' d'' : Disk} (does : (siteAmong settings reply plain ready among).Does d' d'') :
    (siteAmong settings reply' plain' ready among').terms.rely d' d'' := by
  have hidden (l : Location) (within : place ++ [name] <+: l) :
      elsewhere place all other l = true := elsewhere_iff.2 ⟨name, among, ne, within⟩
  have apart (l : Location) (within : place ++ [name] <+: l) :
      inside (place ++ [other]) l = false := inside_eq_false_iff.2 (outside_of_ne ne within)
  cases does with
  | put e room within => exact Spares.put_free room.ne_nil (apart _ within) (hidden _ within)
  | prune => exact Spares.prune apart hidden
  | @make l room near gone made =>
    have outside : inside (place ++ [other]) l = false :=
      inside_eq_false_iff.2 (elsewhere_eq_false_iff.1 near other among' ne.symm)
    exact Spares.put_directory room.ne_nil outside gone trivial

/-- All of the way to a directory is there. -/
def Reachable (d : Disk) (temp : List String) (place : Location) (d' : Disk) : Prop :=
  ∀ l, OnWay d temp place l → d'.at? l = some .directory

/-- When all of the way is there, a retrieval changes nothing outside of its own directory. -/
theorem reachable_of_does {ready : ∀ name ∈ all, IsReady d temp place name}
    {plain : IsPlain name} {among : name ∈ all} (staysDown : StaysDown settings reply)
    {d' d'' : Disk} (does : (siteAmong settings reply plain ready among).Does d' d'')
    (there : Reachable d temp place d') :
    Reachable d temp place d'' ∧ ∀ far : Location → Bool,
      (∀ l, place ++ [name] <+: l → far l = true) → d''.without far = d'.without far := by
  rcases does_cases staysDown does with ⟨l, e, within, room, rfl⟩ | rfl | ⟨l, onWay, -, gone, -⟩
  · refine ⟨fun k onWay => ?_, fun far hidden => without_put (hidden l within)⟩
    have outside := onWay.outside ready among
    rw [at?_put room.ne_nil, if_neg (by rintro rfl; exact outside within)]
    exact there k onWay
  · refine ⟨fun k onWay => ?_, fun far hidden => without_prune hidden⟩
    rw [at?_prune_of_outside (onWay.outside ready among)]
    exact there k onWay
  · rw [there l onWay] at gone
    cases gone

theorem reachable_of_guarantee {ready : ∀ name ∈ all, IsReady d temp place name}
    {plain : IsPlain name} {among : name ∈ all} (staysDown : StaysDown settings reply)
    {d' d'' : Disk} (there : Reachable d temp place d')
    (guarantee : (siteAmong settings reply plain ready among).terms.guarantee d' d'') :
    Reachable d temp place d'' := by
  have steps : Relation.ReflTransGen (siteAmong settings reply plain ready among).Does d' d'' :=
    guarantee
  clear guarantee
  induction steps with
  | refl => exact there
  | tail _ does ih => exact (reachable_of_does staysDown does ih).1

/-- The terms of a retrieval that others are out of sight of, when all of the way is there, on disks
of a kind. -/
def termsAmong (settings : ArchiveSettings) (reply : Except Failure Reply) (plain : IsPlain name)
    (ready : ∀ name ∈ all, IsReady d temp place name) (among : name ∈ all) (I : Disk → Prop) :
    Terms :=
  (siteAmong settings reply plain ready among).terms.unseen I (Reachable d temp place)

/-- A retrieval that keeps disks of a kind guarantees each other one what it relies on. -/
theorem suits {ready : ∀ name ∈ all, IsReady d temp place name} {plain : IsPlain name}
    {plain' : IsPlain other} {among : name ∈ all} {among' : other ∈ all} (ne : name ≠ other)
    (staysDown : StaysDown settings reply) {I : Disk → Prop}
    (lasts : ∀ {d' d''}, I d' → (siteAmong settings reply plain ready among).Does d' d'' → I d'')
    {d' d'' : Disk} (guarantee : (termsAmong settings reply plain ready among I).guarantee d' d'') :
    (termsAmong settings reply' plain' ready among' I).rely d' d'' := by
  have steps : Relation.ReflTransGen (siteAmong settings reply plain ready among).Does d' d'' :=
    guarantee
  clear guarantee
  induction steps with
  | refl => exact Terms.rely_refl _ d'
  | tail _ does ih =>
    refine Terms.rely_trans _ ih fun known =>
      ⟨rely_of_does ne does, lasts known does, fun there => ?_⟩
    obtain ⟨there', same⟩ := reachable_of_does staysDown does there
    exact ⟨there', same _ fun l within => elsewhere_iff.2 ⟨name, among, ne, within⟩⟩

/-! ## Beside others -/

/-- Work on a disk that retrieves the archive of a package from a URL, if it touches the disk at
all. -/
inductive Retrieves {α : Type} (settings : ArchiveSettings) (net : Network) (home : Location)
    (package url : String) : Work Failure α → Prop
  | ended (outcome : Except Failure α) : Retrieves settings net home package url (.ended outcome)
  | retrieval (entropies : Bool) (conclude : Except Failure ArchiveSummary → Except Failure α) :
    Retrieves settings net home package url
      ((Work.retrieval settings net home url package entropies).followedBy fun outcome =>
        .ended (conclude outcome))

/-- The names of members go where a retrieval may go. -/
theorem goes_among (plain : IsPlain name) (ready : ∀ name ∈ all, IsReady d temp place name)
    (among : name ∈ all) (staysDown : StaysDown settings reply) (content : ByteArray)
    (ms : List Tar.Member) (delivers : Delivers settings reply content)
    (read : members content = .ok ms) (m : Tar.Member) (mem : m ∈ ms) :
    let s := siteAmong settings reply plain ready among
    s.Goes (namesOf s.target m.name) where
  skirts := .inr (exists_arrives_member _ (staysDown content ms delivers read m mem))
  leads front _ initial arrives :=
    .inr (.inr ⟨content, ms, delivers, read, m, mem, front, initial, arrives⟩)

/-- Names lead to a directory in which others can be worked in. -/
structure Hosts (d : Disk) (temp : List String) (place : Location) (all : List String) : Prop where
  entered : d.enter temp = .ok place
  directory : d.at? place = some .directory
  ready : ∀ name ∈ all, IsReady d temp place name

theorem Hosts.reachable (hosts : Hosts d temp place all) : Reachable d temp place d := by
  rintro l (⟨front, ⟨back, rfl⟩, arrives⟩ | above)
  · obtain ⟨m, first⟩ := enter_initial hosts.entered
    obtain rfl := arrives.unique (arrives_of_enter first)
    cases back with
    | nil =>
      have entered := hosts.entered
      rw [List.append_nil, first] at entered
      rw [Except.ok.inj entered]
      exact hosts.directory
    | cons => exact directory_of_enter first hosts.entered
  · by_cases same : l = place
    · rw [same]
      exact hosts.directory
    · exact housed_of_enter hosts.entered l above same

/-- Beside other retrievals, one ends as it does alone. -/
theorem Retrieves.keeps {α : Type} {net : Network} {home : Location} {package url : String}
    {work : Work Failure α} (retrieves : Retrieves settings net home package url work)
    (hosts : Hosts d (tempNames settings home) place all) (among : directoryName package ∈ all)
    (staysDown : StaysDown settings (fetched net url)) :
    Keeps (termsAmong settings (fetched net url) (isPlain_directoryName package) hosts.ready among
        fun _ => True)
      (fun outcome _ => outcome = (work.run d).1) work d := by
  cases retrieves with
  | ended outcome => exact keeps_ended fun _ _ => rfl
  | retrieval entropies conclude =>
    have ready := hosts.ready _ among
    let s := siteAmong settings (fetched net url) (isPlain_directoryName package) hosts.ready among
    have alone : Keeps s.terms (fun _ _ => True)
        (Work.retrieval settings net home url package entropies) d := by
      by_cases given : url = ""
      · subst given
        exact keeps_ended fun _ _ => trivial
      · refine Keeps.mono (ready.keeps given fun content ms delivers read m mem => ?_)
          fun _ _ _ => trivial
        exact (goes_among _ hosts.ready among staysDown content ms delivers read m mem).skirts
    have whole : Keeps s.terms (fun _ _ => True)
        ((Work.retrieval settings net home url package entropies).followedBy fun outcome =>
          .ended (conclude outcome)) d :=
      alone.followedBy fun _ _ _ => keeps_ended fun _ _ => trivial
    refine whole.unseen trivial hosts.reachable (fun _ there guarantee => ⟨trivial, ?_⟩) whole rfl
    exact reachable_of_guarantee staysDown there guarantee

end PackageRisk.Archive
