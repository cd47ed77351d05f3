import PackageRisk.Proofs.Disk.Parts
import PackageRisk.Proofs.Work.Steps

/-!
# Where a work is at home

A work that retrieves an archive has a directory of its own, its site: it writes there, it makes
the directories that lead there, and it stays away from the places that are other works'. Its
terms say just that (`Site.terms`).

The names that it follows lead to its own directory or through places where it may make
directories (`Site.Goes`), and what it finds along them is decided by its own part of the disk and
by the links in the rest, which nobody changes. So each of its steps keeps to the terms, and what
it knows of the disk (`Site.Lasts`) stays true while others have their turn.
-/

namespace PackageRisk.Work

open Disk Location

/-- A directory for one work, at a name in a directory that other names lead to; on a disk that is
clear of the directory these names stay away from it, and from the places that are others'. -/
structure Site where
  clear : Disk
  far : Location → Bool
  made : Location → Prop
  temp : List String
  place : Location
  name : String
  plain : IsPlain name
  spread : ∀ l k, l <+: k → far l = true → far k = true
  apart : ∀ l, place ++ [name] <+: l → far l = false
  bare : ∀ l, place ++ [name] <+: l → ∀ target, clear.at? l ≠ some (.link target)
  way : clear.Arrives (fun l => Outside (place ++ [name]) l ∧ far l = false) [] temp place
  reach : ∀ front l, front <+: temp → clear.Arrives Anywhere [] front l → made l

namespace Site

variable {s : Site} {d d' : Disk} {l : Location} {e : Entry}

/-- The directory of a work. -/
def work (s : Site) : Location := s.place ++ [s.name]

/-- The names that lead to it. -/
def names (s : Site) : List String := s.temp ++ [s.name]

variable {names front : List String} {content : ByteArray} {I : Disk → Prop} {K : Location → Prop}

/-- The places that are not others'. -/
def Near (s : Site) : Location → Prop := fun l => s.far l = false

theorem work_ne_nil : s.work ≠ [] := by simp [work]

theorem isRooted_near (s : Site) : IsRooted s.Near where
  root := by
    by_contra isFar
    have everywhere := s.spread [] s.work List.nil_prefix (by simpa [Near] using isFar)
    rw [s.apart s.work List.prefix_rfl] at everywhere
    cases everywhere
  up l near := by
    by_contra isFar
    have below := s.spread _ l ( List.dropLast_prefix l) (by simpa [Near] using isFar)
    exact absurd near (by simp [Near, below])

/-- What a work does to its disk: it sets entries in its directory, removes the directory, and makes
directories that are missing elsewhere. -/
inductive Does (s : Site) : Disk → Disk → Prop
  | put {d : Disk} {l : Location} (e : Entry) (room : d.HasRoom l) (within : s.work <+: l) :
    Does s d (d.put l e)
  | make {d : Disk} {l : Location} (room : d.HasRoom l) (near : s.Near l) (gone : d.at? l = none)
    (made : s.made l) : Does s d (d.put l .directory)
  | prune (d : Disk) : Does s d (d.prune s.work)

/-- Others leave the directory of a work alone, and it leaves alone what is theirs; where neither
is at home, directories are made. -/
def terms (s : Site) : Terms where
  rely := Spares (inside s.work) s.far Anywhere
  guarantee := Relation.ReflTransGen s.Does
  sight := (·.without s.far)
  rely_refl := Spares.refl
  rely_trans := Spares.trans
  guarantee_refl _ := .refl
  guarantee_trans := .trans

theorem Does.spares (does : s.Does d d') : Spares s.far (inside s.work) s.made d d' := by
  cases does with
  | put e room within => exact .put_free room.ne_nil (s.apart _ within) (inside_iff.2 within)
  | make room near gone made => exact .put_directory room.ne_nil near gone made
  | prune => exact .prune s.apart fun _ => inside_iff.2

theorem spares_of_guarantee (guarantee : s.terms.guarantee d d') :
    Spares s.far (inside s.work) s.made d d' := by
  have steps : Relation.ReflTransGen s.Does d d' := guarantee
  clear guarantee
  induction steps with
  | refl => exact .refl d
  | tail _ does ih => exact ih.trans does.spares

theorem growsOn_of_rely (others : s.terms.rely d d') : GrowsOn s.Near d d' :=
  Spares.growsOn others

/-! ## What a work finds -/

/-- A disk on which links are just where they were, and every name in the directory of the work
leads down. -/
structure Tidy (s : Site) (d : Disk) : Prop where
  links : ∀ l, s.Near l → ∀ target,
    d.at? l = some (.link target) ↔ s.clear.at? l = some (.link target)
  plain : ∀ l, s.work <+: l → d.at? l ≠ none → ∀ name ∈ l, IsPlain name

theorem Tidy.stable (tidy : s.Tidy d) (others : s.terms.rely d d') : s.Tidy d' where
  links l near target := ((growsOn_of_rely others).link_iff near).trans (tidy.links l near target)
  plain l within there := by
    refine tidy.plain l within ?_
    rwa [← Spares.at?_eq others (inside_iff.2 within)]

theorem Tidy.arrives_iff (tidy : s.Tidy d) {here : Location} :
    d.Arrives s.Near here names l ↔ s.clear.Arrives s.Near here names l :=
  ⟨fun arrives => arrives.congr (fun _ => id) fun k near target => (tidy.links k near target).symm,
    fun arrives => arrives.congr (fun _ => id) tidy.links⟩

/-- Names that stay away from the places of others, if there are any. -/
def Skirts (s : Site) (names : List String) : Prop :=
  (∀ l, s.far l = false) ∨ ∃ l, s.clear.Arrives s.Near [] names l

theorem Skirts.initial (skirts : s.Skirts names) (initial : front <+: names) : s.Skirts front := by
  rcases skirts with none | ⟨l, arrives⟩
  · exact .inl none
  · exact .inr (arrives.initial initial)

/-- What such names lead to is not others', nor is anything on their way. -/
theorem Skirts.arrives (skirts : s.Skirts names) (tidy : s.Tidy d)
    (arrives : d.Arrives Anywhere [] names l) : s.clear.Arrives s.Near [] names l := by
  rcases skirts with none | ⟨m, clear⟩
  · exact tidy.arrives_iff.1 (arrives.mono fun k _ => none k)
  · rwa [arrives.unique (tidy.arrives_iff.2 clear)]

theorem Skirts.near (skirts : s.Skirts names) (tidy : s.Tidy d)
    (arrives : d.Arrives Anywhere [] names l) : s.Near l :=
  (skirts.arrives tidy arrives).ends s.isRooted_near s.isRooted_near.root

theorem Skirts.near_snoc {name : String} (skirts : s.Skirts (front ++ [name])) (tidy : s.Tidy d)
    (arrives : d.Arrives Anywhere [] front l) (plain : IsPlain name) : s.Near (l ++ [name]) := by
  rcases skirts with none | ⟨m, clear⟩
  · exact none _
  · obtain ⟨k, first, last⟩ := arrives_append_iff.1 clear
    obtain rfl := arrives.unique (tidy.arrives_iff.2 first)
    cases last with
    | stay dot => exact absurd dot plain.1
    | up up => exact absurd up plain.2
    | down _ along => exact along
    | link _ along => exact along

/-! ## What is out of sight -/

theorem Skirts.enter_without (skirts : s.Skirts names) (tidy : s.Tidy d) :
    (d.without s.far).enter names = d.enter names := by
  rcases skirts with none | ⟨l, clear⟩
  · rw [without_of_none none]
  · exact enter_congr s.isRooted_near (fun k near => at?_without near) (tidy.arrives_iff.2 clear)

theorem Skirts.vacancy_without (skirts : s.Skirts names) (tidy : s.Tidy d) :
    (d.without s.far).vacancy names = d.vacancy names := by
  rcases List.eq_nil_or_concat names with rfl | ⟨front, name, rfl⟩
  · rfl
  rw [List.concat_eq_append] at *
  have skirtsFront := skirts.initial (List.prefix_append _ _)
  unfold vacancy
  rw [List.getLast?_concat, List.dropLast_concat, skirtsFront.enter_without tidy]
  dsimp only
  rcases entered : d.enter front with e | here
  · rfl
  have arrives := arrives_of_enter entered
  have sameHere : (d.without s.far).isDirectory here = d.isDirectory here := by
    unfold isDirectory
    rw [at?_without (skirtsFront.near tidy arrives)]
  show (if _ then _ else _) = if _ then _ else _
  rw [sameHere]
  by_cases plain : IsPlain name
  · rw [at?_without (skirts.near_snoc tidy arrives plain)]
  · have special : (name == "." || name == "..") = true := by
      simpa [IsPlain, imp_iff_not_or] using plain
    rw [if_pos special, if_pos special]

theorem Skirts.makeDirectory_without (skirts : s.Skirts names) (tidy : s.Tidy d) :
    (d.without s.far).makeDirectory names =
      ((d.makeDirectory names).1, (d.makeDirectory names).2.without s.far) := by
  unfold Disk.makeDirectory
  rw [skirts.vacancy_without tidy]
  rcases vacant : d.vacancy names with e | l
  · rfl
  · dsimp only
    rw [put_without (skirts.near tidy (arrives_of_vacancy vacant))]

theorem Skirts.write_without (skirts : s.Skirts names) (tidy : s.Tidy d) :
    (d.without s.far).write names content =
      ((d.write names content).1, (d.write names content).2.without s.far) := by
  rcases special_or_plain names with special | ⟨name, last, plain⟩
  · rw [write_of_special content special, write_of_special content special]
  rw [write_of_plain content last plain, write_of_plain content last plain,
    skirts.enter_without tidy, skirts.vacancy_without tidy]
  rcases entered : d.enter names with e | l
  · cases e
    case absent =>
      dsimp only
      rcases vacant : d.vacancy names with e | l
      · cases e <;> rfl
      · dsimp only
        rw [put_without (skirts.near tidy (arrives_of_vacancy vacant))]
    all_goals rfl
  · have near := skirts.near tidy (arrives_of_enter entered)
    dsimp only
    rw [at?_without near, put_without near]
    rcases d.at? l with _ | _ | _ | _ <;> rfl

theorem Skirts.isThere_without (skirts : s.Skirts names) (tidy : s.Tidy d) :
    (d.without s.far).isThere names = d.isThere names := by
  unfold Disk.isThere
  rw [skirts.enter_without tidy]

theorem Skirts.entryAt?_without (skirts : s.Skirts names) (tidy : s.Tidy d) :
    (d.without s.far).entryAt? names = d.entryAt? names := by
  unfold entryAt?
  rw [skirts.enter_without tidy]
  rcases entered : d.enter names with e | l
  · rfl
  · exact at?_without (skirts.near tidy (arrives_of_enter entered))

theorem Skirts.read_without (skirts : s.Skirts names) (tidy : s.Tidy d) :
    (d.without s.far).read names = d.read names := by
  unfold Disk.read
  rw [skirts.enter_without tidy]
  rcases entered : d.enter names with e | l
  · rfl
  · dsimp only [bind, Except.bind]
    rw [at?_without (skirts.near tidy (arrives_of_enter entered))]

theorem Skirts.resolve_without (skirts : s.Skirts names) (tidy : s.Tidy d) (noDot : "." ∉ names) :
    (d.without s.far).resolve names = d.resolve names := by
  rcases skirts with none | ⟨l, clear⟩
  · rw [without_of_none none]
  have arrives := tidy.arrives_iff.2 clear
  have arrives' : (d.without s.far).Arrives s.Near [] names l :=
    arrives.congr (fun _ => id) fun k near target => by rw [at?_without near]
  by_cases nul : ∃ name ∈ names, HasNul name
  · rw [resolve_of_arrives_of_nul arrives noDot nul, resolve_of_arrives_of_nul arrives' noDot nul]
  · have noNul : ∀ name ∈ names, ¬HasNul name := by simpa using nul
    rw [resolve_of_arrives arrives noDot noNul, resolve_of_arrives arrives' noDot noNul]

/-! ## Steps -/

/-- Names that lead to the directory of a work, or where it may make directories, and through no
other places. -/
structure Goes (s : Site) (names : List String) : Prop where
  skirts : s.Skirts names
  leads : ∀ front l, front <+: names → s.clear.Arrives Anywhere [] front l →
    s.work <+: l ∨ s.made l

theorem Goes.initial (goes : s.Goes names) (initial : front <+: names) : s.Goes front where
  skirts := goes.skirts.initial initial
  leads first l shorter := goes.leads first l (shorter.trans initial)

/-- Something that a work knows of its disk and that stays true when others have their turn, and
when something is put at a place of a kind. -/
structure Lasts (s : Site) (K : Location → Prop) (I : Disk → Prop) : Prop where
  tidy : ∀ {d}, I d → s.Tidy d
  stable : ∀ {d d'}, I d → s.terms.rely d d' → I d'
  put : ∀ {d l e}, I d → K l → s.Near l → l ≠ [] → (∀ name ∈ l, IsPlain name) →
    (∀ target, e ≠ .link target) → Becomes (d.at? l) (some e) → I (d.put l e)

theorem Lasts.ended {ε α : Type} (lasts : s.Lasts K I) (known : I d) (outcome : Except ε α) :
    Keeps s.terms (fun _ => I) (.ended outcome) d :=
  keeps_ended fun _ others => lasts.stable known others

theorem Lasts.returns {ε α : Type} (lasts : s.Lasts K I) (known : I d) (a : α) :
    Keeps s.terms (fun _ => I) (pure a : Work ε α) d :=
  lasts.ended known (.ok a)

theorem Lasts.bind {ε α β : Type} {w : Work ε α} {f : α → Work ε β} (lasts : s.Lasts K I)
    (keeps : Keeps s.terms (fun _ => I) w d)
    (later : ∀ a d, I d → Keeps s.terms (fun _ => I) (f a) d) :
    Keeps s.terms (fun _ => I) (w >>= f) d :=
  keeps.bind later fun _ _ known _ others => lasts.stable known others

theorem Lasts.mapError {ε δ α : Type} {w : Work ε α} {f : ε → δ} (lasts : s.Lasts K I)
    (keeps : Keeps s.terms (fun _ => I) w d) : Keeps s.terms (fun _ => I) (w.mapError f) d :=
  keeps.mapError fun _ _ known _ others => lasts.stable known others

theorem Lasts.look {ε α : Type} {see : Disk → Except ε α} (lasts : s.Lasts K I) (known : I d)
    (blind : ∀ d, s.Tidy d → see (d.without s.far) = see d) :
    Keeps s.terms (fun _ => I) (look see) d :=
  keeps_look (fun d' others => blind d' (lasts.tidy (lasts.stable known others)))
    fun _ others _ later => lasts.stable (lasts.stable known others) later

theorem Lasts.see_bind {ε α β : Type} {sight : Disk → α} {f : α → Work ε β} (lasts : s.Lasts K I)
    (known : I d) (blind : ∀ d, s.Tidy d → sight (d.without s.far) = sight d)
    (later : ∀ d, I d → Keeps s.terms (fun _ => I) (f (sight d)) d) :
    Keeps s.terms (fun _ => I) (see sight >>= f) d :=
  Keeps.see_bind (fun d' others => blind d' (lasts.tidy (lasts.stable known others)))
    fun d' others => later d' (lasts.stable known others)

theorem guarantees (does : s.Does d d') : s.terms.guarantee d d' :=
  Relation.ReflTransGen.single does

theorem settled_plain (arrives : s.clear.Arrives s.Near [] names l) :
    ∀ name ∈ l, IsPlain name :=
  (arrives.settled settled_nil).plain

theorem guarantees_makeDirectory (goes : s.Goes names) (tidy : s.Tidy d) :
    s.terms.guarantee d (d.makeDirectory names).2 := by
  rcases makeDirectory_inv d names with ⟨e, failed⟩ | ⟨l, made, room, gone, arrives, -⟩
  · rw [failed]
    exact s.terms.guarantee_refl d
  · rw [made]
    have clear := goes.skirts.arrives tidy arrives
    rcases goes.leads names l List.prefix_rfl clear.anywhere with within | made
    · exact guarantees (.put _ room within)
    · exact guarantees (.make room (goes.skirts.near tidy arrives) gone made)

theorem Lasts.makeDirectory (lasts : s.Lasts K I) (goes : s.Goes names)
    (allowed : ∀ l, s.clear.Arrives s.Near [] names l → K l) (known : I d) :
    Keeps s.terms (fun _ => I) (makeDirectory names) d := by
  refine keeps_change (fun d' others => ?_) (fun d' others => ?_) fun d' others d'' later => ?_
  · exact guarantees_makeDirectory goes (lasts.tidy (lasts.stable known others))
  · exact goes.skirts.makeDirectory_without (lasts.tidy (lasts.stable known others))
  · refine lasts.stable ?_ later
    replace known := lasts.stable known others
    have tidy := lasts.tidy known
    rcases makeDirectory_inv d' names with ⟨e, failed⟩ | ⟨l, made, room, gone, arrives, -⟩
    · rwa [failed]
    · rw [made]
      have clear := goes.skirts.arrives tidy arrives
      refine lasts.put known (allowed l clear) (goes.skirts.near tidy arrives) room.ne_nil
        (settled_plain clear) nofun ?_
      rw [gone]
      exact .made

theorem Lasts.unlessDirectory (lasts : s.Lasts K I) (goes : s.Goes names) (known : I d)
    (outcome : Except SystemFault Unit) :
    Keeps s.terms (fun _ => I) (unlessDirectory names outcome) d := by
  cases outcome with
  | ok => exact lasts.ended known _
  | error e =>
    refine lasts.look known fun d tidy => ?_
    rw [unlessThere, goes.skirts.entryAt?_without tidy]
    rfl

/-- The directories that lead to a place are made on the way there. -/
theorem Lasts.ensurePath (lasts : s.Lasts K I) (goes : s.Goes names)
    (allowed : ∀ front l, front <+: names → s.clear.Arrives s.Near [] front l → K l)
    (known : I d) : Keeps s.terms (fun _ => I) (ensurePath names.reverse) d := by
  induction names using List.reverseRecOn generalizing d with
  | nil => exact lasts.ended known _
  | append_singleton front name ih =>
    have shorter : front <+: front ++ [name] := List.prefix_append _ _
    have last {d : Disk} (known : I d) :=
      lasts.makeDirectory goes (fun l => allowed _ l List.prefix_rfl) known
    rw [List.reverse_concat, Work.ensurePath, List.reverse_cons, List.reverse_reverse]
    refine (last known).followedBy fun outcome d known => ?_
    have otherwise := lasts.unlessDirectory goes known outcome
    split
    · refine lasts.bind (ih (goes.initial shorter) ?_ known) fun _ d known => ?_
      · exact fun first l initial => allowed first l (initial.trans shorter)
      · exact (last known).followedBy fun outcome d known =>
          lasts.unlessDirectory goes known outcome
    · exact otherwise

theorem Lasts.makePath (lasts : s.Lasts K I) (goes : s.Goes names)
    (allowed : ∀ front l, front <+: names → s.clear.Arrives s.Near [] front l → K l)
    (known : I d) : Keeps s.terms (fun _ => I) (makePath names.reverse) d := by
  induction names using List.reverseRecOn generalizing d with
  | nil => exact lasts.ended known _
  | append_singleton front name ih =>
    have shorter : front <+: front ++ [name] := List.prefix_append _ _
    have last {d : Disk} (known : I d) :=
      lasts.makeDirectory goes (fun l => allowed _ l List.prefix_rfl) known
    have next {d : Disk} (known : I d) : Keeps s.terms (fun _ => I)
        (if name == "." then pure () else Work.makeDirectory (front ++ [name])) d := by
      split_ifs
      · exact lasts.ended known _
      · exact last known
    rw [List.reverse_concat, Work.makePath, List.reverse_cons, List.reverse_reverse]
    by_cases first : front.reverse.isEmpty = true
    · rw [if_pos first]
      exact last known
    rw [if_neg first]
    refine lasts.see_bind known (fun d tidy => ?_) fun d known => ?_
    · exact (goes.initial shorter).skirts.isThere_without tidy
    by_cases there : d.isThere front = true
    · rw [if_pos there]
      exact last known
    rw [if_neg there]
    refine (ih (goes.initial shorter) ?_ known).followedBy fun outcome d known => ?_
    · exact fun first l initial => allowed first l (initial.trans shorter)
    · split
      · exact next known
      · exact next known
      · exact lasts.ended known _

theorem guarantees_write (goes : s.Goes names)
    (within : ∀ l, s.clear.Arrives s.Near [] names l → s.work <+: l) (tidy : s.Tidy d) :
    s.terms.guarantee d (d.write names content).2 := by
  rcases write_inv d names with ⟨e, fails⟩ | ⟨l, room, arrives, writes⟩
  · rw [fails]
    exact s.terms.guarantee_refl d
  · rw [(writes content).1]
    exact guarantees (.put _ room (within l (goes.skirts.arrives tidy arrives)))

/-- Files are written in the directory of a work. -/
theorem Lasts.write (lasts : s.Lasts K I) (goes : s.Goes names)
    (allowed : ∀ l, s.clear.Arrives s.Near [] names l → s.work <+: l ∧ K l) (known : I d)
    (content : ByteArray) : Keeps s.terms (fun _ => I) (write names content) d := by
  refine keeps_change (fun d' others => ?_) (fun d' others => ?_) fun d' others d'' later => ?_
  · exact guarantees_write goes (fun l arrives => (allowed l arrives).1)
      (lasts.tidy (lasts.stable known others))
  · exact goes.skirts.write_without (lasts.tidy (lasts.stable known others))
  · refine lasts.stable ?_ later
    replace known := lasts.stable known others
    have tidy := lasts.tidy known
    rcases write_inv d' names with ⟨e, fails⟩ | ⟨l, room, arrives, writes⟩
    · rwa [fails]
    · have clear := goes.skirts.arrives tidy arrives
      rw [(writes content).1]
      exact lasts.put known (allowed l clear).2 (goes.skirts.near tidy arrives) room.ne_nil
        (settled_plain clear) nofun (writes content).2.1

end Site

end PackageRisk.Work
