import Mathlib.Data.List.Perm.Subperm
import PackageRisk.Proofs.Disk.Ways
import PackageRisk.Proofs.Path

/-!
# Ways through links

Names lead through the links of a disk: where a link is met, the way goes on from the place that
its target leads to. `Arrives` says where names lead so, also where nothing is, and names that
lead in a circle arrive nowhere. A way depends on nothing but the links at the places that it
leads through (`Arrives.congr`), so a way that avoids a place is the same however that place
changes.

Names that arrive are resolved to where they lead (`resolve_of_arrives`), and the system enters no
other place (`arrives_of_enter`).
-/

namespace PackageRisk.Disk

open Location

/-- Every place. -/
def Anywhere : Location → Prop := fun _ => True

/-- The places that are not at or below one. -/
def Outside (w : Location) : Location → Prop := fun l => ¬w <+: l

/-- Names lead from one place to another, and on the way only through places of a kind. -/
inductive Arrives (d : Disk) (P : Location → Prop) : Location → List String → Location → Prop
  | here {l : Location} : Arrives d P l [] l
  | stay {here l : Location} {name : String} {rest : List String} (dot : name = ".")
      (later : Arrives d P here rest l) : Arrives d P here (name :: rest) l
  | up {here l : Location} {name : String} {rest : List String} (up : name = "..")
      (later : Arrives d P here.dropLast rest l) : Arrives d P here (name :: rest) l
  | down {here l : Location} {name : String} {rest : List String} (plain : IsPlain name)
      (along : P (here ++ [name])) (noLink : ∀ target, d.at? (here ++ [name]) ≠ some (.link target))
      (later : Arrives d P (here ++ [name]) rest l) : Arrives d P here (name :: rest) l
  | link {here m l : Location} {name target : String} {rest : List String} (plain : IsPlain name)
      (along : P (here ++ [name])) (held : d.at? (here ++ [name]) = some (.link target))
      (followed : Arrives d P (linkStart here target) (Path.components target) m)
      (later : Arrives d P m rest l) : Arrives d P here (name :: rest) l

variable {d d' : Disk} {P Q : Location → Prop} {here l m : Location} {name target : String}
  {front names rest : List String}

/-- Names lead to one place only, and a way is all that is known of it. -/
theorem Arrives.meet (first : d.Arrives P here names l) (second : d.Arrives Q here names m) :
    l = m ∧ d.Arrives (fun k => P k ∧ Q k) here names l := by
  induction first generalizing m with
  | here =>
    cases second
    exact ⟨rfl, .here⟩
  | stay dot _ ih =>
    cases second with
    | stay _ later => exact (ih later).imp_right (.stay dot)
    | up up => exact absurd (dot.symm.trans up) (by decide)
    | down plain => exact absurd dot plain.1
    | link plain => exact absurd dot plain.1
  | up up _ ih =>
    cases second with
    | stay dot => exact absurd (dot.symm.trans up) (by decide)
    | up _ later => exact (ih later).imp_right (.up up)
    | down plain => exact absurd up plain.2
    | link plain => exact absurd up plain.2
  | down plain along noLink _ ih =>
    cases second with
    | stay dot => exact absurd dot plain.1
    | up up => exact absurd up plain.2
    | down _ along' _ later => exact (ih later).imp_right (.down plain ⟨along, along'⟩ noLink)
    | link _ _ held => exact absurd held (noLink _)
  | link plain along held _ _ ihFollowed ih =>
    cases second with
    | stay dot => exact absurd dot plain.1
    | up up => exact absurd up plain.2
    | down _ _ noLink => exact absurd held (noLink _)
    | link _ along' held' followed later =>
      obtain rfl := Entry.link.inj (Option.some.inj (held.symm.trans held'))
      obtain ⟨rfl, both⟩ := ihFollowed followed
      exact (ih later).imp_right (.link plain ⟨along, along'⟩ held both)

theorem Arrives.unique (first : d.Arrives P here names l) (second : d.Arrives Q here names m) :
    l = m :=
  (first.meet second).1

/-- A way is the same on another disk with the same links at the places that it leads through. -/
theorem Arrives.congr (arrives : d.Arrives P here names l) (weaker : ∀ k, P k → Q k)
    (same : ∀ k, P k → ∀ target, d'.at? k = some (.link target) ↔ d.at? k = some (.link target)) :
    d'.Arrives Q here names l := by
  induction arrives with
  | here => exact .here
  | stay dot _ ih => exact .stay dot ih
  | up up _ ih => exact .up up ih
  | down plain along noLink _ ih =>
    exact .down plain (weaker _ along) (fun target => mt (same _ along target).1 (noLink target)) ih
  | link plain along held _ _ ihFollowed ih =>
    exact .link plain (weaker _ along) ((same _ along _).2 held) ihFollowed ih

theorem Arrives.mono (arrives : d.Arrives P here names l) (weaker : ∀ k, P k → Q k) :
    d.Arrives Q here names l :=
  arrives.congr weaker fun _ _ _ => Iff.rfl

theorem Arrives.anywhere (arrives : d.Arrives P here names l) :
    d.Arrives Anywhere here names l :=
  arrives.mono fun _ _ => trivial

theorem arrives_append_iff :
    d.Arrives P here (front ++ names) l ↔
      ∃ m, d.Arrives P here front m ∧ d.Arrives P m names l := by
  constructor
  · intro arrives
    induction front generalizing here with
    | nil => exact ⟨here, .here, arrives⟩
    | cons name front ih =>
      cases arrives with
      | stay dot later =>
        obtain ⟨m, first, second⟩ := ih later
        exact ⟨m, .stay dot first, second⟩
      | up up later =>
        obtain ⟨m, first, second⟩ := ih later
        exact ⟨m, .up up first, second⟩
      | down plain along noLink later =>
        obtain ⟨m, first, second⟩ := ih later
        exact ⟨m, .down plain along noLink first, second⟩
      | link plain along held followed later =>
        obtain ⟨m, first, second⟩ := ih later
        exact ⟨m, .link plain along held followed first, second⟩
  · rintro ⟨m, first, second⟩
    induction first with
    | here => exact second
    | stay dot _ ih => exact .stay dot (ih second)
    | up up _ ih => exact .up up (ih second)
    | down plain along noLink _ ih => exact .down plain along noLink (ih second)
    | link plain along held followed _ _ ih => exact .link plain along held followed (ih second)

/-- One more name leads down from the end of a way if no link is there. -/
theorem Arrives.snoc (arrives : d.Arrives P here names l) (plain : IsPlain name)
    (along : P (l ++ [name])) (noLink : ∀ target, d.at? (l ++ [name]) ≠ some (.link target)) :
    d.Arrives P here (names ++ [name]) (l ++ [name]) :=
  arrives_append_iff.2 ⟨l, arrives, .down plain along noLink .here⟩

/-! ## Ends of ways -/

/-- A place that its own names lead to: none of them leads elsewhere, and no link is met. -/
def Settled (d : Disk) (P : Location → Prop) (l : Location) : Prop :=
  ∀ front name, front ++ [name] <+: l →
    IsPlain name ∧ P (front ++ [name]) ∧ ∀ target, d.at? (front ++ [name]) ≠ some (.link target)

theorem settled_nil : d.Settled P [] := by
  intro front name initial
  simp at initial

theorem Settled.mono (settled : d.Settled P l) (initial : m <+: l) : d.Settled P m :=
  fun front name shorter => settled front name (shorter.trans initial)

theorem Settled.snoc (settled : d.Settled P l) (plain : IsPlain name) (along : P (l ++ [name]))
    (noLink : ∀ target, d.at? (l ++ [name]) ≠ some (.link target)) :
    d.Settled P (l ++ [name]) := by
  intro front other initial
  rcases List.prefix_concat_iff.1 initial with same | shorter
  · rw [same]
    exact ⟨List.singleton_inj.1 (List.append_inj' same rfl).2 ▸ plain, along, noLink⟩
  · exact settled front other shorter

theorem Settled.plain (settled : d.Settled P l) : ∀ name ∈ l, IsPlain name := by
  intro name mem
  obtain ⟨front, back, rfl⟩ := List.append_of_mem mem
  exact (settled front name ⟨back, by simp⟩).1

theorem Settled.noDot (settled : d.Settled P l) : "." ∉ l := fun dot =>
  (settled.plain "." dot).1 rfl

theorem Settled.linkStart (settled : d.Settled P l) : d.Settled P (linkStart l target) := by
  unfold Disk.linkStart
  split_ifs
  · exact settled_nil
  · exact settled

/-- A way from such a place ends at such a place. -/
theorem Arrives.settled (arrives : d.Arrives P here names l) (settled : d.Settled P here) :
    d.Settled P l := by
  induction arrives with
  | here => exact settled
  | stay _ _ ih => exact ih settled
  | up _ _ ih => exact ih (settled.mono ( List.dropLast_prefix _))
  | down plain along noLink _ ih => exact ih (settled.snoc plain along noLink)
  | link _ _ _ _ _ ihFollowed ih => exact ih (ihFollowed settled.linkStart)

theorem Settled.arrives (settled : d.Settled P l) : d.Arrives P [] l l := by
  induction l using List.reverseRecOn with
  | nil => exact .here
  | append_singleton front name ih =>
    obtain ⟨plain, along, noLink⟩ := settled front name List.prefix_rfl
    exact (ih (settled.mono (List.prefix_append _ _))).snoc plain along noLink

/-! ## Disks without circles -/

/-- The target of every link leads somewhere. -/
def LoopFree (d : Disk) : Prop :=
  ∀ here name target, d.at? (here ++ [name]) = some (.link target) →
    ∃ l, d.Arrives Anywhere (linkStart here target) (Path.components target) l

theorem LoopFree.arrives (loopFree : d.LoopFree) (here : Location) (names : List String) :
    ∃ l, d.Arrives Anywhere here names l := by
  induction names generalizing here with
  | nil => exact ⟨here, .here⟩
  | cons name rest ih =>
    by_cases dot : name = "."
    · obtain ⟨l, later⟩ := ih here
      exact ⟨l, .stay dot later⟩
    by_cases up : name = ".."
    · obtain ⟨l, later⟩ := ih here.dropLast
      exact ⟨l, .up up later⟩
    by_cases isLink : ∃ target, d.at? (here ++ [name]) = some (.link target)
    · obtain ⟨target, held⟩ := isLink
      obtain ⟨m, followed⟩ := loopFree here name target held
      obtain ⟨l, later⟩ := ih m
      exact ⟨l, .link ⟨dot, up⟩ trivial held followed later⟩
    · obtain ⟨l, later⟩ := ih (here ++ [name])
      exact ⟨l, .down ⟨dot, up⟩ trivial (not_exists.1 isLink) later⟩

/-! ## Resolving -/

/-- The target of a link does not lead through the link: a way that does has the way from there
as a part, which leads to the same place. -/
theorem Arrives.without (arrives : d.Arrives P here names l) {place : Location} {name : String}
    (held : d.at? (place ++ [name]) = some (.link target)) :
    d.Arrives (fun k => P k ∧ k ≠ place ++ [name]) here names l ∨
      ∃ m, d.Arrives (fun k => P k ∧ k ≠ place ++ [name]) (linkStart place target)
        (Path.components target) m := by
  induction arrives with
  | here => exact .inl .here
  | stay dot _ ih => exact ih.imp (.stay dot) id
  | up up _ ih => exact ih.imp (.up up) id
  | @down here _ other _ plain along noLink _ ih =>
    refine ih.imp (.down plain ⟨along, ?_⟩ noLink) id
    intro same
    rw [same] at noLink
    exact noLink target held
  | @link here _ _ other _ _ plain along held' _ _ ihFollowed ih =>
    rcases ihFollowed with followed | followed
    · by_cases same : here ++ [other] = place ++ [name]
      · rw [same, held] at held'
        cases held'
        obtain ⟨rfl, -⟩ := List.append_inj' same rfl
        exact .inr ⟨_, followed⟩
      · exact ih.imp (.link plain ⟨along, same⟩ held' followed) id
    · exact .inr followed

/-- The target of a link leads past the link as well as past the places that it leads past. -/
theorem Arrives.clear_cons {places : List Location}
    (followed : d.Arrives (· ∉ places) (linkStart here target) (Path.components target) m)
    (held : d.at? (here ++ [name]) = some (.link target)) :
    d.Arrives (· ∉ (here ++ [name]) :: places) (linkStart here target) (Path.components target)
      m := by
  have past : ∀ k, k ∉ places ∧ k ≠ here ++ [name] → k ∉ (here ++ [name]) :: places := by
    simp +contextual
  rcases followed.without held with clear | ⟨m', clear⟩
  · exact clear.mono past
  · rw [followed.unique clear]
    exact clear.mono past

/-- What is known of a trail while the links at some places are followed: these are all the links
on it that were not left yet, and the others lead where it says. -/
structure Known (d : Disk) (isOpen : List Location) (seen : Trail) : Prop where
  nodup : isOpen.Nodup
  links : ∀ l ∈ isOpen, ∃ target, d.at? l = some (.link target)
  pending : ∀ l, seen.lookup l = some none → l ∈ isOpen
  left : ∀ here name m, seen.lookup (here ++ [name]) = some (some m) →
    ∃ target, d.at? (here ++ [name]) = some (.link target) ∧
      d.Arrives Anywhere (linkStart here target) (Path.components target) m

theorem lookup_trail_cons {l k : Location} {goal : Option Location} {seen : Trail} :
    ((l, goal) :: seen : Trail).lookup k = if k = l then some goal else seen.lookup k := by
  rw [List.lookup_cons]
  by_cases same : k = l
  · simp [same]
  · simp [same, beq_false_of_ne same]

/-- There are no more links than there are entries. -/
theorem length_le_of_links {places : List Location} (nodup : places.Nodup)
    (links : ∀ l ∈ places, ∃ target, d.at? l = some (.link target)) :
    places.length ≤ d.entries.length := by
  have among : places ⊆ d.entries.map Prod.fst := by
    intro l mem
    obtain ⟨target, held⟩ := links l mem
    rw [at?_of_ne_root (ne_root_of_held held nofun)] at held
    obtain ⟨before, after, split, -⟩ := List.lookup_eq_some_iff.1 held
    rw [split]
    simp
  calc places.length ≤ (d.entries.map Prod.fst).length :=
        (List.subperm_of_subset nodup among).length_le
    _ = d.entries.length := List.length_map _

theorem Known.open {isOpen : List Location} {seen : Trail} (known : d.Known isOpen seen)
    (held : d.at? l = some (.link target)) (new : l ∉ isOpen) :
    d.Known (l :: isOpen) ((l, none) :: seen) := by
  refine ⟨List.nodup_cons.2 ⟨new, known.nodup⟩, ?_, fun k pending => ?_, fun here name m left => ?_⟩
  · exact List.forall_mem_cons.2 ⟨⟨target, held⟩, known.links⟩
  · rw [lookup_trail_cons] at pending
    split_ifs at pending with same
    · rw [same]
      exact List.mem_cons_self
    · exact List.mem_cons_of_mem _ (known.pending k pending)
  · rw [lookup_trail_cons] at left
    split_ifs at left with same
    · cases left
    · exact known.left here name m left

theorem Known.close {isOpen : List Location} {seen : Trail}
    (known : d.Known ((here ++ [name]) :: isOpen) seen)
    (held : d.at? (here ++ [name]) = some (.link target))
    (followed : d.Arrives Anywhere (linkStart here target) (Path.components target) m) :
    d.Known isOpen ((here ++ [name], some m) :: seen) := by
  refine ⟨(List.nodup_cons.1 known.nodup).2,
    fun l mem => known.links l (List.mem_cons_of_mem _ mem),
    fun l pending => ?_, fun place other k left => ?_⟩
  · rw [lookup_trail_cons] at pending
    split_ifs at pending with same
    · cases pending
    · exact (List.mem_cons.1 (known.pending l pending)).resolve_left same
  · rw [lookup_trail_cons] at left
    split_ifs at left with same
    · cases left
      obtain ⟨rfl, -⟩ := List.append_inj' same rfl
      rw [same]
      exact ⟨target, held, followed⟩
    · exact known.left place other k left

/-- A link that was left leads where the trail says. -/
theorem Known.arrives {isOpen : List Location} {seen : Trail} (known : d.Known isOpen seen)
    (held : d.at? (here ++ [name]) = some (.link target))
    (left : seen.lookup (here ++ [name]) = some (some m)) :
    d.Arrives Anywhere (linkStart here target) (Path.components target) m := by
  obtain ⟨target', held', followed⟩ := known.left here name m left
  obtain rfl := Entry.link.inj (Option.some.inj (held.symm.trans held'))
  exact followed

/-- Names that arrive without a link that is being followed are traced to where they lead. -/
theorem traceWithin_of_arrives (n : Nat) {isOpen : List Location} {seen : Trail}
    (known : d.Known isOpen seen) (enough : d.entries.length + 1 ≤ n + isOpen.length)
    (noDot : "." ∉ names) (arrives : d.Arrives (· ∉ isOpen) here names l) :
    ∃ later, d.traceWithin n seen here names = (.reached l, later) ∧ d.Known isOpen later := by
  induction n generalizing isOpen seen here names l with
  | zero =>
    have := length_le_of_links known.nodup known.links
    omega
  | succ n ih =>
    rw [traceWithin]
    induction arrives generalizing seen with
    | here => exact ⟨seen, rfl, known⟩
    | stay dot =>
      rw [dot] at noDot
      exact absurd List.mem_cons_self noDot
    | up up _ ihRest =>
      rw [List.mem_cons, not_or] at noDot
      rw [up, trace_up]
      exact ihRest known noDot.2
    | down plain along noLink _ ihRest =>
      rw [List.mem_cons, not_or] at noDot
      rw [trace_down plain noLink]
      exact ihRest known noDot.2
    | @link here m l name target rest plain along held followed _ _ ihRest =>
      rw [List.mem_cons, not_or] at noDot
      rcases goal : seen.lookup (here ++ [name]) with _ | _ | m'
      · obtain ⟨later, traced, known'⟩ := ih (known.open held along)
          (by rw [List.length_cons]; omega) (Path.dot_notMem_components target)
          (followed.clear_cons held)
        rw [trace_past plain held goal traced]
        exact ihRest (known'.close held followed.anywhere) noDot.2
      · exact absurd (known.pending _ goal) along
      · obtain rfl := followed.unique (known.arrives held goal)
        rw [trace_left plain held goal]
        exact ihRest known noDot.2

theorem arrival_of_arrives (arrives : d.Arrives P [] names l) (noDot : "." ∉ names) :
    d.arrival names = .reached l := by
  have known : d.Known [] [] := ⟨List.nodup_nil, by simp, by simp, by simp⟩
  obtain ⟨later, traced, -⟩ := traceWithin_of_arrives (d.entries.length + 1) known (by simp) noDot
    (arrives.mono fun _ _ => List.not_mem_nil)
  rw [arrival, traced]

/-- Names that arrive are resolved to where they lead. -/
theorem resolve_of_arrives (arrives : d.Arrives P [] names l) (noDot : "." ∉ names)
    (noNul : ∀ name ∈ names, ¬HasNul name) : d.resolve names = .ok l :=
  resolve_of_reached noNul (arrival_of_arrives arrives noDot)

/-- Names that arrive are not resolved if one of them cannot be looked up. -/
theorem resolve_of_arrives_of_nul (arrives : d.Arrives P [] names l) (noDot : "." ∉ names)
    (nul : ∃ name ∈ names, HasNul name) :
    d.resolve names = .error (.wrongValue "embedded null byte") := by
  refine resolve_of_nul nul fun front initial => ?_
  obtain ⟨back, rfl⟩ := initial
  obtain ⟨m, first, -⟩ := arrives_append_iff.1 arrives
  exact ⟨m, arrival_of_arrives first fun dot => noDot (List.mem_append_left _ dot)⟩

theorem Arrives.eq_of_resolve (arrives : d.Arrives P [] names l) (noDot : "." ∉ names)
    (resolved : d.resolve names = .ok m) : m = l := by
  by_cases nul : ∃ name ∈ names, HasNul name
  · rw [resolve_of_arrives_of_nul arrives noDot nul] at resolved
    cases resolved
  · rw [resolve_of_arrives arrives noDot (by simpa using nul)] at resolved
    exact (Except.ok.inj resolved).symm

/-! ## Entering -/

theorem arrives_of_walk {onLink : Location → String → List String → Except SystemFault Location}
    (follows : ∀ here target rest l, onLink here target rest = .ok l →
      d.Arrives Anywhere (linkStart here target) (Path.components target ++ rest) l)
    (walked : d.walk onLink here names = .ok l) : d.Arrives Anywhere here names l := by
  induction names generalizing here with
  | nil =>
    cases walked
    exact .here
  | cons name rest ih =>
    rw [walk] at walked
    split_ifs at walked with _ dot up
    · exact .stay (beq_iff_eq.1 dot) (ih walked)
    · exact .up (beq_iff_eq.1 up) (ih walked)
    · have plain : IsPlain name := ⟨by simpa using dot, by simpa using up⟩
      split at walked
      · next target held =>
        obtain ⟨m, followed, later⟩ := arrives_append_iff.1 (follows _ _ _ _ walked)
        exact .link plain trivial held followed later
      · next other held => exact .down plain trivial (by simpa [held] using other) (ih walked)
      · cases walked

theorem arrives_of_walkWithin (n : Nat) (walked : d.walkWithin n here names = .ok l) :
    d.Arrives Anywhere here names l := by
  induction n generalizing here names l with
  | zero => exact arrives_of_walk (fun _ _ _ _ followed => by cases followed) walked
  | succ n ih => exact arrives_of_walk (fun _ _ _ _ followed => ih followed) walked

/-- Names that the system follows lead to the place that it enters. -/
theorem arrives_of_enter (entered : d.enter names = .ok l) : d.Arrives Anywhere [] names l := by
  unfold enter at entered
  split_ifs at entered
  exact arrives_of_walkWithin _ entered

end PackageRisk.Disk
