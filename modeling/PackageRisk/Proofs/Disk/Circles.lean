import PackageRisk.Proofs.Disk.Arrivals

/-!
# Circles of links

Names that arrive nowhere lead into a circle: while the targets of some links are followed, one of
these links is met again. `Circles` says where that is, by the names that are left there. From every
place names either arrive or lead into a circle (`arrives_or_circles`), and tracing them tells which
(`arrival_eq_reached_iff`, `arrival_eq_stuck_iff`). `Resolves` lists what may become of names with
that, and they are resolved to just this (`resolve_eq_iff`).
-/

namespace PackageRisk.Disk

open Location

/-- Names lead from a place into a circle while the targets of the links at some places are
followed. `left` are the link that is met again and the names behind it, in all targets and of all
names. -/
inductive Circles (d : Disk) :
    (isOpen : List Location) → (here : Location) → (names left : List String) → Prop
  | stay {isOpen : List Location} {here : Location} {name : String} {rest left : List String}
      (dot : name = ".") (later : Circles d isOpen here rest left) :
      Circles d isOpen here (name :: rest) left
  | up {isOpen : List Location} {here : Location} {name : String} {rest left : List String}
      (up : name = "..") (later : Circles d isOpen here.dropLast rest left) :
      Circles d isOpen here (name :: rest) left
  | down {isOpen : List Location} {here : Location} {name : String} {rest left : List String}
      (plain : IsPlain name) (noLink : ∀ target, d.at? (here ++ [name]) ≠ some (.link target))
      (later : Circles d isOpen (here ++ [name]) rest left) :
      Circles d isOpen here (name :: rest) left
  | past {isOpen : List Location} {here m : Location} {name target : String}
      {rest left : List String} (plain : IsPlain name) (new : here ++ [name] ∉ isOpen)
      (held : d.at? (here ++ [name]) = some (.link target))
      (followed : d.Arrives (· ∉ isOpen) (linkStart here target) (Path.components target) m)
      (later : Circles d isOpen m rest left) : Circles d isOpen here (name :: rest) left
  | into {isOpen : List Location} {here : Location} {name target : String}
      {rest left : List String} (plain : IsPlain name) (new : here ++ [name] ∉ isOpen)
      (held : d.at? (here ++ [name]) = some (.link target))
      (inside : Circles d ((here ++ [name]) :: isOpen) (linkStart here target)
        (Path.components target) left) :
      Circles d isOpen here (name :: rest) (left ++ rest)
  | again {isOpen : List Location} {here : Location} {name : String} {rest : List String}
      (plain : IsPlain name) (met : here ++ [name] ∈ isOpen) :
      Circles d isOpen here (name :: rest) (here ++ name :: rest)

variable {d : Disk} {P : Location → Prop} {isOpen : List Location} {here l m : Location}
  {name target : String} {front names rest left : List String} {seen : Trail}

/-! ## Ways with a first name -/

theorem Arrives.of_dot (arrives : d.Arrives P here (name :: rest) l) (dot : name = ".") :
    d.Arrives P here rest l := by
  cases arrives with
  | stay _ later => exact later
  | up up => exact absurd (dot.symm.trans up) (by decide)
  | down plain => exact absurd dot plain.1
  | link plain => exact absurd dot plain.1

theorem Arrives.of_up (arrives : d.Arrives P here (name :: rest) l) (up : name = "..") :
    d.Arrives P here.dropLast rest l := by
  cases arrives with
  | stay dot => exact absurd (dot.symm.trans up) (by decide)
  | up _ later => exact later
  | down plain => exact absurd up plain.2
  | link plain => exact absurd up plain.2

theorem Arrives.of_down (arrives : d.Arrives P here (name :: rest) l) (plain : IsPlain name)
    (noLink : ∀ target, d.at? (here ++ [name]) ≠ some (.link target)) :
    d.Arrives P (here ++ [name]) rest l := by
  cases arrives with
  | stay dot => exact absurd dot plain.1
  | up up => exact absurd up plain.2
  | down _ _ _ later => exact later
  | link _ _ held => exact absurd held (noLink _)

theorem Arrives.of_link (arrives : d.Arrives P here (name :: rest) l) (plain : IsPlain name)
    (held : d.at? (here ++ [name]) = some (.link target)) :
    P (here ++ [name]) ∧
      ∃ m, d.Arrives P (linkStart here target) (Path.components target) m ∧
        d.Arrives P m rest l := by
  cases arrives with
  | stay dot => exact absurd dot plain.1
  | up up => exact absurd up plain.2
  | down _ _ noLink => exact absurd held (noLink _)
  | link _ along held' followed later =>
    obtain rfl := Entry.link.inj (Option.some.inj (held.symm.trans held'))
    exact ⟨along, _, followed, later⟩

/-! ## Names arrive or lead into a circle -/

/-- Names that lead into a circle do not arrive. -/
theorem Circles.not_arrives (circles : d.Circles isOpen here names left) :
    ∀ l, ¬d.Arrives (· ∉ isOpen) here names l := by
  induction circles with
  | stay dot _ ih => exact fun l arrives => ih l (arrives.of_dot dot)
  | up up _ ih => exact fun l arrives => ih l (arrives.of_up up)
  | down plain noLink _ ih => exact fun l arrives => ih l (arrives.of_down plain noLink)
  | past plain _ held followed _ ih =>
    intro l arrives
    obtain ⟨-, m, followed', later⟩ := arrives.of_link plain held
    rw [followed'.unique followed] at later
    exact ih l later
  | into plain _ held _ ih =>
    intro l arrives
    obtain ⟨-, m, followed, -⟩ := arrives.of_link plain held
    exact ih m (followed.clear_cons held)
  | @again isOpen here name rest plain met =>
    intro l arrives
    cases arrives with
    | stay dot => exact plain.1 dot
    | up up => exact plain.2 up
    | down _ along => exact along met
    | link _ along => exact along met

/-- Names lead into the same circle whatever is behind them. -/
theorem Circles.append (circles : d.Circles isOpen here names left) (more : List String) :
    d.Circles isOpen here (names ++ more) (left ++ more) := by
  induction circles with
  | stay dot _ ih => exact .stay dot ih
  | up up _ ih => exact .up up ih
  | down plain noLink _ ih => exact .down plain noLink ih
  | past plain new held followed _ ih => exact .past plain new held followed ih
  | into plain new held inside =>
    rw [List.append_assoc]
    exact .into plain new held inside
  | again plain met =>
    rw [List.append_assoc]
    exact .again plain met

theorem noDot_linkStart (start : "." ∉ here) : "." ∉ linkStart here target := by
  rw [linkStart]
  split_ifs
  · exact List.not_mem_nil
  · exact start

theorem Arrives.noDot (arrives : d.Arrives P here names l) (start : "." ∉ here) : "." ∉ l := by
  induction arrives with
  | here => exact start
  | stay _ _ ih => exact ih start
  | up _ _ ih => exact ih fun dot => start (List.dropLast_subset _ dot)
  | down plain _ _ _ ih =>
    apply ih
    rw [List.mem_append, not_or, List.mem_singleton]
    exact ⟨start, plain.1.symm⟩
  | link _ _ _ _ _ ihFollowed ih => exact ih (ihFollowed (noDot_linkStart start))

theorem Circles.noDot (circles : d.Circles isOpen here names left) (start : "." ∉ here)
    (noDot : "." ∉ names) : "." ∉ left := by
  induction circles with
  | stay dot => exact absurd (dot ▸ List.mem_cons_self) noDot
  | up _ _ ih =>
    rw [List.mem_cons, not_or] at noDot
    exact ih (fun dot => start (List.dropLast_subset _ dot)) noDot.2
  | @down _ here name rest _ plain _ _ ih =>
    rw [List.mem_cons, not_or] at noDot
    apply ih _ noDot.2
    rw [List.mem_append, not_or, List.mem_singleton]
    exact ⟨start, noDot.1⟩
  | past _ _ _ followed _ ih =>
    rw [List.mem_cons, not_or] at noDot
    exact ih (followed.noDot (noDot_linkStart start)) noDot.2
  | into _ _ _ _ ih =>
    rw [List.mem_cons, not_or] at noDot
    rw [List.mem_append, not_or]
    exact ⟨ih (noDot_linkStart start) (Path.dot_notMem_components _), noDot.2⟩
  | again =>
    rw [List.mem_append, not_or]
    exact ⟨start, noDot⟩

theorem Circles.noDot_append (circles : d.Circles [] [] front left) (noDot : "." ∉ front ++ rest) :
    "." ∉ left ++ rest := by
  rw [List.mem_append, not_or] at noDot ⊢
  exact ⟨circles.noDot List.not_mem_nil noDot.1, noDot.2⟩

/-- From every place names arrive without the links at some places, or they lead into a circle. -/
theorem arrives_or_circles (nodup : isOpen.Nodup)
    (links : ∀ l ∈ isOpen, ∃ target, d.at? l = some (.link target)) (here : Location)
    (names : List String) :
    (∃ l, d.Arrives (· ∉ isOpen) here names l) ∨ ∃ left, d.Circles isOpen here names left := by
  obtain ⟨n, enough⟩ : ∃ n, d.entries.length + 1 ≤ n + isOpen.length :=
    ⟨d.entries.length + 1, Nat.le_add_right _ _⟩
  induction n generalizing isOpen here names with
  | zero =>
    have := length_le_of_links nodup links
    omega
  | succ n ihTarget =>
    induction names generalizing here with
    | nil => exact .inl ⟨here, .here⟩
    | cons name rest ih =>
      by_cases dot : name = "."
      · exact (ih here).imp (fun ⟨l, later⟩ => ⟨l, .stay dot later⟩)
          fun ⟨left, later⟩ => ⟨left, .stay dot later⟩
      by_cases up : name = ".."
      · exact (ih here.dropLast).imp (fun ⟨l, later⟩ => ⟨l, .up up later⟩)
          fun ⟨left, later⟩ => ⟨left, .up up later⟩
      have plain : IsPlain name := ⟨dot, up⟩
      by_cases met : here ++ [name] ∈ isOpen
      · exact .inr ⟨_, .again plain met⟩
      by_cases isLink : ∃ target, d.at? (here ++ [name]) = some (.link target)
      · obtain ⟨target, held⟩ := isLink
        rcases ihTarget (List.nodup_cons.2 ⟨met, nodup⟩)
          (List.forall_mem_cons.2 ⟨⟨target, held⟩, links⟩) (linkStart here target)
          (Path.components target) (by rw [List.length_cons]; omega) with
          ⟨m, clear⟩ | ⟨left, inside⟩
        · have followed := clear.mono fun k other => mt (List.mem_cons_of_mem _) other
          exact (ih m).imp (fun ⟨l, later⟩ => ⟨l, .link plain met held followed later⟩)
            fun ⟨left, later⟩ => ⟨left, .past plain met held followed later⟩
        · exact .inr ⟨_, .into plain met held inside⟩
      · have noLink := not_exists.1 isLink
        exact (ih (here ++ [name])).imp (fun ⟨l, later⟩ => ⟨l, .down plain met noLink later⟩)
          fun ⟨left, later⟩ => ⟨left, .down plain noLink later⟩

/-! ## Tracing -/

/-- Names are a part of the targets of the links at some places: these lead nowhere unless the names
do. -/
def PartOf (d : Disk) (isOpen : List Location) (here : Location) (names : List String) : Prop :=
  ∀ place name target, place ++ [name] ∈ isOpen → d.at? (place ++ [name]) = some (.link target) →
    ∀ P m, d.Arrives P (linkStart place target) (Path.components target) m →
      ∃ l, d.Arrives P here names l

theorem PartOf.imp {here' : Location} {names' : List String} (part : d.PartOf isOpen here names)
    (smaller : ∀ P l, d.Arrives P here names l → ∃ l', d.Arrives P here' names' l') :
    d.PartOf isOpen here' names' := by
  intro place name target mem held P m followed
  obtain ⟨l, arrives⟩ := part place name target mem held P m followed
  exact smaller P l arrives

theorem PartOf.of_up (part : d.PartOf isOpen here (".." :: rest)) :
    d.PartOf isOpen here.dropLast rest :=
  part.imp fun _ l arrives => ⟨l, arrives.of_up rfl⟩

theorem PartOf.of_down (part : d.PartOf isOpen here (name :: rest)) (plain : IsPlain name)
    (noLink : ∀ target, d.at? (here ++ [name]) ≠ some (.link target)) :
    d.PartOf isOpen (here ++ [name]) rest :=
  part.imp fun _ l arrives => ⟨l, arrives.of_down plain noLink⟩

theorem PartOf.of_link (part : d.PartOf isOpen here (name :: rest)) (plain : IsPlain name)
    (held : d.at? (here ++ [name]) = some (.link target))
    (followed : d.Arrives P (linkStart here target) (Path.components target) m) :
    d.PartOf isOpen m rest :=
  part.imp fun _ l arrives => by
    obtain ⟨-, k, followed', later⟩ := arrives.of_link plain held
    rw [followed'.unique followed] at later
    exact ⟨l, later⟩

/-- The target of a link that is a part of others is a part of the link, too. -/
theorem PartOf.into (part : d.PartOf isOpen here (name :: rest)) (plain : IsPlain name)
    (held : d.at? (here ++ [name]) = some (.link target)) :
    d.PartOf ((here ++ [name]) :: isOpen) (linkStart here target) (Path.components target) := by
  intro place other target' mem held' P m followed
  rcases List.mem_cons.1 mem with same | mem
  · rw [same, held] at held'
    obtain ⟨rfl, -⟩ := List.append_inj' same rfl
    obtain rfl := Entry.link.inj (Option.some.inj held')
    exact ⟨m, followed⟩
  · obtain ⟨l, arrives⟩ := part place other target' mem held' P m followed
    obtain ⟨-, k, followed, -⟩ := arrives.of_link plain held
    exact ⟨k, followed⟩

/-- Names that are a part of the targets of links lead past these links. -/
theorem PartOf.clear (part : d.PartOf isOpen here names)
    (links : ∀ l ∈ isOpen, ∃ target, d.at? l = some (.link target))
    (arrives : d.Arrives Anywhere here names l) : d.Arrives (· ∉ isOpen) here names l := by
  have each : ∀ k ∈ isOpen, d.Arrives (· ≠ k) here names l := by
    intro k mem
    obtain ⟨target, held⟩ := links k mem
    rcases List.eq_nil_or_concat k with rfl | ⟨place, name, rfl⟩
    · rw [at?_root] at held
      cases held
    rw [List.concat_eq_append] at held mem ⊢
    rcases arrives.without held with clear | ⟨m, clear⟩
    · exact clear.mono fun _ => And.right
    · obtain ⟨l', clear'⟩ := part place name target mem held _ m clear
      rw [arrives.unique clear']
      exact clear'.mono fun _ => And.right
  clear part links
  induction isOpen with
  | nil => exact arrives.mono fun _ _ => List.not_mem_nil
  | cons k others ih =>
    rw [List.forall_mem_cons] at each
    refine (each.1.meet (ih each.2)).2.mono fun j both => ?_
    rw [List.mem_cons, not_or]
    exact both

/-- Tracing does not forget which links it has not left. -/
theorem lookup_trace {onLink : Trail → Location → List String → Arrival × Trail} {k : Location}
    (keeps : ∀ seen here names, seen.lookup k = some none →
      (onLink seen here names).2.lookup k = some none) (pending : seen.lookup k = some none) :
    (d.trace onLink seen here names).2.lookup k = some none := by
  induction names generalizing seen here with
  | nil => exact pending
  | cons name rest ih =>
    rw [trace]
    split_ifs
    · exact ih pending
    dsimp only
    split
    · next target held =>
      split
      · exact ih pending
      · exact pending
      · next unseen =>
        have other : k ≠ here ++ [name] := by
          rintro rfl
          rw [unseen] at pending
          cases pending
        have inside := keeps ((here ++ [name], none) :: seen) (linkStart here target)
          (Path.components target) (by rw [lookup_trail_cons, if_neg other, pending])
        split
        · next traced =>
          rw [traced] at inside
          exact ih (by rw [lookup_trail_cons, if_neg other, inside])
        · next traced =>
          rw [traced] at inside
          exact inside
    · exact ih pending

theorem lookup_traceWithin (d : Disk) (n : Nat) (here : Location) (names : List String)
    {k : Location} (pending : seen.lookup k = some none) :
    (d.traceWithin n seen here names).2.lookup k = some none := by
  induction n generalizing seen here names with
  | zero => exact lookup_trace (fun _ _ _ pending => pending) pending
  | succ n ih => exact lookup_trace (fun _ here names pending => ih here names pending) pending

/-- The trail has all links that are being followed as not left yet. -/
def Pending (isOpen : List Location) (seen : Trail) : Prop :=
  ∀ l ∈ isOpen, seen.lookup l = some none

theorem Pending.open (pending : Pending isOpen seen) (l : Location) :
    Pending (l :: isOpen) ((l, none) :: seen) := by
  intro k mem
  rw [lookup_trail_cons]
  split_ifs with same
  · rfl
  · exact pending k ((List.mem_cons.1 mem).resolve_left same)

/-- Tracing a link to its end leaves those that are being followed as they are. -/
theorem Pending.past {n : Nat} {goal : Option Location} {arrival : Arrival} {later : Trail}
    (pending : Pending isOpen seen) (new : l ∉ isOpen)
    (traced : d.traceWithin n ((l, none) :: seen) here names = (arrival, later)) :
    Pending isOpen ((l, goal) :: later) := by
  intro k mem
  have other : k ≠ l := fun same => new (same ▸ mem)
  have kept := d.lookup_traceWithin n here names (pending.open l k (List.mem_cons_of_mem _ mem))
  rw [traced] at kept
  rw [lookup_trail_cons, if_neg other, kept]

/-- Names that lead into a circle are traced to it. -/
theorem traceWithin_of_circles (n : Nat) (known : d.Known isOpen seen)
    (pending : Pending isOpen seen) (enough : d.entries.length + 1 ≤ n + isOpen.length)
    (noDot : "." ∉ names) (part : d.PartOf isOpen here names)
    (circles : d.Circles isOpen here names left) :
    (d.traceWithin n seen here names).1 = .stuck left := by
  induction n generalizing isOpen seen here names left with
  | zero =>
    have := length_le_of_links known.nodup known.links
    omega
  | succ n ih =>
    rw [traceWithin]
    induction names generalizing seen here left with
    | nil => cases circles
    | cons name rest ihRest =>
      rw [List.mem_cons, not_or] at noDot
      cases circles with
      | stay dot => exact absurd dot.symm noDot.1
      | up up later =>
        subst up
        rw [trace_up]
        exact ihRest known pending noDot.2 part.of_up later
      | down plain noLink later =>
        rw [trace_down plain noLink]
        exact ihRest known pending noDot.2 (part.of_down plain noLink) later
      | past plain new held followed later =>
        have partRest := part.of_link plain held followed
        rcases goal : seen.lookup (here ++ [name]) with _ | _ | m'
        · obtain ⟨trail, traced, known'⟩ := traceWithin_of_arrives n (known.open held new)
            (by rw [List.length_cons]; omega) (Path.dot_notMem_components _)
            (followed.clear_cons held)
          rw [trace_past plain held goal traced]
          exact ihRest (known'.close held followed.anywhere) (pending.past new traced) noDot.2
            partRest later
        · exact absurd (known.pending _ goal) new
        · obtain rfl := followed.unique (known.arrives held goal)
          rw [trace_left plain held goal]
          exact ihRest known pending noDot.2 partRest later
      | @into _ _ _ target _ left plain new held inside =>
        have partTarget := part.into plain held
        rcases goal : seen.lookup (here ++ [name]) with _ | _ | m'
        · have traced := ih (known.open held new) (pending.open _)
            (by rw [List.length_cons]; omega) (Path.dot_notMem_components target) partTarget inside
          rw [trace_into plain held goal (Prod.ext traced rfl)]
        · exact absurd (known.pending _ goal) new
        · -- the link would have been left, but its target leads into a circle
          have links := List.forall_mem_cons.2 ⟨⟨target, held⟩, known.links⟩
          exact absurd (partTarget.clear links (known.arrives held goal)) (inside.not_arrives _)
      | again plain met =>
        obtain ⟨target, held⟩ := known.links _ met
        rw [trace_again plain held (pending _ met)]

theorem arrival_of_circles (circles : d.Circles [] [] names left) (noDot : "." ∉ names) :
    d.arrival names = .stuck left :=
  traceWithin_of_circles _ ⟨List.nodup_nil, by simp, by simp, by simp⟩ (List.forall_mem_nil _)
    (by simp) noDot (fun _ _ _ mem => absurd mem List.not_mem_nil) circles

/-- Names from the root arrive or lead into a circle. -/
theorem arrives_or_circles_root (d : Disk) (names : List String) :
    (∃ l, d.Arrives Anywhere [] names l) ∨ ∃ left, d.Circles [] [] names left := by
  refine (arrives_or_circles List.nodup_nil (by simp) [] names).imp_left ?_
  exact fun ⟨l, arrives⟩ => ⟨l, arrives.anywhere⟩

theorem arrival_eq_reached_iff (noDot : "." ∉ names) :
    d.arrival names = .reached l ↔ d.Arrives Anywhere [] names l := by
  refine ⟨fun reached => ?_, fun arrives => arrival_of_arrives arrives noDot⟩
  rcases d.arrives_or_circles_root names with ⟨m, arrives⟩ | ⟨left, circles⟩
  · rw [arrival_of_arrives arrives noDot] at reached
    cases reached
    exact arrives
  · rw [arrival_of_circles circles noDot] at reached
    cases reached

theorem arrival_eq_stuck_iff (noDot : "." ∉ names) :
    d.arrival names = .stuck left ↔ d.Circles [] [] names left := by
  refine ⟨fun stuck => ?_, fun circles => arrival_of_circles circles noDot⟩
  rcases d.arrives_or_circles_root names with ⟨m, arrives⟩ | ⟨left, circles⟩
  · rw [arrival_of_arrives arrives noDot] at stuck
    cases stuck
  · rw [arrival_of_circles circles noDot] at stuck
    cases stuck
    exact circles

/-! ## Resolving -/

/-- What names from the root are resolved to. They arrive; or a name that cannot be looked up is
met; or they lead into a circle before that, and then such a name or too many links are met on what
is left of them, or what is left avoids both. -/
inductive Resolves (d : Disk) : List String → Except Fault Location → Prop
  | arrives {names : List String} {l : Location} (noNul : ∀ name ∈ names, ¬HasNul name)
      (arrives : d.Arrives Anywhere [] names l) : Resolves d names (.ok l)
  | unnamed {front rest : List String} {name : String} {l : Location}
      (noNul : ∀ name ∈ front, ¬HasNul name) (arrives : d.Arrives Anywhere [] front l)
      (nul : HasNul name) :
      Resolves d (front ++ name :: rest) (.error (.wrongValue "embedded null byte"))
  | unnamedBehind {front rest left : List String} (noNul : ∀ name ∈ front, ¬HasNul name)
      (circles : d.Circles [] [] front left)
      (nul : ∃ name ∈ normalized (left ++ rest), HasNul name) :
      Resolves d (front ++ rest) (.error (.wrongValue "embedded null byte"))
  | circle {front rest left : List String} (noNul : ∀ name ∈ front, ¬HasNul name)
      (circles : d.Circles [] [] front left)
      (readable : ∀ name ∈ normalized (left ++ rest), ¬HasNul name)
      (loop : d.enter (normalized (left ++ rest)) = .error .loop) :
      Resolves d (front ++ rest) (.error (.linkLoop (Location.text (normalized (left ++ rest)))))
  | avoided {front rest left : List String} (noNul : ∀ name ∈ front, ¬HasNul name)
      (circles : d.Circles [] [] front left)
      (readable : ∀ name ∈ normalized (left ++ rest), ¬HasNul name)
      (noLoop : d.enter (normalized (left ++ rest)) ≠ .error .loop) :
      Resolves d (front ++ rest) (.ok (normalized (left ++ rest)))

theorem any_hasNul_eq_true_iff : names.any hasNul = true ↔ ∃ name ∈ names, HasNul name := by
  simp only [List.any_eq_true, hasNul_eq_true_iff]

theorem any_hasNul_eq_false_iff : names.any hasNul = false ↔ ∀ name ∈ names, ¬HasNul name := by
  rw [← Bool.not_eq_true, any_hasNul_eq_true_iff]
  simp only [not_exists, not_and]

theorem resolve_of_unnamed (noNul : ∀ name ∈ front, ¬HasNul name)
    (arrives : d.Arrives Anywhere [] front l) (nul : HasNul name)
    (noDot : "." ∉ front ++ name :: rest) :
    d.resolve (front ++ name :: rest) = .error (.wrongValue "embedded null byte") := by
  have unreadable := hasNul_eq_true_iff.2 nul
  have ends : (front ++ name :: rest).takeWhile (!hasNul ·) = front := by
    rw [List.takeWhile_append_of_pos (readable_of_noNul noNul),
      List.takeWhile_cons_of_neg (by simpa using unreadable), List.append_nil]
  have starts : (front ++ name :: rest).dropWhile (!hasNul ·) = name :: rest := by
    rw [List.dropWhile_append_of_pos (readable_of_noNul noNul),
      List.dropWhile_cons_of_neg (by simpa using unreadable)]
  rw [resolve, ends, starts,
    arrival_of_arrives arrives fun dot => noDot (List.mem_append_left _ dot)]

/-- Names behind a circle are not looked up; what is left of all names is. -/
theorem resolve_of_circles (noNul : ∀ name ∈ front, ¬HasNul name)
    (circles : d.Circles [] [] front left) (noDot : "." ∉ front ++ rest) :
    d.resolve (front ++ rest) = d.lookAgain (normalized (left ++ rest)) := by
  have shorter : "." ∉ front ++ rest.takeWhile (!hasNul ·) := by
    rw [List.mem_append, not_or] at noDot ⊢
    exact ⟨noDot.1, fun dot => noDot.2 ((List.takeWhile_prefix _).subset dot)⟩
  rw [resolve, List.takeWhile_append_of_pos (readable_of_noNul noNul),
    List.dropWhile_append_of_pos (readable_of_noNul noNul),
    arrival_of_circles (circles.append _) shorter]
  dsimp only
  rw [List.append_assoc, List.takeWhile_append_dropWhile]

theorem Resolves.resolve {outcome : Except Fault Location} (resolves : d.Resolves names outcome)
    (noDot : "." ∉ names) : d.resolve names = outcome := by
  cases resolves with
  | arrives noNul arrives => exact resolve_of_arrives arrives noDot noNul
  | unnamed noNul arrives nul => exact resolve_of_unnamed noNul arrives nul noDot
  | unnamedBehind noNul circles nul =>
    rw [resolve_of_circles noNul circles noDot, lookAgain, if_pos (any_hasNul_eq_true_iff.2 nul)]
  | circle noNul circles readable loop =>
    rw [resolve_of_circles noNul circles noDot, lookAgain, any_hasNul_eq_false_iff.2 readable,
      if_neg Bool.false_ne_true, loop]
  | avoided noNul circles readable noLoop =>
    rw [resolve_of_circles noNul circles noDot, lookAgain, any_hasNul_eq_false_iff.2 readable,
      if_neg Bool.false_ne_true]
    split
    · exact absurd ‹_› noLoop
    · rfl

/-- Every way to resolve names is one of these. -/
theorem exists_resolves (d : Disk) (names : List String) : ∃ outcome, d.Resolves names outcome := by
  rw [← List.takeWhile_append_dropWhile (p := (!hasNul ·)) (l := names)]
  have noNul := takeWhile_noNul names
  rcases d.arrives_or_circles_root (names.takeWhile (!hasNul ·)) with
    ⟨l, arrives⟩ | ⟨left, circles⟩
  · rcases behind : names.dropWhile (!hasNul ·) with _ | ⟨name, rest⟩
    · rw [List.append_nil]
      exact ⟨_, .arrives noNul arrives⟩
    · have first := List.head?_dropWhile_not (!hasNul ·) names
      rw [behind, List.head?_cons] at first
      exact ⟨_, .unnamed noNul arrives (hasNul_eq_true_iff.1 (by simpa using first))⟩
  · generalize names.dropWhile (!hasNul ·) = rest
    by_cases nul : ∃ name ∈ normalized (left ++ rest), HasNul name
    · exact ⟨_, .unnamedBehind noNul circles nul⟩
    have readable : ∀ name ∈ normalized (left ++ rest), ¬HasNul name := by simpa using nul
    by_cases loop : d.enter (normalized (left ++ rest)) = .error .loop
    · exact ⟨_, .circle noNul circles readable loop⟩
    · exact ⟨_, .avoided noNul circles readable loop⟩

theorem resolve_eq_iff {outcome : Except Fault Location} (noDot : "." ∉ names) :
    d.resolve names = outcome ↔ d.Resolves names outcome := by
  refine ⟨?_, fun resolves => resolves.resolve noDot⟩
  rintro rfl
  obtain ⟨outcome, resolves⟩ := d.exists_resolves names
  rwa [resolves.resolve noDot]

/-- Names are resolved to a place whose names lead down only. -/
theorem Resolves.plain (resolves : d.Resolves names (.ok l)) (noDot : "." ∉ names) :
    ∀ name ∈ l, IsPlain name := by
  cases resolves with
  | arrives _ arrives => exact (arrives.settled settled_nil).plain
  | avoided _ circles =>
    intro name mem
    rw [normalized_eq_descend (circles.noDot_append noDot)] at mem
    exact ((mem_of_mem_descend mem).resolve_left List.not_mem_nil).2

/-- What leads down behind a circle is among the names that are left. -/
theorem Circles.mem_left (circles : d.Circles [] [] front left)
    (plain : ∀ name ∈ front ++ rest, IsPlain name) (mem : name ∈ rest) :
    name ∈ normalized (left ++ rest) := by
  have noDot : "." ∉ front ++ rest := fun dot => (plain "." dot).1 rfl
  rw [normalized_eq_descend (circles.noDot_append noDot), descend_append,
    descend_plain (List.forall_mem_append.1 plain).2]
  exact List.mem_append_right _ mem

/-- Names that lead down only are not resolved if one of them cannot be looked up: behind a circle
it is still met on what is left of them. -/
theorem resolve_of_plain_of_nul (plain : ∀ name ∈ names, IsPlain name)
    (nul : ∃ name ∈ names, HasNul name) :
    d.resolve names = .error (.wrongValue "embedded null byte") := by
  have noDot : "." ∉ names := fun dot => (plain "." dot).1 rfl
  obtain ⟨name, mem, nul⟩ := nul
  have behind {front rest : List String} (noNul : ∀ name ∈ front, ¬HasNul name)
      (mem : name ∈ front ++ rest) : name ∈ rest :=
    (List.mem_append.1 mem).resolve_left fun first => noNul name first nul
  obtain ⟨outcome, resolves⟩ := d.exists_resolves names
  rw [resolves.resolve noDot]
  cases resolves with
  | arrives noNul => exact absurd nul (noNul name mem)
  | unnamed => rfl
  | unnamedBehind => rfl
  | circle noNul circles readable =>
    exact absurd nul (readable name (circles.mem_left plain (behind noNul mem)))
  | avoided noNul circles readable =>
    exact absurd nul (readable name (circles.mem_left plain (behind noNul mem)))

end PackageRisk.Disk
