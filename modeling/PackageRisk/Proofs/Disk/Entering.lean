import PackageRisk.Proofs.Disk.Arrivals
import PackageRisk.Proofs.Disk.Contents
import PackageRisk.Proofs.Results

/-!
# What the system enters

Following names looks at nothing but the places on their way. So names lead to the same place on
two disks that are alike there (`enter_congr`), and on a disk that has more there they lead to
the same place if they led to any (`enter_of_growsOn`).

The last name of a way is followed from the place that the others lead to, however many links are
on the way there (`enter_snoc_eq_ok_iff`).
-/

namespace PackageRisk.Disk

open Location

variable {d d' : Disk} {P Q : Location → Prop} {e : Entry} {here l m : Location}
  {name target : String}
  {front names rest : List String} {n : Nat}

/-! ## Kinds of places -/

/-- A kind of places that has the root, and with a place the one above it. -/
structure IsRooted (P : Location → Prop) : Prop where
  root : P []
  up : ∀ l, P l → P l.dropLast

theorem isRooted_anywhere : IsRooted Anywhere := ⟨trivial, fun _ _ => trivial⟩

theorem isRooted_outside {w : Location} (ne : w ≠ []) : IsRooted (Outside w) where
  root within := ne (List.prefix_nil.1 within)
  up l outside within := outside (within.trans ( List.dropLast_prefix l))

theorem IsRooted.and (first : IsRooted P) (second : IsRooted Q) :
    IsRooted fun l => P l ∧ Q l where
  root := ⟨first.root, second.root⟩
  up l both := ⟨first.up l both.1, second.up l both.2⟩

theorem IsRooted.linkStart (rooted : IsRooted P) (place : P here) :
    P (linkStart here target) := by
  unfold Disk.linkStart
  split_ifs
  · exact rooted.root
  · exact place

/-- A way through places of a kind ends at such a place. -/
theorem Arrives.ends (arrives : d.Arrives P here names l) (rooted : IsRooted P) (start : P here) :
    P l := by
  induction arrives with
  | here => exact start
  | stay _ _ ih => exact ih start
  | up _ _ ih => exact ih (rooted.up _ start)
  | down _ along _ _ ih => exact ih along
  | link _ _ _ _ _ ihFollowed ih => exact ih (ihFollowed (rooted.linkStart start))

theorem Arrives.initial (arrives : d.Arrives P here names l) (initial : front <+: names) :
    ∃ m, d.Arrives P here front m := by
  obtain ⟨back, rfl⟩ := initial
  obtain ⟨m, first, -⟩ := arrives_append_iff.1 arrives
  exact ⟨m, first⟩

/-- Single dots do not matter on a way. -/
theorem arrives_filter_dot_iff :
    d.Arrives P here (names.filter (· != ".")) l ↔ d.Arrives P here names l := by
  induction names generalizing here with
  | nil => rfl
  | cons name rest ih =>
    by_cases dot : name = "."
    · subst dot
      rw [List.filter_cons_of_neg (by simp), ih]
      refine ⟨.stay rfl, fun arrives => ?_⟩
      generalize same : "." = name at arrives
      cases arrives with
      | stay _ later => exact later
      | up up => exact absurd (same.trans up) (by decide)
      | down plain => exact absurd same.symm plain.1
      | link plain => exact absurd same.symm plain.1
    · have kept : (name :: rest).filter (· != ".") = [name] ++ rest.filter (· != ".") :=
        List.filter_cons_of_pos (by simpa using dot)
      rw [kept, ← List.singleton_append (x := name) (l := rest), arrives_append_iff,
        arrives_append_iff]
      simp only [ih]

/-! ## Disks that are alike on a way -/

/-- A disk after steps that, at places of a kind, only write. -/
def GrowsOn (P : Location → Prop) (d d' : Disk) : Prop :=
  ∀ l, P l → Becomes (d.at? l) (d'.at? l)

theorem Grows.on (grows : d.Grows d') : GrowsOn P d d' := fun l _ => grows l

theorem GrowsOn.link_iff (grows : GrowsOn P d d') (place : P l) :
    d'.at? l = some (.link target) ↔ d.at? l = some (.link target) := by
  have becomes := grows l place
  generalize d.at? l = old at becomes ⊢
  generalize d'.at? l = new at becomes ⊢
  cases becomes <;> simp

theorem GrowsOn.directory (grows : GrowsOn P d d') (place : P l)
    (held : d.at? l = some .directory) : d'.at? l = some .directory := by
  have becomes := grows l place
  rw [held] at becomes
  generalize d'.at? l = new at becomes ⊢
  cases becomes
  rfl

/-- What is found on a disk, and what on one that has grown: the same, unless something was
missing and now is there. -/
def FoundAlike (P : Location → Prop) (d d' : Disk) (found later : Except SystemFault Location) :
    Prop :=
  later = found ∨
    (∃ k, P k ∧ d'.at? k ≠ d.at? k) ∧ (found = .error .absent ∨ found = .error .notDirectory)

section Walk

variable {onLink onLink' : Location → String → List String → Except SystemFault Location}

theorem walk_stop (noDirectory : ¬d.isDirectory here = true) :
    d.walk onLink here (name :: rest) = .error .notDirectory := by
  rw [walk, if_pos (by simpa using noDirectory)]

theorem walk_dot (directory : d.isDirectory here = true) :
    d.walk onLink here ("." :: rest) = d.walk onLink here rest := by
  rw [walk, if_neg (by simp [directory]), if_pos (by decide)]

theorem walk_up (directory : d.isDirectory here = true) :
    d.walk onLink here (".." :: rest) = d.walk onLink here.dropLast rest := by
  rw [walk, if_neg (by simp [directory]), if_neg (by decide), if_pos (by decide)]

theorem walk_plain (directory : d.isDirectory here = true) (plain : IsPlain name) :
    d.walk onLink here (name :: rest) =
      if nameLimit < name.utf8ByteSize then .error .nameTooLong
      else match d.at? (here ++ [name]) with
        | some (.link target) => onLink here target rest
        | some _ => d.walk onLink (here ++ [name]) rest
        | none => .error .absent := by
  rw [walk, if_neg (by simp [directory]), if_neg (by simpa using plain.1)]
  exact if_neg (by simpa using plain.2)

/-- A name leads on from a directory only, and there is one on the larger disk as well. -/
theorem foundAlike_cons (grows : GrowsOn P d d') (start : P here)
    (goesOn : d.isDirectory here = true → d'.isDirectory here = true →
      FoundAlike P d d' (d.walk onLink here (name :: rest)) (d'.walk onLink' here (name :: rest))) :
    FoundAlike P d d' (d.walk onLink here (name :: rest)) (d'.walk onLink' here (name :: rest)) := by
  by_cases directory : d.isDirectory here = true
  · exact goesOn directory (isDirectory_iff.2
      (grows.directory start (isDirectory_iff.1 directory)))
  · rw [walk_stop directory]
    by_cases same : d'.at? here = d.at? here
    · refine .inl (walk_stop ?_)
      simpa [isDirectory, same] using directory
    · exact .inr ⟨⟨here, start, same⟩, .inr rfl⟩

/-- What is below a name is found alike if what is behind it is. -/
theorem foundAlike_down (grows : GrowsOn P d d') (directory : d.isDirectory here = true)
    (directory' : d'.isDirectory here = true) (plain : IsPlain name) (along : P (here ++ [name]))
    (noLink : ∀ target, d.at? (here ++ [name]) ≠ some (.link target))
    (later : FoundAlike P d d' (d.walk onLink (here ++ [name]) rest)
      (d'.walk onLink' (here ++ [name]) rest)) :
    FoundAlike P d d' (d.walk onLink here (name :: rest)) (d'.walk onLink' here (name :: rest)) := by
  have becomes := grows _ along
  rw [walk_plain directory plain, walk_plain directory' plain]
  split_ifs with long
  · exact .inl rfl
  rcases held : d.at? (here ++ [name]) with _ | e
  · by_cases same : d'.at? (here ++ [name]) = d.at? (here ++ [name])
    · rw [same, held]
      exact .inl rfl
    · exact .inr ⟨⟨_, along, same⟩, .inl rfl⟩
  · rw [held] at becomes noLink
    generalize d'.at? (here ++ [name]) = held' at becomes
    cases becomes with
    | stays =>
      cases e with
      | link target => exact absurd rfl (noLink target)
      | file content => exact later
      | directory => exact later
    | rewritten => exact later

/-- One way, if links on it are followed alike. -/
theorem walk_of_growsOn (grows : GrowsOn P d d') (rooted : IsRooted P)
    (alike : ∀ here target rest, P here →
      d.Arrives P (linkStart here target) (Path.components target ++ rest) l →
      FoundAlike P d d' (onLink here target rest) (onLink' here target rest))
    (start : P here) (arrives : d.Arrives P here names l) :
    FoundAlike P d d' (d.walk onLink here names) (d'.walk onLink' here names) := by
  induction arrives with
  | here => exact .inl rfl
  | stay dot _ ih =>
    refine foundAlike_cons grows start fun directory directory' => ?_
    rw [dot, walk_dot directory, walk_dot directory']
    exact ih alike start
  | up up _ ih =>
    refine foundAlike_cons grows start fun directory directory' => ?_
    rw [up, walk_up directory, walk_up directory']
    exact ih alike (rooted.up _ start)
  | down plain along noLink _ ih =>
    exact foundAlike_cons grows start fun directory directory' =>
      foundAlike_down grows directory directory' plain along noLink (ih alike along)
  | @link here _ _ name target rest plain along held followed later _ _ =>
    refine foundAlike_cons grows start fun directory directory' => ?_
    have held' : d'.at? (here ++ [name]) = some (.link target) := (grows.link_iff along).2 held
    rw [walk_plain directory plain, walk_plain directory' plain, held, held']
    split_ifs with long
    · exact .inl rfl
    · exact alike here target rest start (arrives_append_iff.2 ⟨_, followed, later⟩)

end Walk

theorem walkWithin_of_growsOn (grows : GrowsOn P d d') (rooted : IsRooted P) (start : P here)
    (arrives : d.Arrives P here names l) (n : Nat) :
    FoundAlike P d d' (d.walkWithin n here names) (d'.walkWithin n here names) := by
  induction n generalizing here names with
  | zero =>
    exact walk_of_growsOn grows rooted (fun _ _ _ _ _ => .inl rfl) start arrives
  | succ n ih =>
    refine walk_of_growsOn grows rooted (fun here target rest place linked => ?_) start arrives
    exact ih (rooted.linkStart place) linked

theorem enter_alike (grows : GrowsOn P d d') (rooted : IsRooted P)
    (arrives : d.Arrives P [] names l) :
    FoundAlike P d d' (d.enter names) (d'.enter names) := by
  unfold enter
  split_ifs
  · exact .inl rfl
  · exact walkWithin_of_growsOn grows rooted rooted.root arrives linkLimit

/-- Names lead to the same place on a disk that is the same along their way. -/
theorem enter_congr (rooted : IsRooted P) (same : ∀ k, P k → d'.at? k = d.at? k)
    (arrives : d.Arrives P [] names l) : d'.enter names = d.enter names := by
  have grows : GrowsOn P d d' := fun k place => by
    rw [same k place]
    exact .stays _
  rcases enter_alike grows rooted arrives with alike | ⟨⟨k, place, differs⟩, -⟩
  · exact alike
  · exact absurd (same k place) differs

/-- Names that lead to a place lead there on a disk that has more along their way. -/
theorem enter_of_growsOn (grows : GrowsOn P d d') (rooted : IsRooted P)
    (arrives : d.Arrives P [] names l) (entered : d.enter names = .ok m) :
    d'.enter names = .ok m := by
  rcases enter_alike grows rooted arrives with alike | ⟨-, missing⟩
  · rw [alike, entered]
  · rw [entered] at missing
    rcases missing with missing | missing <;> cases missing

/-- Names that are too long stay so. -/
theorem enter_tooLong (grows : GrowsOn P d d') (rooted : IsRooted P)
    (arrives : d.Arrives P [] names l) (long : d.enter names = .error .nameTooLong) :
    d'.enter names = .error .nameTooLong := by
  rcases enter_alike grows rooted arrives with alike | ⟨-, missing⟩
  · rw [alike, long]
  · rw [long] at missing
    rcases missing with missing | missing <;> cases missing

/-! ## The last name of a way -/

/-- What following one way after another comes to: the first leads to a place, and the second is
followed from there with the links that are left, or the first fails already. -/
def Splits (d : Disk) (follow : List String → Except SystemFault Location) : Prop :=
  (∃ m k, ∀ rest, follow rest = d.walkWithin k m rest) ∨ ∃ e, ∀ rest, follow rest = .error e

theorem walk_splits {onLink : Location → String → List String → Except SystemFault Location}
    (stops : ∀ here, d.Splits (d.walk onLink here))
    (linked : ∀ here target front, d.Splits fun rest => onLink here target (front ++ rest)) :
    d.Splits fun rest => d.walk onLink here (front ++ rest) := by
  induction front generalizing here with
  | nil => exact stops here
  | cons name front ih =>
    by_cases directory : d.isDirectory here = true
    swap
    · exact .inr ⟨_, fun rest => walk_stop directory⟩
    by_cases dot : name = "."
    · subst dot
      simp only [List.cons_append, walk_dot directory]
      exact ih
    by_cases up : name = ".."
    · subst up
      simp only [List.cons_append, walk_up directory]
      exact ih
    simp only [List.cons_append, walk_plain directory ⟨dot, up⟩]
    split_ifs
    · exact .inr ⟨_, fun _ => rfl⟩
    · split
      · exact linked _ _ _
      · exact ih
      · exact .inr ⟨_, fun _ => rfl⟩

theorem walkWithin_splits (n : Nat) (here : Location) (front : List String) :
    d.Splits fun rest => d.walkWithin n here (front ++ rest) := by
  induction n generalizing here front with
  | zero =>
    refine walk_splits (fun here => .inl ⟨here, 0, fun _ => rfl⟩) ?_
    exact fun _ _ _ => .inr ⟨.loop, fun _ => rfl⟩
  | succ n ih =>
    refine walk_splits (fun here => .inl ⟨here, n + 1, fun _ => rfl⟩) fun here target front => ?_
    simp only [← List.append_assoc]
    exact ih _ _

theorem walkWithin_nil : d.walkWithin n here [] = .ok here := by
  cases n <;> rfl

/-- A way that was followed to a place goes on from there. -/
theorem walkWithin_append (walked : d.walkWithin n here front = .ok m) :
    ∃ k, ∀ rest, d.walkWithin n here (front ++ rest) = d.walkWithin k m rest := by
  rcases walkWithin_splits (d := d) n here front with ⟨m', k, goesOn⟩ | ⟨e, fails⟩
  · have same := goesOn []
    simp only [List.append_nil, walked, walkWithin_nil, Except.ok.injEq] at same
    rw [same]
    exact ⟨k, goesOn⟩
  · have same := fails []
    simp only [List.append_nil, walked] at same
    cases same

theorem walkWithin_initial (walked : d.walkWithin n here (front ++ rest) = .ok l) :
    ∃ m, d.walkWithin n here front = .ok m := by
  rcases walkWithin_splits (d := d) n here front with ⟨m, k, goesOn⟩ | ⟨e, fails⟩
  · have first := goesOn []
    simp only [List.append_nil, walkWithin_nil] at first
    exact ⟨m, first⟩
  · have same := fails rest
    simp only [walked] at same
    cases same

theorem walkWithin_single_eq_ok_iff (plain : IsPlain name)
    (noLink : ∀ target, d.at? (here ++ [name]) ≠ some (.link target)) :
    d.walkWithin n here [name] = .ok l ↔ d.Leads here name ∧ l = here ++ [name] := by
  have single (onLink : Location → String → List String → Except SystemFault Location) :
      d.walk onLink here [name] = d.follow here [name] := by
    unfold follow
    by_cases directory : d.isDirectory here = true
    · rw [walk_plain directory plain, walk_plain directory plain]
      split_ifs
      · rfl
      · split
        · exact absurd ‹_› (noLink _)
        · rfl
        · rfl
    · rw [walk_stop directory, walk_stop directory]
  have followed : d.walkWithin n here [name] = d.follow here [name] := by
    cases n <;> exact single _
  rw [followed, follow_single_eq_ok_iff, step_plain plain]
  rwa [step_plain plain]

theorem enter_eq_ok_iff_walkWithin :
    d.enter names = .ok l ↔ Fits names ∧ d.walkWithin linkLimit [] names = .ok l := by
  unfold enter Fits
  split_ifs with long
  · exact iff_of_false nofun fun fits => not_lt.2 long fits.1
  · exact (and_iff_right (not_le.1 long)).symm

/-- One more name is followed from the place that a way leads to. -/
theorem enter_snoc_of_enter (name : String) (entered : d.enter front = .ok m) :
    ∃ k, d.enter (front ++ [name]) =
      if pathLimit ≤ (Location.text (front ++ [name])).utf8ByteSize then .error .nameTooLong
      else d.walkWithin k m [name] := by
  obtain ⟨-, walked⟩ := enter_eq_ok_iff_walkWithin.1 entered
  obtain ⟨k, goesOn⟩ := walkWithin_append walked
  exact ⟨k, by rw [enter, goesOn]⟩

/-- A way that is followed is followed as far as each of its names. -/
theorem enter_initial (entered : d.enter (front ++ rest) = .ok l) : ∃ m, d.enter front = .ok m := by
  obtain ⟨fits, walked⟩ := enter_eq_ok_iff_walkWithin.1 entered
  obtain ⟨m, first⟩ := walkWithin_initial walked
  exact ⟨m, enter_eq_ok_iff_walkWithin.2 ⟨fits.of_initial (List.prefix_append _ _), first⟩⟩

/-- The system enters the last place of a way from the one that the other names lead to. -/
theorem enter_snoc_eq_ok_iff (plain : IsPlain name) (entered : d.enter front = .ok m)
    (noLink : ∀ target, d.at? (m ++ [name]) ≠ some (.link target)) :
    d.enter (front ++ [name]) = .ok l ↔
      Fits (front ++ [name]) ∧ d.Leads m name ∧ l = m ++ [name] := by
  obtain ⟨k, last⟩ := enter_snoc_of_enter name entered
  rw [last]
  unfold Fits
  split_ifs with long
  · exact iff_of_false nofun fun fits => not_lt.2 long fits.1
  · rw [walkWithin_single_eq_ok_iff plain noLink, and_iff_right (not_le.1 long)]

/-- Names that lead to something in a directory are followed unless they are too long. -/
theorem enter_snoc_of_there (plain : IsPlain name) (entered : d.enter front = .ok m)
    (directory : d.at? m = some .directory) (there : d.at? (m ++ [name]) ≠ none)
    (noLink : ∀ target, d.at? (m ++ [name]) ≠ some (.link target)) :
    d.enter (front ++ [name]) = .ok (m ++ [name]) ∨
      d.enter (front ++ [name]) = .error .nameTooLong := by
  obtain ⟨k, last⟩ := enter_snoc_of_enter name entered
  rw [last]
  split_ifs with long
  · exact .inr rfl
  · by_cases short : name.utf8ByteSize ≤ nameLimit
    · exact .inl ((walkWithin_single_eq_ok_iff plain noLink).2
        ⟨⟨directory, fun _ => ⟨short, there⟩⟩, rfl⟩)
    · refine .inr ?_
      cases k <;>
      · rw [walkWithin, walk_plain (isDirectory_iff.2 directory) plain, if_pos (not_le.1 short)]

/-! ## Places above the end of a way -/

/-- A place that is below directories only. -/
def Housed (d : Disk) (l : Location) : Prop :=
  ∀ k, k <+: l → k ≠ l → d.at? k = some .directory

theorem housed_nil : d.Housed [] := fun _ initial ne => absurd (List.prefix_nil.1 initial) ne

theorem Housed.up (housed : d.Housed l) : d.Housed l.dropLast := by
  intro k initial ne
  refine housed k (initial.trans ( List.dropLast_prefix l)) ?_
  rintro rfl
  exact ne (initial.eq_of_length_le (by simp))

theorem Housed.down (housed : d.Housed l) (directory : d.at? l = some .directory) :
    d.Housed (l ++ [name]) := by
  intro k initial ne
  rcases List.prefix_concat_iff.1 initial with same | initial
  · exact absurd same ne
  · by_cases same : k = l
    · rw [same, directory]
    · exact housed k initial same

theorem Housed.linkStart (housed : d.Housed l) : d.Housed (linkStart l target) := by
  unfold Disk.linkStart
  split_ifs
  · exact housed_nil
  · exact housed

theorem housed_of_walk {onLink : Location → String → List String → Except SystemFault Location}
    (follows : ∀ here target rest l, d.Housed here → onLink here target rest = .ok l → d.Housed l)
    (housed : d.Housed here) (walked : d.walk onLink here names = .ok l) : d.Housed l := by
  induction names generalizing here with
  | nil =>
    cases walked
    exact housed
  | cons name rest ih =>
    rw [walk] at walked
    split_ifs at walked with noDirectory
    · exact ih housed walked
    · exact ih housed.up walked
    · have directory : d.at? here = some .directory := by
        rw [← isDirectory_iff]
        simpa using noDirectory
      split at walked
      · exact follows _ _ _ _ housed walked
      · exact ih (housed.down directory) walked
      · cases walked

theorem housed_of_walkWithin (housed : d.Housed here) (walked : d.walkWithin n here names = .ok l) :
    d.Housed l := by
  induction n generalizing here names l with
  | zero => exact housed_of_walk (fun _ _ _ _ _ followed => by cases followed) housed walked
  | succ n ih =>
    exact housed_of_walk (fun _ _ _ _ housed followed => ih housed.linkStart followed) housed walked

/-- What the system enters is below directories only. -/
theorem housed_of_enter (entered : d.enter names = .ok l) : d.Housed l :=
  housed_of_walkWithin housed_nil (enter_eq_ok_iff_walkWithin.1 entered).2

/-- A way goes on from a directory only. -/
theorem directory_of_enter (entered : d.enter front = .ok m)
    (goesOn : d.enter (front ++ name :: rest) = .ok l) : d.at? m = some .directory := by
  obtain ⟨k, later⟩ := walkWithin_append (enter_eq_ok_iff_walkWithin.1 entered).2
  have walked := (enter_eq_ok_iff_walkWithin.1 goesOn).2
  rw [later] at walked
  rw [← isDirectory_iff]
  by_contra noDirectory
  cases k <;>
  · rw [walkWithin, walk_stop noDirectory] at walked
    cases walked

/-! ## New places -/

theorem IsRoom.arrives (room : d.IsRoom front here name) :
    d.Arrives Anywhere [] (front ++ [name]) (here ++ [name]) := by
  refine (arrives_of_enter room.entered).snoc room.plain trivial fun target => ?_
  rw [room.gone]
  exact nofun

theorem arrives_of_vacancy (vacant : d.vacancy names = .ok l) : d.Arrives Anywhere [] names l := by
  rcases List.eq_nil_or_concat names with rfl | ⟨front, name, rfl⟩
  · cases vacant
  · rw [List.concat_eq_append] at *
    obtain ⟨here, room, rfl⟩ := vacancy_eq_ok_iff.1 vacant
    exact room.arrives

/-- What was put where there was room is entered. -/
theorem IsRoom.enter_put (room : d.IsRoom front here name) (noLink : ∀ target, e ≠ .link target)
    (grows : d.Grows (d.put (here ++ [name]) e)) :
    (d.put (here ++ [name]) e).enter (front ++ [name]) = .ok (here ++ [name]) := by
  have held : (d.put (here ++ [name]) e).at? (here ++ [name]) = some e := at?_put_self (by simp)
  have entered := enter_of_growsOn grows.on isRooted_anywhere (arrives_of_enter room.entered)
    room.entered
  refine (enter_snoc_eq_ok_iff room.plain entered ?_).2 ⟨room.fits, ⟨?_, fun _ => ⟨room.short, ?_⟩⟩,
    rfl⟩
  · rw [held]
    exact fun target link => noLink target (Option.some.inj link)
  · exact grows.directory room.directory
  · rw [held]
    exact nofun

/-- A place where an entry can be: one is there, or it is in a directory. -/
structure HasRoom (d : Disk) (l : Location) : Prop where
  ne_nil : l ≠ []
  above : d.at? l = none → d.at? l.dropLast = some .directory

theorem HasRoom.of_there (ne : l ≠ []) (there : d.at? l ≠ none) : d.HasRoom l :=
  ⟨ne, fun gone => absurd gone there⟩

theorem IsRoom.hasRoom (room : d.IsRoom front here name) : d.HasRoom (here ++ [name]) := by
  refine ⟨by simp, fun _ => ?_⟩
  rw [List.dropLast_concat]
  exact room.directory

/-- A directory is made where names lead and nothing is, or nothing changes. -/
theorem makeDirectory_inv (d : Disk) (names : List String) :
    (∃ e, d.makeDirectory names = (.error e, d)) ∨
      ∃ l, d.makeDirectory names = (.ok (), d.put l .directory) ∧ d.HasRoom l ∧ d.at? l = none ∧
        d.Arrives Anywhere [] names l ∧ (d.put l .directory).enter names = .ok l := by
  unfold makeDirectory
  rcases vacant : d.vacancy names with e | l
  · exact .inl ⟨e, rfl⟩
  · rcases List.eq_nil_or_concat names with rfl | ⟨front, name, rfl⟩
    · cases vacant
    · rw [List.concat_eq_append] at *
      obtain ⟨here, room, rfl⟩ := vacancy_eq_ok_iff.1 vacant
      refine .inr ⟨_, rfl, room.hasRoom, room.gone, room.arrives, ?_⟩
      refine room.enter_put nofun (grows_put (by simp) ?_)
      rw [room.gone]
      exact .made

/-- Names lead nowhere new, or the last of them leads one down. -/
theorem special_or_plain (names : List String) :
    (names = [] ∨ ∃ name, names.getLast? = some name ∧ ¬IsPlain name) ∨
      ∃ name, names.getLast? = some name ∧ IsPlain name := by
  rcases last : names.getLast? with _ | name
  · exact .inl (.inl (List.getLast?_eq_none_iff.1 last))
  · by_cases plain : IsPlain name
    · exact .inr ⟨name, rfl, plain⟩
    · exact .inl (.inr ⟨name, rfl, plain⟩)

theorem write_of_special (content : ByteArray)
    (special : names = [] ∨ ∃ name, names.getLast? = some name ∧ ¬IsPlain name) :
    d.write names content = (.error .isDirectory, d) := by
  unfold write
  rcases special with rfl | ⟨name, last, special⟩
  · rfl
  · rw [last]
    by_cases dot : name = "."
    · subst dot
      rfl
    · obtain rfl := not_not.1 fun up => special ⟨dot, up⟩
      rfl

/-- A file that names lead to is written anew, and they lead to it afterwards. -/
theorem enter_put_again {old : ByteArray} (entered : d.enter names = .ok l)
    (held : d.at? l = some (.file old)) (content : ByteArray) :
    Becomes (d.at? l) (some (.file content)) ∧
      (d.put l (.file content)).enter names = .ok l := by
  have becomes : Becomes (d.at? l) (some (.file content)) := by
    rw [held]
    exact .rewritten old content
  exact ⟨becomes, enter_of_growsOn (grows_put (ne_root_of_held held nofun) becomes).on
    isRooted_anywhere (arrives_of_enter entered) entered⟩

/-- A file is written where there is room, and the names lead to it afterwards. -/
theorem IsRoom.enter_put_file (room : d.IsRoom front here name) (content : ByteArray) :
    Becomes (d.at? (here ++ [name])) (some (.file content)) ∧
      (d.put (here ++ [name]) (.file content)).enter (front ++ [name]) = .ok (here ++ [name]) := by
  have becomes : Becomes (d.at? (here ++ [name])) (some (.file content)) := by
    rw [room.gone]
    exact .written content
  exact ⟨becomes, room.enter_put nofun (grows_put (by simp) becomes)⟩

/-- A file is written where names lead, if nothing or a file is there, or nothing changes. What
is written does not matter for that, and the names lead to it afterwards. -/
theorem write_inv (d : Disk) (names : List String) :
    (∃ e, ∀ content, d.write names content = (.error e, d)) ∨
      ∃ l, d.HasRoom l ∧ d.Arrives Anywhere [] names l ∧ ∀ content,
        d.write names content = (.ok (), d.put l (.file content)) ∧
          Becomes (d.at? l) (some (.file content)) ∧
            (d.put l (.file content)).enter names = .ok l := by
  rcases special_or_plain names with special | ⟨name, last, plain⟩
  · exact .inl ⟨_, fun content => write_of_special content special⟩
  simp only [write_of_plain _ last plain]
  split
  · next l entered =>
    split
    · next old held =>
      have room : d.HasRoom l := by
        refine .of_there (ne_root_of_held held nofun) ?_
        rw [held]
        exact nofun
      exact .inr ⟨l, room, arrives_of_enter entered,
        fun content => ⟨rfl, enter_put_again entered held content⟩⟩
    · exact .inl ⟨_, fun _ => rfl⟩
  · split
    · next l vacant =>
      obtain ⟨front, rfl⟩ := List.getLast?_eq_some_iff.1 last
      obtain ⟨here, room, rfl⟩ := vacancy_eq_ok_iff.1 vacant
      exact .inr ⟨_, room.hasRoom, room.arrives, fun content => ⟨rfl, room.enter_put_file content⟩⟩
    · exact .inl ⟨_, fun _ => rfl⟩
    · exact .inl ⟨_, fun _ => rfl⟩
  · exact .inl ⟨_, fun _ => rfl⟩

theorem put_put {e' : Entry} : (d.put l e).put l e' = d.put l e' := by
  unfold put
  refine congrArg Disk.mk ?_
  induction d.entries with
  | nil => simp [putEntry]
  | cons first rest ih =>
    obtain ⟨k, old⟩ := first
    by_cases here : k = l <;> simp_all [putEntry]

/-- What was written to a file is read from it. -/
theorem read_of_write {content : ByteArray} (written : d.write names content = (.ok (), d')) :
    d'.read names = .ok content := by
  rcases write_inv d names with ⟨e, fails⟩ | ⟨l, room, -, writes⟩
  · rw [fails] at written
    cases written
  · obtain ⟨first, -, entered⟩ := writes content
    rw [first] at written
    cases written
    refine bind_eq_ok.2 ⟨l, entered, ?_⟩
    rw [at?_put_self room.ne_nil]

/-- A file that is written twice holds what was written last. -/
theorem write_write {content content' : ByteArray}
    (written : d.write names content = (.ok (), d')) :
    d'.write names content' = d.write names content' := by
  rcases special_or_plain names with special | ⟨name, last, plain⟩
  · rw [write_of_special content special] at written
    cases written
  rcases write_inv d names with ⟨e, fails⟩ | ⟨l, room, -, writes⟩
  · rw [fails] at written
    cases written
  · obtain ⟨first, -, entered⟩ := writes content
    rw [first] at written
    cases written
    rw [write_of_plain content' last plain, entered, (writes content').1]
    dsimp only
    rw [at?_put_self room.ne_nil]
    dsimp only
    rw [put_put]

end PackageRisk.Disk
