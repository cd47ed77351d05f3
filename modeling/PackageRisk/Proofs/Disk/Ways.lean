import Mathlib.Data.List.TakeWhile
import PackageRisk.Proofs.Disk.Entries

/-!
# Ways without links

Names lead from place to place: one dot stays, two dots lead one up, any other name leads one
down. Where no link is on a way, the system follows it to the place that the names alone
determine, `Location.descend`. `follow_eq_ok_iff` says when a way can be followed, and
`resolve_of_straight` that resolving it never fails.
-/

namespace PackageRisk

namespace Location

/-- A name that leads one down. -/
def IsPlain (name : String) : Prop := name ≠ "." ∧ name ≠ ".."

instance (name : String) : Decidable (IsPlain name) :=
  inferInstanceAs (Decidable (_ ∧ _))

/-- What holds of each name on a way and of one more holds on the way that ends with that. -/
theorem forall_mem_snoc {P : String → Prop} {names : List String} {name : String}
    (all : ∀ other ∈ names, P other) (last : P name) : ∀ other ∈ names ++ [name], P other :=
  List.forall_mem_append.2 ⟨all, List.forall_mem_singleton.2 last⟩

/-- Where one name leads. -/
def step (here : Location) (name : String) : Location :=
  if name = "." then here else if name = ".." then here.dropLast else here ++ [name]

/-- Where names lead. -/
def descend (here : Location) (names : List String) : Location :=
  names.foldl step here

variable {here : Location} {name : String} {front names : List String}

@[simp]
theorem descend_nil : descend here [] = here := rfl

@[simp]
theorem descend_cons : descend here (name :: names) = descend (step here name) names := rfl

theorem descend_append : descend here (front ++ names) = descend (descend here front) names :=
  List.foldl_append

@[simp]
theorem descend_snoc : descend here (front ++ [name]) = step (descend here front) name :=
  descend_append

theorem step_plain (plain : IsPlain name) : step here name = here ++ [name] := by
  rw [step, if_neg plain.1, if_neg plain.2]

@[simp]
theorem step_dot : step here "." = here := rfl

@[simp]
theorem step_up : step here ".." = here.dropLast := rfl

theorem descend_plain (plain : ∀ name ∈ names, IsPlain name) :
    descend here names = here ++ names := by
  induction names generalizing here with
  | nil => simp
  | cons name rest ih =>
    rw [List.forall_mem_cons] at plain
    rw [descend_cons, step_plain plain.1, ih plain.2, List.append_assoc, List.singleton_append]

theorem descend_filter_dot : descend here (names.filter (· != ".")) = descend here names := by
  induction names generalizing here with
  | nil => rfl
  | cons name rest ih =>
    by_cases dot : name = "."
    · subst dot
      rw [List.filter_cons_of_neg (by simp), ih, descend_cons, step_dot]
    · rw [List.filter_cons_of_pos (by simpa using dot), descend_cons, descend_cons, ih]

theorem normalized_eq_descend (noDot : "." ∉ names) : normalized names = descend [] names := by
  have steps : ∀ here, ∀ name ∈ names,
      (if name == ".." then here.dropLast else here ++ [name]) = step here name := by
    intro here name mem
    have : name ≠ "." := fun dot => noDot (dot ▸ mem)
    by_cases up : name = ".." <;> simp [step, this, up]
  exact List.foldl_ext _ _ _ steps

/-- A place that names lead to consists of some of them, and of none that lead elsewhere. -/
theorem mem_of_mem_descend (mem : name ∈ descend here names) :
    name ∈ here ∨ name ∈ names ∧ IsPlain name := by
  induction names generalizing here with
  | nil => exact .inl mem
  | cons first rest ih =>
    rw [descend_cons] at mem
    rcases ih mem with above | ⟨later, plain⟩
    · unfold step at above
      split_ifs at above with dot up
      · exact .inl above
      · exact .inl (List.dropLast_subset _ above)
      · rcases List.mem_append.1 above with above | same
        · exact .inl above
        · rw [List.mem_singleton.1 same]
          exact .inr ⟨List.mem_cons_self, dot, up⟩
    · exact .inr ⟨List.mem_cons_of_mem _ later, plain⟩

theorem length_descend_le (names : List String) : (descend [] names).length ≤ names.length := by
  induction names using List.reverseRecOn with
  | nil => exact Nat.le_refl _
  | append_singleton front name ih =>
    rw [descend_snoc, List.length_append, List.length_singleton]
    unfold step
    split_ifs
    · omega
    · rw [List.length_dropLast]
      omega
    · rw [List.length_append, List.length_singleton]
      omega

/-- The names at the end of a place are among the last ones of those that lead there. -/
theorem drop_descend_subset (n : Nat) (names : List String) :
    (descend [] names).drop n ⊆ names.drop n := by
  induction names using List.reverseRecOn with
  | nil => exact List.Subset.refl _
  | append_singleton front name ih =>
    have short := length_descend_le front
    have longer : front.drop n ⊆ (front ++ [name]).drop n := by
      rw [List.drop_append]
      exact List.subset_append_left _ _
    rw [descend_snoc]
    unfold step
    split_ifs
    · exact List.Subset.trans ih longer
    · refine List.Subset.trans ?_ (List.Subset.trans ih longer)
      rw [List.dropLast_eq_take, List.drop_take]
      exact List.take_subset _ _
    · intro other mem
      rw [List.drop_append, List.mem_append] at mem
      rcases mem with mem | mem
      · exact longer (ih mem)
      · rw [List.drop_append, List.mem_append]
        exact .inr (List.drop_subset_drop_left _ (by omega) mem)

end Location

open Location

namespace Disk

variable {d d' : Disk} {here l : Location} {name : String} {front names : List String}

/-- No link is on a way. -/
def Straight (d : Disk) (here : Location) (names : List String) : Prop :=
  ∀ front, front <+: names → ∀ target, d.at? (here.descend front) ≠ some (.link target)

theorem Straight.mono (straight : d.Straight here names) (initial : front <+: names) :
    d.Straight here front := fun _ shorter => straight _ (shorter.trans initial)

theorem straight_cons_iff :
    d.Straight here (name :: names) ↔
      (∀ target, d.at? here ≠ some (.link target)) ∧ d.Straight (step here name) names := by
  constructor
  · intro straight
    refine ⟨straight [] (List.nil_prefix), fun front initial => ?_⟩
    exact straight (name :: front) ((List.prefix_cons_inj name).2 initial)
  · rintro ⟨start, later⟩ front initial
    rcases front with _ | ⟨first, front⟩
    · exact start
    · obtain ⟨rfl, shorter⟩ := List.cons_prefix_cons.1 initial
      exact later front shorter

theorem straight_snoc_iff :
    d.Straight here (names ++ [name]) ↔
      d.Straight here names ∧
        ∀ target, d.at? (here.descend (names ++ [name])) ≠ some (.link target) := by
  constructor
  · intro straight
    exact ⟨straight.mono (List.prefix_append _ _), straight _ List.prefix_rfl⟩
  · rintro ⟨straight, last⟩ front initial
    rcases List.prefix_concat_iff.1 initial with rfl | shorter
    · exact last
    · exact straight front shorter

theorem Grows.straight (grows : d.Grows d') (straight : d.Straight here names) :
    d'.Straight here names := by
  intro front initial target link
  exact straight front initial target (grows.link_iff.1 link)

theorem Straight.filter_dot (straight : d.Straight here names) :
    d.Straight here (names.filter (· != ".")) := by
  induction names generalizing here with
  | nil => exact straight
  | cons name rest ih =>
    rw [straight_cons_iff] at straight
    by_cases dot : name = "."
    · subst dot
      rw [List.filter_cons_of_neg (by simp)]
      exact ih straight.2
    · rw [List.filter_cons_of_pos (by simpa using dot), straight_cons_iff]
      exact ⟨straight.1, ih straight.2⟩

/-! ## Following -/

/-- Follows names where there are no links. -/
def follow (d : Disk) : Location → List String → Except SystemFault Location :=
  d.walk fun _ _ _ => .error .loop

theorem walk_nil {onLink : Location → String → List String → Except SystemFault Location} :
    d.walk onLink here [] = .ok here := rfl

theorem walk_of_straight
    {onLink : Location → String → List String → Except SystemFault Location}
    (straight : d.Straight here names) : d.walk onLink here names = d.follow here names := by
  induction names generalizing here with
  | nil => rfl
  | cons name rest ih =>
    obtain ⟨-, later⟩ := straight_cons_iff.1 straight
    unfold follow
    rw [walk, walk]
    split_ifs with directory dot up long
    · rfl
    · rw [beq_iff_eq.1 dot] at later
      exact ih later
    · rw [beq_iff_eq.1 up] at later
      exact ih later
    · rfl
    · have plain : IsPlain name := ⟨by simpa using dot, by simpa using up⟩
      rw [step_plain plain] at later
      have noLink := later [] List.nil_prefix
      rw [descend_nil] at noLink
      split
      · exact absurd ‹_› (noLink _)
      · exact ih later
      · rfl

theorem follow_append (straight : d.Straight here front) :
    d.follow here (front ++ names) = (d.follow here front).bind fun l => d.follow l names := by
  induction front generalizing here with
  | nil => rfl
  | cons name rest ih =>
    obtain ⟨-, later⟩ := straight_cons_iff.1 straight
    rw [List.cons_append]
    unfold follow
    rw [walk, walk]
    split_ifs with directory dot up long
    · rfl
    · rw [beq_iff_eq.1 dot] at later
      exact ih later
    · rw [beq_iff_eq.1 up] at later
      exact ih later
    · rfl
    · have plain : IsPlain name := ⟨by simpa using dot, by simpa using up⟩
      rw [step_plain plain] at later
      split
      · rfl
      · exact ih later
      · rfl

/-- A place from which a name leads on. -/
def Leads (d : Disk) (l : Location) (name : String) : Prop :=
  d.at? l = some .directory ∧
    (IsPlain name → name.utf8ByteSize ≤ nameLimit ∧ d.at? (l ++ [name]) ≠ none)

/-- Each name of a way leads on. -/
def IsOpen (d : Disk) (names : List String) : Prop :=
  ∀ front name, front ++ [name] <+: names → d.Leads (descend [] front) name

theorem follow_single_eq_ok_iff (noLink : ∀ target, d.at? (step here name) ≠ some (.link target)) :
    d.follow here [name] = .ok l ↔ d.Leads here name ∧ l = step here name := by
  unfold follow Leads
  rw [walk, ← isDirectory_iff]
  by_cases directory : d.isDirectory here = true
  · by_cases dot : name = "."
    · subst dot
      simpa [directory, IsPlain, walk_nil] using eq_comm
    by_cases up : name = ".."
    · subst up
      simpa [directory, IsPlain, walk_nil] using eq_comm
    have plain : IsPlain name := ⟨dot, up⟩
    rw [step_plain plain] at noLink ⊢
    by_cases long : nameLimit < name.utf8ByteSize
    · simp [directory, dot, up, plain, long, not_le.2 long]
    · cases held : d.at? (here ++ [name]) with
      | none => simp [directory, dot, up, plain, long]
      | some e =>
        cases e with
        | link target => exact absurd held (noLink target)
        | file content =>
          simpa [directory, dot, up, plain, long, not_lt.1 long, walk_nil] using eq_comm
        | directory =>
          simpa [directory, dot, up, plain, long, not_lt.1 long, walk_nil] using eq_comm
  · simp [directory]

theorem IsOpen.mono (isOpen : d.IsOpen names) (initial : front <+: names) : d.IsOpen front :=
  fun first name shorter => isOpen first name (shorter.trans initial)

theorem isOpen_nil : d.IsOpen [] := by
  intro front name initial
  simp at initial

theorem isOpen_snoc_iff :
    d.IsOpen (names ++ [name]) ↔ d.IsOpen names ∧ d.Leads (descend [] names) name := by
  constructor
  · intro isOpen
    exact ⟨isOpen.mono (List.prefix_append _ _), isOpen _ _ List.prefix_rfl⟩
  · rintro ⟨isOpen, leads⟩ front first initial
    rcases List.prefix_concat_iff.1 initial with same | shorter
    · obtain ⟨same, last⟩ := List.append_inj' same rfl
      rw [same, List.singleton_inj.1 last]
      exact leads
    · exact isOpen front first shorter

theorem follow_eq_ok_iff (straight : d.Straight [] names) :
    d.follow [] names = .ok l ↔ d.IsOpen names ∧ l = descend [] names := by
  induction names using List.reverseRecOn generalizing l with
  | nil =>
    refine ⟨?_, ?_⟩
    · rintro ⟨⟩
      exact ⟨isOpen_nil, rfl⟩
    · rintro ⟨-, rfl⟩
      rfl
  | append_singleton front name ih =>
    obtain ⟨straight, noLink⟩ := straight_snoc_iff.1 straight
    rw [descend_snoc] at noLink ⊢
    rw [follow_append straight, isOpen_snoc_iff]
    constructor
    · intro followed
      rcases reached : d.follow [] front with e | here
      · rw [reached] at followed
        cases followed
      · obtain ⟨isOpen, rfl⟩ := (ih straight).1 reached
        rw [reached] at followed
        obtain ⟨leads, rfl⟩ := (follow_single_eq_ok_iff noLink).1 followed
        exact ⟨⟨isOpen, leads⟩, rfl⟩
    · rintro ⟨⟨isOpen, leads⟩, rfl⟩
      rw [(ih straight).2 ⟨isOpen, rfl⟩]
      exact (follow_single_eq_ok_iff noLink).2 ⟨leads, rfl⟩

/-- A way whose text the system accepts. -/
def Fits (names : List String) : Prop := (Location.text names).utf8ByteSize < pathLimit

theorem walkWithin_of_straight (straight : d.Straight here names) (n : Nat) :
    d.walkWithin n here names = d.follow here names := by
  cases n <;> exact walk_of_straight straight

theorem enter_eq_ok_iff (straight : d.Straight [] names) :
    d.enter names = .ok l ↔ Fits names ∧ d.IsOpen names ∧ l = descend [] names := by
  unfold enter Fits
  rw [walkWithin_of_straight straight]
  split_ifs with long
  · exact iff_of_false nofun fun accepted => not_lt.2 long accepted.1
  · rw [follow_eq_ok_iff straight]
    exact ⟨fun followed => ⟨not_le.1 long, followed⟩, fun accepted => accepted.2⟩

/-! ## Places on open ways -/

/-- Above every place that an open way leads to there are directories only. -/
theorem IsOpen.above (isOpen : d.IsOpen names) (initial : l <+: descend [] names)
    (ne : l ≠ descend [] names) : d.at? l = some .directory := by
  induction names using List.reverseRecOn generalizing l with
  | nil => exact absurd (List.prefix_nil.1 initial) ne
  | append_singleton front name ih =>
    obtain ⟨isOpen, directory, -⟩ := isOpen_snoc_iff.1 isOpen
    rw [descend_snoc] at initial ne
    unfold step at initial ne
    split_ifs at initial ne with dot up
    · exact ih isOpen initial ne
    · refine ih isOpen (initial.trans ( List.dropLast_prefix _)) ?_
      rintro rfl
      have root : descend [] front = [] := by
        by_contra some
        have := initial.length_le
        have := List.length_pos_iff.2 some
        rw [List.length_dropLast] at *
        omega
      rw [root] at ne
      exact ne rfl
    · rcases List.prefix_concat_iff.1 initial with rfl | shorter
      · exact absurd rfl ne
      · by_cases same : l = descend [] front
        · rw [same]
          exact directory
        · exact ih isOpen shorter same

/-- An open way leads to something. -/
theorem IsOpen.there (isOpen : d.IsOpen names) : d.at? (descend [] names) ≠ none := by
  rcases List.eq_nil_or_concat names with rfl | ⟨front, name, rfl⟩
  · simp
  · rw [List.concat_eq_append] at *
    obtain ⟨before, directory, later⟩ := isOpen_snoc_iff.1 isOpen
    rw [descend_snoc]
    unfold step
    split_ifs with dot up
    · simp [directory]
    · by_cases root : descend [] front = []
      · simp [root]
      · rw [before.above ( List.dropLast_prefix _)]
        · simp
        · intro same
          have := congrArg List.length same
          have := List.length_pos_iff.2 root
          rw [List.length_dropLast] at *
          omega
    · exact (later ⟨dot, up⟩).2

/-! ## Resolving -/

section Tracing

variable {onLink : Trail → Location → List String → Arrival × Trail} {seen later : Trail}
  {m : Location} {name target : String} {rest left : List String}

theorem trace_up :
    d.trace onLink seen here (".." :: rest) = d.trace onLink seen here.dropLast rest := by
  rw [trace, if_pos (beq_self_eq_true _)]

theorem trace_down (plain : IsPlain name)
    (noLink : ∀ target, d.at? (here ++ [name]) ≠ some (.link target)) :
    d.trace onLink seen here (name :: rest) = d.trace onLink seen (here ++ [name]) rest := by
  rw [trace, if_neg (by simpa using plain.2)]
  dsimp only
  split
  · exact absurd ‹_› (noLink _)
  · rfl

/-- A link that was left before is not followed again. -/
theorem trace_left (plain : IsPlain name) (held : d.at? (here ++ [name]) = some (.link target))
    (known : seen.lookup (here ++ [name]) = some (some m)) :
    d.trace onLink seen here (name :: rest) = d.trace onLink seen m rest := by
  rw [trace, if_neg (by simpa using plain.2)]
  simp only [held, known]

/-- A link that is being followed is a circle. -/
theorem trace_again (plain : IsPlain name) (held : d.at? (here ++ [name]) = some (.link target))
    (pending : seen.lookup (here ++ [name]) = some none) :
    d.trace onLink seen here (name :: rest) = (.stuck (here ++ name :: rest), seen) := by
  rw [trace, if_neg (by simpa using plain.2)]
  simp only [held, pending, List.append_assoc, List.singleton_append]

theorem trace_past (plain : IsPlain name) (held : d.at? (here ++ [name]) = some (.link target))
    (new : seen.lookup (here ++ [name]) = none)
    (followed : onLink ((here ++ [name], none) :: seen) (linkStart here target)
      (Path.components target) = (.reached m, later)) :
    d.trace onLink seen here (name :: rest) =
      d.trace onLink ((here ++ [name], some m) :: later) m rest := by
  rw [trace, if_neg (by simpa using plain.2)]
  simp only [held, new, followed]

theorem trace_into (plain : IsPlain name) (held : d.at? (here ++ [name]) = some (.link target))
    (new : seen.lookup (here ++ [name]) = none)
    (followed : onLink ((here ++ [name], none) :: seen) (linkStart here target)
      (Path.components target) = (.stuck left, later)) :
    d.trace onLink seen here (name :: rest) = (.stuck (left ++ rest), later) := by
  rw [trace, if_neg (by simpa using plain.2)]
  simp only [held, new, followed]

theorem trace_of_straight (straight : d.Straight here names) (noDot : "." ∉ names) :
    d.trace onLink seen here names = (.reached (here.descend names), seen) := by
  induction names generalizing here with
  | nil => rfl
  | cons name rest ih =>
    obtain ⟨-, later⟩ := straight_cons_iff.1 straight
    rw [List.mem_cons, not_or] at noDot
    rw [descend_cons]
    by_cases up : name = ".."
    · rw [up] at later ⊢
      rw [trace_up]
      exact ih later noDot.2
    · have plain : IsPlain name := ⟨Ne.symm noDot.1, up⟩
      rw [step_plain plain] at later ⊢
      have noLink := later [] List.nil_prefix
      rw [descend_nil] at noLink
      rw [trace_down plain noLink]
      exact ih later noDot.2

end Tracing

/-- Whether a text has a character that no path may have. -/
def HasNul (s : String) : Prop := '\x00' ∈ s.toList

instance (s : String) : Decidable (HasNul s) := inferInstanceAs (Decidable (_ ∈ _))

theorem hasNul_eq_true_iff {s : String} : hasNul s = true ↔ HasNul s :=
  List.contains_iff_mem

theorem arrival_of_straight (straight : d.Straight [] names) (noDot : "." ∉ names) :
    d.arrival names = .reached (descend [] names) := by
  rw [arrival, traceWithin, trace_of_straight straight noDot]

/-- Names without such a character before the first one with it. -/
theorem takeWhile_noNul (names : List String) :
    ∀ name ∈ names.takeWhile (!hasNul ·), ¬HasNul name := by
  intro name mem nul
  have readable := List.mem_takeWhile_imp mem
  rw [hasNul_eq_true_iff.2 nul] at readable
  cases readable

theorem readable_of_noNul (noNul : ∀ name ∈ names, ¬HasNul name) :
    ∀ name ∈ names, (!hasNul name) = true := by
  intro name mem
  rw [Bool.not_eq_true', ← Bool.not_eq_true, hasNul_eq_true_iff]
  exact noNul name mem

theorem resolve_of_reached (noNul : ∀ name ∈ names, ¬HasNul name)
    (reached : d.arrival names = .reached l) : d.resolve names = .ok l := by
  rw [resolve, List.takeWhile_eq_self_iff.2 (readable_of_noNul noNul),
    List.dropWhile_eq_nil_iff.2 (readable_of_noNul noNul), reached]

theorem resolve_of_straight (straight : d.Straight [] names) (noDot : "." ∉ names)
    (noNul : ∀ name ∈ names, ¬HasNul name) : d.resolve names = .ok (descend [] names) :=
  resolve_of_reached noNul (arrival_of_straight straight noDot)

/-- A name that cannot be looked up is a fault if no circle of links is met before it. -/
theorem resolve_of_nul (nul : ∃ name ∈ names, HasNul name)
    (reaches : ∀ front, front <+: names → ∃ l, d.arrival front = .reached l) :
    d.resolve names = .error (.wrongValue "embedded null byte") := by
  obtain ⟨l, reached⟩ := reaches _ (List.takeWhile_prefix (!hasNul ·))
  rw [resolve, reached]
  split
  · next none =>
    obtain ⟨name, mem, nul⟩ := nul
    have readable := List.dropWhile_eq_nil_iff.1 none name mem
    rw [hasNul_eq_true_iff.2 nul] at readable
    cases readable
  · rfl
  · next stuck => cases stuck

end Disk

end PackageRisk
