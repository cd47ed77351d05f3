import PackageRisk.Proofs.Disk.Entering

/-!
# Parts of a disk

A disk is cut in two by a kind of places, closed downwards: the entries there are one part
(`part`), and the others make up a disk of their own (`without`). A step that sets an entry
outside of a part leaves the part as it is and does the same where the part is missing.

`Spares` says of two disks that one part is the same on both while anything may be different in
another, and that in the rest there are only more directories.
-/

namespace PackageRisk.Disk

open Location

variable {d d' d'' : Disk} {far own free : Location → Bool} {made P : Location → Prop}
  {k l w : Location} {e : Entry}

/-- The entries at places of a kind. -/
def part (d : Disk) (far : Location → Bool) : List (Location × Entry) :=
  d.entries.filter fun e => far e.1

/-- A disk without the entries at places of a kind. -/
def without (d : Disk) (far : Location → Bool) : Disk :=
  ⟨d.entries.filter fun e => !far e.1⟩

/-- The places at and below one. -/
def inside (w : Location) : Location → Bool := fun l => l.isWithin w

theorem inside_iff : inside w l = true ↔ w <+: l := Location.isWithin_iff

theorem inside_eq_false_iff : inside w l = false ↔ Outside w l := by
  rw [← Bool.not_eq_true, inside_iff]
  rfl

theorem prune_eq_without : d.prune w = d.without (inside w) := rfl

theorem without_of_none (none : ∀ l, far l = false) : d.without far = d := by
  have all : d.entries.filter (fun e => !far e.1) = d.entries :=
    List.filter_eq_self.2 fun e _ => by rw [none e.1]; rfl
  rw [without, all]

/-! ## What is there -/

theorem lookup_filter (keep : Location → Bool) (entries : List (Location × Entry)) :
    (entries.filter fun e => keep e.1).lookup k =
      if keep k = true then entries.lookup k else none := by
  induction entries with
  | nil => simp
  | cons first rest ih =>
    obtain ⟨m, old⟩ := first
    by_cases kept : keep m = true
    · rw [List.filter_cons_of_pos (by simpa using kept), lookup_cons_eq, lookup_cons_eq, ih]
      by_cases same : k = m <;> simp [same, kept]
    · rw [List.filter_cons_of_neg (by simpa using kept), lookup_cons_eq, ih]
      by_cases same : k = m <;> simp [same, kept]

theorem at?_without (near : far l = false) : (d.without far).at? l = d.at? l := by
  rcases eq_or_ne l [] with rfl | ne
  · rfl
  · rw [at?_of_ne_root ne, at?_of_ne_root ne, without, lookup_filter fun l => !far l,
      if_pos (by simp [near])]

/-- What is at a place is decided by the part that the place belongs to. -/
theorem at?_eq_of_part (same : d'.part own = d.part own) (place : own l = true) :
    d'.at? l = d.at? l := by
  rcases eq_or_ne l [] with rfl | ne
  · rfl
  · have looked := congrArg (List.lookup l) same
    rw [part, part, lookup_filter, lookup_filter, if_pos place, if_pos place] at looked
    rwa [at?_of_ne_root ne, at?_of_ne_root ne]

theorem part_eq_nil (gone : ∀ l, own l = true → d.at? l = none) : d.part own = [] :=
  List.filter_eq_nil_iff.2 fun _ mem place => at?_ne_none_of_mem mem (gone _ place)

/-- What is read off the entries at and below a place is the same without others. -/
theorem filterMap_without {α : Type} {f : Location × Entry → Option α}
    (near : ∀ k, l <+: k → far k = false) (outside : ∀ e, e.1.isWithin l = false → f e = none) :
    (d.without far).entries.filterMap f = d.entries.filterMap f := by
  unfold without
  rw [List.filterMap_filter]
  refine List.filterMap_congr fun e _ => ?_
  by_cases below : l <+: e.1
  · rw [near _ below, Bool.not_false, if_pos rfl]
  · rw [outside e (inside_eq_false_iff.2 below), ite_self]

theorem names_without (near : ∀ k, l <+: k → far k = false) :
    (d.without far).names l = d.names l :=
  filterMap_without near fun e outside => by simp [outside]

theorem below_without (near : ∀ k, l <+: k → far k = false) :
    (d.without far).below l = d.below l :=
  filterMap_without near fun e outside => by simp [outside]

/-! ## Setting and removing entries -/

theorem filter_putEntry (keep : Location → Bool) (entries : List (Location × Entry)) :
    (putEntry l e entries).filter (fun e => keep e.1) =
      if keep l = true then putEntry l e (entries.filter fun e => keep e.1)
      else entries.filter fun e => keep e.1 := by
  induction entries with
  | nil => by_cases kept : keep l = true <;> simp [putEntry, kept]
  | cons first rest ih =>
    obtain ⟨m, old⟩ := first
    by_cases here : m = l
    · subst here
      by_cases kept : keep m = true <;> simp [putEntry, kept]
    · rw [putEntry, if_neg here]
      by_cases kept : keep m = true
      · rw [List.filter_cons_of_pos (by simpa using kept), ih,
          List.filter_cons_of_pos (by simpa using kept), putEntry, if_neg here]
        split_ifs <;> rfl
      · rw [List.filter_cons_of_neg (by simpa using kept), ih,
          List.filter_cons_of_neg (by simpa using kept)]

/-- What is not among the first entries is set among the others. -/
theorem putEntry_append {front back : List (Location × Entry)} (gone : front.lookup l = none) :
    putEntry l e (front ++ back) = front ++ putEntry l e back := by
  induction front with
  | nil => rfl
  | cons first rest ih =>
    obtain ⟨m, old⟩ := first
    rw [lookup_cons_eq] at gone
    by_cases here : l = m
    · rw [if_pos here] at gone
      cases gone
    · rw [if_neg here] at gone
      rw [List.cons_append, putEntry, if_neg (Ne.symm here), ih gone]
      rfl

theorem part_put (outside : own l = false) : (d.put l e).part own = d.part own := by
  rw [part, put, filter_putEntry, if_neg (by simp [outside])]
  rfl

theorem put_without (near : far l = false) : (d.without far).put l e = (d.put l e).without far := by
  unfold put without
  rw [filter_putEntry fun l => !far l, if_pos (by simp [near])]

theorem part_prune (apart : ∀ k, w <+: k → own k = false) : (d.prune w).part own = d.part own := by
  unfold part prune
  rw [List.filter_filter]
  refine List.filter_congr fun e _ => ?_
  by_cases below : w <+: e.1
  · rw [apart _ below, Bool.false_and]
  · have outside : e.1.isWithin w = false := inside_eq_false_iff.2 below
    rw [outside, Bool.not_false, Bool.and_true]

theorem prune_without : (d.without far).prune w = (d.prune w).without far := by
  unfold prune without
  rw [List.filter_filter, List.filter_filter]
  exact congrArg Disk.mk (List.filter_congr fun _ _ => Bool.and_comm _ _)

/-- What changes at places that are left out does not matter. -/
theorem without_put (hidden : far l = true) : (d.put l e).without far = d.without far := by
  unfold put without
  rw [filter_putEntry fun l => !far l, if_neg (by simp [hidden])]

theorem without_prune (hidden : ∀ k, w <+: k → far k = true) :
    (d.prune w).without far = d.without far := by
  unfold prune without
  rw [List.filter_filter]
  refine congrArg Disk.mk (List.filter_congr fun e _ => ?_)
  by_cases below : w <+: e.1
  · rw [hidden _ below]
    rfl
  · have outside : e.1.isWithin w = false := inside_eq_false_iff.2 below
    rw [outside, Bool.not_false, Bool.and_true]

/-! ## Leaving a part alone -/

/-- One part of two disks is the same, in another one anything may be different, and elsewhere
there are only more directories, at places of a kind. -/
structure Spares (own free : Location → Bool) (made : Location → Prop) (d d' : Disk) : Prop where
  same : d'.part own = d.part own
  rest : ∀ l, own l = false → free l = false →
    d'.at? l = d.at? l ∨ d.at? l = none ∧ d'.at? l = some .directory ∧ made l

namespace Spares

theorem refl (d : Disk) : Spares own free made d d :=
  ⟨rfl, fun _ _ _ => .inl rfl⟩

theorem trans (first : Spares own free made d d') (second : Spares own free made d' d'') :
    Spares own free made d d'' where
  same := second.same.trans first.same
  rest l outside kept := by
    rcases first.rest l outside kept with stays | ⟨gone, there, place⟩
    · rw [← stays]
      exact second.rest l outside kept
    · rcases second.rest l outside kept with stays | ⟨gone', -, -⟩
      · exact .inr ⟨gone, stays.trans there, place⟩
      · rw [there] at gone'
        cases gone'

theorem mono {made' : Location → Prop} (spares : Spares own free made d d')
    (weaker : ∀ l, made l → made' l) : Spares own free made' d d' where
  same := spares.same
  rest l outside kept := (spares.rest l outside kept).imp_right fun ⟨gone, there, place⟩ =>
    ⟨gone, there, weaker l place⟩

theorem at?_eq (spares : Spares own free made d d') (place : own l = true) : d'.at? l = d.at? l :=
  at?_eq_of_part spares.same place

/-- Outside of the part in which anything may change, things are only added. -/
theorem growsOn (spares : Spares own free made d d') :
    GrowsOn (fun l => free l = false) d d' := by
  intro l kept
  by_cases place : own l = true
  · rw [spares.at?_eq place]
    exact .stays _
  · rcases spares.rest l (by simpa using place) kept with stays | ⟨gone, there, -⟩
    · rw [stays]
      exact .stays _
    · rw [gone, there]
      exact .made

theorem put_free (ne : l ≠ []) (outside : own l = false) (place : free l = true) :
    Spares own free made d (d.put l e) where
  same := part_put outside
  rest k _ kept := by
    refine .inl ?_
    rw [at?_put ne, if_neg]
    rintro rfl
    rw [place] at kept
    cases kept

theorem put_directory (ne : l ≠ []) (outside : own l = false) (gone : d.at? l = none)
    (place : made l) : Spares own free made d (d.put l .directory) where
  same := part_put outside
  rest k _ _ := by
    rw [at?_put ne]
    split_ifs with here
    · exact .inr ⟨here ▸ gone, rfl, here ▸ place⟩
    · exact .inl rfl

theorem prune (apart : ∀ k, w <+: k → own k = false) (place : ∀ k, w <+: k → free k = true) :
    Spares own free made d (d.prune w) where
  same := part_prune apart
  rest k _ kept := by
    refine .inl ?_
    rcases eq_or_ne k [] with rfl | some
    · rfl
    · rw [at?_prune some, if_neg]
      intro within
      rw [place k within] at kept
      cases kept

end Spares

end PackageRisk.Disk
