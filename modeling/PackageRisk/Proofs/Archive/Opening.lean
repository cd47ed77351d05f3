import PackageRisk.Proofs.Archive.Together
import PackageRisk.Proofs.Disk.Ensuring

/-!
# Retrievals that make their place

Where the directory of all retrievals is missing, they make it, and those that lead to it, one below
the other; which of them makes which is left open. Until it is there nothing is in it, and what was
made is the same in whatever order it came to be (`Opened`). So a retrieval finds its place when it
needs it, and from then on the others are out of its sight (`Retrieves.keeps_opening`).
-/

namespace PackageRisk.Archive

open Disk Location
open Work (Site Terms Keeps keeps_change keeps_ended keeps_look unlessThere fetched analysis
  analysis_eq visit run_bind_of_ok)

variable {d d' d'' : Disk} {place m l k : Location} {all : List String} {name other : String}
  {settings : ArchiveSettings} {reply reply' : Except Failure Reply}

/-! ## A place that is missing -/

/-- A place that is missing and can be made, with directories below it: no link and no file is on
the way, no name is too long, and where something is missing nothing is below. -/
structure Opens (d : Disk) (place : Location) (all : List String) : Prop where
  plain : ∀ name ∈ place, IsPlain name
  usable : ∀ name ∈ all, d.Usable (place ++ [name])
  gone : d.at? place = none
  clear : ∀ l, l <+: place → d.at? l = none → IsClear d l

theorem IsClear.mono (clear : IsClear d l) (below : l <+: k) : IsClear d k :=
  fun _ within => clear _ (below.trans within)

namespace Opens

theorem isClear (opens : Opens d place all) : IsClear d place :=
  opens.clear place List.prefix_rfl opens.gone

theorem ne_nil (opens : Opens d place all) : place ≠ [] := by
  rintro rfl
  cases opens.gone

theorem descend_eq (opens : Opens d place all) (initial : l <+: place) : descend [] l = l :=
  descend_plain fun name mem => opens.plain name (initial.subset mem)

theorem directory (opens : Opens d place all) (among : name ∈ all) (initial : l <+: place)
    (there : d.at? l ≠ none) : d.at? l = some .directory := by
  have found := (opens.usable name among).of_snoc.directory initial
  rw [opens.descend_eq initial] at found
  exact found there

theorem noLink (opens : Opens d place all) (among : name ∈ all) (initial : l <+: place)
    (target : String) : d.at? l ≠ some (.link target) := by
  intro link
  rw [opens.directory among initial (by rw [link]; exact nofun)] at link
  cases link

/-- Its own names lead to the place and to those above it. -/
theorem settled (opens : Opens d place all) (among : name ∈ all) :
    d.Settled (Outside (place ++ [name])) place := by
  intro front last initial
  exact ⟨opens.plain last (initial.subset (by simp)), outside_of_above initial,
    opens.noLink among initial⟩

theorem ready (opens : Opens d place all) : ∀ name ∈ all, IsReady d place place name := by
  intro name among
  have clear := opens.isClear.mono (List.prefix_append place [name])
  refine ⟨fun dot => ?_, (opens.settled among).arrives, .inr clear, .inr clear⟩
  exact (opens.plain "." dot).1 rfl

/-- Only places above it are on the way to the place. -/
theorem initial_of_onWay (opens : Opens d place all) (among : name ∈ all)
    (onWay : OnWay d place place l) : l <+: place := by
  rcases onWay with ⟨front, initial, arrives⟩ | initial
  · have direct := ((opens.settled among).mono initial).arrives
    rw [arrives.unique direct]
    exact initial
  · exact initial

end Opens

theorem ne_of_within (within : place ++ [name] <+: l) : l ≠ place := by
  rintro rfl
  exact outside_of_above List.prefix_rfl within

/-- On an empty disk every place is missing. -/
theorem opens_empty (ne : place ≠ []) (plain : ∀ name ∈ place, IsPlain name)
    (fit : ∀ name ∈ all, (∀ other ∈ place ++ [name], other.utf8ByteSize ≤ nameLimit) ∧
      Fits (place ++ [name])) : Opens .empty place all := by
  have onlyRoot {l : Location} {e : Entry} (held : Disk.empty.at? l = some e) : e = .directory := by
    rcases eq_or_ne l [] with rfl | ne
    · exact (Option.some.inj held).symm
    · rw [at?_of_ne_root ne] at held
      cases held
  refine ⟨plain, fun name among => ⟨?_, ⟨(fit name among).1, (fit name among).2, ?_⟩, ?_⟩,
    at?_of_ne_root ne, fun l _ gone k below => ?_⟩
  · exact fun front _ target link => Entry.noConfusion (onlyRoot link)
  · exact fun front _ _ content file => Entry.noConfusion (onlyRoot file)
  · exact fun content file => Entry.noConfusion (onlyRoot file)
  · rw [at?_of_ne_root]
    · rfl
    · rintro rfl
      obtain rfl := List.prefix_nil.1 below
      cases gone

/-! ## Making the place -/

/-- The places above one, and itself, at which nothing is, in the order of their making. -/
def missing (d : Disk) (l : Location) : List Location := l.inits.filter fun k => (d.at? k).isNone

theorem mem_missing_iff : k ∈ missing d l ↔ k <+: l ∧ d.at? k = none := by
  simp [missing]

theorem missing_snoc (gone : d.at? (l ++ [name]) = none) :
    missing d (l ++ [name]) = missing d l ++ [l ++ [name]] := by
  simp [missing, List.inits_append, gone]

/-- A disk with directories made down to a place. -/
def made (d : Disk) (l : Location) : Disk := ⟨d.entries ++ (missing d l).map (·, .directory)⟩

theorem lookup_directories (places : List Location) :
    (places.map (·, Entry.directory)).lookup l = if l ∈ places then some .directory else none := by
  induction places with
  | nil => rfl
  | cons first rest ih =>
    rw [List.map_cons, lookup_cons_eq, ih]
    by_cases same : l = first <;> simp [same]

theorem at?_append {own : List (Location × Entry)} (ne : l ≠ []) :
    (⟨d.entries ++ own⟩ : Disk).at? l = (d.at? l).or (own.lookup l) := by
  rw [at?_of_ne_root ne, at?_of_ne_root ne, List.lookup_append]

theorem at?_made : (made d m).at? l = if l ∈ missing d m then some .directory else d.at? l := by
  rcases eq_or_ne l [] with rfl | ne
  · rw [at?_root, at?_root, ite_self]
  · rw [made, at?_append ne, lookup_directories]
    split_ifs with isMissing
    · rw [(mem_missing_iff.1 isMissing).2]
      rfl
    · exact Option.or_none

/-- What has become of a disk when directories were made down to a place, and when that is the whole
way, also things in the directories below. -/
structure Opened (d : Disk) (place : Location) (all : List String) (m : Location) (d' : Disk) :
    Prop where
  initial : m <+: place
  beyond : ∀ l, l <+: place → m <+: l → l ≠ m → d.at? l = none
  entries : ∃ own, d' = ⟨(made d m).entries ++ own⟩ ∧
    (∀ e ∈ own, ∃ name ∈ all, place ++ [name] <+: e.1) ∧ (m ≠ place → own = [])

/-- A disk on which the way is made. -/
def Opening (d : Disk) (place : Location) (all : List String) (d' : Disk) : Prop :=
  ∃ m, Opened d place all m d'

/-- Before anything is made, the way is there up to where something is missing. -/
theorem Opens.opening (opens : Opens d place all) : Opening d place all d := by
  have last (l : Location) (initial : l <+: place) : ∃ m, m <+: l ∧ d.at? m ≠ none ∧
      ∀ k, k <+: l → m <+: k → k ≠ m → d.at? k = none := by
    induction l using List.reverseRecOn with
    | nil =>
      refine ⟨[], List.prefix_rfl, nofun, fun k above _ ne => ?_⟩
      exact absurd (List.prefix_nil.1 above) ne
    | append_singleton front name ih =>
      by_cases there : d.at? (front ++ [name]) = none
      · obtain ⟨m, above, held, beyond⟩ := ih ((List.prefix_append _ _).trans initial)
        refine ⟨m, above.trans (List.prefix_append _ _), held, fun k within past ne => ?_⟩
        rcases List.prefix_concat_iff.1 within with rfl | within
        · exact there
        · exact beyond k within past ne
      · refine ⟨_, List.prefix_rfl, there, fun k within past ne => ?_⟩
        exact absurd (within.eq_of_length_le past.length_le) ne
  obtain ⟨m, initial, held, beyond⟩ := last place List.prefix_rfl
  have none : missing d m = [] := by
    refine List.eq_nil_iff_forall_not_mem.2 fun k isMissing => ?_
    obtain ⟨above, gone⟩ := mem_missing_iff.1 isMissing
    exact held (opens.clear k (above.trans initial) gone m above)
  refine ⟨m, initial, beyond, [], ?_, List.forall_mem_nil _, fun _ => rfl⟩
  simp [made, none]

namespace Opened

/-- On the way, directories are there as far as they were made. -/
theorem at?_initial (opened : Opened d place all m d') (opens : Opens d place all)
    (among : name ∈ all) (initial : l <+: place) :
    d'.at? l = if l <+: m then some .directory else none := by
  obtain ⟨own, rfl, within, -⟩ := opened.entries
  rcases eq_or_ne l [] with rfl | ne
  · rw [if_pos List.nil_prefix, at?_root]
  have outside : own.lookup l = none := by
    refine List.lookup_eq_none_iff.2 fun e mem => bne_iff_ne.2 ?_
    rintro rfl
    obtain ⟨other, -, below⟩ := within e mem
    exact outside_of_above initial below
  rw [at?_append ne, outside, Option.or_none, at?_made]
  split_ifs with isMissing above above
  · rfl
  · exact absurd (mem_missing_iff.1 isMissing).1 above
  · exact opens.directory among initial fun gone => isMissing (mem_missing_iff.2 ⟨above, gone⟩)
  · refine opened.beyond l initial ?_ fun same => above (same ▸ List.prefix_rfl)
    exact (List.prefix_or_prefix_of_prefix opened.initial initial).resolve_right above

/-- Nothing that was made is below the place. -/
theorem lookup_made (opened : Opened d place all m d') (opens : Opens d place all)
    (below : place <+: l) (ne : l ≠ place) : (made d m).entries.lookup l = none := by
  have some : l ≠ [] := fun nil => opens.ne_nil (List.prefix_nil.1 (nil ▸ below))
  rw [← at?_of_ne_root some, at?_made, if_neg, opens.isClear l below]
  intro isMissing
  have above := (mem_missing_iff.1 isMissing).1.trans opened.initial
  exact ne (above.eq_of_length_le below.length_le)

/-- Until the whole way is made, nothing is at its end or below. -/
theorem at?_below (opened : Opened d place all m d') (opens : Opens d place all)
    (among : name ∈ all) (ne : m ≠ place) (below : place <+: l) : d'.at? l = none := by
  by_cases same : l = place
  · subst same
    rw [opened.at?_initial opens among List.prefix_rfl, if_neg]
    exact fun above => ne (opened.initial.eq_of_length_le above.length_le)
  · obtain ⟨own, rfl, -, early⟩ := opened.entries
    have some : l ≠ [] := fun nil => opens.ne_nil (List.prefix_nil.1 (nil ▸ below))
    rw [early ne, List.append_nil, at?_of_ne_root some]
    exact opened.lookup_made opens below same

/-- Entries are set below the place when the whole way is made. -/
theorem put_own (opened : Opened d place all m d') (opens : Opens d place all)
    (among : name ∈ all) {e : Entry} (within : place ++ [name] <+: l) (room : d'.HasRoom l) :
    Opened d place all m (d'.put l e) := by
  have below : place <+: l := (List.prefix_append _ _).trans within
  have ne : l ≠ place := ne_of_within within
  have whole : m = place := by
    by_contra early
    have longer := within.length_le
    rw [List.length_append, List.length_singleton] at longer
    have above : place <+: l.dropLast :=
      List.prefix_of_prefix_length_le below (List.dropLast_prefix l) (by simp; omega)
    have directory := room.above (opened.at?_below opens among early below)
    rw [opened.at?_below opens among early above] at directory
    cases directory
  obtain ⟨own, rfl, places, -⟩ := opened.entries
  refine ⟨opened.initial, opened.beyond, putEntry l e own, ?_, fun entry mem => ?_,
    fun early => absurd whole early⟩
  · exact congrArg Disk.mk (putEntry_append (opened.lookup_made opens below ne))
  · rcases mem_putEntry mem with rfl | mem
    · exact ⟨name, among, within⟩
    · exact places entry mem

theorem prune_own (opened : Opened d place all m d') (opens : Opens d place all) (name : String) :
    Opened d place all m (d'.prune (place ++ [name])) := by
  obtain ⟨own, rfl, places, early⟩ := opened.entries
  have kept : (made d m).entries.filter (fun e => !e.1.isWithin (place ++ [name])) =
      (made d m).entries := by
    refine List.filter_eq_self.2 fun e mem => ?_
    rw [Bool.not_eq_true', ← Bool.not_eq_true, isWithin_iff]
    intro within
    have below : place <+: e.1 := (List.prefix_append _ _).trans within
    exact lookup_ne_none_of_mem mem (opened.lookup_made opens below (ne_of_within within))
  refine ⟨opened.initial, opened.beyond, own.filter fun e => !e.1.isWithin (place ++ [name]), ?_,
    fun e mem => places e (List.mem_filter.1 mem).1, fun ne => by rw [early ne]; rfl⟩
  rw [prune, List.filter_append, kept]

/-- A directory that can be made on the way is the next one. -/
theorem eq_next (opened : Opened d place all m d') (opens : Opens d place all)
    (among : name ∈ all) (initial : l <+: place) (room : d'.HasRoom l) (gone : d'.at? l = none) :
    ∃ last, l = m ++ [last] := by
  have above := room.above gone
  rcases List.eq_nil_or_concat l with rfl | ⟨front, last, rfl⟩
  · exact absurd rfl room.ne_nil
  rw [List.concat_eq_append] at *
  have initial' : front <+: place := (List.prefix_append _ _).trans initial
  rw [List.dropLast_concat, opened.at?_initial opens among initial'] at above
  rw [opened.at?_initial opens among initial] at gone
  split_ifs at above gone with deep shallow
  have below : m <+: front ++ [last] :=
    (List.prefix_or_prefix_of_prefix opened.initial initial).resolve_right shallow
  rcases List.prefix_concat_iff.1 below with same | within
  · exact absurd (same ▸ List.prefix_rfl) shallow
  · exact ⟨last, by rw [within.eq_of_length_le deep.length_le]⟩

/-- The next directory is made below the last one. -/
theorem make (opened : Opened d place all m d') {last : String}
    (initial : m ++ [last] <+: place) :
    Opened d place all (m ++ [last]) (d'.put (m ++ [last]) .directory) := by
  have below : m <+: m ++ [last] := List.prefix_append m [last]
  have shallow : ¬m ++ [last] <+: m := fun deep => absurd deep.length_le (by simp)
  have ne : m ≠ place := by
    rintro rfl
    exact shallow initial
  have next := opened.beyond _ initial below (by simp)
  obtain ⟨own, rfl, -, early⟩ := opened.entries
  refine ⟨initial, fun k within past ne => ?_, [], ?_, List.forall_mem_nil _, fun _ => rfl⟩
  · refine opened.beyond k within (below.trans past) ?_
    rintro rfl
    exact shallow past
  · have free : (made d m).entries.lookup (m ++ [last]) = none := by
      rw [← at?_of_ne_root (by simp), at?_made, if_neg, next]
      exact fun isMissing => shallow (mem_missing_iff.1 isMissing).1
    have appended : putEntry (m ++ [last]) .directory ((made d m).entries ++ []) = _ :=
      putEntry_append free
    rw [put, early ne]
    dsimp only
    rw [appended, made, made, missing_snoc next]
    simp [putEntry]

end Opened

namespace Opening

/-- Each step of a retrieval leaves a disk on which the way is made. -/
theorem does (opening : Opening d place all d') (opens : Opens d place all) {plain : IsPlain name}
    {among : name ∈ all} (staysDown : StaysDown settings reply)
    (does : (siteAmong settings reply plain opens.ready among).Does d' d'') :
    Opening d place all d'' := by
  obtain ⟨m, opened⟩ := opening
  rcases does_cases staysDown does with
    ⟨l, e, within, room, rfl⟩ | rfl | ⟨l, onWay, room, gone, rfl⟩
  · exact ⟨m, opened.put_own opens among within room⟩
  · exact ⟨m, opened.prune_own opens name⟩
  · have initial := opens.initial_of_onWay among onWay
    obtain ⟨last, rfl⟩ := opened.eq_next opens among initial room gone
    exact ⟨_, opened.make initial⟩

theorem guarantee (opening : Opening d place all d') (opens : Opens d place all)
    {plain : IsPlain name} {among : name ∈ all} (staysDown : StaysDown settings reply)
    (guarantee : (siteAmong settings reply plain opens.ready among).terms.guarantee d' d'') :
    Opening d place all d'' := by
  have steps : Relation.ReflTransGen (siteAmong settings reply plain opens.ready among).Does d'
      d'' := guarantee
  clear guarantee
  induction steps with
  | refl => exact opening
  | tail _ does ih => exact ih.does opens staysDown does

/-- Above a directory of the way there are directories. -/
theorem directory (opening : Opening d place all d') (opens : Opens d place all)
    (among : name ∈ all) (initial : l <+: place) (there : d'.at? l = some .directory)
    (above : k <+: l) : d'.at? k = some .directory := by
  obtain ⟨m, opened⟩ := opening
  rw [opened.at?_initial opens among initial] at there
  split_ifs at there with deep
  rw [opened.at?_initial opens among (above.trans initial), if_pos (above.trans deep)]

theorem reachable (opening : Opening d place all d') (opens : Opens d place all)
    (among : name ∈ all) (there : d'.at? place = some .directory) :
    Reachable d place place d' := fun _ onWay =>
  opening.directory opens among List.prefix_rfl there (opens.initial_of_onWay among onWay)

/-- As long as nothing but a directory is at the end of it, the way can be made. -/
theorem usable (opening : Opening d place all d') (opens : Opens d place all)
    (plain : IsPlain name) (among : name ∈ all)
    (own : d'.at? (place ++ [name]) = none ∨ d'.at? (place ++ [name]) = some .directory) :
    d'.Usable (place ++ [name]) := by
  obtain ⟨m, opened⟩ := opening
  refine (opens.usable name among).of_directories fun front initial => ?_
  rcases List.prefix_concat_iff.1 initial with rfl | initial
  · rwa [descend_plain (forall_mem_snoc opens.plain plain), List.nil_append]
  · rw [opens.descend_eq initial, opened.at?_initial opens among initial]
    split_ifs
    · exact .inr rfl
    · exact .inl rfl

end Opening

/-! ## Before a retrieval has its directory -/

/-- One of many retrievals whose place is missing. -/
structure Pioneer (d : Disk) (place : Location) (all : List String) where
  settings : ArchiveSettings
  reply : Except Failure Reply
  name : String
  opens : Opens d place all
  plain : IsPlain name
  among : name ∈ all
  staysDown : StaysDown settings reply

namespace Pioneer

variable {r : Pioneer d place all} {a d₁ : Disk} {front : Location} {last : String}

def site (r : Pioneer d place all) : Site :=
  siteAmong r.settings r.reply r.plain r.opens.ready r.among

def terms (r : Pioneer d place all) : Terms :=
  termsAmong r.settings r.reply r.plain r.opens.ready r.among (Opening d place all)

theorem plain_names (r : Pioneer d place all) : ∀ name ∈ place ++ [r.name], IsPlain name :=
  forall_mem_snoc r.opens.plain r.plain

/-- What is known before a retrieval has its directory. -/
structure Before (r : Pioneer d place all) (d' : Disk) : Prop where
  opening : Opening d place all d'
  tidy : r.site.Tidy d'
  gone : r.site.Gone d'

theorem Before.stable (before : r.Before d') (others : r.terms.rely d' d'') : r.Before d'' := by
  obtain ⟨others, opening, -⟩ := others before.opening
  obtain ⟨tidy, gone⟩ := r.site.lasts_gone.stable ⟨before.tidy, before.gone⟩ others
  exact ⟨opening, tidy, gone⟩

theorem Before.usable (before : r.Before d') : d'.Usable (place ++ [r.name]) :=
  before.opening.usable r.opens r.plain r.among (.inl (before.gone _ List.prefix_rfl))

theorem initial_of_snoc (initial : front ++ [last] <+: place ++ [name]) : front <+: place := by
  rcases List.prefix_concat_iff.1 initial with same | initial
  · exact (List.append_inj' same rfl).1 ▸ List.prefix_rfl
  · exact (List.prefix_append _ _).trans initial

/-- What comes of making a directory on the way: it is there if the one above is, and nothing is
done otherwise. -/
theorem Before.makeDirectory (before : r.Before d')
    (initial : front ++ [last] <+: place ++ [r.name]) :
    (d'.at? front = some .directory → GoesOn (d'.makeDirectory (front ++ [last])).1 ∧
      (d'.makeDirectory (front ++ [last])).2.at? (front ++ [last]) = some .directory) ∧
    (d'.at? front ≠ some .directory →
      d'.makeDirectory (front ++ [last]) = (.error .absent, d')) := by
  have usable := before.usable.of_initial initial
  have above := initial_of_snoc initial
  have plain : ∀ name ∈ front ++ [last], IsPlain name := fun name mem =>
    r.plain_names name (initial.subset mem)
  constructor
  · intro there
    obtain ⟨goesOn, kept⟩ := makeDirectory_of_there usable.straight usable.makeable
      fun first shorter => by
        rw [r.opens.descend_eq (shorter.trans above),
          before.opening.directory r.opens r.among above there shorter]
        exact nofun
    have makes := makeDirectory_makes last usable.of_snoc.straight
    have directory := (makes.usable usable).directory List.prefix_rfl (kept _ List.prefix_rfl)
    rw [descend_plain plain, List.nil_append] at directory
    exact ⟨goesOn, directory⟩
  · intro missing
    have closed : ¬d'.IsOpen front := by
      intro isOpen
      have there := usable.of_snoc.directory List.prefix_rfl isOpen.there
      rw [r.opens.descend_eq above] at there
      exact missing there
    have fails := enter_of_not_isOpen usable.of_snoc.straight usable.of_snoc.makeable closed
    simp only [Disk.makeDirectory, vacancy, List.getLast?_concat, List.dropLast_concat, fails]
    rfl

/-- A directory is made in one step, on a disk of a kind. -/
theorem keeps_make {names : List String} {P : Disk → Prop}
    {Q : Except SystemFault Unit → Disk → Prop} (initial : names <+: place ++ [r.name])
    (before : ∀ {d'}, P d' → r.Before d') (stable : ∀ {d' d''}, P d' → r.terms.rely d' d'' → P d'')
    (makes : ∀ {d'}, P d' → Q (d'.makeDirectory names).1 (d'.makeDirectory names).2)
    (lasts : ∀ {outcome d' d''}, Q outcome d' → r.terms.rely d' d'' → Q outcome d'')
    (known : P d₁) : Keeps r.terms Q (Work.makeDirectory names) d₁ := by
  have goes : r.site.Goes names := r.site.goes_names.initial initial
  refine keeps_change (fun d' others => ?_) (fun d' others => ?_) fun d' others d'' later => ?_
  · exact Site.guarantees_makeDirectory goes (before (stable known others)).tidy
  · exact goes.skirts.makeDirectory_without (before (stable known others)).tidy
  · exact lasts (makes (stable known others)) later

/-! ## The way -/

/-- The way is made down to a place. -/
structure Reached (r : Pioneer d place all) (l : Location) (d' : Disk) : Prop where
  before : r.Before d'
  directory : d'.at? l = some .directory

theorem near (r : Pioneer d place all) (initial : l <+: place) : r.site.Near l := by
  exact elsewhere_eq_false_iff.2 fun other _ _ => outside_of_above initial

theorem Reached.stable (reached : r.Reached l d') (initial : l <+: place)
    (others : r.terms.rely d' d'') : r.Reached l d'' :=
  ⟨reached.before.stable others, (Site.growsOn_of_rely (others reached.before.opening).1).directory
    (r.near initial) reached.directory⟩

theorem Before.made (before : r.Before d') (initial : l <+: place) :
    r.Before (d'.makeDirectory l).2 := by
  have goes : r.site.Goes l := r.site.goes_temp.initial initial
  obtain ⟨guarantee, known⟩ := (r.site.lasts_gone.makeDirectory goes
    (fun _ => Site.outside_of_initial initial) ⟨before.tidy, before.gone⟩).run
  exact ⟨before.opening.guarantee r.opens r.staysDown guarantee, known.1, known.2⟩

theorem Reached.entered (reached : r.Reached l d') (initial : l <+: place) :
    d'.enter l = .ok l := by
  have usable := reached.before.usable.of_initial (initial.trans (List.prefix_append _ _))
  have laid : d'.IsLaid l := by
    intro front shorter
    rw [r.opens.descend_eq (shorter.trans initial)]
    exact reached.before.opening.directory r.opens r.among initial reached.directory shorter
  refine (enter_eq_ok_iff usable.straight).2 ⟨usable.makeable.fits, ?_, ?_⟩
  · exact laid.isOpen usable.makeable.short
  · exact (r.opens.descend_eq initial).symm

theorem keeps_unlessDirectory {outcome : Except SystemFault Unit} (initial : l <+: place)
    (goesOn : GoesOn outcome) (reached : r.Reached l d₁) :
    Keeps r.terms (fun outcome d' => outcome = .ok () ∧ r.Reached l d')
      (Work.unlessDirectory l outcome) d₁ := by
  have goes : r.site.Goes l := r.site.goes_temp.initial initial
  rcases goesOn with rfl | rfl
  · exact keeps_ended fun _ others => ⟨rfl, reached.stable initial others⟩
  · refine keeps_look (fun d' others => ?_) fun d' others d'' later => ?_
    · have tidy := (reached.stable initial others).before.tidy
      show unlessThere l _ (d'.without r.site.far) = unlessThere l _ d'
      rw [unlessThere, goes.skirts.entryAt?_without tidy]
      rfl
    · replace reached := reached.stable initial others
      refine ⟨?_, reached.stable initial later⟩
      rw [unlessThere, entryAt?, reached.entered initial]
      simp only [reached.directory]

/-- One more directory of the way: where it cannot be made yet, those above are made first. -/
theorem keeps_ensure_snoc {P Q : Except SystemFault Unit → Disk → Prop}
    (initial : front ++ [last] <+: place ++ [r.name]) (before : r.Before d₁)
    (above : ∀ d', r.Before d' → Keeps r.terms
      (fun outcome d' => outcome = .ok () ∧ r.Reached front d') (Work.ensurePath front.reverse) d')
    (makes : ∀ d', r.Reached front d' →
      P (d'.makeDirectory (front ++ [last])).1 (d'.makeDirectory (front ++ [last])).2)
    (lasts : ∀ outcome d' d'', P outcome d' → r.terms.rely d' d'' → P outcome d'')
    (goesOn : ∀ outcome d', P outcome d' → GoesOn outcome)
    (settles : ∀ outcome d', P outcome d' →
      Keeps r.terms Q (Work.unlessDirectory (front ++ [last]) outcome) d') :
    Keeps r.terms Q (Work.ensurePath (front ++ [last]).reverse) d₁ := by
  have first : Keeps r.terms (fun outcome d' => outcome = .error .absent ∧ r.Before d' ∨
      P outcome d') (Work.makeDirectory (front ++ [last])) d₁ := by
    refine keeps_make initial id Before.stable (fun {d'} before => ?_) ?_ before
    · by_cases there : d'.at? front = some .directory
      · exact .inr (makes d' ⟨before, there⟩)
      · rw [(before.makeDirectory initial).2 there]
        exact .inl ⟨rfl, before⟩
    · rintro outcome d' d'' (⟨absent, before⟩ | done) others
      · exact .inl ⟨absent, before.stable others⟩
      · exact .inr (lasts _ _ _ done others)
  have second (d' : Disk) (reached : r.Reached front d') :
      Keeps r.terms P (Work.makeDirectory (front ++ [last])) d' :=
    keeps_make initial Reached.before (fun reached => reached.stable (initial_of_snoc initial))
      (makes _) (lasts _ _ _) reached
  rw [List.reverse_concat, Work.ensurePath, List.reverse_cons, List.reverse_reverse]
  refine first.followedBy fun outcome d' ends => ?_
  rcases ends with ⟨rfl, before⟩ | done
  · refine (above d' before).bind (fun _ d' ends => ?_) fun _ _ ends => ?_
    · exact (second d' ends.2).followedBy settles
    · cases ends.1
  · have ends := settles outcome d' done
    rcases goesOn outcome d' done with rfl | rfl <;> exact ends

/-- A retrieval makes sure of the way, whatever others make of it. -/
theorem keeps_ensureWay (initial : l <+: place) (before : r.Before d₁) :
    Keeps r.terms (fun outcome d' => outcome = .ok () ∧ r.Reached l d')
      (Work.ensurePath l.reverse) d₁ := by
  induction l using List.reverseRecOn generalizing d₁ with
  | nil => exact keeps_ended fun _ others => ⟨rfl, before.stable others, rfl⟩
  | append_singleton front last ih =>
    have initial' := initial.trans (List.prefix_append place [r.name])
    refine keeps_ensure_snoc
      (P := fun outcome d' => GoesOn outcome ∧ r.Reached (front ++ [last]) d') initial' before
      (fun _ => ih ((List.prefix_append _ _).trans initial)) (fun d' reached => ?_)
      (fun _ _ _ ends others => ⟨ends.1, ends.2.stable initial others⟩) (fun _ _ => And.left)
      fun _ _ ends => keeps_unlessDirectory initial ends.1 ends.2
    obtain ⟨goesOn, directory⟩ := (reached.before.makeDirectory initial').1 reached.directory
    exact ⟨goesOn, reached.before.made initial, directory⟩

/-! ## The directory -/

/-- The directory is made, and nothing is in it yet. -/
structure Settled (r : Pioneer d place all) (d' : Disk) : Prop where
  opening : Opening d place all d'
  there : d'.at? place = some .directory
  working : r.site.Working d'
  bare : d'.part (inside r.site.work) = [(r.site.work, .directory)]

theorem Settled.stable (settled : r.Settled d') (others : r.terms.rely d' d'') :
    r.Settled d'' := by
  obtain ⟨others, opening, -⟩ := others settled.opening
  refine ⟨opening, ?_, r.site.lasts_made.stable settled.working others,
    others.same.trans settled.bare⟩
  exact (Site.growsOn_of_rely others).directory (r.near List.prefix_rfl) settled.there

/-- With its directory, the whole way is made. -/
theorem Settled.opened (settled : r.Settled d') : Opened d place all place d' := by
  obtain ⟨m, opened⟩ := settled.opening
  have there := settled.there
  rw [opened.at?_initial r.opens r.among List.prefix_rfl] at there
  split_ifs at there with deep
  obtain rfl := opened.initial.eq_of_length_le deep.length_le
  exact opened

/-- Of the directories below the place, a retrieval has its own in sight and no other. -/
theorem far_eq_not_inside {other : String} (among : other ∈ all) (within : place ++ [other] <+: l) :
    r.site.far l = !inside r.site.work l := by
  by_cases same : other = r.name
  · rw [same] at within
    have within : r.site.work <+: l := within
    rw [r.site.apart _ within, inside_iff.2 within]
    rfl
  · have hidden : r.site.far l = true := elsewhere_iff.2 ⟨other, among, same, within⟩
    have outside : inside r.site.work l = false :=
      inside_eq_false_iff.2 (outside_of_ne same within)
    rw [hidden, outside]
    rfl

/-- What a retrieval has in sight when its directory is made: the way, and the directory. -/
theorem Settled.sight_eq (settled : r.Settled d') : r.site.terms.sight d' =
    ⟨((made d place).without r.site.far).entries ++ [(r.site.work, .directory)]⟩ := by
  have opened := settled.opened
  obtain ⟨own, rfl, places, -⟩ := opened.entries
  have none : (made d place).part (inside r.site.work) = [] := by
    refine part_eq_nil fun l within => ?_
    have within : place ++ [r.name] <+: l := inside_iff.1 within
    have below : place <+: l := (List.prefix_append _ _).trans within
    have some : l ≠ [] := fun nil => r.opens.ne_nil (List.prefix_nil.1 (nil ▸ below))
    rw [at?_of_ne_root some]
    exact opened.lookup_made r.opens below (ne_of_within within)
  have bare := settled.bare
  rw [part, List.filter_append, ← part, none, List.nil_append] at bare
  have seen : own.filter (fun e => !r.site.far e.1) = [(r.site.work, .directory)] := by
    rw [← bare]
    refine List.filter_congr fun e mem => ?_
    obtain ⟨other, among, within⟩ := places e mem
    rw [far_eq_not_inside among within, Bool.not_not]
  show Disk.without _ _ = _
  rw [without, List.filter_append, seen]
  rfl

theorem Reached.made_work (reached : r.Reached place d') :
    (d'.makeDirectory (place ++ [r.name])).1 = .ok () ∧
      r.Settled (d'.makeDirectory (place ++ [r.name])).2 := by
  have before := reached.before
  have directory := ((before.makeDirectory List.prefix_rfl).1 reached.directory).2
  obtain ⟨guarantee, ensured⟩ := (Site.keeps_makeWork ⟨before.tidy, before.gone⟩).run
  have same : (Work.makeDirectory r.site.names).run d' = d'.makeDirectory (place ++ [r.name]) := rfl
  rw [same] at guarantee ensured
  have opening := before.opening.guarantee r.opens r.staysDown guarantee
  rcases makeDirectory_inv d' (place ++ [r.name]) with ⟨e, failed⟩ |
    ⟨l, made, room, gone, arrives, -⟩
  · have gone : d'.at? (place ++ [r.name]) = none := before.gone _ List.prefix_rfl
    rw [failed, gone] at directory
    cases directory
  · obtain rfl := arrives.unique (before.tidy.arrives_iff.2 r.site.arrives_work)
    rw [made] at ensured opening ⊢
    refine ⟨rfl, opening, ?_, ensured, ?_⟩
    · rw [at?_put room.ne_nil, if_neg, reached.directory]
      intro same
      exact absurd (congrArg List.length same) (by simp [Site.work, site, siteAmong, siteAt])
    · have none : d'.part (inside r.site.work) = [] :=
        part_eq_nil fun l within => before.gone l (inside_iff.1 within)
      rw [part, put, filter_putEntry fun l => inside r.site.work l,
        if_pos (inside_iff.2 List.prefix_rfl)]
      rw [part] at none
      rw [none]
      rfl

/-- A retrieval makes its directory, whatever others make of the way there. -/
theorem keeps_ensureWork (before : r.Before d₁) :
    Keeps r.terms (fun outcome d' => outcome = .ok () ∧ r.Settled d')
      (Work.ensurePath (place ++ [r.name]).reverse) d₁ := by
  refine keeps_ensure_snoc (P := fun outcome d' => outcome = .ok () ∧ r.Settled d')
    List.prefix_rfl before (fun _ => keeps_ensureWay List.prefix_rfl) (fun _ => Reached.made_work)
    (fun _ _ _ ends others => ⟨ends.1, ends.2.stable others⟩) (fun _ _ ends => .inl ends.1)
    fun outcome d' ends => ?_
  obtain ⟨rfl, settled⟩ := ends
  exact keeps_ended fun _ others => ⟨rfl, settled.stable others⟩

/-! ## Beside others -/

/-- Cleaning up finds nothing. -/
theorem keeps_cleanUp (path : String) (r : Pioneer d place all) :
    Keeps r.terms (fun outcome d' => outcome = .ok () ∧ r.Before d')
      (Work.cleanUp path (place ++ [r.name])) d := by
  have found : r.site.Found d :=
    (r.opens.ready r.name r.among).found (way_among r.opens.ready r.among)
  have cleans : Keeps r.terms (fun outcome d' => r.site.CleanedUp outcome d' ∧
      Opening d place all d') (Work.cleanUp path (place ++ [r.name])) d :=
    (Site.keeps_cleanUp path found).knowing r.opens.opening fun opening guarantee =>
      opening.guarantee r.opens r.staysDown guarantee
  refine cleans.mono fun outcome d' ⟨cleaned, opening⟩ => ?_
  cases outcome with
  | ok => exact ⟨rfl, opening, cleaned.1, cleaned.2⟩
  | error e =>
    obtain ⟨found, long⟩ := cleaned
    have usable := opening.usable r.opens r.plain r.among
      (found.real.symm.imp_left fun gone => gone _ List.prefix_rfl)
    have enters : d'.enter (place ++ [r.name]) ≠ .error .nameTooLong := by
      by_cases isOpen : d'.IsOpen (place ++ [r.name])
      · rw [(enter_eq_ok_iff usable.straight).2 ⟨usable.makeable.fits, isOpen, rfl⟩]
        exact nofun
      · rw [enter_of_not_isOpen usable.straight usable.makeable isOpen]
        exact nofun
    exact absurd long enters

/-- From when its directory is made, a retrieval ends like one that is alone. -/
theorem Settled.keeps_visit {url path : String} {entropies : Bool} (settled : r.Settled d₁)
    (alone : r.Settled a) :
    Keeps r.terms (fun outcome _ => outcome = ((visit r.settings r.reply (place ++ [r.name]) url
        path entropies).run a).1)
      (visit r.settings r.reply (place ++ [r.name]) url path entropies) d₁ := by
  have visits {d' : Disk} (settled : r.Settled d') : Keeps r.site.terms (fun _ => r.site.Left)
      (visit r.settings r.reply (place ++ [r.name]) url path entropies) d' :=
    Site.keeps_visit (r.opens.ready r.name r.among).noDot
      (goes_among r.plain r.opens.ready r.among r.staysDown) settled.working
  refine (visits settled).unseen settled.opening
    (settled.opening.reachable r.opens r.among settled.there) (fun opening there guarantee => ?_)
    (visits alone) (alone.sight_eq.trans settled.sight_eq.symm)
  exact ⟨opening.guarantee r.opens r.staysDown guarantee,
    reachable_of_guarantee r.staysDown there guarantee⟩

/-- Beside other retrievals, one ends as it does alone. -/
theorem keeps_analysis {url package : String} {entropies : Bool} (r : Pioneer d place all) :
    Keeps r.terms (fun outcome _ => outcome = ((analysis r.settings r.reply (place ++ [r.name]) url
        package entropies).run d).1)
      (analysis r.settings r.reply (place ++ [r.name]) url package entropies) d := by
  by_cases given : url = ""
  · subst given
    exact keeps_ended fun _ _ => rfl
  let path := (workPath r.settings package).text
  rw [analysis_eq given]
  have cleans := keeps_cleanUp path r
  obtain ⟨-, cleaned, before⟩ := cleans.run
  have first : (Work.cleanUp path (place ++ [r.name])).run d = (.ok (), _) := Prod.ext cleaned rfl
  rw [run_bind_of_ok first]
  refine cleans.bind (fun _ d' ends => ?_) fun _ _ ends => absurd ends.1 nofun
  by_cases nul : path.toList.contains '\x00' = true
  · have stops : Work.changing path (Work.ensurePath (place ++ [r.name]).reverse) = .ended _ :=
      if_pos nul
    rw [stops]
    exact keeps_ended fun _ _ => rfl
  have goesOn : Work.changing path (Work.ensurePath (place ++ [r.name]).reverse) =
      (Work.ensurePath (place ++ [r.name]).reverse).mapError fun e => .fault (.system e path) :=
    if_neg nul
  have ensures {d' : Disk} (before : r.Before d') : Keeps r.terms
      (fun outcome d' => outcome = .ok () ∧ r.Settled d')
      (Work.changing path (Work.ensurePath (place ++ [r.name]).reverse)) d' := by
    rw [goesOn]
    refine (keeps_ensureWork before).mapError fun outcome d' ends d'' others => ?_
    rw [ends.1]
    exact ⟨rfl, ends.2.stable others⟩
  obtain ⟨-, ensured, alone⟩ := (ensures before).run
  have second : (Work.changing path (Work.ensurePath (place ++ [r.name]).reverse)).run
      ((Work.cleanUp path (place ++ [r.name])).run d).2 = (.ok (), _) := Prod.ext ensured rfl
  rw [run_bind_of_ok second]
  exact (ensures ends.2).bind (fun _ d' ends => ends.2.keeps_visit alone)
    fun _ _ ends => absurd ends.1 nofun

end Pioneer

/-- Where the place is missing, one retrieval ends beside others as it does alone. -/
theorem Retrieves.keeps_opening {α : Type} {net : Network} {home : Location} {package url : String}
    {work : Work Failure α} (retrieves : Retrieves settings net home package url work)
    (opens : Opens d (tempNames settings home) all) (among : directoryName package ∈ all)
    (staysDown : StaysDown settings (fetched net url)) :
    Keeps (termsAmong settings (fetched net url) (isPlain_directoryName package) opens.ready among
        (Opening d (tempNames settings home) all))
      (fun outcome _ => outcome = (work.run d).1) work d := by
  cases retrieves with
  | ended outcome => exact keeps_ended fun _ _ => rfl
  | retrieval entropies conclude =>
    let r : Pioneer d (tempNames settings home) all :=
      ⟨settings, fetched net url, directoryName package, opens, isPlain_directoryName package,
        among, staysDown⟩
    have alone : Keeps r.terms (fun outcome _ => outcome =
        ((Work.retrieval settings net home url package entropies).run d).1)
        (Work.retrieval settings net home url package entropies) d := r.keeps_analysis
    refine alone.followedBy fun outcome d' same => keeps_ended fun _ _ => ?_
    rw [Work.run_followedBy, same, Work.run_ended]

end PackageRisk.Archive
