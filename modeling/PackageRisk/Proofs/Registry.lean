import Mathlib.Data.List.Induction
import Mathlib.Data.List.Nodup
import Mathlib.Order.Nat
import Mathlib.Tactic.Common
import Mathlib.Tactic.Push
import PackageRisk.Proofs.Results
import PackageRisk.Registry

/-!
# Registries and what was called

A registry comes from calls, of which some fail. Which rules it holds can be read off the calls
alone: a rule survives if it was the first one of its name that was offered since the name was last
taken away, and nothing took it away later (`Survives`). What one more call does to the survivors
(`survives_snoc_iff`) is what it does to the registry, so by induction on the calls the registry
lists the survivors in the order in which they were registered (`run_reflects_calls`).
-/

namespace PackageRisk

/-- The only candidates that are rules are those that a rule with a name makes. -/
theorem Candidate.accept_eq_ok_iff {c : Candidate} {rule : Rule} :
    c.accept = .ok rule ↔ c = rule.toCandidate ∧ rule.name ≠ "" := by
  constructor
  · intro accepted
    obtain ⟨kind, name, weight, description, enabled, evaluation⟩ := c
    cases name
    case text name =>
      change (if name.isEmpty = true then _ else _) = _ at accepted
      split_ifs at accepted with empty
      cases evaluation with
      | none => cases accepted
      | some evaluation =>
        cases accepted
        exact ⟨rfl, by simpa using empty⟩
    all_goals cases accepted
  · rintro ⟨rfl, named⟩
    exact if_neg (by simpa using named)

theorem Candidate.accept_eq_error {c : Candidate} {e : Failure} (refused : c.accept = .error e) :
    ∃ defect, e = .rejectedRule defect := by
  obtain ⟨kind, name, weight, description, enabled, evaluation⟩ := c
  cases name
  case text name =>
    change (if name.isEmpty = true then _ else _) = _ at refused
    split_ifs at refused
    · cases refused
      exact ⟨_, rfl⟩
    · cases evaluation with
      | none =>
        cases refused
        exact ⟨_, rfl⟩
      | some evaluation => cases refused
  all_goals
    cases refused
    exact ⟨_, rfl⟩

namespace Registry

/-! ## Calls -/

/-- A call that may change a registry. -/
inductive Call where
  | register (offered : Option Candidate)
  | unregister (key : Value)
  | clear

/-- What a call makes of a registry, or why it fails. -/
def Call.outcome (r : Registry) : Call → Except Failure Registry
  | .register offered => r.register offered
  | .unregister key => (r.remove key).mapError .fault
  | .clear => .ok empty

/-- The registry after a call; one that fails leaves it as it is. -/
def after (r : Registry) (c : Call) : Registry := (c.outcome r).toOption.getD r

/-- The registry after calls, from an empty one on. -/
def run (calls : List Call) : Registry := calls.foldl after empty

theorem run_snoc (calls : List Call) (c : Call) : run (calls ++ [c]) = (run calls).after c := by
  rw [run, List.foldl_append]
  rfl

/-- A call that offers a rule with a name. -/
def Call.Offers (c : Call) (rule : Rule) : Prop :=
  c = .register (some rule.toCandidate) ∧ rule.name ≠ ""

/-- A call that takes away what is registered under a name. -/
def Call.Removes (c : Call) (name : String) : Prop :=
  c = .clear ∨ c = .unregister (.text name)

/-- The rule that the call at a place offered is registered: since its name was last taken away it
was the first rule of that name, and the name was not taken away later. -/
structure Survives (calls : List Call) (i : Nat) (rule : Rule) : Prop where
  offered : ∃ c, calls[i]? = some c ∧ c.Offers rule
  first : ∀ j < i, ∀ c other, calls[j]? = some c → c.Offers other → other.name = rule.name →
    ∃ k d, j < k ∧ k < i ∧ calls[k]? = some d ∧ d.Removes rule.name
  kept : ∀ k d, i < k → calls[k]? = some d → ¬d.Removes rule.name

variable {calls : List Call} {c : Call} {i j : Nat} {rule other : Rule} {name : String}

theorem Call.Offers.not_removes (offers : c.Offers rule) : ¬c.Removes name := by
  obtain ⟨rfl, -⟩ := offers
  rintro (⟨⟨⟩⟩ | ⟨⟨⟩⟩)

theorem Call.Offers.unique (offers : c.Offers rule) (offers' : c.Offers other) : rule = other := by
  obtain ⟨rfl, -⟩ := offers
  obtain ⟨same, -⟩ := offers'
  obtain ⟨kind, name, weight, description, enabled, evaluation⟩ := rule
  cases other
  cases same
  rfl

theorem Call.removes_unregister_iff {key : Value} :
    (Call.unregister key).Removes name ↔ key = .text name := by
  simp [Call.Removes]

/-! ## Survivors -/

theorem Survives.lt_length (survives : Survives calls i rule) : i < calls.length := by
  obtain ⟨c, there, -⟩ := survives.offered
  exact (List.getElem?_eq_some_iff.1 there).1

/-- Under one name there is one survivor. -/
theorem Survives.place_unique (one : Survives calls i rule) (two : Survives calls j other)
    (same : rule.name = other.name) : i = j := by
  -- the later of two would have been refused, or the earlier one was taken away in between
  have notLater {i j : Nat} {rule other : Rule} (one : Survives calls i rule)
      (two : Survives calls j other) (same : rule.name = other.name) : ¬i < j := by
    intro lt
    obtain ⟨c, there, offers⟩ := one.offered
    obtain ⟨k, d, above, -, at', removes⟩ := two.first i lt c rule there offers same
    exact one.kept k d above at' (same ▸ removes)
  exact Nat.le_antisymm (Nat.not_lt.1 (notLater two one same.symm))
    (Nat.not_lt.1 (notLater one two same))

/-- A name under which some rule was offered and that was not taken away since has a survivor. -/
theorem exists_survives {d : Call} (there : calls[j]? = some d) (offers : d.Offers rule)
    (kept : ∀ k d, j < k → calls[k]? = some d → ¬d.Removes rule.name) :
    ∃ i survivor, Survives calls i survivor ∧ survivor.name = rule.name := by
  -- by induction on the place: a rule of the name that was offered before and not taken away since
  -- is at a smaller one
  induction j using Nat.strongRecOn generalizing d rule with
  | _ j ih =>
  by_cases first : ∀ i < j, ∀ c other, calls[i]? = some c → c.Offers other →
      other.name = rule.name → ∃ k e, i < k ∧ k < j ∧ calls[k]? = some e ∧ e.Removes rule.name
  · exact ⟨j, rule, ⟨⟨d, there, offers⟩, first, kept⟩, rfl⟩
  · push Not at first
    obtain ⟨i, lt, c, other, there', offers', same, since⟩ := first
    rw [← same] at since kept ⊢
    refine ih i lt there' offers' fun k e above at' removes => ?_
    rcases lt_trichotomy k j with below | rfl | beyond
    · exact since k e above below at' removes
    · rw [there] at at'
      cases at'
      exact offers.not_removes removes
    · exact kept k e beyond at' removes

theorem getElem?_snoc_eq_some {k : Nat} {d : Call} :
    (calls ++ [c])[k]? = some d ↔ calls[k]? = some d ∨ k = calls.length ∧ c = d := by
  rcases lt_trichotomy k calls.length with below | rfl | above
  · rw [List.getElem?_append_left below]
    exact ⟨.inl, fun at' => at'.resolve_right fun last => below.ne last.1⟩
  · rw [List.getElem?_concat_length, List.getElem?_eq_none le_rfl]
    simp
  · have beyond : (calls ++ [c]).length ≤ k := by
      rw [List.length_append, List.length_singleton]
      omega
    rw [List.getElem?_eq_none beyond, List.getElem?_eq_none above.le]
    simp [above.ne']

theorem getElem?_of_snoc {k : Nat} {d : Call} (below : k < calls.length)
    (there : (calls ++ [c])[k]? = some d) : calls[k]? = some d := by
  rwa [List.getElem?_append_left below] at there

/-- A survivor stays one if the next call does not take its name away. -/
theorem Survives.snoc (survives : Survives calls i rule) (keeps : ¬c.Removes rule.name) :
    Survives (calls ++ [c]) i rule := by
  obtain ⟨d, there, offers⟩ := survives.offered
  refine ⟨⟨d, getElem?_snoc_eq_some.2 (.inl there), offers⟩, ?_, ?_⟩
  · intro j lt e other at' offers' same
    have old := getElem?_of_snoc (lt.trans survives.lt_length) at'
    obtain ⟨k, f, low, high, removed, removes⟩ := survives.first j lt e other old offers' same
    exact ⟨k, f, low, high, getElem?_snoc_eq_some.2 (.inl removed), removes⟩
  · intro k e above at'
    rcases getElem?_snoc_eq_some.1 at' with old | ⟨-, rfl⟩
    · exact survives.kept k e above old
    · exact keeps

/-- What survives one more call survived before, unless the call itself offered it. -/
theorem Survives.of_snoc (survives : Survives (calls ++ [c]) i rule) (below : i < calls.length) :
    Survives calls i rule ∧ ¬c.Removes rule.name := by
  obtain ⟨d, there, offers⟩ := survives.offered
  refine ⟨⟨⟨d, getElem?_of_snoc below there, offers⟩, ?_, ?_⟩, ?_⟩
  · intro j lt e other at' offers' same
    obtain ⟨k, f, low, high, removed, removes⟩ :=
      survives.first j lt e other (getElem?_snoc_eq_some.2 (.inl at')) offers' same
    exact ⟨k, f, low, high, getElem?_of_snoc (high.trans below) removed, removes⟩
  · intro k e above at'
    exact survives.kept k e above (getElem?_snoc_eq_some.2 (.inl at'))
  · exact survives.kept _ c below List.getElem?_concat_length

/-- The rule that the last call offers survives if no survivor has its name. -/
theorem survives_last_iff :
    Survives (calls ++ [c]) calls.length rule ↔
      c.Offers rule ∧ ¬∃ j other, Survives calls j other ∧ other.name = rule.name := by
  constructor
  · intro survives
    obtain ⟨d, there, offers⟩ := survives.offered
    rw [List.getElem?_concat_length] at there
    cases there
    refine ⟨offers, ?_⟩
    rintro ⟨j, other, old, same⟩
    obtain ⟨e, at', offers'⟩ := old.offered
    obtain ⟨k, f, low, high, removed, removes⟩ :=
      survives.first j old.lt_length e other (getElem?_snoc_eq_some.2 (.inl at')) offers' same
    exact old.kept k f low (getElem?_of_snoc high removed) (same ▸ removes)
  · rintro ⟨offers, free⟩
    refine ⟨⟨c, List.getElem?_concat_length, offers⟩, ?_, ?_⟩
    · intro j lt e other at' offers' same
      have old := getElem?_of_snoc lt at'
      -- otherwise the name would have a survivor
      by_contra never
      push Not at never
      obtain ⟨i, survivor, survives, named⟩ :=
        exists_survives old offers' fun k f low removed removes =>
          never k f low (List.getElem?_eq_some_iff.1 removed).1
            (getElem?_snoc_eq_some.2 (.inl removed)) (same ▸ removes)
      exact free ⟨i, survivor, survives, named.trans same⟩
    · intro k e above at'
      have within := (List.getElem?_eq_some_iff.1 at').1
      rw [List.length_append, List.length_singleton] at within
      omega

/-- One more call keeps the survivors whose name it does not take away, and adds the rule that it
offers if none of them has its name. -/
theorem survives_snoc_iff :
    Survives (calls ++ [c]) i rule ↔
      Survives calls i rule ∧ ¬c.Removes rule.name ∨
        i = calls.length ∧ c.Offers rule ∧
          ¬∃ j other, Survives calls j other ∧ other.name = rule.name := by
  constructor
  · intro survives
    rcases Nat.lt_or_ge i calls.length with below | atEnd
    · exact .inl (survives.of_snoc below)
    · have within := survives.lt_length
      rw [List.length_append, List.length_singleton] at within
      obtain rfl : i = calls.length := by omega
      exact .inr ⟨rfl, survives_last_iff.1 survives⟩
  · rintro (⟨survives, keeps⟩ | ⟨rfl, last⟩)
    · exact survives.snoc keeps
    · exact survives_last_iff.2 last

/-! ## What a registry answers -/

section Answers

variable {r : Registry}

theorem has_eq_true_iff : r.has name = true ↔ ∃ rule ∈ r.rules, rule.name = name := by
  rw [has, get?, List.find?_isSome]
  simp only [beq_iff_eq]

theorem get?_eq_some_iff (nodup : r.names.Nodup) :
    r.get? name = some rule ↔ rule ∈ r.rules ∧ rule.name = name := by
  constructor
  · intro found
    exact ⟨List.mem_of_find?_eq_some found, by simpa using List.find?_some found⟩
  · rintro ⟨mem, rfl⟩
    obtain ⟨found, there⟩ := Option.isSome_iff_exists.1 (has_eq_true_iff.2 ⟨rule, mem, rfl⟩)
    have same : found.name = rule.name := by simpa using List.find?_some there
    rwa [List.inj_on_of_nodup_map nodup (List.mem_of_find?_eq_some there) mem same] at there

theorem nameOf?_eq_some_iff {key : Value} : nameOf? key = .ok (some name) ↔ key = .text name := by
  constructor
  · intro named
    unfold nameOf? at named
    split at named
    · cases named
      rfl
    · split_ifs at named
      cases named
  · rintro rfl
    rfl

theorem lookup_eq_some_iff {key : Value} :
    r.lookup key = .ok (some rule) ↔ ∃ name, key = .text name ∧ r.get? name = some rule := by
  rw [lookup]
  constructor
  · intro found
    rcases named : nameOf? key with e | _ | name
    · rw [named] at found
      cases found
    · rw [named] at found
      cases found
    · rw [named] at found
      exact ⟨name, nameOf?_eq_some_iff.1 named, Except.ok.inj found⟩
  · rintro ⟨name, rfl, found⟩
    exact congrArg Except.ok found

theorem register_toCandidate (named : rule.name ≠ "") :
    r.register (some rule.toCandidate) = r.add rule := by
  have accepted := Candidate.accept_eq_ok_iff.2 ⟨rfl, named⟩
  show rule.toCandidate.accept >>= r.add = _
  rw [accepted]
  rfl

theorem register_eq_rejected {offered : Option Candidate}
    (unfit : ¬∃ rule : Rule, offered = some rule.toCandidate ∧ rule.name ≠ "") :
    ∃ defect, r.register offered = .error (.rejectedRule defect) := by
  rcases offered with _ | c
  · exact ⟨_, rfl⟩
  · rcases accepted : c.accept with e | rule
    · obtain ⟨defect, rfl⟩ := Candidate.accept_eq_error accepted
      exact ⟨defect, bind_eq_error.2 (.inl accepted)⟩
    · obtain ⟨rfl, named⟩ := Candidate.accept_eq_ok_iff.1 accepted
      exact absurd ⟨rule, rfl, named⟩ unfit

end Answers

/-! ## What one call does -/

/-- How a call ends, case by case. -/
inductive Ends (r : Registry) : Call → Except Failure Registry → Prop
  | added {rule : Rule} (named : rule.name ≠ "") (free : r.has rule.name = false) :
      Ends r (.register (some rule.toCandidate)) (.ok ⟨r.rules ++ [rule]⟩)
  | taken {rule : Rule} (named : rule.name ≠ "") (has : r.has rule.name = true) :
      Ends r (.register (some rule.toCandidate)) (.error (.duplicateRule rule.name))
  | rejected {offered : Option Candidate} {defect : RuleDefect}
      (unfit : ¬∃ rule : Rule, offered = some rule.toCandidate ∧ rule.name ≠ "") :
      Ends r (.register offered) (.error (.rejectedRule defect))
  | removed (name : String) : Ends r (.unregister (.text name)) (.ok (r.unregister name))
  | ignored {key : Value} (nameless : ∀ name, key ≠ .text name) :
      Ends r (.unregister key) (.ok r)
  | unusable {key : Value} {fault : Fault} (nameless : ∀ name, key ≠ .text name) :
      Ends r (.unregister key) (.error (.fault fault))
  | cleared : Ends r .clear (.ok empty)

theorem ends_register (r : Registry) (offered : Option Candidate) :
    Ends r (.register offered) (r.register offered) := by
  by_cases fit : ∃ rule : Rule, offered = some rule.toCandidate ∧ rule.name ≠ ""
  · obtain ⟨rule, rfl, named⟩ := fit
    rw [register_toCandidate named, add]
    split_ifs with has
    · exact .taken named has
    · exact .added named (Bool.eq_false_iff.2 has)
  · obtain ⟨defect, refused⟩ := register_eq_rejected (r := r) fit
    rw [refused]
    exact .rejected fit

theorem remove_text (r : Registry) (name : String) :
    r.remove (.text name) = .ok (r.unregister name) := by
  obtain ⟨_ | ⟨first, rest⟩⟩ := r <;> rfl

theorem ends_unregister (r : Registry) (key : Value) :
    Ends r (.unregister key) ((r.remove key).mapError .fault) := by
  by_cases named : ∃ name, key = .text name
  · obtain ⟨name, rfl⟩ := named
    rw [remove_text]
    exact .removed name
  · have nameless : ∀ name, key ≠ .text name := fun name same => named ⟨name, same⟩
    rw [remove]
    split_ifs
    · exact .ignored nameless
    · rcases found : nameOf? key with fault | _ | name
      · exact .unusable nameless
      · exact .ignored nameless
      · exact absurd (nameOf?_eq_some_iff.1 found) (nameless name)

theorem ends_outcome (r : Registry) (c : Call) : Ends r c (c.outcome r) := by
  cases c with
  | register offered => exact ends_register r offered
  | unregister key => exact ends_unregister r key
  | clear => exact .cleared

/-! ## What all calls did -/

/-- A registry that holds the survivors of calls in the order in which they were registered. -/
def Lists (r : Registry) (calls : List Call) : Prop :=
  ∃ entries : List (Nat × Rule), entries.Pairwise (fun a b => a.1 < b.1) ∧
    (∀ i rule, (i, rule) ∈ entries ↔ Survives calls i rule) ∧ entries.map Prod.snd = r.rules

variable {r : Registry}

theorem Lists.mem_rules (lists : r.Lists calls) : rule ∈ r.rules ↔ ∃ i, Survives calls i rule := by
  obtain ⟨entries, -, surviving, held⟩ := lists
  rw [← held, List.mem_map]
  constructor
  · rintro ⟨⟨i, rule⟩, mem, rfl⟩
    exact ⟨i, (surviving i rule).1 mem⟩
  · rintro ⟨i, survives⟩
    exact ⟨(i, rule), (surviving i rule).2 survives, rfl⟩

theorem Lists.has_iff (lists : r.Lists calls) :
    r.has name = true ↔ ∃ i rule, Survives calls i rule ∧ rule.name = name := by
  simp only [has_eq_true_iff, lists.mem_rules]
  exact ⟨fun ⟨rule, ⟨i, survives⟩, same⟩ => ⟨i, rule, survives, same⟩,
    fun ⟨i, rule, survives, same⟩ => ⟨rule, ⟨i, survives⟩, same⟩⟩

theorem Lists.nodup (lists : r.Lists calls) : r.names.Nodup := by
  obtain ⟨entries, ascending, surviving, held⟩ := lists
  rw [names, ← held, List.map_map]
  refine (List.Pairwise.imp_of_mem ?_ ascending).map _ fun _ _ differ => differ
  intro a b first second below same
  exact below.ne (((surviving _ _).1 first).place_unique ((surviving _ _).1 second) same)

theorem lists_empty : empty.Lists [] := by
  refine ⟨[], .nil, fun i rule => ?_, rfl⟩
  refine iff_of_false List.not_mem_nil fun survives => ?_
  exact Nat.not_lt_zero i survives.lt_length

/-- A call that takes no name away and offers nothing new leaves the survivors as they are. -/
theorem Lists.idle (lists : r.Lists calls) (keeps : ∀ name, ¬c.Removes name)
    (adds : ∀ rule, c.Offers rule → r.has rule.name = true) : r.Lists (calls ++ [c]) := by
  have taken (rule : Rule) (offers : c.Offers rule) := lists.has_iff.1 (adds rule offers)
  obtain ⟨entries, ascending, surviving, held⟩ := lists
  refine ⟨entries, ascending, fun i rule => ?_, held⟩
  rw [surviving, survives_snoc_iff]
  constructor
  · intro survives
    exact .inl ⟨survives, keeps rule.name⟩
  · rintro (⟨survives, -⟩ | ⟨-, offers, free⟩)
    · exact survives
    · exact absurd (taken rule offers) free

theorem Lists.added (lists : r.Lists calls) (named : rule.name ≠ "")
    (free : r.has rule.name = false) :
    Lists ⟨r.rules ++ [rule]⟩ (calls ++ [.register (some rule.toCandidate)]) := by
  have offers : Call.Offers (.register (some rule.toCandidate)) rule := ⟨rfl, named⟩
  have new := lists.has_iff.not.1 (ne_true_of_eq_false free)
  obtain ⟨entries, ascending, surviving, held⟩ := lists
  refine ⟨entries ++ [(calls.length, rule)], ?_, fun i other => ?_, ?_⟩
  · refine List.pairwise_append.2 ⟨ascending, List.pairwise_singleton _ _, ?_⟩
    intro entry mem last atEnd
    rw [List.mem_singleton.1 atEnd]
    exact ((surviving _ _).1 mem).lt_length
  · rw [List.mem_append, surviving, survives_snoc_iff, List.mem_singleton, Prod.mk.injEq]
    constructor
    · rintro (survives | ⟨rfl, rfl⟩)
      · exact .inl ⟨survives, offers.not_removes⟩
      · exact .inr ⟨rfl, offers, new⟩
    · rintro (⟨survives, -⟩ | ⟨rfl, offers', -⟩)
      · exact .inl survives
      · exact .inr ⟨rfl, offers'.unique offers⟩
  · rw [List.map_append, held]
    rfl

theorem Lists.unregister (lists : r.Lists calls) (name : String) :
    (r.unregister name).Lists (calls ++ [.unregister (.text name)]) := by
  obtain ⟨entries, ascending, surviving, held⟩ := lists
  refine ⟨entries.filter (·.2.name != name), ascending.filter _, fun i rule => ?_, ?_⟩
  · rw [List.mem_filter, surviving, survives_snoc_iff, bne_iff_ne, Call.removes_unregister_iff]
    constructor
    · rintro ⟨survives, other⟩
      exact .inl ⟨survives, fun same => other (Value.text.inj same).symm⟩
    · rintro (⟨survives, other⟩ | ⟨-, offers, -⟩)
      · exact ⟨survives, fun same => other (congrArg Value.text same.symm)⟩
      · exact absurd offers.1 nofun
  · rw [Registry.unregister, ← held, List.filter_map]
    rfl

theorem lists_clear (calls : List Call) : empty.Lists (calls ++ [.clear]) := by
  refine ⟨[], .nil, fun i rule => iff_of_false List.not_mem_nil ?_, rfl⟩
  rw [survives_snoc_iff]
  rintro (⟨-, kept⟩ | ⟨-, offers, -⟩)
  · exact kept (.inl rfl)
  · exact absurd offers.1 nofun

/-- What one more call does to a registry is what it does to the survivors. -/
theorem Lists.after (lists : r.Lists calls) (c : Call) : (r.after c).Lists (calls ++ [c]) := by
  have ends := ends_outcome r c
  rw [Registry.after]
  generalize c.outcome r = outcome at ends ⊢
  cases ends with
  | added named free => exact lists.added named free
  | taken named has =>
    refine lists.idle (fun name => Call.Offers.not_removes ⟨rfl, named⟩) fun rule offers => ?_
    rwa [offers.unique ⟨rfl, named⟩]
  | rejected unfit =>
    refine lists.idle (fun name => nofun) fun rule offers => ?_
    exact absurd ⟨rule, Call.register.inj offers.1, offers.2⟩ unfit
  | removed name => exact lists.unregister name
  | ignored nameless =>
    refine lists.idle (fun name => ?_) fun rule offers => absurd offers.1 nofun
    exact Call.removes_unregister_iff.not.2 (nameless name)
  | unusable nameless =>
    refine lists.idle (fun name => ?_) fun rule offers => absurd offers.1 nofun
    exact Call.removes_unregister_iff.not.2 (nameless name)
  | cleared => exact lists_clear calls

theorem lists_run (calls : List Call) : (run calls).Lists calls := by
  induction calls using List.reverseRecOn with
  | nil => exact lists_empty
  | append_singleton calls c ih => exact run_snoc calls c ▸ ih.after c

theorem remove_absent (absent : r.has name = false) : r.remove (.text name) = .ok r := by
  have others : ∀ rule ∈ r.rules, (rule.name != name) = true := fun rule mem =>
    bne_iff_ne.2 fun same => Bool.eq_false_iff.1 absent (has_eq_true_iff.2 ⟨rule, mem, same⟩)
  rw [remove_text, unregister, List.filter_eq_self.2 others]

/-- A registry is what the calls on it say. Its names differ; its rules are the survivors, in the
order of the calls that registered them, and its size is their number. A name is taken if it is
that of a survivor, and what is under it is this survivor; keys of other kinds find nothing. A rule
is added if its name is not taken, else it is refused as a duplicate, and what is no rule is
rejected; a call that fails leaves the registry as it is, and so does taking away a name that is not
there. -/
theorem run_reflects_calls (calls : List Call) :
    (run calls).names.Nodup ∧
    (∃ entries : List (Nat × Rule), entries.Pairwise (fun a b => a.1 < b.1) ∧
      (∀ i rule, (i, rule) ∈ entries ↔ Survives calls i rule) ∧
      (run calls).rules = entries.map Prod.snd ∧ (run calls).size = entries.length) ∧
    (∀ name, (run calls).has name = true ↔ ∃ i rule, Survives calls i rule ∧ rule.name = name) ∧
    (∀ name rule, (run calls).get? name = some rule ↔
      ∃ i, Survives calls i rule ∧ rule.name = name) ∧
    (∀ key rule, (run calls).lookup key = .ok (some rule) ↔
      ∃ i, Survives calls i rule ∧ key = .text rule.name) ∧
    (∀ c, Ends (run calls) c (c.outcome (run calls))) ∧
    (∀ c e, c.outcome (run calls) = .error e → run (calls ++ [c]) = run calls) ∧
    ∀ name, (¬∃ i rule, Survives calls i rule ∧ rule.name = name) →
      run (calls ++ [.unregister (.text name)]) = run calls := by
  have lists := lists_run calls
  have found (name : String) (rule : Rule) :
      (run calls).get? name = some rule ↔ ∃ i, Survives calls i rule ∧ rule.name = name := by
    rw [get?_eq_some_iff lists.nodup, lists.mem_rules]
    exact exists_and_right.symm
  refine ⟨lists.nodup, ?_, fun name => lists.has_iff, found, fun key rule => ?_, ends_outcome _,
    fun c e failed => ?_, fun name absent => ?_⟩
  · obtain ⟨entries, ascending, surviving, held⟩ := lists
    refine ⟨entries, ascending, surviving, held.symm, ?_⟩
    rw [size, ← held, List.length_map]
  · simp only [lookup_eq_some_iff, found]
    constructor
    · rintro ⟨_, rfl, i, survives, rfl⟩
      exact ⟨i, survives, rfl⟩
    · rintro ⟨i, survives, rfl⟩
      exact ⟨_, rfl, i, survives, rfl⟩
  · rw [run_snoc, after, failed]
    rfl
  · have free : (run calls).has name = false := Bool.eq_false_iff.2 (lists.has_iff.not.2 absent)
    rw [run_snoc, after, Call.outcome, remove_absent free]
    rfl

end Registry

end PackageRisk
