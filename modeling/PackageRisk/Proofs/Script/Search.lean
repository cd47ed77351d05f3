import Mathlib.Data.List.Lex
import PackageRisk.Proofs.Results
import PackageRisk.Script.Findings

/-!
# The search of a tree

The search keeps the parts that are still to be looked at on a stack. What it finds is what was
found before, followed by the findings of the parts on the stack (`search_eq`), so on a single
tree it agrees with the recursion over the tree. `Tree.places` lists all parts of a tree with the
child numbers that lead to them, each once and in the order of the text, and the findings are
what these parts say by themselves (`search_reports_places`).
-/

namespace PackageRisk.Script

/-! ## The parts of a tree -/

namespace Tree

variable {t u : Tree} {ts : List Tree} {path : List Nat} {i : Nat}

theorem size_le_sizes (mem : u ∈ ts) : u.size ≤ sizes ts := by
  induction ts with
  | nil => cases mem
  | cons t rest ih =>
    rw [sizes]
    rcases List.mem_cons.1 mem with rfl | mem
    · omega
    · have := ih mem
      omega

theorem size_lt_of_mem_parts (mem : u ∈ t.parts) : u.size < t.size := by
  have first := size_le_sizes mem
  have second := sizes_parts t
  omega

/-- What holds of a tree if it holds of its parts holds of all trees. -/
theorem induction_parts {P : Tree → Prop} (step : ∀ t, (∀ u ∈ t.parts, P u) → P t) (t : Tree) :
    P t :=
  step t fun u _ => induction_parts step u
termination_by t.size
decreasing_by exact size_lt_of_mem_parts ‹_›

/-- The part of a tree that child numbers lead to. -/
def at? : List Nat → Tree → Option Tree
  | [], t => some t
  | i :: path, t => t.parts[i]?.bind (at? path)

mutual

/-- The parts of a tree with the child numbers that lead to them, a part before what is in it. -/
def places : Tree → List (List Nat × Tree)
  | .name w => [([], .name w)]
  | .text pieces => [([], .text pieces)]
  | .call callee arguments => ([], .call callee arguments) ::
      (callee.places.map (fun p => (0 :: p.1, p.2)) ++ placesFrom 1 arguments)
  | .importCall arguments => ([], .importCall arguments) :: placesFrom 0 arguments
  | .construct maker arguments => ([], .construct maker arguments) ::
      (maker.places.map (fun p => (0 :: p.1, p.2)) ++ placesFrom 1 arguments)
  | .importFrom source parts => ([], .importFrom source parts) :: placesFrom 0 parts
  | .group parts => ([], .group parts) :: placesFrom 0 parts

/-- The parts of trees that are the children from a number on. -/
def placesFrom (i : Nat) : List Tree → List (List Nat × Tree)
  | [] => []
  | t :: rest => t.places.map (fun p => (i :: p.1, p.2)) ++ placesFrom (i + 1) rest

end

theorem places_eq (t : Tree) : t.places = ([], t) :: placesFrom 0 t.parts := by
  cases t <;> simp only [places, parts, placesFrom]

theorem mem_placesFrom_iff :
    (path, u) ∈ placesFrom i ts ↔
      ∃ k t rest, ts[k]? = some t ∧ path = (i + k) :: rest ∧ (rest, u) ∈ t.places := by
  induction ts generalizing i with
  | nil => simp [placesFrom]
  | cons t ts ih =>
    rw [placesFrom, List.mem_append, ih]
    constructor
    · rintro (here | ⟨k, v, rest, found, rfl, mem⟩)
      · obtain ⟨⟨rest, v⟩, mem, same⟩ := List.mem_map.1 here
        cases same
        exact ⟨0, t, rest, rfl, rfl, mem⟩
      · exact ⟨k + 1, v, rest, found, by rw [Nat.add_right_comm, Nat.add_assoc], mem⟩
    · rintro ⟨k, v, rest, found, rfl, mem⟩
      cases k with
      | zero =>
        cases found
        exact .inl (List.mem_map.2 ⟨(rest, u), mem, rfl⟩)
      | succ k => exact .inr ⟨k, v, rest, found, by rw [Nat.add_right_comm, Nat.add_assoc], mem⟩

/-- The places of a tree are those that child numbers lead to. -/
theorem mem_places_iff : (path, u) ∈ t.places ↔ t.at? path = some u := by
  induction path generalizing t with
  | nil =>
    rw [places_eq, List.mem_cons, mem_placesFrom_iff]
    simp [at?, eq_comm]
  | cons i path ih =>
    rw [places_eq, List.mem_cons, mem_placesFrom_iff, at?, Option.bind_eq_some_iff]
    constructor
    · rintro (same | ⟨k, v, rest, found, same, mem⟩)
      · cases same
      · obtain ⟨rfl, rfl⟩ := List.cons.inj same
        rw [Nat.zero_add]
        exact ⟨v, found, ih.1 mem⟩
    · rintro ⟨v, found, leads⟩
      exact .inr ⟨i, v, path, found, by rw [Nat.zero_add], ih.2 leads⟩

theorem pairwise_placesFrom
    (inside : ∀ t ∈ ts, t.places.Pairwise fun p q => p.1 < q.1) :
    (placesFrom i ts).Pairwise fun p q => p.1 < q.1 := by
  induction ts generalizing i with
  | nil => exact List.Pairwise.nil
  | cons t rest ih =>
    rw [List.forall_mem_cons] at inside
    rw [placesFrom, List.pairwise_append]
    refine ⟨?_, ih inside.2, ?_⟩
    · rw [List.pairwise_map]
      exact inside.1.imp fun less => List.cons_lt_cons_iff.2 (.inr ⟨rfl, less⟩)
    · rintro p here ⟨path, u⟩ later
      obtain ⟨q, -, rfl⟩ := List.mem_map.1 here
      obtain ⟨k, v, rest, -, rfl, -⟩ := mem_placesFrom_iff.1 later
      exact List.cons_lt_cons_iff.2 (.inl (by omega))

/-- The places are listed in the order of the text: a part before what is in it, and what is in
it before its next sibling. -/
theorem pairwise_places (t : Tree) : t.places.Pairwise fun p q => p.1 < q.1 := by
  induction t using induction_parts with
  | step t ih =>
    rw [places_eq, List.pairwise_cons]
    refine ⟨?_, pairwise_placesFrom ih⟩
    rintro ⟨path, u⟩ mem
    obtain ⟨k, v, rest, -, rfl, -⟩ := mem_placesFrom_iff.1 mem
    exact List.nil_lt_cons _ _

/-- The string that is the first of some parts. -/
def firstText? : List Tree → Option (List Piece)
  | .text pieces :: _ => some pieces
  | _ => none

/-- The string that is read to tell what a part says by itself. -/
def decoded? : Tree → Option (List Piece)
  | .call _ arguments => firstText? arguments
  | .importCall arguments => firstText? arguments
  | .importFrom source _ => some source
  | _ => none

end Tree

variable {modules : List Value} {found : List Finding} {stack ts : List Tree} {t u : Tree}
  {pieces : List Piece}

/-! ## What a part says by itself -/

theorem firstLiteral?_of_text (first : Tree.firstText? ts = some pieces) :
    firstLiteral? ts = (decodePieces pieces).map some := by
  unfold Tree.firstText? at first
  split at first
  · cases first
    rfl
  · cases first

theorem firstLiteral?_of_other (other : Tree.firstText? ts = none) :
    firstLiteral? ts = .ok none := by
  unfold firstLiteral?
  split
  · next first rest =>
    cases first
    case text => cases other
    all_goals rfl
  · rfl

theorem exists_firstLiteral?_iff :
    (∃ literal, firstLiteral? ts = .ok literal) ↔
      ∀ pieces, Tree.firstText? ts = some pieces → ∃ points, decodePieces pieces = .ok points := by
  rcases first : Tree.firstText? ts with _ | pieces
  · exact iff_of_true ⟨none, firstLiteral?_of_other first⟩ nofun
  · rw [firstLiteral?_of_text first]
    constructor
    · rintro ⟨literal, decoded⟩ _ ⟨⟩
      rcases known : decodePieces pieces with e | points
      · rw [known] at decoded
        cases decoded
      · exact ⟨points, rfl⟩
    · intro all
      obtain ⟨points, decoded⟩ := all pieces rfl
      rw [decoded]
      exact ⟨some points, rfl⟩

/-- Only the string that a part depends on can keep it from saying anything. -/
theorem exists_own_iff :
    (∃ here, own modules t = .ok here) ↔
      ∀ pieces, t.decoded? = some pieces → ∃ points, decodePieces pieces = .ok points := by
  have binds {α : Type} {x : Except Fault α} {f : α → Option Finding} :
      (∃ here, (x >>= fun a => .ok (f a)) = Except.ok here) ↔ ∃ a, x = .ok a := by
    constructor
    · rintro ⟨here, said⟩
      obtain ⟨a, known, -⟩ := bind_eq_ok.1 said
      exact ⟨a, known⟩
    · rintro ⟨a, known⟩
      exact ⟨f a, bind_eq_ok.2 ⟨a, known, rfl⟩⟩
  cases t with
  | name w => exact iff_of_true ⟨none, rfl⟩ nofun
  | text pieces => exact iff_of_true ⟨none, rfl⟩ nofun
  | call callee arguments => exact binds.trans exists_firstLiteral?_iff
  | importCall arguments => exact binds.trans exists_firstLiteral?_iff
  | construct maker arguments =>
    refine iff_of_true ?_ nofun
    cases maker
    case name w =>
      by_cases same : w = "XMLHttpRequest"
      · subst same
        exact ⟨_, rfl⟩
      · exact ⟨none, by simp [own, same]⟩
    all_goals exact ⟨none, rfl⟩
  | importFrom source parts =>
    refine binds.trans ⟨?_, fun all => all source rfl⟩
    rintro known _ ⟨⟩
    exact known
  | group parts => exact iff_of_true ⟨none, rfl⟩ nofun

/-! ## The recursion over a tree -/

/-- The findings of a tree are its own before those of its parts. -/
theorem findings_eq (t : Tree) :
    findings modules t = own modules t >>= fun here =>
      findingsOfAll modules t.parts >>= fun rest => .ok (here.toList ++ rest) := by
  cases t with
  | name w => rfl
  | text pieces => rfl
  | importCall arguments => rw [findings, Tree.parts]; rfl
  | importFrom source parts => rw [findings, Tree.parts]; rfl
  | group parts => rw [findings, Tree.parts]; rfl
  | call callee arguments | construct callee arguments =>
    rw [findings, Tree.parts, findingsOfAll]
    refine bind_congr fun here => ?_
    rw [bind_assoc]
    refine bind_congr fun first => ?_
    rw [bind_assoc]
    refine bind_congr fun rest => ?_
    exact congrArg Except.ok (List.append_assoc _ _ _)

theorem findingsOfAll_cons {rest : List Tree} :
    findingsOfAll modules (t :: rest) = findings modules t >>= fun first =>
      findingsOfAll modules rest >>= fun later => .ok (first ++ later) := by
  rw [findingsOfAll]
  rfl

theorem findingsOfAll_append {more : List Tree} :
    findingsOfAll modules (ts ++ more) = findingsOfAll modules ts >>= fun first =>
      findingsOfAll modules more >>= fun rest => .ok (first ++ rest) := by
  induction ts with
  | nil => exact (bind_pure _).symm
  | cons t ts ih =>
    rw [List.cons_append, findingsOfAll_cons, findingsOfAll_cons, ih, bind_assoc]
    refine bind_congr fun first => ?_
    rw [bind_assoc, bind_assoc]
    refine bind_congr fun middle => ?_
    rw [bind_assoc]
    refine bind_congr fun rest => ?_
    exact congrArg Except.ok (List.append_assoc _ _ _).symm

theorem exists_findings_of_mem {fs : List Finding} (all : findingsOfAll modules ts = .ok fs)
    (mem : t ∈ ts) : ∃ gs, findings modules t = .ok gs := by
  induction ts generalizing fs with
  | nil => cases mem
  | cons u rest ih =>
    rw [findingsOfAll_cons, bind_eq_ok] at all
    obtain ⟨first, here, later⟩ := all
    obtain ⟨others, there, -⟩ := bind_eq_ok.1 later
    rcases List.mem_cons.1 mem with rfl | mem
    · exact ⟨first, here⟩
    · exact ih there mem

/-- The search goes on with what was found before, and then finds what is on the stack. -/
theorem search_eq :
    search modules found stack =
      findingsOfAll modules stack >>= fun rest => .ok (found.reverse ++ rest) := by
  induction found, stack using search.induct modules with
  | case1 found =>
    rw [search]
    exact congrArg Except.ok (List.append_nil _).symm
  | case2 found t stack e failed =>
    rw [search, findingsOfAll_cons, findings_eq, failed]
    rfl
  | case3 found t stack here said ih =>
    rw [search, said]
    dsimp only
    have single : here.toList.reverse = here.toList := by cases here <;> rfl
    -- the parts of `t` go before the rest of the stack, as the recursion takes them
    rw [ih, findingsOfAll_append, findingsOfAll_cons, findings_eq, said, List.reverse_append,
      single]
    rcases findingsOfAll modules t.parts with e | inside
    · rfl
    rcases findingsOfAll modules stack with e | rest
    · rfl
    refine congrArg Except.ok ?_
    simp only [List.append_assoc]

theorem search_tree (modules : List Value) (t : Tree) :
    search modules [] [t] = findings modules t := by
  rw [search_eq, findingsOfAll_cons]
  rcases findings modules t with e | fs
  · rfl
  · exact congrArg Except.ok (List.append_nil _)

/-! ## All findings of a tree -/

/-- What a part says by itself, nothing if its string cannot be read. -/
def ownFinding? (modules : List Value) (t : Tree) : Option Finding :=
  (own modules t).toOption.join

/-- All strings can be read that parts of a tree depend on. -/
def Tree.IsReadable (t : Tree) : Prop :=
  ∀ place ∈ t.places, ∀ pieces, place.2.decoded? = some pieces →
    ∃ points, decodePieces pieces = .ok points

theorem Tree.isReadable_iff :
    t.IsReadable ↔ (t.places.all fun place => place.2.decoded?.all fun pieces =>
      (decodePieces pieces).toOption.isSome) = true := by
  rw [List.all_eq_true]
  refine forall₂_congr fun place _ => ?_
  rw [Option.all_eq_true]
  refine forall₂_congr fun pieces _ => ?_
  rw [Option.isSome_iff_exists]
  exact exists_congr fun points => toOption_eq_some_iff.symm

instance : Decidable t.IsReadable := decidable_of_iff _ Tree.isReadable_iff.symm

theorem findingsOfAll_eq (i : Nat)
    (all : ∀ t ∈ ts, findings modules t = .ok (t.places.filterMap fun p => ownFinding? modules p.2)) :
    findingsOfAll modules ts =
      .ok ((Tree.placesFrom i ts).filterMap fun p => ownFinding? modules p.2) := by
  induction ts generalizing i with
  | nil => rfl
  | cons t rest ih =>
    rw [List.forall_mem_cons] at all
    rw [findingsOfAll_cons, all.1, ih (i + 1) all.2, Tree.placesFrom, List.filterMap_append,
      List.filterMap_map]
    rfl

theorem Tree.IsReadable.part (readable : t.IsReadable) (mem : u ∈ t.parts) : u.IsReadable := by
  rintro ⟨path, v⟩ there
  obtain ⟨i, found⟩ := List.mem_iff_getElem?.1 mem
  refine readable (i :: path, v) ?_
  rw [Tree.mem_places_iff] at there ⊢
  rw [Tree.at?, found]
  exact there

/-- The findings of a tree are what its parts say. -/
theorem findings_of_readable (readable : t.IsReadable) :
    findings modules t = .ok (t.places.filterMap fun p => ownFinding? modules p.2) := by
  induction t using Tree.induction_parts with
  | step t ih =>
    obtain ⟨here, said⟩ : ∃ here, own modules t = .ok here := by
      refine exists_own_iff.2 (readable ([], t) ?_)
      rw [Tree.mem_places_iff]
      rfl
    have inside := findingsOfAll_eq 0 fun u mem => ih u mem (readable.part mem)
    have single : ownFinding? modules t = here := by
      rw [ownFinding?, said]
      rfl
    rw [findings_eq, said, Tree.places_eq, List.filterMap_cons, single]
    change (findingsOfAll modules t.parts >>= _) = _
    rw [inside]
    cases here <;> rfl

theorem readable_of_findings {fs : List Finding} (found : findings modules t = .ok fs) :
    t.IsReadable := by
  induction t using Tree.induction_parts generalizing fs with
  | step t ih =>
    rw [findings_eq, bind_eq_ok] at found
    obtain ⟨here, said, rest⟩ := found
    obtain ⟨inside, all, -⟩ := bind_eq_ok.1 rest
    rintro ⟨path, u⟩ there
    rw [Tree.places_eq, List.mem_cons] at there
    rcases there with same | later
    · cases same
      exact exists_own_iff.1 ⟨here, said⟩
    · obtain ⟨i, v, path, part, rfl, below⟩ := Tree.mem_placesFrom_iff.1 later
      have mem : v ∈ t.parts := List.mem_of_getElem? part
      obtain ⟨gs, known⟩ := exists_findings_of_mem all mem
      exact ih v mem known (path, u) below

/-- A tree has findings just when its strings can be read. -/
theorem exists_findings_iff :
    (∃ fs, findings modules t = .ok fs) ↔ t.IsReadable :=
  ⟨fun ⟨_, found⟩ => readable_of_findings found, fun readable => ⟨_, findings_of_readable readable⟩⟩

/-- The search of a tree whose strings can be read ends, and its findings are those of the
recursion over the tree: what each part says by itself, in the order of the text. The parts are
listed by where they are, each place once, so none is reported twice or left out. -/
theorem search_reports_places (modules : List Value) (t : Tree) (readable : t.IsReadable) :
    ∃ fs, search modules [] [t] = .ok fs ∧ findings modules t = .ok fs ∧
      fs = t.places.filterMap (fun p => ownFinding? modules p.2) ∧
      t.places.Pairwise (fun p q => p.1 < q.1) ∧
      (∀ path u, (path, u) ∈ t.places ↔ t.at? path = some u) ∧
      ∀ source, Text.allBlank source.toList = false → parse? source = some t →
        analyze modules source = .ok fs := by
  have found : findings modules t = _ := findings_of_readable readable
  refine ⟨_, (search_tree modules t).trans found, found, rfl, t.pairwise_places,
    fun path u => Tree.mem_places_iff, fun source given parsed => ?_⟩
  rw [analyze, given, if_neg Bool.false_ne_true, parsed]
  exact (search_tree modules t).trans found

/-- A call of `fetch` in the arguments of a call of `require`. -/
def nestedCalls : Tree :=
  .group [.call (.name "require") [.text [.plain "http".toList],
    .call (.name "fetch") [.text [.plain "http://h".toList]]]]

theorem search_nestedCalls :
    nestedCalls.IsReadable ∧ ∃ fs, search (networkModules.map .text) [] [nestedCalls] = .ok fs ∧
      fs.map Finding.type = ["require-network-module", "fetch-call"] := by
  have readable : nestedCalls.IsReadable := by decide +kernel
  obtain ⟨fs, searched, -, rfl, -⟩ :=
    search_reports_places (networkModules.map .text) nestedCalls readable
  exact ⟨readable, _, searched, by decide +kernel⟩

end PackageRisk.Script
