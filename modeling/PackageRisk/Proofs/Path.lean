import Mathlib.Data.List.Infix
import PackageRisk.Disk.Basic

/-!
# Components of paths

A path is cut at its slashes. Every character but a slash is kept in one of the pieces
(`exists_piece`), and the components of names with slashes between them are the names
(`components_join`), as are those of the text of a place (`components_text`).
-/

namespace PackageRisk

namespace Path

variable {isCut : Char → Bool} {c : Char} {piece cs : List Char}

/-- A piece holds characters of the text, and none that the text is cut at. -/
theorem mem_of_mem_piece (mem : piece ∈ splitWhere isCut cs) (inside : c ∈ piece) :
    c ∈ cs ∧ isCut c = false := by
  induction cs generalizing piece with
  | nil =>
    rw [List.mem_singleton.1 mem] at inside
    cases inside
  | cons first rest ih =>
    have later {other : List Char} (mem : other ∈ splitWhere isCut rest) (inside : c ∈ other) :
        c ∈ first :: rest ∧ isCut c = false :=
      (ih mem inside).imp_left (List.mem_cons_of_mem _)
    unfold splitWhere at mem
    split_ifs at mem with cut
    · rcases List.mem_cons.1 mem with rfl | mem
      · cases inside
      · exact later mem inside
    · rw [Bool.not_eq_true] at cut
      split at mem
      · rw [List.mem_singleton.1 mem, List.mem_singleton] at inside
        rw [inside]
        exact ⟨List.mem_cons_self, cut⟩
      · next head tail split =>
        rcases List.mem_cons.1 mem with rfl | mem
        · rcases List.mem_cons.1 inside with rfl | inside
          · exact ⟨List.mem_cons_self, cut⟩
          · exact later (by simp [split]) inside
        · exact later (by simp [split, mem]) inside

theorem mem_of_mem_splitWhere (mem : piece ∈ splitWhere isCut cs) (inside : c ∈ piece) : c ∈ cs :=
  (mem_of_mem_piece mem inside).1

theorem not_isCut_of_mem_splitWhere (mem : piece ∈ splitWhere isCut cs) (inside : c ∈ piece) :
    isCut c = false :=
  (mem_of_mem_piece mem inside).2

theorem exists_piece (mem : c ∈ cs) (kept : isCut c = false) :
    ∃ piece ∈ splitWhere isCut cs, c ∈ piece := by
  induction cs with
  | nil => cases mem
  | cons first rest ih =>
    unfold splitWhere
    rcases List.mem_cons.1 mem with rfl | mem
    · rw [if_neg (by simp [kept])]
      split
      · exact ⟨[c], by simp⟩
      · exact ⟨_, List.mem_cons_self, List.mem_cons_self⟩
    · obtain ⟨piece, among, inside⟩ := ih mem
      split_ifs with cut
      · exact ⟨piece, List.mem_cons_of_mem _ among, inside⟩
      · split
        · simp_all
        · next head tail split =>
          rw [split] at among
          rcases List.mem_cons.1 among with rfl | among
          · exact ⟨first :: piece, List.mem_cons_self, List.mem_cons_of_mem _ inside⟩
          · exact ⟨piece, List.mem_cons_of_mem _ among, inside⟩

theorem dot_notMem_components (s : String) : "." ∉ components s := by
  simp [components]

theorem splitWhere_of_none (none : ∀ c ∈ cs, isCut c = false) : splitWhere isCut cs = [cs] := by
  induction cs with
  | nil => rfl
  | cons first rest ih =>
    rw [List.forall_mem_cons] at none
    rw [splitWhere, if_neg (by simp [none.1]), ih none.2]

theorem splitWhere_append_cons (none : ∀ c ∈ piece, isCut c = false) (cut : isCut c = true) :
    splitWhere isCut (piece ++ c :: cs) = piece :: splitWhere isCut cs := by
  induction piece with
  | nil => rw [List.nil_append, splitWhere, if_pos cut]
  | cons first rest ih =>
    rw [List.forall_mem_cons] at none
    rw [List.cons_append, splitWhere, if_neg (by simp [none.1]), ih none.2]

/-- A name that is kept as it is when a path is parsed. -/
structure IsName (name : String) : Prop where
  ne_empty : name ≠ ""
  ne_dot : name ≠ "."
  noSlash : '/' ∉ name.toList

theorem IsName.unsplit {name : String} (isName : IsName name) :
    ∀ c ∈ name.toList, (c == '/') = false := by
  intro c mem
  rw [beq_eq_false_iff_ne]
  rintro rfl
  exact isName.noSlash mem

theorem splitWhere_intercalate {names : List String} (ne : names ≠ [])
    (plain : ∀ name ∈ names, IsName name) :
    splitWhere (· == '/') (['/'].intercalate (names.map String.toList)) =
      names.map String.toList := by
  induction names with
  | nil => exact absurd rfl ne
  | cons name rest ih =>
    rw [List.forall_mem_cons] at plain
    rcases eq_or_ne rest [] with rfl | more
    · rw [List.map_singleton, List.intercalate_singleton]
      exact splitWhere_of_none plain.1.unsplit
    · rw [List.map_cons, List.intercalate_cons_of_ne_nil (by simpa using more),
        List.append_assoc, List.singleton_append, splitWhere_append_cons plain.1.unsplit rfl,
        ih more plain.2]

theorem isName_of_mem_components {s name : String} (mem : name ∈ components s) : IsName name := by
  obtain ⟨among, kept⟩ := List.mem_filter.1 mem
  obtain ⟨piece, split, rfl⟩ := List.mem_map.1 among
  rw [Bool.and_eq_true, bne_iff_ne, bne_iff_ne] at kept
  refine ⟨kept.1, kept.2, fun slash => ?_⟩
  rw [String.toList_ofList] at slash
  cases not_isCut_of_mem_splitWhere split slash

/-- The pieces of names with slashes between them are the names. -/
theorem splitWhere_join {names : List String} (ne : names ≠ [])
    (plain : ∀ name ∈ names, IsName name) :
    (splitWhere (· == '/') (Text.join "/" names).toList).map String.ofList = names := by
  rw [Text.join, String.toList_intercalate, show "/".toList = ['/'] from rfl,
    splitWhere_intercalate ne plain, List.map_map, List.map_congr_left (g := id), List.map_id]
  exact fun name _ => String.ofList_toList

/-- The components of names with slashes between them are the names. -/
theorem components_join {names : List String} (plain : ∀ name ∈ names, IsName name) :
    components (Text.join "/" names) = names := by
  rcases eq_or_ne names [] with rfl | ne
  · rfl
  · rw [components, splitWhere_join ne plain, List.filter_eq_self]
    intro name mem
    simp [(plain name mem).ne_empty, (plain name mem).ne_dot]

/-- Names with slashes between them are of one path only. -/
theorem join_inj {names names' : List String} (plain : ∀ name ∈ names, IsName name)
    (plain' : ∀ name ∈ names', IsName name)
    (same : Text.join "/" names = Text.join "/" names') : names = names' := by
  rw [← components_join plain, same, components_join plain']

theorem components_of_isName {name : String} (isName : IsName name) : components name = [name] := by
  have components := components_join (List.forall_mem_singleton.2 isName)
  rwa [Text.join, String.intercalate_singleton] at components

theorem components_slash_append (s : String) : components ("/" ++ s) = components s := by
  unfold components
  rw [String.toList_append, show "/".toList = ['/'] from rfl, List.singleton_append,
    splitWhere, if_pos (beq_self_eq_true _), List.map_cons, List.filter_cons_of_neg (by decide)]

/-- The components of the text of a place are its names. -/
theorem components_text {names : List String} (plain : ∀ name ∈ names, IsName name) :
    components (Location.text names) = names := by
  rw [Location.text, components_slash_append, components_join plain]

@[simp]
theorem parse_parts (s : String) : (parse s).parts = components s := rfl

theorem isAbsolute_iff {s : String} :
    (parse s).isAbsolute = true ↔ s.toList.head? = some '/' := by
  unfold parse isAbsolute
  dsimp only
  split
  · simp [*]
  · simp [*]
  · simp [*]
  · next other =>
    refine iff_of_false (by simp) fun head => ?_
    obtain ⟨rest, spelled⟩ := List.head?_eq_some_iff.1 head
    exact other rest spelled

theorem head?_join_ne_slash {names : List String} (isName : ∀ name ∈ names, IsName name) :
    (Text.join "/" names).toList.head? ≠ some '/' := by
  unfold Text.join
  cases names with
  | nil => simp
  | cons name rest =>
    have first := (List.forall_mem_cons.1 isName).1
    obtain ⟨tail, spelled⟩ : ∃ tail, ("/".intercalate (name :: rest)).toList =
        name.toList ++ tail := by
      rcases eq_or_ne rest [] with rfl | more
      · exact ⟨[], by simp⟩
      · refine ⟨("/" ++ "/".intercalate rest).toList, ?_⟩
        rw [String.intercalate_cons_of_ne_nil more, String.append_assoc, String.toList_append]
    rw [spelled]
    intro head
    rcases chars : name.toList with _ | ⟨c, cs⟩
    · exact first.ne_empty (String.toList_eq_nil_iff.1 chars)
    · rw [chars] at head
      cases head
      exact first.noSlash (by rw [chars]; exact List.mem_cons_self)

theorem root_parse (s : String) :
    (parse s).root = "" ∨ (parse s).root = "/" ∨ (parse s).root = "//" := by
  unfold parse
  dsimp only
  split <;> simp

/-- The text of a path with components is parsed to the path. -/
theorem parse_text {p : Path} (root : p.root = "" ∨ p.root = "/" ∨ p.root = "//")
    (some : p.parts ≠ []) (isName : ∀ name ∈ p.parts, IsName name) :
    components p.text = p.parts ∧ (parse p.text).isAbsolute = p.isAbsolute := by
  have text : p.text = p.root ++ Text.join "/" p.parts := by
    rw [Path.text, if_neg]
    simp [some]
  have absolute : (p.root ++ Text.join "/" p.parts).toList.head? = .some '/' ↔
      p.isAbsolute = true := by
    unfold isAbsolute
    rcases root with root | root | root
    · rw [root, String.empty_append]
      exact iff_of_false (head?_join_ne_slash isName) (by decide)
    · rw [root, String.toList_append]
      exact iff_of_true rfl (by decide)
    · rw [root, String.toList_append]
      exact iff_of_true rfl (by decide)
  rw [text]
  refine ⟨?_, Bool.eq_iff_iff.2 (isAbsolute_iff.trans absolute)⟩
  rcases root with root | root | root
  · rw [root, String.empty_append, components_join isName]
  · rw [root, components_slash_append, components_join isName]
  · rw [root, show "//" = "/" ++ "/" from rfl, String.append_assoc, components_slash_append,
      components_slash_append, components_join isName]

/-! ## Backslashes -/

theorem head?_forwardSlashes {s : String} :
    (forwardSlashes s).toList.head? = some '/' ↔
      s.toList.head? = some '/' ∨ s.toList.head? = some '\\' := by
  rw [forwardSlashes, String.toList_ofList, List.head?_map]
  cases s.toList.head? with
  | none => simp
  | some c => by_cases back : c = '\\' <;> simp [back]

/-- A text is cut at the same places after its characters were changed if only those that it is
cut at did change. -/
theorem splitWhere_map {isCut' : Char → Bool} {f : Char → Char} (cut : ∀ c, isCut' (f c) = isCut c)
    (kept : ∀ c, isCut c = false → f c = c) :
    splitWhere isCut' (cs.map f) = splitWhere isCut cs := by
  induction cs with
  | nil => rfl
  | cons c rest ih =>
    rw [List.map_cons, splitWhere, splitWhere, cut, ih]
    split_ifs with here
    · rfl
    · rw [kept c (by simpa using here)]

/-- The characters that either reading of a path takes for separators. -/
def isSeparator (c : Char) : Bool :=
  c == '/' || c == '\\'

/-- The pieces of a path between separators of both kinds. -/
def pieces (s : String) : List String :=
  (splitWhere isSeparator s.toList).map String.ofList

theorem components_forwardSlashes (s : String) :
    components (forwardSlashes s) = (pieces s).filter fun p => p != "" && p != "." := by
  have cut (c : Char) : ((if c == '\\' then '/' else c) == '/') = isSeparator c := by
    by_cases back : c = '\\' <;> simp [back, isSeparator]
  have kept (c : Char) (other : isSeparator c = false) : (if c == '\\' then '/' else c) = c := by
    simp_all [isSeparator]
  rw [components, pieces, forwardSlashes, String.toList_ofList, splitWhere_map cut kept]

theorem forwardSlashes_of_notMem {s : String} (none : '\\' ∉ s.toList) : forwardSlashes s = s := by
  have same : s.toList.map (fun c => if c == '\\' then '/' else c) = s.toList := by
    refine (List.map_congr_left fun c mem => if_neg ?_).trans (List.map_id _)
    rw [beq_iff_eq]
    rintro rfl
    exact none mem
  rw [forwardSlashes, same, String.ofList_toList]

end Path

end PackageRisk
