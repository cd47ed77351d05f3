import Mathlib.Data.List.Basic
import Mathlib.Data.List.TakeWhile
import PackageRisk.Package.Scripts

/-!
# Words of a text

`Cut` says where the words of a text are: each is a run of characters that are not blank, and blanks
stand between two of them and perhaps at both ends. A text is cut in one way (`words_eq_iff`). To
trim it does not change its words, and in what is trimmed each run of blanks stands between two
words; so a text with its runs of blanks collapsed is its words with single spaces between them
(`collapse_eq_intercalate`), and these are cut at the spaces again (`words_intercalate`).
-/

namespace PackageRisk

namespace Text

variable {c : Char} {cs ds blanks word : List Char} {ws : List (List Char)}

/-- A run of characters that are not blank. -/
structure IsWord (word : List Char) : Prop where
  ne_nil : word ≠ []
  noBlank : ∀ c ∈ word, isBlank c = false

/-- A text and its words in order. Behind a word there is a blank, or the text ends. -/
inductive Cut : List Char → List (List Char) → Prop
  | nil : Cut [] []
  | blank {c : Char} {cs : List Char} {ws : List (List Char)} (isBlank : isBlank c = true)
    (rest : Cut cs ws) : Cut (c :: cs) ws
  | word {word cs : List Char} {ws : List (List Char)} (isWord : IsWord word)
    (ends : ∀ c ∈ cs.head?, isBlank c = true) (rest : Cut cs ws) : Cut (word ++ cs) (word :: ws)

theorem Cut.single (isWord : IsWord word) : Cut word [word] := by
  have alone : Cut (word ++ []) [word] := .word isWord nofun .nil
  rwa [List.append_nil] at alone

theorem Cut.forall_isWord (cut : Cut cs ws) : ∀ word ∈ ws, IsWord word := by
  induction cut with
  | nil => exact List.forall_mem_nil _
  | blank _ _ ih => exact ih
  | word isWord _ _ ih => exact List.forall_mem_cons.2 ⟨isWord, ih⟩

/-! ## The words are found -/

/-- What the search holds of an open word stands before what is left. -/
theorem cut_wordsFrom (noBlank : ∀ c ∈ word, isBlank c = false) :
    Cut (word.reverse ++ cs) (wordsFrom word cs) := by
  have isWord (ne_nil : word ≠ []) : IsWord word.reverse :=
    ⟨by simpa using ne_nil, fun c mem => noBlank c (List.mem_reverse.1 mem)⟩
  induction cs generalizing word with
  | nil =>
    unfold wordsFrom
    split_ifs with empty
    · rw [List.isEmpty_iff.1 empty]
      exact .nil
    · exact .word (isWord (by simpa using empty)) (by simp) .nil
  | cons c cs ih =>
    have later : Cut cs (wordsFrom [] cs) := @ih [] (by simp) (by simp)
    unfold wordsFrom
    split_ifs with blank empty
    · rw [List.isEmpty_iff.1 empty]
      exact .blank blank later
    · exact .word (isWord (by simpa using empty)) (by simpa using blank) (.blank blank later)
    · have noBlank : ∀ d ∈ c :: word, isBlank d = false :=
        List.forall_mem_cons.2 ⟨by simpa using blank, noBlank⟩
      have longer := ih noBlank
        fun _ => ⟨by simp, fun d mem => noBlank d (List.mem_reverse.1 mem)⟩
      rwa [List.reverse_cons, List.append_assoc, List.singleton_append] at longer

theorem cut_words (cs : List Char) : Cut cs (words cs) :=
  cut_wordsFrom (List.forall_mem_nil _)

theorem wordsFrom_append (noBlank : ∀ c ∈ word, isBlank c = false) (held : List Char) :
    wordsFrom held (word ++ cs) = wordsFrom (word.reverse ++ held) cs := by
  induction word generalizing held with
  | nil => rfl
  | cons c word ih =>
    rw [List.forall_mem_cons] at noBlank
    rw [List.cons_append, wordsFrom, if_neg (by simp [noBlank.1]), ih noBlank.2,
      List.reverse_cons, List.append_assoc, List.singleton_append]

@[simp]
theorem words_cons_blank (blank : isBlank c = true) : words (c :: cs) = words cs := by
  rw [words, wordsFrom, if_pos blank]
  rfl

/-- A word is closed by the blank behind it, or by the end of the text. -/
theorem words_append (isWord : IsWord word) (ends : ∀ c ∈ cs.head?, isBlank c = true) :
    words (word ++ cs) = word :: words cs := by
  rw [words, wordsFrom_append isWord.noBlank, List.append_nil]
  have held : ¬word.reverse.isEmpty = true := by simpa using isWord.ne_nil
  cases cs with
  | nil => rw [wordsFrom, if_neg held, List.reverse_reverse]; rfl
  | cons c cs =>
    have blank : isBlank c = true := ends c rfl
    rw [wordsFrom, if_pos blank, if_neg held, List.reverse_reverse, words_cons_blank blank, words]

theorem Cut.words_eq (cut : Cut cs ws) : words cs = ws := by
  induction cut with
  | nil => rfl
  | blank blank _ ih => rw [words_cons_blank blank, ih]
  | word isWord ends _ ih => rw [words_append isWord ends, ih]

theorem words_eq_iff : words cs = ws ↔ Cut cs ws :=
  ⟨fun same => same ▸ cut_words cs, Cut.words_eq⟩

/-! ## Trimmed texts -/

theorem words_blanks_append (all : ∀ c ∈ blanks, isBlank c = true) :
    words (blanks ++ cs) = words cs := by
  induction blanks with
  | nil => rfl
  | cons c blanks ih =>
    rw [List.forall_mem_cons] at all
    rw [List.cons_append, words_cons_blank all.1, ih all.2]

theorem Cut.append_blanks (cut : Cut cs ws) (all : ∀ c ∈ blanks, isBlank c = true) :
    Cut (cs ++ blanks) ws := by
  induction cut with
  | nil =>
    have none : words (blanks ++ []) = [] := words_blanks_append all
    rw [List.append_nil] at none
    exact words_eq_iff.1 none
  | blank blank _ ih => exact .blank blank ih
  | @word word cs ws isWord ends _ ih =>
    rw [List.append_assoc]
    refine .word isWord (fun c first => ?_) ih
    rw [List.head?_append, Option.mem_def, Option.or_eq_some_iff] at first
    rcases first with first | ⟨-, first⟩
    · exact ends c first
    · exact all c (List.mem_of_head? first)

/-- What is dropped at the end when a text is trimmed. -/
def blankEnd (cs : List Char) : List Char :=
  ((cs.dropWhile isBlank).reverse.takeWhile isBlank).reverse

theorem trim_append_blankEnd (cs : List Char) :
    trim cs ++ blankEnd cs = cs.dropWhile isBlank := by
  rw [trim, blankEnd, ← List.reverse_append, List.takeWhile_append_dropWhile, List.reverse_reverse]

theorem isBlank_of_mem_blankEnd (mem : c ∈ blankEnd cs) : isBlank c = true :=
  List.mem_takeWhile_imp (List.mem_reverse.1 mem)

theorem words_trim (cs : List Char) : words (trim cs) = words cs := by
  have cut : Cut (trim cs ++ blankEnd cs) (words (trim cs)) :=
    (cut_words _).append_blanks fun _ => isBlank_of_mem_blankEnd
  calc words (trim cs) = words (cs.dropWhile isBlank) := by
        rw [← trim_append_blankEnd, cut.words_eq]
    _ = words (cs.takeWhile isBlank ++ cs.dropWhile isBlank) :=
        (words_blanks_append fun _ => List.mem_takeWhile_imp).symm
    _ = words cs := by rw [List.takeWhile_append_dropWhile]

theorem head?_trim (cs : List Char) : ∀ c ∈ (trim cs).head?, isBlank c = false := by
  intro c first
  have start := List.head?_dropWhile_not isBlank cs
  rw [← trim_append_blankEnd, List.head?_append, first] at start
  simpa using start

theorem getLast?_trim (cs : List Char) : ∀ c ∈ (trim cs).getLast?, isBlank c = false := by
  intro c last
  rw [trim, List.getLast?_reverse] at last
  have start := List.head?_dropWhile_not isBlank (cs.dropWhile isBlank).reverse
  rw [last] at start
  simpa using start

/-! ## Collapsed texts -/

theorem squeeze_append (noBlank : ∀ c ∈ word, isBlank c = false) (ne_nil : word ≠ [])
    (inRun : Bool) : squeeze inRun (word ++ cs) = word ++ squeeze false cs := by
  induction word generalizing inRun with
  | nil => exact absurd rfl ne_nil
  | cons c word ih =>
    rw [List.forall_mem_cons] at noBlank
    rw [List.cons_append, squeeze, if_neg (by simp [noBlank.1]), List.cons_append]
    rcases eq_or_ne word [] with rfl | more
    · rfl
    · rw [ih noBlank.2 more]

/-- A text that does not end with a blank has a word behind each run of blanks. -/
theorem Cut.squeeze_eq (cut : Cut cs ws) (ends : ∀ c ∈ cs.getLast?, isBlank c = false) :
    squeeze true cs = [' '].intercalate ws ∧ (cs ≠ [] → ws ≠ []) := by
  induction cut with
  | nil => exact ⟨rfl, fun ne_nil => absurd rfl ne_nil⟩
  | @blank c cs ws blank _ ih =>
    have ne_nil : cs ≠ [] := by
      rintro rfl
      rw [ends c rfl] at blank
      cases blank
    rw [List.getLast?_cons_of_ne_nil ne_nil] at ends
    obtain ⟨spaced, some⟩ := ih ends
    rw [squeeze, if_pos blank, if_pos rfl]
    exact ⟨spaced, fun _ => some ne_nil⟩
  | @word word cs ws isWord next cut ih =>
    refine ⟨?_, fun _ => List.cons_ne_nil _ _⟩
    rw [squeeze_append isWord.noBlank isWord.ne_nil]
    cases cs with
    | nil =>
      rw [← cut.words_eq]
      simp [squeeze, words, wordsFrom]
    | cons c cs =>
      have blank : isBlank c = true := next c rfl
      obtain ⟨spaced, some⟩ := ih (by rwa [List.getLast?_append_of_ne_nil _ (by simp)] at ends)
      rw [squeeze, if_pos blank, if_pos rfl] at spaced
      rw [squeeze, if_pos blank, if_neg Bool.false_ne_true, spaced,
        List.intercalate_cons_of_ne_nil (some (by simp)), List.append_assoc,
        List.singleton_append]

theorem squeeze_of_head? (first : ∀ c ∈ cs.head?, isBlank c = false) (inRun : Bool) :
    squeeze inRun cs = squeeze true cs := by
  cases cs with
  | nil => rfl
  | cons c cs =>
    have letter : ¬isBlank c = true := by simp [first c rfl]
    rw [squeeze, squeeze, if_neg letter, if_neg letter]

/-- A collapsed text is its words with single spaces between them. -/
theorem collapse_eq_intercalate (cs : List Char) : collapse cs = [' '].intercalate (words cs) := by
  rw [collapse, squeeze_of_head? (head?_trim cs), ((cut_words _).squeeze_eq (getLast?_trim cs)).1,
    words_trim]

/-- Words with single spaces between them are cut at the spaces. -/
theorem words_intercalate (isWord : ∀ word ∈ ws, IsWord word) :
    words ([' '].intercalate ws) = ws := by
  rw [words_eq_iff]
  induction ws with
  | nil => exact .nil
  | cons word ws ih =>
    rw [List.forall_mem_cons] at isWord
    rcases eq_or_ne ws [] with rfl | more
    · rw [List.intercalate_singleton]
      exact .single isWord.1
    · rw [List.intercalate_cons_of_ne_nil more, List.append_assoc, List.singleton_append]
      exact .word isWord.1 (by simp; decide) (.blank (by decide) (ih isWord.2))

theorem words_collapse (cs : List Char) : words (collapse cs) = words cs := by
  rw [collapse_eq_intercalate, words_intercalate (cut_words cs).forall_isWord]

theorem collapse_eq_iff : collapse cs = collapse ds ↔ words cs = words ds := by
  constructor
  · intro same
    rw [← words_collapse cs, same, words_collapse]
  · intro same
    rw [collapse_eq_intercalate, same, ← collapse_eq_intercalate]

/-- The words of a text as texts. -/
def wordsOf (s : String) : List String :=
  (words s.toList).map String.ofList

theorem wordsOf_eq_iff {s : String} {parts : List String} :
    wordsOf s = parts ↔ Cut s.toList (parts.map String.toList) := by
  rw [← words_eq_iff, wordsOf]
  constructor
  · rintro rfl
    simp
  · intro same
    simp [same]

theorem wordsOf_inj {s t : String} : wordsOf s = wordsOf t ↔ words s.toList = words t.toList :=
  (List.map_injective_iff.2 fun _ _ same => String.ofList_inj.1 same).eq_iff

end Text

open Text

theorem toList_normalizedScript (s : String) :
    (normalizedScript s).toList = collapse s.toList := String.toList_ofList

/-- A script is normalised to its words with single spaces between them, whatever blanks it has and
wherever. So it is not changed if it is normalised again, and two scripts become the same just when
they have the same words in the same order. -/
theorem normalizedScript_joins_words (s : String) :
    (∀ parts, wordsOf s = parts ↔ Cut s.toList (parts.map String.toList)) ∧
      normalizedScript s = Text.join " " (wordsOf s) ∧
      normalizedScript (normalizedScript s) = normalizedScript s ∧
      ∀ t, normalizedScript s = normalizedScript t ↔ wordsOf s = wordsOf t := by
  have collapsed_iff (s t : String) :
      normalizedScript s = normalizedScript t ↔ words s.toList = words t.toList := by
    rw [← String.toList_inj, toList_normalizedScript, toList_normalizedScript, collapse_eq_iff]
  refine ⟨fun parts => wordsOf_eq_iff, ?_, ?_, fun t => ?_⟩
  · rw [← String.toList_inj, toList_normalizedScript, collapse_eq_intercalate, Text.join,
      String.toList_intercalate, wordsOf]
    simp
  · rw [collapsed_iff, toList_normalizedScript, words_collapse]
  · rw [collapsed_iff, wordsOf_inj]

end PackageRisk
