import Mathlib.Data.List.Infix
import Mathlib.Data.List.TakeWhile
import Mathlib.Tactic.SplitIfs
import PackageRisk.Text.Utf8
import PackageRisk.Value.Json

/-!
# What reading a document tells of its text

Reading JSON ends with a document, with a text that is none, or with a refusal: of nesting, or of a
whole number for its digits. A refusal tells something about the text that can be seen without
reading it (`Tells`, which one case for each reader establishes and an induction on their steps
combines): a text with few openers and no long run of digits is a document or none
(`read_of_plain`).
-/

namespace PackageRisk

theorem toList_loop_eq (bs : ByteArray) (i : Nat) (acc : List UInt8) :
    ByteArray.toList.loop bs i acc = acc.reverse ++ bs.data.toList.drop i := by
  rw [ByteArray.toList.loop]
  split
  · rename_i lt
    rw [toList_loop_eq bs (i + 1), List.drop_eq_getElem_cons (i := i) (by simpa using lt)]
    simp [ByteArray.get!, getElem!_pos, lt]
  · rename_i ge
    rw [List.drop_eq_nil_of_le (by simpa using ge), List.append_nil]

theorem toList_eq (bs : ByteArray) : bs.toList = bs.data.toList :=
  toList_loop_eq bs 0 []

namespace Text
theorem readUtf8_of_ascii {bytes : List UInt8} (ascii : ∀ b ∈ bytes, b < 0x80) :
    readUtf8 bytes = (bytes.map fun b => Char.ofNat b.toNat).map some := by
  induction bytes with
  | nil => rw [readUtf8, List.map_nil, List.map_nil]
  | cons b rest ih =>
    rw [List.forall_mem_cons] at ascii
    rw [readUtf8, if_pos ascii.1, ih ascii.2, List.map_cons, List.map_cons]

theorem ofUtf8?_of_ascii {bytes : List UInt8} (ascii : ∀ b ∈ bytes, b < 0x80) :
    ofUtf8? bytes = some (String.ofList (bytes.map fun b => Char.ofNat b.toNat)) := by
  have decoded (cs : List Char) : (cs.map some).mapM id = some cs := by
    rw [List.mapM_map]
    exact (List.mapM_pure (m := Option)).trans (congrArg some (List.map_id _))
  rw [ofUtf8?, readUtf8_of_ascii ascii, decoded, Option.map_some]

end Text

namespace Json

/-- Whether a character opens a list or an object. -/
def isOpener (c : Char) : Bool :=
  c == '[' || c == '{'

/-- How many lists and objects a text opens, those inside of strings included. -/
def openers (cs : List Char) : Nat :=
  cs.countP isOpener

/-- More digits in a row than a whole number may have. -/
def HasLongRun (cs : List Char) : Prop :=
  ∃ run, run <:+: cs ∧ (∀ c ∈ run, c.isDigit) ∧ maxDigits < run.length

/-- What a reader tells of a text: it leaves an end of it, it refuses nesting only where the text
opens more than it may, and digits only where there are too many in a row. -/
inductive Tells {α : Type} (depth : Nat) (cs : List Char) : Except Fault (α × List Char) → Prop
  | read {a : α} {rest : List Char} (left : rest <:+ cs) : Tells depth cs (.ok (a, rest))
  | malformed : Tells depth cs (.error .malformed)
  | deep (nested : depth < openers cs) : Tells depth cs (.error .tooDeep)
  | long (digits : HasLongRun cs) : Tells depth cs (.error .tooManyDigits)

variable {α β : Type} {depth fuel : Nat} {c : Char} {cs rest all : List Char}
  {r : Except Fault (α × List Char)}

theorem Tells.of_suffix (tells : Tells depth cs r) (suffix : cs <:+ all) : Tells depth all r := by
  cases tells with
  | read left => exact .read (left.trans suffix)
  | malformed => exact .malformed
  | deep nested => exact .deep (nested.trans_le (suffix.sublist.countP_le))
  | long digits =>
    obtain ⟨run, among, digits, long⟩ := digits
    exact .long ⟨run, among.trans suffix.isInfix, digits, long⟩

/-- Behind an opener one level less is left. -/
theorem Tells.behind (tells : Tells (depth - 1) rest r)
    (opens : isOpener c) : Tells depth (c :: rest) r := by
  cases tells with
  | read left => exact .read (left.trans (List.suffix_cons _ _))
  | malformed => exact .malformed
  | deep nested =>
    refine .deep ?_
    rw [openers, List.countP_cons_of_pos opens]
    unfold openers at nested
    omega
  | long digits => exact (Tells.long digits).of_suffix (List.suffix_cons _ _)

theorem Tells.map (f : α → β) (tells : Tells depth cs r) :
    Tells depth cs (r.map fun p => (f p.1, p.2)) := by
  cases tells with
  | read left => exact .read left
  | malformed => exact .malformed
  | deep nested => exact .deep nested
  | long digits => exact .long digits

theorem Tells.ok_suffix {a : α} (tells : Tells depth cs (.ok (a, rest))) : rest <:+ cs := by
  cases tells with
  | read left => exact left

theorem Tells.error_of {e : Fault}
    (tells : Tells depth cs (.error e : Except Fault (α × List Char))) :
    Tells depth cs (.error e : Except Fault (β × List Char)) := by
  cases tells with
  | malformed => exact .malformed
  | deep nested => exact .deep nested
  | long digits => exact .long digits

theorem skipSpace_suffix : skipSpace cs <:+ cs := List.dropWhile_suffix _

theorem suffix_of_skipSpace (left : skipSpace cs = c :: rest) : rest <:+ cs :=
  (List.suffix_cons c rest).trans (left ▸ skipSpace_suffix)

theorem openers_pos (opens : isOpener c) : 0 < openers (c :: rest) :=
  List.countP_pos_iff.2 ⟨c, List.mem_cons_self, opens⟩

theorem hex4?_suffix {n : Nat} (found : hex4? cs = some (n, rest)) : rest <:+ cs := by
  unfold hex4? at found
  split at found
  · simp only [Option.bind_eq_bind, Option.bind_eq_some_iff, Option.pure_def,
      Option.some.injEq, Prod.mk.injEq] at found
    obtain ⟨_, -, _, -, _, -, _, -, -, rfl⟩ := found
    exact ⟨[_, _, _, _], rfl⟩
  · cases found

theorem unicodeEscape?_suffix {u : Char} (found : unicodeEscape? cs = some (u, rest)) :
    rest <:+ cs := by
  unfold unicodeEscape? at found
  split at found
  · cases found
  · rename_i n more four
    have first := hex4?_suffix four
    split_ifs at found
    · split at found
      · rename_i after
        split at found
        · rename_i second
          have last := (hex4?_suffix second).trans <|
            (List.suffix_cons 'u' after).trans (List.suffix_cons '\\' _)
          split_ifs at found
          · obtain ⟨-, rfl⟩ := Prod.mk.inj (Option.some.inj found)
            exact last.trans first
          · obtain ⟨-, rfl⟩ := Prod.mk.inj (Option.some.inj found)
            exact first
        · cases found
      · cases found
        exact first
    · cases found
      exact first
    · cases found
      exact first

theorem stringBody_tells {acc : List Char} : Tells depth cs (stringBody fuel acc cs) := by
  induction fuel generalizing acc cs with
  | zero => exact .malformed
  | succ fuel ih =>
    have later {u : Char} {rest : List Char} (left : rest <:+ cs) :
      Tells depth cs (stringBody fuel (u :: acc) rest) := ih.of_suffix left
    unfold stringBody
    split
    · cases ‹_ = 0›
    · exact .malformed
    rename_i c rest more
    cases more
    split_ifs
    · exact .read (List.suffix_cons _ _)
    · exact .malformed
    · split
      · rename_i more
        split
        · rename_i escaped
          exact later (unicodeEscape?_suffix escaped |>.trans ⟨[c, 'u'], rfl⟩)
        · exact .malformed
      · rename_i e more _
        split
        · exact later ⟨[c, e], rfl⟩
        · exact .malformed
      · exact .malformed
    · exact later (List.suffix_cons _ _)

theorem wholeDigits_append (cs : List Char) :
    (wholeDigits cs).1 ++ (wholeDigits cs).2 = cs := by
  unfold wholeDigits
  split
  · rfl
  · exact List.takeWhile_append_dropWhile

theorem isDigit_of_mem_wholeDigits (mem : c ∈ (wholeDigits cs).1) : c.isDigit := by
  unfold wholeDigits at mem
  split at mem
  · cases List.mem_singleton.1 mem
    rfl
  · exact List.mem_takeWhile_imp mem

theorem fractionDigits_suffix (cs : List Char) : (fractionDigits cs).2 <:+ cs := by
  unfold fractionDigits
  split
  · split_ifs
    · exact (List.dropWhile_suffix _).trans ⟨['.', _], rfl⟩
    · exact List.suffix_refl _
  · exact List.suffix_refl _

theorem splitSign_suffix : (Numeral.splitSign cs).2 <:+ cs := by
  unfold Numeral.splitSign
  split
  · exact List.suffix_cons _ _
  · exact List.suffix_cons _ _
  · exact List.suffix_refl _

theorem exponentDigits_suffix (cs : List Char) : (exponentDigits cs).2 <:+ cs := by
  unfold exponentDigits
  split
  · rename_i c rest
    have later : List.dropWhile Char.isDigit (Numeral.splitSign rest).2 <:+ c :: rest :=
      (List.dropWhile_suffix _).trans (splitSign_suffix.trans (List.suffix_cons _ _))
    dsimp only
    split_ifs
    all_goals first | exact List.suffix_refl _ | exact later
  · exact List.suffix_refl _

theorem number_tells : Tells depth cs (number cs) := by
  unfold number
  split
  rename_i negative body signed
  have within : body <:+ cs := by
    split at signed <;> cases signed
    · exact List.suffix_cons _ _
    · exact List.suffix_refl _
  split
  rename_i whole afterWhole first
  have joined : whole ++ afterWhole = body := by
    simpa only [first] using wholeDigits_append body
  have digits (c : Char) (mem : c ∈ whole) : c.isDigit := by
    have among : c ∈ (wholeDigits body).1 := by rwa [first]
    exact isDigit_of_mem_wholeDigits among
  split
  · exact .malformed
  split
  rename_i fraction afterFraction second
  split
  rename_i exponent left third
  have rest : left <:+ cs := by
    have point : afterFraction <:+ afterWhole := by
      simpa only [second] using fractionDigits_suffix afterWhole
    have letter : left <:+ afterFraction := by
      simpa only [third] using exponentDigits_suffix afterFraction
    exact letter.trans (point.trans (.trans ⟨whole, joined⟩ within))
  split
  · split
    · have run : whole <:+: body := joined ▸ (List.prefix_append _ _).isInfix
      exact .long ⟨whole, run.trans within.isInfix, digits, ‹_›⟩
    · exact .read rest
  · exact .read rest

theorem scalar_tells : Tells depth cs (scalar cs) := by
  unfold scalar
  split
  · rename_i r found
    obtain ⟨⟨w, v⟩, -, found⟩ := List.exists_of_findSome?_eq_some found
    obtain ⟨rest, dropped, rfl⟩ := Option.map_eq_some_iff.1 found
    unfold dropWord? at dropped
    split_ifs at dropped
    cases dropped
    exact .read (List.drop_suffix _ _)
  · exact number_tells.map _

section Step

variable (values : ∀ depth cs, Tells depth cs (value fuel depth cs))
  (lists : ∀ depth acc cs, Tells depth cs (items fuel depth acc cs))
  (objects : ∀ depth acc cs, Tells depth cs (members fuel depth acc cs))

include lists objects in
theorem value_tells_step : Tells depth cs (value (fuel + 1) depth cs) := by
  unfold value
  split
  · exact (stringBody_tells.of_suffix (List.suffix_cons _ _)).map _
  · split_ifs with full
    · exact .deep (full ▸ openers_pos rfl)
    · split
      · exact .read ((suffix_of_skipSpace ‹_›).trans (List.suffix_cons _ _))
      · exact ((lists _ _ _).of_suffix skipSpace_suffix).behind rfl
  · split_ifs with full
    · exact .deep (full ▸ openers_pos rfl)
    · split
      · exact .read ((suffix_of_skipSpace ‹_›).trans (List.suffix_cons _ _))
      · exact ((objects _ _ _).of_suffix skipSpace_suffix).behind rfl
  · exact scalar_tells

include values lists in
theorem items_tells_step (acc : List Value) :
    Tells depth cs (items (fuel + 1) depth acc cs) := by
  have first := values depth cs
  unfold items
  split
  · rename_i failed
    exact (failed ▸ first).error_of
  · rename_i read
    have left := (read ▸ first).ok_suffix
    split
    · have next := (suffix_of_skipSpace ‹_›).trans left
      exact (lists _ _ _).of_suffix (skipSpace_suffix.trans next)
    · exact .read ((suffix_of_skipSpace ‹_›).trans left)
    · exact .malformed

include values objects in
theorem members_tells_step (acc : Fields) :
    Tells depth cs (members (fuel + 1) depth acc cs) := by
  unfold members
  split
  · rename_i quoted
    have key : Tells depth quoted (stringBody quoted.length.succ [] quoted) := stringBody_tells
    split
    · rename_i failed
      exact ((failed ▸ key).of_suffix (List.suffix_cons _ _)).error_of
    · rename_i read
      have named := (read ▸ key).ok_suffix.trans (List.suffix_cons '"' _)
      split
      · rename_i afterColon colon
        have entered := skipSpace_suffix.trans ((suffix_of_skipSpace colon).trans named)
        have inner := values depth (skipSpace afterColon)
        split
        · rename_i failed
          exact ((failed ▸ inner).of_suffix entered).error_of
        · rename_i read
          have left := (read ▸ inner).ok_suffix.trans entered
          split
          · have next := (suffix_of_skipSpace ‹_›).trans left
            exact (objects _ _ _).of_suffix (skipSpace_suffix.trans next)
          · exact .read ((suffix_of_skipSpace ‹_›).trans left)
          · exact .malformed
      · exact .malformed
  · exact .malformed

end Step

/-- The readers of values, of what is in a list and of what is in an object, by the number of steps
that they may take. -/
theorem readers_tell (fuel : Nat) :
    (∀ depth cs, Tells depth cs (value fuel depth cs)) ∧
      (∀ depth acc cs, Tells depth cs (items fuel depth acc cs)) ∧
      ∀ depth acc cs, Tells depth cs (members fuel depth acc cs) := by
  induction fuel with
  | zero =>
    unfold value items members
    exact ⟨fun _ _ => .malformed, fun _ _ _ => .malformed, fun _ _ _ => .malformed⟩
  | succ fuel ih =>
    obtain ⟨values, lists, objects⟩ := ih
    exact ⟨fun _ _ => value_tells_step lists objects,
      fun _ acc _ => items_tells_step values lists acc,
      fun _ acc _ => members_tells_step values objects acc⟩

/-- A text that opens no more than it may and has no overlong whole number is a document or none,
but nothing beyond what is read. -/
theorem read_of_plain {maxDepth : Nat} {text : String}
    (shallow : openers text.toList ≤ maxDepth) (short : ¬HasLongRun text.toList) :
    (∃ v, read maxDepth text = .ok v) ∨ read maxDepth text = .error .malformed := by
  have start : skipSpace text.toList <:+ text.toList := skipSpace_suffix
  have tells := ((readers_tell (text.toList.length + 1)).1 maxDepth _).of_suffix start
  rw [read]
  generalize value (text.toList.length + 1) maxDepth (skipSpace text.toList) = told at tells ⊢
  rcases told with e | ⟨v, rest⟩
  · cases tells with
    | malformed => exact .inr rfl
    | deep nested => exact absurd nested (Nat.not_lt.2 shallow)
    | long digits => exact absurd digits short
  · dsimp only
    split_ifs
    · exact .inl ⟨v, rfl⟩
    · exact .inr rfl

section Digits

variable {ds : List Char} (digits : ∀ c ∈ ds, c.isDigit)

include digits in
theorem wholeDigits_of_digits : wholeDigits ('1' :: ds) = ('1' :: ds, []) := by
  have all : ∀ c ∈ '1' :: ds, c.isDigit := List.forall_mem_cons.2 ⟨rfl, digits⟩
  show (List.takeWhile _ _, List.dropWhile _ _) = _
  rw [List.takeWhile_eq_self_iff.2 all, List.dropWhile_eq_nil_iff.2 all]

include digits in
/-- A text of nothing but digits, one more than a whole number may have or still longer. -/
theorem read_of_digits (long : maxDigits ≤ ds.length) :
    read depth (String.ofList ('1' :: ds)) = .error .tooManyDigits := by
  have more : maxDigits < ('1' :: ds).length := Nat.lt_succ_of_le long
  have refused : number ('1' :: ds) = .error .tooManyDigits := by
    simp [number, wholeDigits_of_digits digits, fractionDigits, exponentDigits,
      List.length_cons ▸ more]
  have unnamed : scalar ('1' :: ds) =
      (number ('1' :: ds)).map (fun r => (.number r.1, r.2)) := rfl
  have told : value (('1' :: ds).length + 1) depth ('1' :: ds) = .error .tooManyDigits := by
    show scalar ('1' :: ds) = _
    rw [unnamed, refused]
    rfl
  have space : skipSpace ('1' :: ds) = '1' :: ds := rfl
  simp only [read, String.toList_ofList, space, told]

end Digits

end Json

end PackageRisk
