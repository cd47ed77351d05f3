import PackageRisk.Proofs.Script.CodeUnits
import PackageRisk.Proofs.Script.Escapes

/-!
# The value of a literal

The language of scripts gives every string literal a value, a sequence of code units:
`literalValue?` reads it off the text. Beside it stands how the pieces of a literal are read off
the same text (`Spells`): what is taken for an escape is in the text, has as many octal digits as
there are up to three, and is a return alone only if no new line follows (`escapeBody_eq`).
-/

namespace PackageRisk.Script

/-! ## The value of a literal -/

/-- The most digits that an octal escape takes: a third one only if the first is up to three. -/
def octalLimit (first : Char) : Nat :=
  if first ≤ '3' then 3 else 2

/-- The point that a single character stands for in an escape. -/
def namedPoint (c : Char) : Nat :=
  match c with
  | 'b' => 0x8
  | 't' => 0x9
  | 'n' => 0xA
  | 'v' => 0xB
  | 'f' => 0xC
  | 'r' => 0xD
  | c => c.toNat

/-- The unit of two hexadecimal digits. -/
def byteValue? : Reader (List Nat)
  | a :: b :: more =>
    if [a, b].all Text.isHexDigit then some ([valueIn 16 [a, b]], more) else none
  | _ => none

/-- The unit of four hexadecimal digits. -/
def unitValue? : Reader (List Nat)
  | a :: b :: c :: d :: more =>
    if [a, b, c, d].all Text.isHexDigit then some ([valueIn 16 [a, b, c, d]], more) else none
  | _ => none

/-- The units of the point that hexadecimal digits up to a closing brace spell. -/
def pointValue? : Reader (List Nat) := fun cs =>
  let digits := cs.takeWhile Text.isHexDigit
  match cs.drop digits.length with
  | '}' :: more =>
    if digits.isEmpty || 0x10FFFF < valueIn 16 digits then none
    else some (units (valueIn 16 digits), more)
  | _ => none

/-- The units that an escape stands for, from the text behind its backslash. -/
def escapeValue? : Reader (List Nat)
  | 'x' :: rest => byteValue? rest
  | 'u' :: '{' :: rest => pointValue? rest
  | 'u' :: rest => unitValue? rest
  | '\r' :: '\n' :: rest => some ([], rest)
  | c :: rest =>
    if isTerminator c then some ([], rest)
    else if isOctal c then
      let digits := ((c :: rest).takeWhile isOctal).take (octalLimit c)
      some ([valueIn 8 digits], (c :: rest).drop digits.length)
    else some (units (namedPoint c), rest)
  | [] => none

/-- The rest of a text is no longer than the text. -/
def Shortens {α : Type} (read : Reader α) : Prop :=
  ∀ cs a more, read cs = some (a, more) → more.length ≤ cs.length

theorem byteValue?_shortens : Shortens byteValue? := by
  intro cs v more read
  unfold byteValue? at read
  split at read
  · split_ifs at read
    cases read
    simp only [List.length_cons]
    omega
  · cases read

theorem unitValue?_shortens : Shortens unitValue? := by
  intro cs v more read
  unfold unitValue? at read
  split at read
  · split_ifs at read
    cases read
    simp only [List.length_cons]
    omega
  · cases read

theorem pointValue?_shortens : Shortens pointValue? := by
  intro cs v more read
  unfold pointValue? at read
  dsimp only at read
  split at read
  · next dropped =>
    have fewer := congrArg List.length dropped
    split_ifs at read
    cases read
    simp only [List.length_cons, List.length_drop] at fewer
    omega
  · cases read

theorem escapeValue?_length {cs more : List Char} {v : List Nat}
    (read : escapeValue? cs = some (v, more)) : more.length < cs.length := by
  unfold escapeValue? at read
  split at read
  · exact Nat.lt_succ_of_le (byteValue?_shortens _ _ _ read)
  · exact Nat.lt_succ_of_lt (Nat.lt_succ_of_le (pointValue?_shortens _ _ _ read))
  · exact Nat.lt_succ_of_le (unitValue?_shortens _ _ _ read)
  · cases read
    simp only [List.length_cons]
    omega
  · next c rest _ _ _ _ =>
    split_ifs at read with ends octal
    · cases read
      exact Nat.lt_succ_self _
    · cases read
      have taken : 0 < octalLimit c := by
        unfold octalLimit
        split_ifs <;> omega
      rw [List.takeWhile_cons_of_pos octal]
      simp only [List.length_drop, List.length_take, List.length_cons]
      omega
    · cases read
      exact Nat.lt_succ_self _
  · cases read

/-- The value of the rest of a literal up to its closing quote. -/
def valueFrom? (quote : Char) : Reader (List Nat)
  | [] => none
  | c :: rest =>
    if c == quote then some ([], rest)
    else if c == '\\' then
      match _read : escapeValue? rest with
      | some (here, more) =>
        (valueFrom? quote more).map fun (later, after) => (here ++ later, after)
      | none => none
    else if c == '\n' || c == '\r' then none
    else (valueFrom? quote rest).map fun (later, after) => (units c.toNat ++ later, after)
  termination_by cs => cs.length
  decreasing_by
  · exact Nat.lt_succ_of_lt (escapeValue?_length _read)
  · exact Nat.lt_succ_self _

/-- The value of the literal at a position. -/
def literalValue? : Reader (List Nat)
  | c :: rest => if c == '"' || c == '\'' then valueFrom? c rest else none
  | [] => none

/-! ## How a literal is read -/

section Reading

variable {cs body more rest : List Char} {quote c : Char} {p : Char → Bool} {k : Nat}

/-- The first characters of a kind, up to a number of them, stand before what follows them. -/
theorem take_takeWhile_append (cs : List Char) :
    (cs.takeWhile p).take k ++ cs.drop ((cs.takeWhile p).take k).length = cs := by
  induction cs generalizing k with
  | nil => simp
  | cons c rest ih =>
    by_cases passes : p c = true
    · rw [List.takeWhile_cons_of_pos passes]
      cases k with
      | zero => rfl
      | succ k => exact congrArg (c :: ·) ih
    · rw [List.takeWhile_cons_of_neg passes, List.take_nil]
      rfl

/-- They are as many as they may be, or none of the kind follows. -/
theorem take_takeWhile_maximal (cs : List Char) :
    ((cs.takeWhile p).take k).length = k ∨
      ∀ c ∈ (cs.drop ((cs.takeWhile p).take k).length).head?, p c = false := by
  induction cs generalizing k with
  | nil => exact .inr (by simp)
  | cons c rest ih =>
    by_cases passes : p c = true
    · rw [List.takeWhile_cons_of_pos passes]
      cases k with
      | zero => exact .inl rfl
      | succ k => exact ih.imp_left (congrArg Nat.succ)
    · rw [List.takeWhile_cons_of_neg passes, List.take_nil]
      refine .inr fun d first => ?_
      cases first
      exact Bool.not_eq_true _ ▸ passes

theorem codePoint?_text (read : codePoint? cs = some (body, more)) : cs = body ++ more := by
  unfold codePoint? at read
  split at read
  · next rest =>
    have few : (rest.takeWhile Text.isHexDigit).length ≤ rest.length :=
      (List.takeWhile_sublist _).length_le
    have text := take_takeWhile_append rest (p := Text.isHexDigit) (k := rest.length)
    rw [List.take_of_length_le few] at text
    dsimp only at read
    split at read
    · next dropped =>
      cases read
      rw [dropped] at text
      rw [List.cons_append, List.cons_append, List.append_assoc]
      exact congrArg ('u' :: '{' :: ·) text.symm
    · cases read
  · split_ifs at read
    cases read
    rfl
  · cases read

theorem codePoint?_head (read : codePoint? cs = some (body, more)) : body.head? = some 'u' := by
  unfold codePoint? at read
  split at read
  · dsimp only at read
    split at read
    · cases read
      rfl
    · cases read
  · split_ifs at read
    cases read
    rfl
  · cases read

/-- What is read of an escape: it stands in the text, an octal one is as long as it may be, and
a return stands alone only if no new line follows. -/
theorem escapeBody_eq (read : escapeBody cs = some (body, more)) :
    cs = body ++ more ∧
      (body.all isOctal = true → body.length = 3 ∨ ∀ c ∈ more.head?, isOctal c = false) ∧
      (body = ['\r'] → more.head? ≠ some '\n') := by
  unfold escapeBody at read
  split at read
  · split_ifs at read
    cases read
    exact ⟨rfl, fun octal => absurd octal (by simp [isOctal]), by simp⟩
  · cases read
  · have first := codePoint?_head read
    refine ⟨codePoint?_text read, fun octal => ?_, ?_⟩
    · obtain ⟨tail, rfl⟩ := List.head?_eq_some_iff.1 first
      exact absurd octal (by simp [isOctal])
    · rintro rfl
      cases first
  · next c d rest _ _ _ =>
    split_ifs at read with octal ends
    · cases read
      refine ⟨(take_takeWhile_append _).symm, fun _ => take_takeWhile_maximal _, fun same => ?_⟩
      have first : c = '\r' := by
        rw [List.takeWhile_cons_of_pos octal] at same
        exact (List.cons.inj same).1
      subst first
      exact absurd octal (by decide)
    · cases read
      refine ⟨rfl, fun all => ?_, by simp⟩
      exact absurd (List.all_eq_true.1 all c List.mem_cons_self) octal
    · cases read
      refine ⟨rfl, fun all => ?_, fun same follows => ?_⟩
      · exact absurd (List.all_eq_true.1 all c List.mem_cons_self) octal
      · cases same
        cases follows
        exact ends rfl
  · cases read
    exact ⟨rfl, fun _ => .inr (by simp), by simp⟩
  · cases read

/-- A character that stands for itself in a literal with a quote. -/
def isPlain (quote c : Char) : Bool :=
  c != quote && c != '\\' && c != '\n' && c != '\r'

/-- The text of a literal behind its opening quote, its pieces and the text after it. -/
inductive Spells (quote : Char) : List Char → List Piece → List Char → Prop
  | closing {rest : List Char} : Spells quote (quote :: rest) [] rest
  | escape {cs more rest : List Char} {e : Escape} {pieces : List Piece}
    (read : escapeBody cs = some (e.body, more)) (later : Spells quote more pieces rest) :
    Spells quote ('\\' :: cs) (.escape e :: pieces) rest
  | plain {run cs rest : List Char} {pieces : List Piece} (all : ∀ c ∈ run, isPlain quote c = true)
    (later : Spells quote cs pieces rest) : Spells quote (run ++ cs) (.plain run :: pieces) rest

theorem spells_of_stringPieces {bound : List Char} {acc pieces : List Piece}
    (read : stringPieces quote bound acc cs = some (pieces, rest)) :
    ∃ new, pieces = acc.reverse ++ new ∧ Spells quote cs new rest := by
  induction bound generalizing acc cs with
  | nil => cases read
  | cons _ bound ih =>
    cases cs with
    | nil => cases read
    | cons c cs =>
      rw [stringPieces] at read
      split_ifs at read with closing escape ends
      · cases read
        rw [beq_iff_eq] at closing
        subst closing
        exact ⟨[], (List.append_nil _).symm, .closing⟩
      · split at read
        · next body more known =>
          obtain ⟨new, rfl, later⟩ := ih read
          rw [beq_iff_eq] at escape
          subst escape
          refine ⟨.escape ⟨body, isEscape_of_escapeBody known⟩ :: new, ?_, .escape known later⟩
          rw [List.reverse_cons, List.append_assoc, List.singleton_append]
        · cases read
      · change stringPieces quote bound (.plain ((c :: cs).takeWhile (isPlain quote)) :: acc)
          ((c :: cs).dropWhile (isPlain quote)) = _ at read
        obtain ⟨new, rfl, later⟩ := ih read
        refine ⟨.plain ((c :: cs).takeWhile (isPlain quote)) :: new, ?_, ?_⟩
        · rw [List.reverse_cons, List.append_assoc, List.singleton_append]
        · have all : ((c :: cs).takeWhile (isPlain quote)).all (isPlain quote) = true :=
            List.all_takeWhile
          have plain := Spells.plain (List.all_eq_true.1 all) later
          rwa [List.takeWhile_append_dropWhile] at plain

theorem spells_of_string {pieces : List Piece} (read : string cs = some (pieces, rest)) :
    ∃ quote text, cs = quote :: text ∧ (quote = '"' ∨ quote = '\'') ∧
      Spells quote text pieces rest := by
  unfold string at read
  split at read
  · next c text =>
    split_ifs at read with quoted
    obtain ⟨new, rfl, spells⟩ := spells_of_stringPieces read
    exact ⟨c, text, rfl, by simpa using quoted, spells⟩
  · cases read

/-! ## The value of what is read -/

/-- A value with units in front of it. -/
def behind (front : List Nat) (value : Option (List Nat × List Char)) :
    Option (List Nat × List Char) :=
  value.map fun p => (front ++ p.1, p.2)

theorem behind_behind {front middle : List Nat} {value : Option (List Nat × List Char)} :
    behind front (behind middle value) = behind (front ++ middle) value := by
  rcases value with _ | p
  · rfl
  · exact congrArg (fun v => some (v, p.2)) (List.append_assoc _ _ _).symm

theorem behind_nil {value : Option (List Nat × List Char)} : behind [] value = value := by
  rcases value with _ | p <;> rfl

/-- The two quotes of literals. -/
def IsQuote (quote : Char) : Prop :=
  quote = '"' ∨ quote = '\''

theorem valueFrom?_closing : valueFrom? quote (quote :: rest) = some ([], rest) := by
  rw [valueFrom?, if_pos (beq_self_eq_true quote)]

theorem valueFrom?_backslash (quoted : IsQuote quote) :
    valueFrom? quote ('\\' :: cs) = (escapeValue? cs).bind fun p =>
      behind p.1 (valueFrom? quote p.2) := by
  have differs : ('\\' == quote) = false := by
    rcases quoted with rfl | rfl <;> rfl
  rw [valueFrom?, differs, if_neg Bool.false_ne_true, if_pos (beq_self_eq_true _)]
  split
  · next known =>
    rw [known]
    rfl
  · next known =>
    rw [known]
    rfl

theorem valueFrom?_plain (plain : isPlain quote c = true) :
    valueFrom? quote (c :: cs) = behind (units c.toNat) (valueFrom? quote cs) := by
  simp only [isPlain, Bool.and_eq_true, bne_iff_ne] at plain
  obtain ⟨⟨⟨noQuote, noBackslash⟩, noLine⟩, noReturn⟩ := plain
  rw [valueFrom?, beq_false_of_ne noQuote, if_neg Bool.false_ne_true,
    beq_false_of_ne noBackslash, if_neg Bool.false_ne_true, beq_false_of_ne noLine,
    beq_false_of_ne noReturn, Bool.or_false, if_neg Bool.false_ne_true]
  rfl

theorem valueFrom?_run {run : List Char} (all : ∀ c ∈ run, isPlain quote c = true) :
    valueFrom? quote (run ++ cs) =
      behind ((codePoints run).flatMap units) (valueFrom? quote cs) := by
  induction run with
  | nil => exact behind_nil.symm
  | cons c run ih =>
    rw [List.forall_mem_cons] at all
    rw [List.cons_append, valueFrom?_plain all.1, ih all.2, behind_behind]
    rfl

/-- A line ends a literal before its value is complete. -/
theorem valueFrom?_lineFeed (quoted : IsQuote quote) : valueFrom? quote ('\n' :: cs) = none := by
  have differs : ('\n' == quote) = false := by
    rcases quoted with rfl | rfl <;> rfl
  rw [valueFrom?, differs, if_neg Bool.false_ne_true, if_neg (by decide), if_pos (by decide)]

end Reading

end PackageRisk.Script
