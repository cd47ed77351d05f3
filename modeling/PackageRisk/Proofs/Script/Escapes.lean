import Mathlib.Algebra.Group.Nat.Defs
import Mathlib.Data.List.Induction
import PackageRisk.Proofs.Results
import PackageRisk.Script.Escape

/-!
# What escapes stand for

An escape of digits stands for the point that its digits spell, and all others for what their
characters say: there is one lemma for each form that an escape can have. The only escape that
cannot be decoded is one with so large a number that it does not fit into 32 bits
(`exists_decodeEscape_iff`); every number that fits but is no code point stands for the escape as
it is written.
-/

namespace PackageRisk.Script

/-! ## Numerals -/

/-- The number that a digit stands for. -/
def digitValue (c : Char) : Nat :=
  (Json.hexDigit? c).getD 0

/-- The number that digits spell in a base. -/
def valueIn (base : Nat) (digits : List Char) : Nat :=
  digits.foldl (fun n c => n * base + digitValue c) 0

/-- A digit of a base whose numerals may be marked by a letter. -/
structure IsDigit (base : Nat) (mark c : Char) : Prop where
  known : (Json.hexDigit? c).any (· < base) = true
  noBlank : Text.isBlank c = false
  noMinus : c ≠ '-'
  noPlus : c ≠ '+'
  noLine : c ≠ '_'
  noMark : c.toLower ≠ mark

instance (base : Nat) (mark c : Char) : Decidable (IsDigit base mark c) :=
  decidable_of_iff ((Json.hexDigit? c).any (· < base) = true ∧ Text.isBlank c = false ∧
      c ≠ '-' ∧ c ≠ '+' ∧ c ≠ '_' ∧ c.toLower ≠ mark)
    ⟨fun ⟨known, noBlank, noMinus, noPlus, noLine, noMark⟩ =>
      ⟨known, noBlank, noMinus, noPlus, noLine, noMark⟩,
    fun digit => ⟨digit.known, digit.noBlank, digit.noMinus, digit.noPlus, digit.noLine,
      digit.noMark⟩⟩

variable {base : Nat} {mark c : Char} {digits body : List Char}

/-- A test that all of ASCII passes is passed by a character of ASCII. -/
theorem of_ascii {P : Char → Prop} (all : ∀ n : Fin 128, P (Char.ofNat n)) (ascii : c.toNat < 128) :
    P c := by
  have passed := all ⟨c.toNat, ascii⟩
  rwa [Char.ofNat_toNat] at passed

theorem toNat_of_isHexDigit (digit : Text.isHexDigit c = true) : c.toNat < 128 := by
  simp only [Text.isHexDigit, Char.isDigit, Bool.or_eq_true, Bool.and_eq_true, decide_eq_true_eq,
    Char.le_def, UInt32.le_iff_toNat_le, ge_iff_le] at digit
  have lower : 'f'.val.toNat = 102 := rfl
  have upper : 'F'.val.toNat = 70 := rfl
  have nine : '9'.val.toNat = 57 := rfl
  show c.val.toNat < 128
  omega

theorem toNat_of_isOctal (digit : isOctal c = true) : 48 ≤ c.toNat ∧ c.toNat < 56 := by
  simp only [isOctal, Bool.and_eq_true, decide_eq_true_eq, Char.le_def,
    UInt32.le_iff_toNat_le] at digit
  have zero : '0'.val.toNat = 48 := rfl
  have seven : '7'.val.toNat = 55 := rfl
  show 48 ≤ c.val.toNat ∧ c.val.toNat < 56
  omega

theorem ne_of_isOctal {d : Char} (octal : isOctal c = true) (other : isOctal d = false) :
    c ≠ d := by
  rintro rfl
  rw [octal] at other
  cases other

theorem isDigit_of_isHexDigit (digit : Text.isHexDigit c = true) : IsDigit 16 'x' c :=
  of_ascii (P := fun c => Text.isHexDigit c = true → IsDigit 16 'x' c) (by decide +kernel)
    (toNat_of_isHexDigit digit) digit

theorem isDigit_of_isOctal (digit : isOctal c = true) : IsDigit 8 'o' c := by
  have ascii := (toNat_of_isOctal digit).2
  exact of_ascii (P := fun c => isOctal c = true → IsDigit 8 'o' c) (by decide +kernel)
    (by omega) digit

theorem IsDigit.exists_value (digit : IsDigit base mark c) :
    ∃ n, Json.hexDigit? c = some n ∧ n < base := by
  obtain ⟨n, value, less⟩ := (Option.any_eq_true _ _).1 digit.known
  exact ⟨n, value, of_decide_eq_true less⟩

theorem IsDigit.value_lt (digit : IsDigit base mark c) : digitValue c < base := by
  obtain ⟨n, known, less⟩ := digit.exists_value
  rwa [digitValue, known, Option.getD_some]

theorem valueIn_snoc :
    valueIn base (digits ++ [c]) = valueIn base digits * base + digitValue c := by
  rw [valueIn, List.foldl_append]
  rfl

/-- So many digits spell no larger number. -/
theorem valueIn_lt (all : ∀ c ∈ digits, IsDigit base mark c) :
    valueIn base digits < base ^ digits.length := by
  induction digits using List.reverseRecOn with
  | nil => exact Nat.one_pos
  | append_singleton digits c ih =>
    have before := ih fun d mem => all d (List.mem_append_left _ mem)
    have last := (all c (by simp)).value_lt
    rw [valueIn_snoc, List.length_append, List.length_singleton, Nat.pow_succ]
    calc
      valueIn base digits * base + digitValue c < valueIn base digits * base + base := by omega
      _ = (valueIn base digits + 1) * base := (Nat.succ_mul _ _).symm
      _ ≤ base ^ digits.length * base := Nat.mul_le_mul_right base before

theorem contains_eq_false {needle cs : List Char} (absent : c ∉ cs) :
    Text.contains (c :: needle) cs = false := by
  induction cs with
  | nil => rfl
  | cons d rest ih =>
    rw [List.mem_cons, not_or] at absent
    have differ : (c == d) = false := beq_false_of_ne absent.1
    rw [Text.contains, ih absent.2, List.isPrefixOf_cons_cons, differ, Bool.false_and,
      Bool.or_false]

theorem dropLowLines?_eq {cs : List Char} (absent : '_' ∉ cs) :
    Numeral.dropLowLines? cs = some cs := by
  have first : cs.head? ≠ some '_' := fun same => absent (List.mem_of_head? same)
  have last : cs.getLast? ≠ some '_' := fun same => absent (List.mem_of_getLast? same)
  have kept : cs.filter (· != '_') = cs := by
    refine List.filter_eq_self.2 fun c mem => bne_iff_ne.2 ?_
    rintro rfl
    exact absent mem
  unfold Numeral.dropLowLines?
  rw [beq_false_of_ne first, beq_false_of_ne last, contains_eq_false absent, kept]
  rfl

theorem trim_digits (all : ∀ c ∈ digits, IsDigit base mark c) : Text.trim digits = digits := by
  have ends (cs : List Char) (among : ∀ c ∈ cs.head?, IsDigit base mark c) :
      cs.dropWhile Text.isBlank = cs := by
    cases cs with
    | nil => rfl
    | cons c cs => exact List.dropWhile_cons_of_neg (by simp [(among c rfl).noBlank])
  have last : ∀ c ∈ digits.reverse.head?, IsDigit base mark c := fun c first =>
    all c (List.mem_reverse.1 (List.mem_of_head? first))
  rw [Text.trim, ends digits fun c first => all c (List.mem_of_head? first), ends _ last,
    List.reverse_reverse]

theorem splitSign_digits (all : ∀ c ∈ digits, IsDigit base mark c) :
    Numeral.splitSign digits = (false, digits) := by
  unfold Numeral.splitSign
  split
  · exact absurd rfl (all '-' List.mem_cons_self).noMinus
  · exact absurd rfl (all '+' List.mem_cons_self).noPlus
  · rfl

/-- The values of digits are below the base. -/
theorem map_value_digits (all : ∀ c ∈ digits, IsDigit base mark c) :
    digits.map (fun c => (Json.hexDigit? c).getD base) = digits.map digitValue ∧
      (digits.map digitValue).all (· < base) = true := by
  constructor
  · refine List.map_congr_left fun c mem => ?_
    obtain ⟨n, known, -⟩ := (all c mem).exists_value
    rw [digitValue, known, Option.getD_some, Option.getD_some]
  · rw [List.all_map]
    exact List.all_eq_true.2 fun c mem => decide_eq_true (all c mem).value_lt

/-- Digits are read as what they spell: nothing is dropped from them. -/
theorem integerIn?_eq (some : digits ≠ []) (all : ∀ c ∈ digits, IsDigit base mark c) :
    integerIn? base mark digits = .some (valueIn base digits : Int) := by
  have whole : Numeral.dropLowLines? digits = .some digits :=
    dropLowLines?_eq fun mem => (all '_' mem).noLine rfl
  obtain ⟨values, below⟩ := map_value_digits all
  unfold integerIn?
  rw [trim_digits all, splitSign_digits all]
  dsimp only
  generalize read : Numeral.dropLowLines? _ = ds
  have kept : ds = .some digits := by
    rw [← read]
    -- only a zero with the mark of the base behind it would be dropped
    split
    · next m more =>
      have unmarked : (m.toLower == mark) = false :=
        beq_false_of_ne (all m (List.mem_cons_of_mem _ List.mem_cons_self)).noMark
      rw [unmarked, if_neg Bool.false_ne_true, whole]
    · exact whole
  subst kept
  dsimp only
  rw [if_neg (by simpa using some), values, if_pos below, List.foldl_map]
  rfl

/-! ## The forms of escapes -/

/-- The line ends that an escape passes over. -/
def isTerminator (c : Char) : Bool :=
  isLineEnd c || c == '\r'

theorem isTerminator_iff :
    isTerminator c = true ↔ c = '\n' ∨ c = '\u2028' ∨ c = '\u2029' ∨ c = '\r' := by
  simp [isTerminator, isLineEnd, or_assoc]

theorem not_isTerminator_of_isOctal (octal : isOctal c = true) : isTerminator c = false := by
  rw [← Bool.not_eq_true, isTerminator_iff]
  rintro (same | same | same | same) <;> exact ne_of_isOctal octal (by decide) same

theorem contains_single : lineContinuations.contains [c] = isTerminator c := by
  rw [Bool.eq_iff_iff, isTerminator_iff, List.contains_iff_mem, lineContinuations]
  simp only [List.mem_cons, List.cons.injEq, List.not_mem_nil, and_true, or_false, reduceCtorEq,
    and_false, false_or]
  tauto

theorem noContinuation {rest : List Char} (noEnd : isTerminator c = false) :
    lineContinuations.contains (c :: rest) = false := by
  rw [← Bool.not_eq_true, isTerminator_iff] at noEnd
  rw [← Bool.not_eq_true, List.contains_iff_mem, lineContinuations]
  simp only [List.mem_cons, List.cons.injEq, List.not_mem_nil, or_false]
  tauto

/-- A number that fits into 32 bits stands for its point, or for the escape as it is written if
it is no point. -/
theorem pointOr_eq (written : List Char) (n : Nat) :
    pointOr written (some (n : Int)) =
      if 2 ^ 31 ≤ n then .error (.overflow "Python int too large to convert to C int")
      else .ok (if 0x10FFFF < n then codePoints written else [n]) := by
  unfold pointOr
  dsimp only
  by_cases huge : 2 ^ 31 ≤ n
  · have large : (n : Int) < -0x80000000 ∨ 0x80000000 ≤ (n : Int) := by omega
    rw [if_pos large, if_pos huge]
  · have fits : ¬((n : Int) < -0x80000000 ∨ 0x80000000 ≤ (n : Int)) := by omega
    rw [if_neg fits, if_neg huge]
    by_cases beyond : 0x10FFFF < n
    · have none : (n : Int) < 0 ∨ 0x10FFFF < (n : Int) := by omega
      rw [if_pos none, if_pos beyond]
    · have point : ¬((n : Int) < 0 ∨ 0x10FFFF < (n : Int)) := by omega
      rw [if_neg point, if_neg beyond, Int.toNat_natCast]

/-- A number of so few digits is a point. -/
theorem pointOr_valueIn (written : List Char) (all : ∀ c ∈ digits, IsDigit base mark c)
    (few : base ^ digits.length ≤ 0x110000) :
    pointOr written (some (valueIn base digits : Int)) = .ok [valueIn base digits] := by
  have less := valueIn_lt all
  rw [pointOr_eq, if_neg (by omega), if_neg (by omega)]

theorem decodeEscape_byte {a b : Char} (first : Text.isHexDigit a = true)
    (second : Text.isHexDigit b = true) :
    decodeEscape ['x', a, b] = .ok [valueIn 16 [a, b]] := by
  have all : ∀ c ∈ [a, b], IsDigit 16 'x' c := by
    simp [isDigit_of_isHexDigit first, isDigit_of_isHexDigit second]
  rw [← pointOr_valueIn ['\\', 'x', a, b] all (by simp), ← integerIn?_eq (by simp) all]
  unfold decodeEscape
  rw [noContinuation (by decide)]
  rfl

theorem decodeEscape_unit {a b c d : Char} (digits : [a, b, c, d].all Text.isHexDigit = true) :
    decodeEscape ['u', a, b, c, d] = .ok [valueIn 16 [a, b, c, d]] := by
  have all : ∀ e ∈ [a, b, c, d], IsDigit 16 'x' e := fun e mem =>
    isDigit_of_isHexDigit (List.all_eq_true.1 digits e mem)
  rw [← pointOr_valueIn ['\\', 'u', a, b, c, d] all (by simp), ← integerIn?_eq (by simp) all]
  unfold decodeEscape
  rw [noContinuation (by decide), if_neg Bool.false_ne_true]
  split
  · next same => cases same
  · next same =>
    cases same
    exact absurd (all _ List.mem_cons_self).known (by decide)
  · next same =>
    cases same
    rfl

theorem decodeEscape_point (given : digits ≠ []) (hex : digits.all Text.isHexDigit = true) :
    decodeEscape ('u' :: '{' :: digits ++ ['}']) =
      pointOr ('\\' :: 'u' :: '{' :: digits ++ ['}']) (some (valueIn 16 digits : Int)) := by
  have all : ∀ c ∈ digits, IsDigit 16 'x' c := fun c mem =>
    isDigit_of_isHexDigit (List.all_eq_true.1 hex c mem)
  rw [← integerIn?_eq given all]
  unfold decodeEscape
  rw [List.cons_append, List.cons_append, noContinuation (by decide),
    if_neg Bool.false_ne_true]
  show pointOr _ (integerIn? 16 'x' (digits ++ ['}']).dropLast) = _
  rw [List.dropLast_concat]
  rfl

theorem decodeEscape_octal (given : digits ≠ []) (few : digits.length ≤ 3)
    (octal : digits.all isOctal = true) : decodeEscape digits = .ok [valueIn 8 digits] := by
  have all : ∀ c ∈ digits, IsDigit 8 'o' c := fun c mem =>
    isDigit_of_isOctal (List.all_eq_true.1 octal c mem)
  have small : 8 ^ digits.length ≤ 8 ^ 3 := Nat.pow_le_pow_right (by decide) few
  obtain ⟨c, rest, rfl⟩ := List.exists_cons_of_ne_nil given
  have first := List.all_eq_true.1 octal c List.mem_cons_self
  have noLetter : (c == 'x' || c == 'u') = false := by
    rw [beq_false_of_ne (ne_of_isOctal first (by decide)),
      beq_false_of_ne (ne_of_isOctal first (by decide))]
    rfl
  rw [← pointOr_valueIn ('\\' :: c :: rest) all (Nat.le_trans small (by decide)),
    ← integerIn?_eq given all]
  unfold decodeEscape
  rw [noContinuation (not_isTerminator_of_isOctal first), if_neg Bool.false_ne_true]
  split
  · next same => cases same
  · next same => exact absurd (List.cons.inj same).1 (ne_of_isOctal first (by decide))
  · next same =>
    cases same
    rw [noLetter, Bool.false_and, if_neg Bool.false_ne_true, if_pos first]

/-- An escape of two characters is a return with the line end behind it, or is written as it is
meant. -/
theorem decodeEscape_lineEnd {c d : Char} (mark : c = '\r' ∨ c = '?') (ends : isLineEnd d = true) :
    decodeEscape [c, d] = .ok (if c = '\r' ∧ d = '\n' then [] else codePoints [c, d]) := by
  have ended : d = '\n' ∨ d = '\u2028' ∨ d = '\u2029' := by
    simpa [isLineEnd, or_assoc] using ends
  rcases mark with rfl | rfl <;> rcases ended with rfl | rfl | rfl <;> rfl

/-- An escape of one character is a line end or the name of a control character, or stands for
its character. -/
theorem decodeEscape_single {c : Char} (noOctal : isOctal c = false) :
    decodeEscape [c] =
      .ok (if isTerminator c then [] else [(letterEscapes.lookup c).getD c.toNat]) := by
  unfold decodeEscape
  rw [contains_single]
  split
  · rfl
  · dsimp only
    split
    · next same =>
      cases same
    · next same =>
      cases same
    · next same =>
      cases same
      rw [List.isEmpty_nil, Bool.not_true, Bool.and_false, if_neg Bool.false_ne_true, noOctal,
        if_neg Bool.false_ne_true]
      rcases letterEscapes.lookup c with _ | n <;> rfl

/-! ## Escapes that cannot be decoded -/

/-- A number in braces that needs more than 31 bits. -/
def Escape.IsHuge (e : Escape) : Prop :=
  ∃ digits, e.body = 'u' :: '{' :: digits ++ ['}'] ∧ 2 ^ 31 ≤ valueIn 16 digits

/-- Huge numbers alone cannot be decoded. -/
theorem exists_decodeEscape_iff (e : Escape) :
    (∃ points, decodeEscape e.body = .ok points) ↔ ¬e.IsHuge := by
  have fine {body : List Char} {form : IsEscape body} {points : List Nat}
      (decoded : decodeEscape body = .ok points) (noBrace : ∀ rest, body ≠ 'u' :: '{' :: rest) :
      (∃ points, decodeEscape body = .ok points) ↔ ¬Escape.IsHuge ⟨body, form⟩ := by
    refine iff_of_true ⟨points, decoded⟩ ?_
    rintro ⟨digits, same, -⟩
    exact noBrace _ same
  obtain ⟨body, form⟩ := e
  cases form with
  | byte first second => exact fine (decodeEscape_byte first second) (by simp)
  | unit digits =>
    refine fine (decodeEscape_unit digits) fun rest same => ?_
    cases same
    exact absurd (List.all_eq_true.1 digits '{' List.mem_cons_self) (by decide)
  | point given hex =>
    show (∃ points, decodeEscape _ = _) ↔ _
    rw [decodeEscape_point given hex, pointOr_eq]
    constructor
    · rintro ⟨points, decoded⟩ ⟨digits, same, huge⟩
      have spelled := (List.append_inj' (List.cons.inj (List.cons.inj same).2).2 rfl).1
      rw [spelled, if_pos huge] at decoded
      cases decoded
    · intro small
      rw [if_neg fun huge => small ⟨_, rfl, huge⟩]
      exact ⟨_, rfl⟩
  | octal given few octal =>
    refine fine (decodeEscape_octal given few octal) fun rest same => ?_
    subst same
    exact absurd (List.all_eq_true.1 octal 'u' List.mem_cons_self) (by decide)
  | lineEnd mark ends =>
    refine fine (decodeEscape_lineEnd mark ends) fun rest same => ?_
    cases same
    exact absurd mark (by decide)
  | single noByte noPoint noOctal => exact fine (decodeEscape_single noOctal) (by simp)

/-! ## Strings -/

section Pieces

variable {piece : Piece} {pieces : List Piece}

theorem decodePieces_cons_eq :
    decodePieces (piece :: pieces) = decodePieces [piece] >>= fun here =>
      decodePieces pieces >>= fun later => .ok (here ++ later) := by
  cases piece with
  | plain cs =>
    rw [decodePieces, decodePieces]
    show _ = decodePieces pieces >>= fun later => .ok ((codePoints cs ++ []) ++ later)
    rw [List.append_nil]
    rcases decodePieces pieces with e | later <;> rfl
  | escape e =>
    rw [decodePieces, decodePieces, bind_assoc]
    refine bind_congr fun here => ?_
    show _ = decodePieces pieces >>= fun later => .ok ((here ++ []) ++ later)
    rw [List.append_nil]
    rfl

theorem decodePieces_escape_iff {e : Escape} {here : List Nat} :
    decodePieces [.escape e] = .ok here ↔ decodeEscape e.body = .ok here := by
  rw [decodePieces]
  rcases decodeEscape e.body with f | points
  · exact iff_of_false nofun nofun
  · show Except.ok (points ++ []) = _ ↔ _
    rw [List.append_nil]

theorem exists_decodePieces_cons_iff :
    (∃ points, decodePieces (piece :: pieces) = .ok points) ↔
      (∃ here, decodePieces [piece] = .ok here) ∧ ∃ later, decodePieces pieces = .ok later := by
  rw [decodePieces_cons_eq]
  constructor
  · rintro ⟨points, decoded⟩
    obtain ⟨here, first, more⟩ := bind_eq_ok.1 decoded
    obtain ⟨later, others, -⟩ := bind_eq_ok.1 more
    exact ⟨⟨here, first⟩, later, others⟩
  · rintro ⟨⟨here, first⟩, later, others⟩
    exact ⟨_, bind_eq_ok.2 ⟨here, first, bind_eq_ok.2 ⟨later, others, rfl⟩⟩⟩

/-- A string can be decoded just when no number in it is huge. -/
theorem exists_decodePieces_iff (pieces : List Piece) :
    (∃ points, decodePieces pieces = .ok points) ↔
      ∀ e, Piece.escape e ∈ pieces → ¬e.IsHuge := by
  induction pieces with
  | nil => exact iff_of_true ⟨[], rfl⟩ nofun
  | cons piece rest ih =>
    rw [exists_decodePieces_cons_iff, ih]
    cases piece with
    | plain cs =>
      have first : ∃ here, decodePieces [.plain cs] = .ok here := ⟨_, rfl⟩
      rw [and_iff_right first]
      simp
    | escape e =>
      simp only [decodePieces_escape_iff, exists_decodeEscape_iff]
      simp

end Pieces

end PackageRisk.Script
