import Mathlib.Data.List.Find
import PackageRisk.Proofs.Script.LiteralValue
import PackageRisk.Script.Findings

/-!
# Literals and their values

What a literal is decoded to has just the units of its value unless an escape in it overruns
(`Escape.Overruns`): three octal digits of which the first is above three are taken for one
number, though the language takes two of them, and a return is taken together with a separator
behind it. An escape that overruns leaves a unit that the value does not have (`isStray`), so no
two of them make up for each other. Where nothing overruns, calls and imports say of a literal
what they say of its value (`FoundByValue`).
-/

namespace PackageRisk.Script

variable {points : List Nat}

/-! ## Escapes that overrun -/

/-- More is read as an escape than is one: a third octal digit, or a separator behind a return. -/
def Escape.Overruns (e : Escape) : Prop :=
  match e.body with
  | [a, _, _] => isOctal a = true ∧ '3' < a
  | ['\r', d] => d ≠ '\n'
  | _ => False

/-- What is read as an escape has no value: a number beyond all points, or a line behind a
question mark. -/
def Escape.IsRefused (e : Escape) : Prop :=
  match e.body with
  | 'u' :: '{' :: rest => 0x10FFFF < valueIn 16 rest.dropLast
  | ['?', d] => d = '\n'
  | _ => False

instance (e : Escape) : Decidable e.Overruns := by
  unfold Escape.Overruns
  split <;> infer_instance

instance (e : Escape) : Decidable e.IsRefused := by
  unfold Escape.IsRefused
  split <;> infer_instance

theorem Escape.not_isRefused {e : Escape} (noPoint : e.body.head? ≠ some 'u')
    (noLine : e.body ≠ ['?', '\n']) : ¬e.IsRefused := by
  unfold IsRefused
  split
  · next same => exact fun _ => noPoint (by rw [same]; rfl)
  · next same => exact fun line => noLine (by rw [same, line])
  · exact id

theorem Escape.not_overruns {e : Escape}
    (other : ∀ c ∈ e.body.head?, isOctal c = false ∧ c ≠ '\r') : ¬e.Overruns := by
  unfold Overruns
  split
  · next same =>
    rintro ⟨octal, -⟩
    rw [(other _ (by rw [same]; rfl)).1] at octal
    cases octal
  · next same => exact absurd rfl (other '\r' (by rw [same]; rfl)).2
  · exact id

/-- A unit that an overrun leaves though the value does not have it. -/
def isStray (unit : Nat) : Bool :=
  unit == 0xD || (0x100 ≤ unit && unit < 0x200)

/-- How the points that pieces are decoded to compare with the units of their value. -/
structure Compares (pieces : List Piece) (points v : List Nat) : Prop where
  decoded : decodePieces pieces = .ok points
  inRange : ∀ n ∈ points, n < 0x110000
  atLeast : v.countP isStray ≤ (points.flatMap units).countP isStray
  more : (∃ e, .escape e ∈ pieces ∧ e.Overruns) →
    v.countP isStray < (points.flatMap units).countP isStray
  same : (∀ e, .escape e ∈ pieces → ¬e.Overruns) → points.flatMap units = v

namespace Compares

variable {pieces : List Piece} {e : Escape} {here v w : List Nat}

theorem of_same (decoded : decodePieces pieces = .ok points) (inRange : ∀ n ∈ points, n < 0x110000)
    (same : points.flatMap units = v) (none : ∀ e, .escape e ∈ pieces → ¬e.Overruns) :
    Compares pieces points v where
  decoded := decoded
  inRange := inRange
  atLeast := Nat.le_of_eq (by rw [same])
  more := fun ⟨e, mem, overruns⟩ => absurd overruns (none e mem)
  same := fun _ => same

theorem escape (decoded : decodeEscape e.body = .ok here) (inRange : ∀ n ∈ here, n < 0x110000)
    (same : here.flatMap units = v) (exact : ¬e.Overruns) : Compares [.escape e] here v := by
  refine of_same (decodePieces_escape_iff.2 decoded) inRange same fun d mem => ?_
  cases List.mem_singleton.1 mem
  exact exact

theorem overrun (decoded : decodeEscape e.body = .ok here) (inRange : ∀ n ∈ here, n < 0x110000)
    (more : v.countP isStray < (here.flatMap units).countP isStray) (overruns : e.Overruns) :
    Compares [.escape e] here v where
  decoded := decodePieces_escape_iff.2 decoded
  inRange := inRange
  atLeast := Nat.le_of_lt more
  more := fun _ => more
  same := fun none => absurd overruns (none e List.mem_cons_self)

theorem plain (run : List Char) :
    Compares [.plain run] (codePoints run) ((codePoints run).flatMap units) := by
  refine of_same (congrArg Except.ok (List.append_nil _)) (fun n mem => ?_) rfl fun e mem => ?_
  · obtain ⟨c, -, rfl⟩ := List.mem_map.1 mem
    exact toNat_lt c
  · cases List.mem_singleton.1 mem

theorem nil : Compares [] [] [] :=
  of_same rfl nofun rfl nofun

/-- The comparison of a first piece and that of later ones make one of them all. -/
theorem cons {piece : Piece} (first : Compares [piece] here w) (later : Compares pieces points v) :
    Compares (piece :: pieces) (here ++ points) (w ++ v) where
  decoded := by
    rw [decodePieces_cons_eq, first.decoded, later.decoded]
    rfl
  inRange := List.forall_mem_append.2 ⟨first.inRange, later.inRange⟩
  atLeast := by
    rw [List.flatMap_append, List.countP_append, List.countP_append]
    exact Nat.add_le_add first.atLeast later.atLeast
  more := by
    rintro ⟨e, mem, overruns⟩
    rw [List.flatMap_append, List.countP_append, List.countP_append]
    rcases List.mem_cons.1 mem with rfl | mem
    · exact Nat.add_lt_add_of_lt_of_le (first.more ⟨e, List.mem_cons_self, overruns⟩) later.atLeast
    · exact Nat.add_lt_add_of_le_of_lt first.atLeast (later.more ⟨e, mem, overruns⟩)
  same := by
    intro none
    rw [List.flatMap_append]
    refine congrArg₂ (· ++ ·) (first.same fun e mem => ?_) (later.same fun e mem => ?_)
    · exact none e (List.mem_cons.2 (.inl (List.mem_singleton.1 mem)))
    · exact none e (List.mem_cons_of_mem _ mem)

/-- The points have the units of the value just when no escape overruns. -/
theorem same_iff (compares : Compares pieces points v) :
    points.flatMap units = v ↔ ∀ e, .escape e ∈ pieces → ¬e.Overruns := by
  refine ⟨fun same e mem overruns => ?_, compares.same⟩
  have more := compares.more ⟨e, mem, overruns⟩
  rw [same] at more
  exact Nat.lt_irrefl _ more

end Compares

/-! ## The forms of escapes -/

/-- What an escape does to the value of a literal that goes on behind it. -/
inductive Outcome (quote : Char) (e : Escape) (cs more : List Char) : Prop
  | refused (known : e.IsRefused) (none : valueFrom? quote ('\\' :: cs) = none)
  | stands (known : ¬e.IsRefused) (here v : List Nat)
    (value : valueFrom? quote ('\\' :: cs) = behind v (valueFrom? quote more))
    (compares : Compares [.escape e] here v)

section Forms

variable {quote a b c d : Char} {digits cs more : List Char} {v : List Nat}

/-- A value that is known adds itself. -/
theorem valueFrom?_of_known (quoted : IsQuote quote) (known : escapeValue? cs = some (v, more)) :
    valueFrom? quote ('\\' :: cs) = behind v (valueFrom? quote more) := by
  rw [valueFrom?_backslash quoted, known]
  rfl

theorem escapeValue?_byte (both : [a, b].all Text.isHexDigit = true) :
    escapeValue? ('x' :: a :: b :: more) = some ([valueIn 16 [a, b]], more) :=
  if_pos both

theorem escapeValue?_unit (all : [a, b, c, d].all Text.isHexDigit = true) :
    escapeValue? ('u' :: a :: b :: c :: d :: more) = some ([valueIn 16 [a, b, c, d]], more) := by
  have noBrace : a ≠ '{' := by
    rintro rfl
    exact absurd (List.all_eq_true.1 all '{' List.mem_cons_self) (by decide)
  rw [escapeValue?]
  · exact if_pos all
  · intro rest same
    exact noBrace (List.cons.inj same).1

theorem escapeValue?_point (given : digits ≠ []) (hex : digits.all Text.isHexDigit = true) :
    escapeValue? ('u' :: '{' :: (digits ++ '}' :: more)) =
      if 0x10FFFF < valueIn 16 digits then none else some (units (valueIn 16 digits), more) := by
  have run : (digits ++ '}' :: more).takeWhile Text.isHexDigit = digits :=
    takeWhile_append_of_head hex fun c first => by
      cases first
      rfl
  have some : digits.isEmpty = false := by simp [given]
  rw [escapeValue?, pointValue?, run, List.drop_left, some, Bool.false_or]
  simp only [decide_eq_true_eq]

/-- Other escapes are line ends, octal numbers or single characters. -/
theorem escapeValue?_other (noByte : c ≠ 'x') (noPoint : c ≠ 'u')
    (noPair : c = '\r' → more.head? ≠ some '\n') :
    escapeValue? (c :: more) =
      if isTerminator c then some ([], more)
      else if isOctal c then
        some ([valueIn 8 (((c :: more).takeWhile isOctal).take (octalLimit c))],
          (c :: more).drop (((c :: more).takeWhile isOctal).take (octalLimit c)).length)
      else some (units (namedPoint c), more) := by
  rw [escapeValue?]
  · exact noByte
  · intro rest same
    exact absurd same noPoint
  · exact noPoint
  · rintro rest rfl rfl
    exact noPair rfl rfl

theorem namedPoint_eq : (letterEscapes.lookup c).getD c.toNat = namedPoint c := by
  unfold namedPoint
  split
  all_goals first | rfl | skip
  next noB noT noN noV noF noR =>
    simp [letterEscapes, List.lookup_cons, beq_false_of_ne noB, beq_false_of_ne noT,
      beq_false_of_ne noN, beq_false_of_ne noV, beq_false_of_ne noF, beq_false_of_ne noR]

theorem digitValue_of_isOctal (octal : isOctal c = true) : digitValue c + 48 = c.toNat := by
  have ascii := (toNat_of_isOctal octal).2
  exact of_ascii (P := fun c => isOctal c = true → digitValue c + 48 = c.toNat) (by decide +kernel)
    (by omega) octal

/-- An octal escape takes its digits if they are no more than it may take and as many as it can. -/
theorem escapeValue?_octal (given : digits ≠ []) (octal : digits.all isOctal = true)
    (few : ∀ c ∈ digits.head?, digits.length ≤ octalLimit c)
    (full : (∀ c ∈ digits.head?, digits.length = octalLimit c) ∨
      ∀ c ∈ more.head?, isOctal c = false) :
    escapeValue? (digits ++ more) = some ([valueIn 8 digits], more) := by
  obtain ⟨c, rest, rfl⟩ := List.exists_cons_of_ne_nil given
  have first := List.all_eq_true.1 octal c List.mem_cons_self
  have taken : ((c :: rest ++ more).takeWhile isOctal).take (octalLimit c) = c :: rest := by
    rcases full with full | ends
    · rw [List.takeWhile_append_of_pos (List.all_eq_true.1 octal)]
      exact List.take_left' (full c rfl)
    · rw [takeWhile_append_of_head octal ends]
      exact List.take_of_length_le (few c rfl)
  rw [List.cons_append] at taken ⊢
  have noEnd : ¬isTerminator c = true := by simp [not_isTerminator_of_isOctal first]
  rw [escapeValue?_other (ne_of_isOctal first (by decide)) (ne_of_isOctal first (by decide))
    fun same => absurd same (ne_of_isOctal first (by decide)), if_neg noEnd, if_pos first, taken,
    ← List.cons_append, List.drop_left]

/-- An escape of one unit. -/
theorem Outcome.of_unit {e : Escape} {n : Nat} (quoted : IsQuote quote)
    (decoded : decodeEscape e.body = .ok [n]) (value : escapeValue? cs = some ([n], more))
    (short : n < 0x10000) (known : ¬e.IsRefused) (exact : ¬e.Overruns) :
    Outcome quote e cs more := by
  refine .stands known [n] [n] (valueFrom?_of_known quoted value)
    (.escape decoded ?_ ?_ exact)
  · rw [List.forall_mem_singleton]
    omega
  · rw [List.flatMap_singleton, units_of_lt short]

theorem outcome_byte {form : IsEscape ['x', a, b]} (quoted : IsQuote quote)
    (first : Text.isHexDigit a = true) (second : Text.isHexDigit b = true) :
    Outcome quote ⟨['x', a, b], form⟩ ('x' :: a :: b :: more) more := by
  have both : [a, b].all Text.isHexDigit = true := by simp [first, second]
  have less : valueIn 16 [a, b] < 16 ^ 2 :=
    valueIn_lt fun c mem => isDigit_of_isHexDigit (List.all_eq_true.1 both c mem)
  refine .of_unit quoted (decodeEscape_byte first second) (escapeValue?_byte both) (by omega) ?_ ?_
  · exact Escape.not_isRefused (by simp) (by simp)
  · exact Escape.not_overruns (by simp [isOctal])

theorem outcome_unit {form : IsEscape ['u', a, b, c, d]} (quoted : IsQuote quote)
    (all : [a, b, c, d].all Text.isHexDigit = true) :
    Outcome quote ⟨['u', a, b, c, d], form⟩ ('u' :: a :: b :: c :: d :: more) more := by
  have less : valueIn 16 [a, b, c, d] < 16 ^ 4 :=
    valueIn_lt fun c mem => isDigit_of_isHexDigit (List.all_eq_true.1 all c mem)
  refine .of_unit quoted (decodeEscape_unit all) (escapeValue?_unit all) (by omega) ?_ ?_
  · unfold Escape.IsRefused
    split
    · next same =>
      cases same
      exact absurd (List.all_eq_true.1 all '{' List.mem_cons_self) (by decide)
    · next same => cases same
    · exact id
  · exact Escape.not_overruns (by simp [isOctal])

theorem isRefused_point {form : IsEscape ('u' :: '{' :: digits ++ ['}'])} :
    Escape.IsRefused ⟨'u' :: '{' :: digits ++ ['}'], form⟩ ↔ 0x10FFFF < valueIn 16 digits := by
  show 0x10FFFF < valueIn 16 (digits ++ ['}']).dropLast ↔ _
  rw [List.dropLast_concat]

theorem outcome_point {form : IsEscape ('u' :: '{' :: digits ++ ['}'])} (quoted : IsQuote quote)
    (given : digits ≠ []) (hex : digits.all Text.isHexDigit = true) :
    Outcome quote ⟨'u' :: '{' :: digits ++ ['}'], form⟩ ('u' :: '{' :: (digits ++ '}' :: more))
      more := by
  have value : escapeValue? ('u' :: '{' :: (digits ++ '}' :: more)) =
      if 0x10FFFF < valueIn 16 digits then none else some (units (valueIn 16 digits), more) :=
    escapeValue?_point given hex
  by_cases beyond : 0x10FFFF < valueIn 16 digits
  · rw [if_pos beyond] at value
    refine .refused (isRefused_point.2 beyond) ?_
    rw [valueFrom?_backslash quoted, value]
    rfl
  · have decoded := decodeEscape_point given hex
    rw [if_neg beyond] at value
    rw [pointOr_eq, if_neg (by omega), if_neg beyond] at decoded
    refine .stands (mt isRefused_point.1 beyond) [valueIn 16 digits] _
      (valueFrom?_of_known quoted value) (.escape decoded ?_ (List.flatMap_singleton _ _) ?_)
    · rw [List.forall_mem_singleton]
      omega
    · exact Escape.not_overruns (by simp [isOctal])

theorem isPlain_of_isOctal (quoted : IsQuote quote) (octal : isOctal c = true) :
    isPlain quote c = true := by
  have noQuote : isOctal quote = false := by
    rcases quoted with rfl | rfl <;> rfl
  simp only [isPlain, Bool.and_eq_true, bne_iff_ne]
  exact ⟨⟨⟨ne_of_isOctal octal noQuote, ne_of_isOctal octal (by decide)⟩,
    ne_of_isOctal octal (by decide)⟩, ne_of_isOctal octal (by decide)⟩

/-- A digit too many makes a number that no two digits and no digit behind them stand for. -/
theorem isStray_overrun (isA : isOctal a = true) (isB : isOctal b = true) (isC : isOctal c = true)
    (large : '3' < a) :
    isStray (valueIn 8 [a, b, c]) = true ∧ isStray (valueIn 8 [a, b]) = false ∧
      isStray c.toNat = false := by
  have three : valueIn 8 [a, b, c] = (digitValue a * 8 + digitValue b) * 8 + digitValue c := by
    simp [valueIn]
  have two : valueIn 8 [a, b] = digitValue a * 8 + digitValue b := by simp [valueIn]
  have above : 51 < a.toNat := large
  have spelledA := digitValue_of_isOctal isA
  have spelledC := digitValue_of_isOctal isC
  have lessA := (isDigit_of_isOctal isA).value_lt
  have lessB := (isDigit_of_isOctal isB).value_lt
  have lessC := (isDigit_of_isOctal isC).value_lt
  refine ⟨?_, ?_, ?_⟩
  · simp only [isStray, Bool.or_eq_true, Bool.and_eq_true, decide_eq_true_eq]
    omega
  · simp only [isStray, Bool.or_eq_false_iff, Bool.and_eq_false_iff, decide_eq_false_iff_not,
      beq_eq_false_iff_ne]
    omega
  · simp only [isStray, Bool.or_eq_false_iff, Bool.and_eq_false_iff, decide_eq_false_iff_not,
      beq_eq_false_iff_ne]
    omega

theorem valueIn_octal_lt (few : digits.length ≤ 3) (octal : digits.all isOctal = true) :
    valueIn 8 digits < 0x10000 := by
  have less : valueIn 8 digits < 8 ^ digits.length :=
    valueIn_lt fun d mem => isDigit_of_isOctal (List.all_eq_true.1 octal d mem)
  have most : 8 ^ digits.length ≤ 8 ^ 3 := Nat.pow_le_pow_right (by decide) few
  omega

theorem not_isRefused_of_isOctal {form : IsEscape (c :: digits)} (first : isOctal c = true) :
    ¬Escape.IsRefused ⟨c :: digits, form⟩ := by
  refine Escape.not_isRefused ?_ ?_
  · rintro ⟨⟩
    exact absurd first (by decide)
  · rintro ⟨⟩
    exact absurd first (by decide)

theorem not_overruns_of_isOctal {form : IsEscape (c :: digits)} (first : isOctal c = true)
    (exact : ¬((c :: digits).length = 3 ∧ '3' < c)) : ¬Escape.Overruns ⟨c :: digits, form⟩ := by
  intro known
  unfold Escape.Overruns at known
  split at known
  · next same =>
    cases same
    exact exact ⟨rfl, known.2⟩
  · next same =>
    cases same
    exact absurd first (by decide)
  · exact known

theorem outcome_overrun {form : IsEscape [a, b, c]} (quoted : IsQuote quote)
    (octal : [a, b, c].all isOctal = true) (large : '3' < a) :
    Outcome quote ⟨[a, b, c], form⟩ (a :: b :: c :: more) more := by
  have octals : isOctal a = true ∧ isOctal b = true ∧ isOctal c = true := by simpa using octal
  obtain ⟨isA, isB, isC⟩ := octals
  obtain ⟨strayThree, noTwo, noDigit⟩ := isStray_overrun isA isB isC large
  have small : c.toNat < 56 := (toNat_of_isOctal isC).2
  have less : valueIn 8 [a, b, c] < 0x10000 := valueIn_octal_lt (Nat.le_refl 3) octal
  have two : octalLimit a = 2 := if_neg (Char.not_le.2 large)
  have shorter : escapeValue? ([a, b] ++ c :: more) = some ([valueIn 8 [a, b]], c :: more) := by
    apply escapeValue?_octal
    · simp
    · simp [isA, isB]
    · simp [two]
    · exact .inl (by simp [two])
  have value : valueFrom? quote ('\\' :: ([a, b] ++ c :: more)) =
      behind [valueIn 8 [a, b], c.toNat] (valueFrom? quote more) := by
    rw [valueFrom?_of_known quoted shorter, valueFrom?_plain (isPlain_of_isOctal quoted isC),
      behind_behind, units_of_lt (by omega)]
    rfl
  refine .stands (not_isRefused_of_isOctal isA) [valueIn 8 [a, b, c]] _ value
    (.overrun (decodeEscape_octal (by simp) (by simp) octal) ?_ ?_ ⟨isA, large⟩)
  · rw [List.forall_mem_singleton]
    omega
  · rw [List.flatMap_singleton, units_of_lt less]
    simp [strayThree, noTwo, noDigit]

/-- Three digits are as many as may be taken unless the first is too large. -/
theorem octalLimit_of_exact (few : (c :: digits).length ≤ 3)
    (exact : ¬((c :: digits).length = 3 ∧ '3' < c)) :
    (c :: digits).length ≤ octalLimit c ∧
      ((c :: digits).length = 3 → (c :: digits).length = octalLimit c) := by
  unfold octalLimit
  split_ifs with small
  · exact ⟨few, id⟩
  · have two : (c :: digits).length ≠ 3 := fun three => exact ⟨three, Char.not_le.1 small⟩
    omega

theorem outcome_octal {form : IsEscape digits} (quoted : IsQuote quote) (given : digits ≠ [])
    (few : digits.length ≤ 3) (octal : digits.all isOctal = true)
    (full : digits.length = 3 ∨ ∀ c ∈ more.head?, isOctal c = false) :
    Outcome quote ⟨digits, form⟩ (digits ++ more) more := by
  obtain ⟨c, rest, rfl⟩ := List.exists_cons_of_ne_nil given
  have first := List.all_eq_true.1 octal c List.mem_cons_self
  by_cases overruns : (c :: rest).length = 3 ∧ '3' < c
  · obtain ⟨a, b, rfl⟩ : ∃ a b, rest = [a, b] :=
      List.length_eq_two.1 (Nat.succ.inj overruns.1)
    exact outcome_overrun quoted octal overruns.2
  · obtain ⟨most, whole⟩ := octalLimit_of_exact few overruns
    have value : escapeValue? (c :: rest ++ more) = some ([valueIn 8 (c :: rest)], more) := by
      apply escapeValue?_octal given octal
      · rintro _ ⟨⟩
        exact most
      · refine full.imp_left fun three => ?_
        rintro _ ⟨⟩
        exact whole three
    exact .of_unit quoted (decodeEscape_octal given few octal) value (valueIn_octal_lt few octal)
      (not_isRefused_of_isOctal first) (not_overruns_of_isOctal first overruns)

/-- A separator stands for itself in a literal. -/
theorem valueFrom?_separator (quoted : IsQuote quote) (ends : d = '\u2028' ∨ d = '\u2029') :
    valueFrom? quote (d :: more) = behind [d.toNat] (valueFrom? quote more) := by
  have plain : isPlain quote d = true := by
    rcases quoted with rfl | rfl <;> rcases ends with rfl | rfl <;> decide
  have small : d.toNat < 0x10000 := by
    rcases ends with rfl | rfl <;> decide
  rw [valueFrom?_plain plain, units_of_lt small]

theorem outcome_lineEnd {form : IsEscape [c, d]} (quoted : IsQuote quote)
    (mark : c = '\r' ∨ c = '?') (ends : isLineEnd d = true) :
    Outcome quote ⟨[c, d], form⟩ (c :: d :: more) more := by
  have decoded := decodeEscape_lineEnd mark ends
  have ended : d = '\n' ∨ d = '\u2028' ∨ d = '\u2029' := by
    simpa [isLineEnd, or_assoc] using ends
  rcases mark with rfl | rfl <;> rcases ended with rfl | separator
  · exact .stands (Escape.not_isRefused (by simp) (by simp)) [] []
      (valueFrom?_of_known quoted rfl)
      (.escape decoded (by simp) rfl (fun overruns => overruns rfl))
  · have noLine : d ≠ '\n' := by
      rcases separator with rfl | rfl <;> decide
    have value : valueFrom? quote ('\\' :: '\r' :: d :: more) =
        behind [d.toNat] (valueFrom? quote more) := by
      have known : escapeValue? ('\r' :: d :: more) = some ([], d :: more) := by
        rw [escapeValue?_other (by decide) (by decide) (by simpa using noLine), if_pos (by decide)]
      rw [valueFrom?_of_known quoted known, behind_nil, valueFrom?_separator quoted separator]
    rw [if_neg fun pair => noLine pair.2] at decoded
    refine .stands (Escape.not_isRefused (by simp) (by simp)) _ _ value
      (.overrun decoded ?_ ?_ noLine)
    · rcases separator with rfl | rfl <;> decide
    · rcases separator with rfl | rfl <;> decide
  · refine .refused rfl ?_
    have known : escapeValue? ('?' :: '\n' :: more) = some ([0x3F], '\n' :: more) := rfl
    rw [valueFrom?_of_known quoted known, valueFrom?_lineFeed quoted]
    rfl
  · have value : valueFrom? quote ('\\' :: '?' :: d :: more) =
        behind [0x3F, d.toNat] (valueFrom? quote more) := by
      have known : escapeValue? ('?' :: d :: more) = some ([0x3F], d :: more) := rfl
      rw [valueFrom?_of_known quoted known, valueFrom?_separator quoted separator, behind_behind]
      rfl
    rw [if_neg fun pair => absurd pair.1 (by decide)] at decoded
    refine .stands (Escape.not_isRefused (by simp) ?_) _ _ value (.escape decoded ?_ ?_ ?_)
    · rcases separator with rfl | rfl <;> simp
    · rcases separator with rfl | rfl <;> decide
    · rcases separator with rfl | rfl <;> decide
    · exact Escape.not_overruns (by simp [isOctal])

theorem outcome_single {form : IsEscape [c]} (quoted : IsQuote quote) (noByte : c ≠ 'x')
    (noPoint : c ≠ 'u') (noOctal : isOctal c = false)
    (alone : c = '\r' → more.head? ≠ some '\n') :
    Outcome quote ⟨[c], form⟩ (c :: more) more := by
  have decoded := decodeEscape_single noOctal
  have known := escapeValue?_other noByte noPoint alone
  have inRange : namedPoint c < 0x110000 := by
    have itself := toNat_lt c
    unfold namedPoint
    split <;> omega
  have refused : ¬Escape.IsRefused ⟨[c], form⟩ := by
    refine Escape.not_isRefused ?_ (by simp)
    rintro ⟨⟩
    exact noPoint rfl
  rw [namedPoint_eq] at decoded
  by_cases ends : isTerminator c = true
  · rw [if_pos ends] at known decoded
    exact .stands refused [] [] (valueFrom?_of_known quoted known) (.escape decoded nofun rfl id)
  · rw [if_neg ends] at known decoded
    rw [noOctal, if_neg Bool.false_ne_true] at known
    refine .stands refused [namedPoint c] _ (valueFrom?_of_known quoted known)
      (.escape decoded ?_ (List.flatMap_singleton _ _) id)
    rw [List.forall_mem_singleton]
    exact inRange

/-- Each escape that is read is refused or stands for units. -/
theorem outcome_of_read {e : Escape} (quoted : IsQuote quote)
    (read : escapeBody cs = some (e.body, more)) : Outcome quote e cs more := by
  obtain ⟨text, maximal, alone⟩ := escapeBody_eq read
  obtain ⟨body, form⟩ := e
  dsimp only at text maximal alone
  subst text
  cases form with
  | byte first second => exact outcome_byte quoted first second
  | unit digits => exact outcome_unit quoted digits
  | point given hex =>
    rw [List.append_assoc]
    exact outcome_point quoted given hex
  | octal given few octal => exact outcome_octal quoted given few octal (maximal octal)
  | lineEnd mark ends => exact outcome_lineEnd quoted mark ends
  | single noByte noPoint noOctal =>
    exact outcome_single quoted noByte noPoint noOctal fun same => alone (by rw [same])

end Forms

/-! ## Whole literals -/

section Literals

variable {quote : Char} {cs rest : List Char} {pieces : List Piece} {v : List Nat}

/-- A literal has no value just when an escape in it is refused; else what it is decoded to
compares with its value. -/
theorem compares_of_spells (quoted : IsQuote quote) (spells : Spells quote cs pieces rest) :
    (∃ e, .escape e ∈ pieces ∧ e.IsRefused) ∧ valueFrom? quote cs = none ∨
      (∀ e, .escape e ∈ pieces → ¬e.IsRefused) ∧
        ∃ points v, valueFrom? quote cs = some (v, rest) ∧ Compares pieces points v := by
  induction spells with
  | closing => exact .inr ⟨nofun, [], [], valueFrom?_closing, .nil⟩
  | @plain run cs rest pieces all later ih =>
    rw [valueFrom?_run all]
    rcases ih with ⟨⟨e, mem, refused⟩, none⟩ | ⟨fine, points, v, value, compares⟩
    · exact .inl ⟨⟨e, List.mem_cons_of_mem _ mem, refused⟩, by rw [none]; rfl⟩
    · refine .inr ⟨fun e mem => fine e ?_, _, _, by rw [value]; rfl,
        (Compares.plain run).cons compares⟩
      simpa using mem
  | @escape cs more rest e pieces read later ih =>
    -- a refused escape ends the value here, whatever is behind it
    cases outcome_of_read quoted read with
    | refused known none => exact .inl ⟨⟨e, List.mem_cons_self, known⟩, none⟩
    | stands known here w value first =>
      rw [value]
      rcases ih with ⟨⟨d, mem, refused⟩, none⟩ | ⟨fine, points, v, rest, compares⟩
      · exact .inl ⟨⟨d, List.mem_cons_of_mem _ mem, refused⟩, by rw [none]; rfl⟩
      · refine .inr ⟨fun d mem => ?_, _, _, by rw [rest]; rfl, first.cons compares⟩
        rcases List.mem_cons.1 mem with same | mem
        · cases same
          exact known
        · exact fine d mem

theorem compares_of_string (read : string cs = some (pieces, rest)) :
    (∃ e, .escape e ∈ pieces ∧ e.IsRefused) ∧ literalValue? cs = none ∨
      (∀ e, .escape e ∈ pieces → ¬e.IsRefused) ∧
        ∃ points v, literalValue? cs = some (v, rest) ∧ Compares pieces points v := by
  obtain ⟨quote, text, rfl, quoted, spells⟩ := spells_of_string read
  have same : literalValue? (quote :: text) = valueFrom? quote text := by
    rcases quoted with rfl | rfl <;> rfl
  rw [same]
  exact compares_of_spells quoted spells

end Literals

/-! ## Findings by value -/

/-- Calls and imports say of a literal what they say of its value. A module is known by its value
if its name is of the first plane, and a text that is run if it holds no half of a character. -/
structure FoundByValue (pieces : List Piece) (v : List Nat) : Prop where
  importCall : ∀ modules rest, own modules (.importCall (.text pieces :: rest)) =
    .ok (webFinding? "dynamic-import-url" "Dynamic import from URL: " (some v))
  importFrom : ∀ modules parts, own modules (.importFrom pieces parts) =
    .ok (webFinding? "import-url" "Import from URL: " (some v))
  call : ∀ modules name rest, (∀ m ∈ modules, ∀ s, m = .text s → ∀ c ∈ s.toList, c.toNat < 0x10000) →
    (name = "eval" → ∀ u ∈ v, ¬IsHalf u) →
    own modules (.call (.name name) (.text pieces :: rest)) =
      .ok (callFinding? modules name (some v))

section Found

variable {pieces : List Piece} {v : List Nat} {modules : List Value} {name : String}

theorem literalText_units (inRange : ∀ n ∈ points, n < 0x110000) :
    literalText (points.flatMap units) = literalText points :=
  congrArg String.ofList (textOf_units inRange)

theorem runText_units (inRange : ∀ n ∈ points, n < 0x110000)
    (whole : ∀ u ∈ points.flatMap units, ¬IsHalf u) :
    runText (points.flatMap units) = runText points := by
  rw [flatMap_units_of_lt (lt_of_whole inRange whole)]

theorem webFinding?_units {type label : String} (inRange : ∀ n ∈ points, n < 0x110000) :
    webFinding? type label (some (points.flatMap units)) =
      webFinding? type label (some points) := by
  simp only [webFinding?, Option.bind_some, literalText_units inRange]

theorem codePoints_noHalf {s : String} : ∀ n ∈ codePoints s.toList, ¬IsHalf n := by
  rintro n mem ⟨high, low⟩
  obtain ⟨c, -, rfl⟩ := List.mem_map.1 mem
  rcases c.valid with below | above
  · have : c.toNat < 0xD800 := below
    omega
  · have : 0xDFFF < c.toNat := above.1
    omega

/-- A name of the first plane is known by its units. -/
theorem codePoints_eq_units_iff {s : String} (inRange : ∀ n ∈ points, n < 0x110000)
    (first : ∀ c ∈ s.toList, c.toNat < 0x10000) :
    codePoints s.toList = points.flatMap units ↔ codePoints s.toList = points := by
  constructor
  · intro same
    rw [same]
    refine flatMap_units_of_lt (lt_of_whole inRange ?_)
    rw [← same]
    exact codePoints_noHalf
  · rintro rfl
    refine (flatMap_units_of_lt fun n mem => ?_).symm
    obtain ⟨c, isChar, rfl⟩ := List.mem_map.1 mem
    exact first c isChar

theorem namedModule?_units (inRange : ∀ n ∈ points, n < 0x110000)
    (first : ∀ m ∈ modules, ∀ s, m = .text s → ∀ c ∈ s.toList, c.toNat < 0x10000) :
    namedModule? modules (some (points.flatMap units)) = namedModule? modules (some points) := by
  refine List.find?_congr fun m mem => ?_
  cases m
  case text s =>
    rw [Bool.eq_iff_iff, beq_iff_eq, beq_iff_eq]
    exact codePoints_eq_units_iff inRange (first _ mem s rfl)
  all_goals rfl

theorem foundByValue (compares : Compares pieces points v) (same : points.flatMap units = v) :
    FoundByValue pieces v := by
  subst same
  have inRange := compares.inRange
  have literal (rest : List Tree) : firstLiteral? (.text pieces :: rest) = .ok (some points) := by
    show (decodePieces pieces).map some = _
    rw [compares.decoded]
    rfl
  refine ⟨fun modules rest => ?_, fun modules parts => ?_, fun modules name rest first whole => ?_⟩
  · rw [own, literal, webFinding?_units inRange]
    rfl
  · rw [own, compares.decoded, webFinding?_units inRange]
    rfl
  · rw [own, literal]
    refine congrArg Except.ok ?_
    show callFinding? modules name (some points) = _
    unfold callFinding?
    split
    · rw [namedModule?_units inRange first]
    · simp only [Option.bind_some, literalText_units inRange]
    · simp only [Option.bind_some, runText_units inRange (whole rfl)]
    · rfl

end Found

/-- A literal that is read has no value just when an escape in it is refused. A literal with a
value is read up to its end and decoded, to points with the units of the value just when no escape
overruns; and then all findings about it depend on its value alone. -/
theorem string_decodes_to_value {cs rest : List Char} {pieces : List Piece}
    (read : string cs = some (pieces, rest)) :
    (literalValue? cs = none ↔ ∃ e, .escape e ∈ pieces ∧ e.IsRefused) ∧
      ∀ v after, literalValue? cs = some (v, after) → after = rest ∧
        ∃ points, decodePieces pieces = .ok points ∧
          (points.flatMap units = v ↔ ∀ e, .escape e ∈ pieces → ¬e.Overruns) ∧
          (points.flatMap units = v → FoundByValue pieces v) := by
  rcases compares_of_string read with ⟨refused, none⟩ | ⟨fine, points, w, value, compares⟩
  · refine ⟨iff_of_true none refused, fun v after value => ?_⟩
    rw [none] at value
    cases value
  · refine ⟨iff_of_false (by simp [value]) fun ⟨e, mem, refused⟩ => fine e mem refused, ?_⟩
    intro v after known
    rw [value] at known
    cases known
    exact ⟨rfl, points, compares.decoded, compares.same_iff, foundByValue compares⟩

/-- A web address with escapes of all forms. -/
def spelledAddress : List Char :=
  "\"\\x68\\164t\\u0070\\u\x7b3a\x7d\\57\\57\\u\x7b1F600\x7d\\q\\\n\"".toList

theorem spelledAddress_decodes :
    ∃ pieces points, string spelledAddress = some (pieces, []) ∧ decodePieces pieces = .ok points ∧
      points.flatMap units = codePoints "http://".toList ++ [0xD83D, 0xDE00, 0x71] := by
  have known : (string spelledAddress).any (fun p => p.2.isEmpty && p.1.all fun
      | .escape e => decide ¬e.Overruns
      | .plain _ => true) = true := by decide +kernel
  have value : literalValue? spelledAddress =
      some (codePoints "http://".toList ++ [0xD83D, 0xDE00, 0x71], []) := by decide +kernel
  obtain ⟨⟨pieces, rest⟩, read, fine⟩ := (Option.any_eq_true _ _).1 known
  rw [Bool.and_eq_true, List.isEmpty_iff, List.all_eq_true] at fine
  obtain ⟨rfl, fine⟩ := fine
  obtain ⟨-, points, decoded, same, -⟩ := (string_decodes_to_value read).2 _ _ value
  refine ⟨pieces, points, read, decoded, same.2 fun e mem => ?_⟩
  exact of_decide_eq_true (fine _ mem)

/-- A web address in which a digit follows a slash that is spelled with two. -/
def overrunAddress : List Char :=
  "\"http:\\57\\571.2.3.4/x\"".toList

/-- The digit is taken into the escape, and the address is overlooked. -/
theorem overrunAddress_overlooked :
    ∃ pieces points v, string overrunAddress = some (pieces, []) ∧
      decodePieces pieces = .ok points ∧ literalValue? overrunAddress = some (v, []) ∧
      v = codePoints "http://1.2.3.4/x".toList ∧ points.flatMap units ≠ v ∧
      (callFinding? [] "fetch" (some v)).isSome = true ∧
      own [] (.call (.name "fetch") [.text pieces]) = .ok none := by
  have known : (string overrunAddress).any (fun p => p.2.isEmpty &&
      (decodePieces p.1).toOption.any (fun points =>
        decide (points.flatMap units ≠ codePoints "http://1.2.3.4/x".toList)) &&
      (own [] (.call (.name "fetch") [.text p.1])).toOption.any Option.isNone) = true := by
    decide +kernel
  have value : literalValue? overrunAddress =
      some (codePoints "http://1.2.3.4/x".toList, []) := by decide +kernel
  have shown : (callFinding? [] "fetch"
      (some (codePoints "http://1.2.3.4/x".toList))).isSome = true := by decide +kernel
  obtain ⟨⟨pieces, rest⟩, read, fine⟩ := (Option.any_eq_true _ _).1 known
  simp only [Bool.and_eq_true, List.isEmpty_iff] at fine
  obtain ⟨⟨rfl, decodes⟩, overlooked⟩ := fine
  obtain ⟨points, decoded, differs⟩ := (Option.any_eq_true _ _).1 decodes
  obtain ⟨here, told, none⟩ := (Option.any_eq_true _ _).1 overlooked
  rw [toOption_eq_some_iff] at decoded told
  rw [Option.isNone_iff_eq_none] at none
  subst none
  exact ⟨pieces, points, _, read, decoded, value, rfl, of_decide_eq_true differs, shown, told⟩

end PackageRisk.Script
