import Mathlib.Data.List.Basic
import PackageRisk.Script.Escape

/-!
# Code units

Scripts know a text by its code units: a character beyond the first plane counts as two halves.
A text that is put together from points has the characters of their units (`textOf_units`), so
it makes no difference whether a point stands there as one or as its halves. Points without
halves and beyond no first plane are their own units.
-/

namespace PackageRisk.Script

/-- The code units of a code point. -/
def units (point : Nat) : List Nat :=
  if point < 0x10000 then [point]
  else [0xD800 + (point - 0x10000) / 0x400, 0xDC00 + (point - 0x10000) % 0x400]

/-- One of the two halves that a character beyond the first plane has. -/
def IsHalf (unit : Nat) : Prop :=
  0xD800 ≤ unit ∧ unit < 0xE000

variable {points : List Nat} {m n : Nat}

theorem units_of_lt (first : n < 0x10000) : units n = [n] :=
  if_pos first

theorem units_of_le (beyond : 0x10000 ≤ n) :
    units n = [0xD800 + (n - 0x10000) / 0x400, 0xDC00 + (n - 0x10000) % 0x400] :=
  if_neg (Nat.not_lt.2 beyond)

/-- A unit stays apart unless it is a first half with a second one behind it. -/
theorem textOf_cons_of_apart
    (apart : ∀ n ∈ points.head?, ¬(0xD800 ≤ m ∧ m < 0xDC00 ∧ 0xDC00 ≤ n ∧ n < 0xE000)) :
    textOf (m :: points) = textOf.half m :: textOf points := by
  cases points with
  | nil => rfl
  | cons n rest => rw [textOf, if_neg (apart n rfl)]

theorem textOf_pair (high : 0xD800 ≤ m ∧ m < 0xDC00) (low : 0xDC00 ≤ n ∧ n < 0xE000) :
    textOf (m :: n :: points) = Json.joinHalves m n :: textOf points := by
  rw [textOf, if_pos ⟨high.1, high.2, low.1, low.2⟩]

/-- The units of a point make the character of the point. -/
theorem joinHalves_units (beyond : 0x10000 ≤ n) (inRange : n < 0x110000) :
    Json.joinHalves (0xD800 + (n - 0x10000) / 0x400) (0xDC00 + (n - 0x10000) % 0x400) =
      textOf.half n := by
  have joined : 0x10000 + (0xD800 + (n - 0x10000) / 0x400 - 0xD800) * 0x400 +
      (0xDC00 + (n - 0x10000) % 0x400 - 0xDC00) = n := by omega
  have noHalf : ¬(0xD800 ≤ n ∧ n < 0xE000) := by omega
  rw [Json.joinHalves, joined, textOf.half, if_neg noHalf]

theorem textOf_units_append (inRange : m < 0x110000)
    (apart : ∀ n ∈ points.head?, ¬(0xD800 ≤ m ∧ m < 0xDC00 ∧ 0xDC00 ≤ n ∧ n < 0xE000)) :
    textOf (units m ++ points) = textOf.half m :: textOf points := by
  by_cases first : m < 0x10000
  · rw [units_of_lt first]
    exact textOf_cons_of_apart apart
  · have beyond : 0x10000 ≤ m := Nat.not_lt.1 first
    rw [units_of_le beyond, ← joinHalves_units beyond inRange]
    exact textOf_pair (by omega) (by omega)

/-- Points make the same text as their units. -/
theorem textOf_units (all : ∀ n ∈ points, n < 0x110000) :
    textOf (points.flatMap units) = textOf points := by
  fun_induction textOf points with
  | case1 => rfl
  | case2 n => exact textOf_units_append (all n List.mem_cons_self) nofun
  | case3 m n rest pair ih =>
    have later := ih fun k mem => all k (List.mem_cons_of_mem _ (List.mem_cons_of_mem _ mem))
    rw [List.flatMap_cons, List.flatMap_cons, units_of_lt (by omega), units_of_lt (by omega),
      ← later]
    exact textOf_pair ⟨pair.1, pair.2.1⟩ pair.2.2
  | case4 m n rest apart ih =>
    rw [List.forall_mem_cons] at all
    rw [List.flatMap_cons, ← ih all.2]
    refine textOf_units_append all.1 fun k first => ?_
    by_cases short : n < 0x10000
    · rw [List.flatMap_cons, units_of_lt short] at first
      cases first
      exact apart
    · rw [List.flatMap_cons, units_of_le (Nat.not_lt.1 short)] at first
      cases first
      have inRange := all.2 n List.mem_cons_self
      omega

/-- Points of the first plane are their own units. -/
theorem flatMap_units_of_lt (first : ∀ n ∈ points, n < 0x10000) :
    points.flatMap units = points := by
  induction points with
  | nil => rfl
  | cons n rest ih =>
    rw [List.forall_mem_cons] at first
    rw [List.flatMap_cons, units_of_lt first.1, ih first.2]
    rfl

/-- Points whose units hold no half are of the first plane. -/
theorem lt_of_whole (all : ∀ n ∈ points, n < 0x110000)
    (whole : ∀ u ∈ points.flatMap units, ¬IsHalf u) : ∀ n ∈ points, n < 0x10000 := by
  intro n mem
  by_contra beyond
  have inRange := all n mem
  refine whole (0xD800 + (n - 0x10000) / 0x400) (List.mem_flatMap.2 ⟨n, mem, ?_⟩)
    ⟨by omega, by omega⟩
  rw [units_of_le (Nat.not_lt.1 beyond)]
  exact List.mem_cons_self

theorem toNat_lt (c : Char) : c.toNat < 0x110000 := by
  rcases c.valid with below | above
  · exact Nat.lt_trans below (by decide)
  · exact above.2

end PackageRisk.Script
