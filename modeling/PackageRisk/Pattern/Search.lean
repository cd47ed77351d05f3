import PackageRisk.Pattern.Basic

/-!
# Searching for a pattern

A search tries every position of a text from the left. At one position the parts of a pattern
are matched in order, the first alternative and the longest run first unless the run is lazy;
when a later part fails, the search falls back to the next possibility of an earlier one.
-/

namespace PackageRisk.Pattern

/-- A position in a text: the character before it and the characters after it. -/
structure Cursor where
  before : Option Char
  rest : List Char

namespace Cursor

/-- The position before a whole text. -/
def ofText (cs : List Char) : Cursor := ⟨none, cs⟩

/-- Between a character of a word and one that is none, or the edge of the text. -/
def atBoundary (c : Cursor) : Bool :=
  let left := (c.before.map Text.isWord).getD false
  let right := (c.rest.head?.map Text.isWord).getD false
  left != right

/-- At the end of the text, or before a newline that ends it. -/
def atEnd (c : Cursor) : Bool :=
  match c.rest with
  | [] => true
  | [x] => x == '\n'
  | _ => false

end Cursor

/-- A run of characters of a set, at least `least` of them, and then what `next` asks for; a
greedy run gives characters back only when `next` fails. -/
def runMany {β : Type} (holds : Char → Bool) (greedy : Bool) (next : Cursor → Option β)
    (least : Nat) (before : Option Char) : List Char → Option β
  | [] => if least = 0 then next ⟨before, []⟩ else none
  | c :: cs =>
    match least with
    | n + 1 => if holds c then runMany holds greedy next n (some c) cs else none
    | 0 =>
      let here := fun () => next ⟨before, c :: cs⟩
      let further := fun () =>
        if holds c then runMany holds greedy next 0 (some c) cs else none
      if greedy then (further ()).orElse here else (here ()).orElse further

/-- The first way in which a pattern matches at a position and `next` accepts what follows. -/
def run {β : Type} (fold : Bool) : Pattern → (Cursor → Option β) → Cursor → Option β
  | .nothing, next, c => next c
  | .one set, next, c =>
    match c.rest with
    | x :: xs => if set.holds fold x then next ⟨some x, xs⟩ else none
    | [] => none
  | .many set least greedy, next, c =>
    runMany (set.holds fold) greedy next least c.before c.rest
  | .start, next, c => if c.before.isNone then next c else none
  | .finish, next, c => if c.atEnd then next c else none
  | .boundary, next, c => if c.atBoundary then next c else none
  | .seq p q, next, c => run fold p (run fold q next) c
  | .alt p q, next, c => (run fold p next c).orElse fun () => run fold q next c
  | .opt p, next, c => (run fold p next c).orElse fun () => next c

/-- What is left of a text after a match at a position. -/
def matchAt (fold : Bool) (p : Pattern) (c : Cursor) : Option (List Char) :=
  run fold p (fun d => some d.rest) c

/-- The first match from a position on. -/
def searchFrom (fold : Bool) (p : Pattern) (before : Option Char) :
    List Char → Option (List Char)
  | [] => (matchAt fold p ⟨before, []⟩).map fun _ => []
  | c :: cs =>
    match matchAt fold p ⟨before, c :: cs⟩ with
    | some rest => some ((c :: cs).take ((c :: cs).length - rest.length))
    | none => searchFrom fold p (some c) cs

/-- The text of the first match. -/
def search? (fold : Bool) (p : Pattern) (s : String) : Option String :=
  (searchFrom fold p none s.toList).map String.ofList

/-- Whether a pattern matches somewhere in a text. -/
def occursIn (fold : Bool) (p : Pattern) (s : String) : Bool :=
  (searchFrom fold p none s.toList).isSome

end PackageRisk.Pattern
