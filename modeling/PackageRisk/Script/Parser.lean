import PackageRisk.Script.Tree

/-!
# Reading scripts

The grammar of scripts and modules, as readers that are built from two: one for an expression
and one for a statement. `expression` and `statement` tie the knot; the depth of nesting that
they follow is bounded by a number that `Script.parse?` takes from the length of its text.

Some texts are expressions or patterns only by what comes after them, such as the brackets
before an arrow. They are read once, as a `Term` that knows which of the two it can be.
-/

namespace PackageRisk.Script

/-- What a term is, as far as the text after it asks. -/
inductive Shape where
  | word
  | undefinedWord
  | access
  | brackets
  | pattern
  | defaulted
  | rest
  | spread
  | other
  deriving DecidableEq, Repr

/-- An expression or a pattern. `isValue` says that it can be an expression, `splits` that an
`in` near its end could also separate it from what follows. -/
structure Term where
  tree : Tree
  shape : Shape
  isValue : Bool
  splits : Bool

namespace Term

/-- An expression that is nothing else. -/
def value (t : Tree) : Term := ⟨t, .other, true, false⟩

/-- Whether a value can be assigned to a term as it stands. -/
def isTarget (t : Term) : Bool :=
  match t.shape with
  | .word | .undefinedWord | .access | .pattern => true
  | _ => false

/-- Whether a term can be an item of a pattern. -/
def isPattern (t : Term) : Bool :=
  t.isTarget || t.shape == .defaulted || t.shape == .rest

/-- Whether a term is an expression of its own, without three dots. -/
def isPlainValue (t : Term) : Bool :=
  t.isValue && t.shape != .rest && t.shape != .spread

end Term

/-- A statement, and whether it ends with a brace after which a semicolon may be missing. -/
structure Statement where
  tree : Tree
  closed : Bool

/-- The readers that the parts of the grammar are built from. The flag of an expression says
that the statement around it may end with it; the size of the text bounds the rounds of every list. -/
structure Parts where
  size : Nat
  expression : Bool → Reader Term
  statement : Reader Statement

/-- A reader that gives up its place for a second one when it fails. -/
def orRead {α : Type} (a b : Reader α) : Reader α := fun cs =>
  match a cs with
  | some r => some r
  | none => b cs

/-- An operator at the end of a statement, if the statement can go on. -/
def continues (tail : Bool) (cs : List Char) : Option (List Char) :=
  if tail && endsHere true cs then none else some (skip cs)

/-! ## Operators -/

/-- The operators between two expressions that are written with signs, longest first. -/
def binaryMarks : List (List Char) :=
  ["===", "!==", ">>>", "**", "==", "!=", "<=", ">=", "<<", ">>", "&&", "||", "??",
   "+", "-", "*", "/", "%", "<", ">", "&", "^", "|"].map String.toList

/-- The operators that assign, longest first. -/
def assignMarks : List (List Char) :=
  [">>>=", "**=", "<<=", ">>=", "&&=", "||=", "??=", "+=", "-=", "*=", "/=", "%=", "&=", "^=",
   "|="].map String.toList

/-- The text after the first of some marks that stands at a position. -/
def dropFirst (marks : List (List Char)) (cs : List Char) : Option (List Char) :=
  marks.findSome? fun m => dropMark? m cs

/-- The text after an operator between two expressions, and whether it is the word `in`. -/
def binaryOperator (cs : List Char) : Option (Bool × List Char) :=
  if (dropFirst assignMarks cs).isSome || (dropMark? ['=', '>'] cs).isSome ||
      (dropMark? ['+', '+'] cs).isSome || (dropMark? ['-', '-'] cs).isSome then none
  else match dropFirst binaryMarks cs with
    | some rest => some (false, rest)
    | none => match word cs with
      | some ("in", rest) => some (true, rest)
      | some ("instanceof", rest) => some (false, rest)
      | _ => none

/-- The text after the question mark of a choice. -/
def questionMark : List Char → Option (List Char)
  | '?' :: '?' :: _ => none
  | '?' :: '.' :: c :: rest => if c.isDigit then some ('.' :: c :: rest) else none
  | '?' :: '.' :: [] => none
  | '?' :: rest => some rest
  | _ => none

/-- The text after the mark of an optional access. -/
def optionalMark : List Char → Option (List Char)
  | '?' :: '.' :: c :: rest => if c.isDigit then none else some (c :: rest)
  | _ => none

/-- The text after an equals sign that is no other operator. -/
def equalsSign : List Char → Option (List Char)
  | '=' :: '=' :: _ | '=' :: '>' :: _ => none
  | '=' :: rest => some rest
  | _ => none

/-- The text after the arrow of a function. -/
def arrow (cs : List Char) : Option (List Char) :=
  dropMark? ['=', '>'] (skip cs)

/-- Whether the text after a construct can only go on with it as an expression. -/
def onlyContinues (cs : List Char) : Bool :=
  match skip cs with
  | '.' :: rest => !(rest.head?.map Char.isDigit).getD false
  | '<' :: rest => rest.head? == some '=' || rest.head? == some '<'
  | '!' :: '=' :: _ => true
  | c :: rest =>
    "?,*%=>&|^".toList.contains c ||
      match word (c :: rest) with
      | some (w, _) => w == "in" || w == "instanceof"
      | none => false
  | [] => false

/-! ## Lists of expressions -/

/-- An expression or pattern, with three dots in front of it or not. -/
def spreadTerm (p : Parts) : Reader Term := fun cs =>
  match dropMark? ['.', '.', '.'] cs with
  | some rest => match p.expression false (skipPage rest) with
    | some (t, more) =>
      some (⟨t.tree, if t.isTarget then .rest else .spread, t.isValue, false⟩, more)
    | none => none
  | none => p.expression false cs

/-- Items between commas up to a closing sign; nothing at all between two commas is an item,
too. Page comments before the first item are items without parts. -/
def itemsTo (p : Parts) (close : Char) : Nat → List (Option Term) → Reader (List (Option Term))
  | 0, _, _ => none
  | rounds + 1, acc, cs =>
    match skipPage cs with
    | [] => none
    | c :: rest =>
      if c == close then some ((none :: acc).reverse, rest)
      else if c == ',' then itemsTo p close rounds (none :: acc) rest
      else match spreadTerm p (c :: rest) with
        | none => none
        | some (t, more) => match skip more with
          | d :: more =>
            if d == ',' then itemsTo p close rounds (some t :: acc) more
            else if d == close then some ((some t :: acc).reverse, more)
            else none
          | [] => none

/-- The items of a bracketed list from behind its opening sign. -/
def items (p : Parts) (close : Char) : Reader (List (Option Term)) := fun cs =>
  itemsTo p close p.size [] cs

/-- The trees of the items that are there. -/
def itemTrees (ts : List (Option Term)) : List Tree :=
  ts.filterMap fun t => t.map Term.tree

/-- The arguments of a call from behind the opening bracket. -/
def arguments (p : Parts) : Reader (List Tree) := fun cs =>
  match items p ')' cs with
  | some (ts, rest) =>
    if ts.all fun t => (t.map Term.isValue).getD true then
      let page := (skipFrom true .gap false cs).1
      some (if page then .leaf :: itemTrees ts else itemTrees ts, rest)
    else none
  | none => none

/-- The parameters among items: patterns, with at most one comma behind the last. -/
def parameterTrees? (ts : List (Option Term)) : Option (List Tree) :=
  let ts := match ts.reverse with
    | none :: rest => rest.reverse
    | _ => ts
  ts.mapM fun t => match t with
    | some t => if t.isPattern then some t.tree else none
    | none => none

/-- Parameters in brackets. -/
def parameters (p : Parts) : Reader Tree := fun cs =>
  match punct '(' cs with
  | some rest => match items p ')' rest with
    | some (ts, more) => (parameterTrees? ts).map fun trees => (.group trees, more)
    | none => none
  | none => none

/-- Expressions between commas. -/
def sequenceFrom (p : Parts) (tail : Bool) : Nat → List Tree → Reader Tree
  | 0, _, _ => none
  | rounds + 1, acc, cs =>
    match p.expression tail (skipPage cs) with
    | some (t, rest) =>
      if !t.isValue then none
      else match (continues tail rest).bind (dropMark? [',']) with
        | some more => sequenceFrom p tail rounds (t.tree :: acc) more
        | none => some (.group (t.tree :: acc).reverse, rest)
    | none => none

/-- Expressions between commas. -/
def sequence (p : Parts) (tail : Bool) : Reader Tree := fun cs =>
  sequenceFrom p tail p.size [] cs

/-- Expressions in round brackets. -/
def bracketed (p : Parts) : Reader Tree := fun cs =>
  match punct '(' cs with
  | some rest => match sequence p false rest with
    | some (t, more) => (punct ')' more).map (t, ·)
    | none => none
  | none => none

/-- Expressions up to the closing square bracket. -/
def index (p : Parts) : Reader Tree := fun cs =>
  match sequence p false cs with
  | some (t, rest) => (punct ']' rest).map (t, ·)
  | none => none

/-- A template from behind its opening mark. -/
def templateFrom (p : Parts) : Nat → List Tree → Reader Tree
  | 0, _, _ => none
  | rounds + 1, acc, cs =>
    match cs with
    | [] => none
    | '\x60' :: rest => some (.group acc.reverse, rest)
    | '\\' :: rest => match escapeBody rest with
      | some (_, more) => templateFrom p rounds acc more
      | none => none
    | '$' :: '{' :: rest => match sequence p false rest with
      | some (t, more) => match punct '}' more with
        | some more => templateFrom p rounds (t :: acc) more
        | none => none
      | none => none
    | _ :: rest => templateFrom p rounds acc rest

/-- A template from behind its opening mark. -/
def template (p : Parts) : Reader Tree := fun cs =>
  templateFrom p p.size [] cs

/-! ## Functions -/

/-- Statements up to a text at which they stop. `fresh` says that page comments count. -/
def statementsTo (p : Parts) (stop : List Char → Bool) :
    Nat → Bool → List Tree → Reader Tree
  | 0, _, _, _ => none
  | rounds + 1, fresh, acc, cs =>
    let at' := if fresh then skipPage cs else skip cs
    if stop at' then some (.group acc.reverse, at')
    else match p.statement at' with
      | some (s, rest) =>
        statementsTo p stop rounds (!s.closed || endsHere false rest) (s.tree :: acc) rest
      | none => none

/-- Statements up to a text at which they stop. -/
def statements (p : Parts) (stop : List Char → Bool) : Reader Tree := fun cs =>
  statementsTo p stop p.size true [] cs

/-- Whether a text starts with a closing brace. -/
def atBrace : List Char → Bool
  | '}' :: _ => true
  | _ => false

/-- Statements in braces. -/
def block (p : Parts) : Reader Tree := fun cs =>
  match punct '{' cs with
  | some rest => match statements p atBrace rest with
    | some (t, more) => some (t, more.drop 1)
    | none => none
  | none => none

/-- Parameters and body of a function. -/
def functionRest (p : Parts) : Reader Tree := fun cs =>
  match parameters p cs with
  | some (ps, rest) => (block p rest).map fun (b, more) => (.both ps b, more)
  | none => none

/-- A function from behind its first word, and whether it has a name. -/
def function (p : Parts) : Reader (Bool × Tree) := fun cs =>
  let cs := (punct '*' cs).getD cs
  match name (skip cs) with
  | some (_, rest) => (functionRest p rest).map fun (t, more) => ((true, t), more)
  | none => (functionRest p cs).map fun (t, more) => ((false, t), more)

/-! ## Objects and classes -/

/-- A name of a property and whether it is a plain word. -/
def propertyName (p : Parts) : Reader (Tree × Bool) := fun cs =>
  match cs with
  | '[' :: rest => match p.expression false (skipPage rest) with
    | some (t, more) =>
      if t.isValue then (punct ']' more).map ((t.tree, false), ·) else none
    | none => none
  | '#' :: _ => (privateName cs).map fun (_, rest) => ((.leaf, false), rest)
  | c :: rest =>
    if c == '"' || c == '\'' then (string (c :: rest)).map fun (_, more) => ((.leaf, false), more)
    else if c.isDigit || (c == '.' && (rest.head?.map Char.isDigit).getD false) then
      (afterNumber? (c :: rest)).map ((.leaf, false), ·)
    else (word (c :: rest)).map fun (_, more) => ((.leaf, true), more)
  | [] => none

/-- Name, parameters and body of a method. -/
def plainMethod (p : Parts) : Reader Tree := fun cs =>
  match propertyName p (skip cs) with
  | some ((t, _), rest) => (functionRest p rest).map fun (f, more) => (.both t f, more)
  | none => none

/-- A word and then what another reader reads. -/
def afterWord {α : Type} (w : String) (r : Reader α) : Reader α := fun cs =>
  (keyword w cs).bind r

/-- A method that may be a reading, a writing or a stepwise one. -/
def kindMethod (p : Parts) : Reader Tree :=
  orRead (afterWord "get" (plainMethod p)) <|
  orRead (afterWord "set" (plainMethod p)) <|
  orRead (fun cs => (punct '*' cs).bind (plainMethod p)) (plainMethod p)

/-- A method with all that may stand before its name. -/
def method (p : Parts) : Reader Tree :=
  let awaited := orRead (afterWord "async" (kindMethod p)) (kindMethod p)
  orRead (afterWord "static" awaited) awaited

/-- A member of an object: what it stands for, whether it can be part of a value and of a
pattern, and whether it is a name alone. -/
structure Member where
  tree : Tree
  isValue : Bool
  isPattern : Bool
  alone : Bool

/-- A name that stands for itself, or a pattern with a value for the case that there is none. -/
def shorthand (p : Parts) : Reader Member := fun cs =>
  match word cs with
  | some (_, rest) =>
    match equalsSign (skip rest) with
    | some more => match p.expression false (skipPage more) with
      | some (t, more) => if t.isValue then some (⟨t.tree, false, true, false⟩, more) else none
      | none => none
    | none => match skip rest with
      | ',' :: _ | '}' :: _ => some (⟨.leaf, true, true, true⟩, rest)
      | _ => none
  | none => none

/-- A name and a value or pattern. -/
def pair (p : Parts) : Reader Member := fun cs =>
  match propertyName p cs with
  | some ((key, _), rest) => match punct ':' rest with
    | some more => match p.expression false (skipPage more) with
      | some (t, more) =>
        some (⟨.both key t.tree, t.isValue, t.isTarget || t.shape == .defaulted, false⟩, more)
      | none => none
    | none => none
  | none => none

/-- A member of an object. -/
def member (p : Parts) : Reader Member := fun cs =>
  match dropMark? ['.', '.', '.'] cs with
  | some _ => (spreadTerm p cs).map fun (t, rest) =>
      (⟨t.tree, t.isValue, t.shape == .rest, false⟩, rest)
  | none =>
    orRead (pair p) (orRead (shorthand p) fun cs =>
      (method p cs).map fun (t, rest) => (⟨t, true, false, false⟩, rest)) cs

/-- The members of an object from behind its opening brace. -/
def membersTo (p : Parts) : Nat → List Member → Reader (List Member)
  | 0, _, _ => none
  | rounds + 1, acc, cs =>
    match skipPage cs with
    | '}' :: rest => some (acc.reverse, rest)
    | ',' :: rest => membersTo p rounds (⟨.leaf, true, true, false⟩ :: acc) rest
    | cs => match member p cs with
      | some (m, rest) => match skip rest with
        | ',' :: more => membersTo p rounds (m :: acc) more
        | '}' :: more => some ((m :: acc).reverse, more)
        | _ => none
      | none => none

/-- An object from behind its opening brace. At the start of a statement a name alone cannot be
its first member, because there it is a statement. -/
def object (p : Parts) (atStart : Bool) : Reader Term := fun cs =>
  match membersTo p p.size [] cs with
  | some (ms, rest) =>
    if atStart && (ms.head?.map Member.alone).getD false then none
    else
      let isValue := ms.all Member.isValue
      let isPattern := ms.all Member.isPattern
      if isValue || isPattern then
        some (⟨.group (ms.map Member.tree), if isPattern then .pattern else .other, isValue,
          false⟩, rest)
      else none
  | none => none

/-- A list from behind its opening bracket. -/
def listTerm (p : Parts) : Reader Term := fun cs =>
  match items p ']' cs with
  | some (ts, rest) =>
    let holds (f : Term → Bool) := ts.all fun t => (t.map f).getD true
    let isValue := holds Term.isValue
    let isPattern := holds Term.isPattern
    if isValue || isPattern then
      some (⟨.group (itemTrees ts), if isPattern then .pattern else .other, isValue, false⟩, rest)
    else none
  | none => none

/-- The text after a semicolon, or at a place where one is missing. -/
def semicolon (operator : Bool) (cs : List Char) : Option (List Char) :=
  if endsHere operator cs then some cs else punct ';' cs

/-- A value behind an equals sign, if there is one. -/
def initializer (p : Parts) (tail : Bool) : Reader (Option Term) := fun cs =>
  match equalsSign (skip cs) with
  | some rest => match p.expression tail (skipPage rest) with
    | some (t, more) => if t.isValue then some (some t, more) else none
    | none => none
  | none => some (none, cs)

/-- A field of a class: a name, a value or none, and its end. -/
def field (p : Parts) : Reader Tree := fun cs =>
  match propertyName p (skip cs) with
  | some ((key, _), rest) =>
    if endsHere false rest then some (key, rest)
    else match initializer p true rest with
      | some (some t, more) => (semicolon true more).map (.both key t.tree, ·)
      | some (none, more) => (punct ';' more).map (key, ·)
      | none => none
  | none => none

/-- Statements that a class runs for itself. -/
def staticBlock (p : Parts) : Reader Tree :=
  afterWord "static" (block p)

/-- The name or call behind the sign of a decorator. -/
def decoratorFrom (p : Parts) : Nat → Bool → Tree → Reader Tree
  | 0, _, _, _ => none
  | rounds + 1, plain, t, cs =>
    match skip cs with
    | '.' :: rest => match word (skip rest) with
      | some (_, more) => decoratorFrom p rounds false .leaf more
      | none => none
    | '(' :: rest => (arguments p rest).map fun (ts, more) => (.call t ts, more)
    | _ => some (if plain then t else .leaf, cs)

/-- Decorators before a class or a member of one. -/
def decorators (p : Parts) : Nat → List Tree → List Char → Option (List Tree × List Char)
  | 0, _, _ => none
  | rounds + 1, acc, cs =>
    match skip cs with
    | '@' :: rest => match name (skip rest) with
      | some (w, more) => match decoratorFrom p p.size true (.name w) more with
        | some (t, more) => decorators p rounds (t :: acc) more
        | none => none
      | none => none
    | _ => some (acc.reverse, cs)

/-- A member of a class. -/
def classMember (p : Parts) : Reader Tree := fun cs =>
  match decorators p p.size [] cs with
  | some (ds, rest) =>
    (orRead (staticBlock p) (orRead (method p)
      (orRead (field p) (afterWord "static" (field p)))) rest).map
        fun (t, more) => (.group (ds ++ [t]), more)
  | none => none

/-- The members of a class up to its closing brace. -/
def classMembers (p : Parts) : Nat → List Tree → Reader Tree
  | 0, _, _ => none
  | rounds + 1, acc, cs =>
    match skipPage cs with
    | '}' :: rest => some (.group acc.reverse, rest)
    | ';' :: rest => classMembers p rounds acc rest
    | cs => match classMember p cs with
      | some (t, rest) => classMembers p rounds (t :: acc) rest
      | none => none

/-- Body of a class. -/
def classBody (p : Parts) : Reader Tree := fun cs =>
  match punct '{' cs with
  | some rest => classMembers p p.size [] rest
  | none => none

/-- A class from behind its first word, and whether it has a name. -/
def classRest (p : Parts) : Reader (Bool × Tree) := fun cs =>
  let (named, cs) := match name (skip cs) with
    | some (_, rest) => (true, rest)
    | none => (false, cs)
  match keyword "extends" cs with
  | some rest => match p.expression false (skipPage rest) with
    | some (t, more) =>
      if t.isValue then (classBody p more).map fun (b, more) => ((named, .both t.tree b), more)
      else none
    | none => none
  | none => (classBody p cs).map fun (b, more) => ((named, b), more)

/-! ## Expressions -/

/-- An expression that is a value. -/
def valueTree (p : Parts) (tail : Bool) : Reader Tree := fun cs =>
  match p.expression tail cs with
  | some (t, rest) => if t.isValue then some (t.tree, rest) else none
  | none => none

/-- The body of an arrow function: a block, or an expression. -/
def arrowBody (p : Parts) (tail : Bool) : Reader Tree := fun cs =>
  match skipPage cs with
  | '{' :: rest =>
    match block p ('{' :: rest) with
    | some r => some r
    | none =>
      if (object p true rest).isSome then valueTree p tail ('{' :: rest) else none
  | at' => valueTree p tail at'

/-- An arrow function from behind its parameters. -/
def arrowRest (p : Parts) (tail : Bool) (parameters : List Tree) : Reader Term := fun cs =>
  match arrow cs with
  | some rest => (arrowBody p tail rest).map fun (b, more) =>
      (.value (.group (parameters ++ [b])), more)
  | none => none

/-- Round brackets: expressions, or the parameters of an arrow function. -/
def brackets (p : Parts) (tail : Bool) : Reader Term := fun cs =>
  match items p ')' cs with
  | some (ts, rest) =>
    match parameterTrees? ts with
    | some trees =>
      if (arrow rest).isSome then arrowRest p tail trees rest else values ts rest
    | none => values ts rest
  | none => none
where
  /-- The items as expressions. -/
  values (ts : List (Option Term)) (rest : List Char) : Option (Term × List Char) :=
    if ts.all fun t => (t.map Term.isPlainValue).getD false then
      some (⟨.group (itemTrees ts), .brackets, true, false⟩, rest)
    else none

/-- A name, or the single parameter of an arrow function. -/
def nameTerm (p : Parts) (tail : Bool) (w : String) : Reader Term := fun rest =>
  if (arrow rest).isSome then arrowRest p tail [] rest
  else some (⟨.name w, .word, true, false⟩, rest)

/-- What stands behind the word `async` if it starts a function. -/
def asyncTerm (p : Parts) (tail : Bool) : Reader Term := fun rest =>
  let asName := nameTerm p tail "async"
  if tail && endsHere true rest then asName rest
  else match skip rest with
    | '(' :: more => match items p ')' more with
      | some (ts, after) => match parameterTrees? ts with
        | some trees => if (arrow after).isSome then arrowRest p tail trees after else asName rest
        | none => asName rest
      | none => none
    | cs => match keyword "function" cs with
      | some more => (function p more).map fun ((_, t), after) => (.value t, after)
      | none => match name cs with
        | some (_, after) =>
          if (arrow after).isSome then arrowRest p tail [] after else asName rest
        | none => asName rest

/-- A call or a member of the word `import`. -/
def importTerm (p : Parts) : Reader Term := fun rest =>
  match skip rest with
  | '(' :: more => (arguments p more).map fun (ts, after) => (.value (.importCall ts), after)
  | '.' :: more =>
    match word (skip more) with
    | some ("meta", after) => some (.value .leaf, after)
    | some (_, after) => some (⟨.leaf, .access, true, false⟩, after)
    | none => none
  | _ => none

/-- The expressions that a word starts. -/
def wordTerm (p : Parts) (tail : Bool) (w : String) : Reader Term := fun rest =>
  match w with
  | "this" | "super" | "null" | "true" | "false" => some (.value .leaf, rest)
  | "undefined" => some (⟨.leaf, .undefinedWord, true, false⟩, rest)
  | "function" => (function p rest).map fun ((_, t), more) => (.value t, more)
  | "class" => (classRest p rest).map fun ((_, t), more) => (.value t, more)
  | "async" => asyncTerm p tail rest
  | "import" => importTerm p rest
  | "export" => nameTerm p tail w rest
  | w => if reservedWords.contains w then none else nameTerm p tail w rest

/-- An expression without operators around it. -/
def primary (p : Parts) (tail atStart : Bool) : Reader Term := fun cs =>
  match cs with
  | '(' :: rest => brackets p tail rest
  | '[' :: rest => listTerm p rest
  | '{' :: rest => object p atStart rest
  | '\x60' :: rest => (template p rest).map fun (t, more) => (.value t, more)
  | '/' :: _ => (afterRegex? cs).map (.value .leaf, ·)
  | '#' :: _ => match privateName cs with
    | some (_, rest) => (keyword "in" rest).map fun _ => (.value .leaf, rest)
    | none => none
  | '@' :: _ => match decorators p p.size [] cs with
    | some (ds, rest) => (afterWord "class" (classRest p) rest).map
        fun ((_, t), more) => (.value (.group (ds ++ [t])), more)
    | none => none
  | c :: rest =>
    if c == '"' || c == '\'' then
      (string cs).map fun (pieces, more) => (.value (.text pieces), more)
    else if c.isDigit || (c == '.' && (rest.head?.map Char.isDigit).getD false) then
      (afterNumber? cs).map (.value .leaf, ·)
    else match word cs with
      | some (w, more) => wordTerm p tail w more
      | none => none
  | [] => none

/-- A property behind a point. -/
def property : Reader Unit := fun cs =>
  match skip cs with
  | '#' :: rest => (privateName ('#' :: rest)).map fun (_, more) => ((), more)
  | cs => (word cs).map fun (_, more) => ((), more)

/-- What an access leads to. -/
def access (t : Tree) : Term := ⟨t, .access, true, false⟩

/-- Accesses, calls and increments behind an expression. `calls` says that calls are read, and
`simple` that the expression is not an increment. -/
def postfixFrom (p : Parts) (tail calls : Bool) :
    Nat → Bool → Term → Reader Term
  | 0, _, _, _ => none
  | rounds + 1, simple, t, cs =>
    if !t.isValue then some (t, cs)
    else match continues (tail && calls) cs with
      | none => some (t, cs)
      | some at' =>
        match optionalMark at' with
        | some rest =>
          match skip rest with
          | '(' :: more =>
            if simple then
              match arguments p more with
              | some (ts, after) =>
                postfixFrom p tail calls rounds true (.value (.call t.tree ts)) after
              | none => none
            else none
          | '[' :: more => match index p more with
            | some (i, after) =>
              postfixFrom p tail calls rounds true (access (.both t.tree i)) after
            | none => none
          | more => match property more with
            | some (_, after) =>
              postfixFrom p tail calls rounds true (access (.group [t.tree])) after
            | none => none
        | none =>
          match at' with
          | '.' :: rest => match property rest with
            | some (_, after) =>
              postfixFrom p tail calls rounds true (access (.group [t.tree])) after
            | none => none
          | '[' :: rest => match index p rest with
            | some (i, after) =>
              postfixFrom p tail calls rounds true (access (.both t.tree i)) after
            | none => none
          | '\x60' :: rest =>
            if simple then
              match template p rest with
              | some (b, after) =>
                postfixFrom p tail calls rounds true (.value (.call t.tree [b])) after
              | none => none
            else none
          | '(' :: rest =>
            if calls then
              match arguments p rest with
              | some (ts, after) =>
                postfixFrom p tail calls rounds true (.value (.call t.tree ts)) after
              | none => none
            else some (t, cs)
          | '+' :: '+' :: rest | '-' :: '-' :: rest =>
            if calls then postfixFrom p tail calls rounds false (.value (.group [t.tree])) rest
            else some (t, cs)
          | _ => some (t, cs)

/-- Accesses, calls and increments behind an expression. -/
def postfixes (p : Parts) (tail calls simple : Bool) (t : Term) : Reader Term := fun cs =>
  postfixFrom p tail calls p.size simple t cs

/-- A construction from behind its first word. -/
def constructFrom (p : Parts) (tail : Bool) : Nat → Reader Term
  | 0, _ => none
  | rounds + 1, cs =>
    match skipPage cs with
    | '.' :: rest => (keyword "target" rest).map (.value .leaf, ·)
    | cs =>
      let maker := match word cs with
        | some ("new", rest) => constructFrom p tail rounds rest
        | _ => primary p false false cs
      match maker with
      | some (t, rest) => match postfixes p false false true t rest with
        | some (t, rest) =>
          if !t.isValue then none
          else match (continues tail rest).bind (dropMark? ['(']) with
            | some more => (arguments p more).map fun (ts, after) =>
                (.value (.construct t.tree ts), after)
            | none => some (.value (.construct t.tree []), rest)
        | none => none
      | none => none

/-- The words that stand before an expression. -/
def prefixWords : List String := ["typeof", "void", "delete"]

/-- Whether an expression can start at a position. -/
def startsExpression (cs : List Char) : Bool :=
  match cs with
  | [] => false
  | c :: rest =>
    "([\x7b\x60\"'/!~+-#@".toList.contains c || c.isDigit ||
      (c == '.' && (rest.head?.map Char.isDigit).getD false) ||
      match word cs with
      | some (w, _) =>
        !reservedWords.contains w ||
          ["this", "super", "null", "true", "false", "function", "class", "import", "new",
           "export", "typeof", "void", "delete"].contains w
      | none => false

/-- The text after signs and words that stand before an expression, and whether there are any.
A lone `await` is a name, and stays. -/
def skipPrefixes (tail : Bool) : Nat → Bool → List Char → Bool × List Char
  | 0, moved, cs => (moved, cs)
  | rounds + 1, moved, cs =>
    match cs with
    | '!' :: rest | '~' :: rest | '+' :: '+' :: rest | '-' :: '-' :: rest | '+' :: rest
    | '-' :: rest => skipPrefixes tail rounds true (skipPage rest)
    | _ => match word cs with
      | some ("await", rest) =>
        if tail && endsHere true rest then (moved, cs)
        else if startsExpression (skip rest) then skipPrefixes tail rounds true (skip rest)
        else (moved, cs)
      | some (w, rest) =>
        if prefixWords.contains w then skipPrefixes tail rounds true (skipPage rest)
        else (moved, cs)
      | none => (moved, cs)

/-- An expression with a value assigned to it, if one is. -/
def assigned (p : Parts) (tail : Bool) (t : Term) : Reader Term := fun cs =>
  match continues tail cs with
  | none => some (t, cs)
  | some at' =>
    match equalsSign at' with
    | some rest =>
      if t.isTarget || t.shape == .brackets then
        match p.expression tail (skipPage rest) with
        | some (v, more) =>
          if v.isValue then
            some (⟨.both t.tree v.tree, if t.isTarget then .defaulted else .other, true,
              v.splits⟩, more)
          else none
        | none => none
      else none
    | none => match dropFirst assignMarks at' with
      | some rest =>
        if t.shape == .word || t.shape == .access || t.shape == .brackets then
          match p.expression tail (skipPage rest) with
          | some (v, more) =>
            if v.isValue then some (⟨.both t.tree v.tree, .other, true, v.splits⟩, more) else none
          | none => none
        else none
      | none => some (t, cs)

/-- A value that is handed out from behind the word `yield`, if there is one. -/
def yieldRest (p : Parts) (tail : Bool) : Reader Term := fun cs =>
  if tail && endsHere true cs then some (.value .leaf, cs)
  else match skip cs with
    | '*' :: rest => match p.expression tail (skipPage rest) with
      | some (t, more) => if t.isValue then some (⟨t.tree, .other, true, t.splits⟩, more) else none
      | none => none
    | at' =>
      if startsExpression at' then
        match p.expression tail at' with
        | some (t, more) =>
          if t.isValue then some (⟨t.tree, .other, true, t.splits⟩, more) else none
        | none => none
      else postfixes p tail true false (.value .leaf) cs

/-- An expression with what stands directly before and behind it. -/
def operand (p : Parts) (tail atStart : Bool) : Reader Term := fun cs =>
  let (moved, at') := skipPrefixes tail p.size false cs
  let inner : Option (Term × List Char) := match word at' with
    | some ("yield", rest) => yieldRest p tail rest
    | some ("new", rest) => match constructFrom p tail p.size rest with
      | some (t, more) => postfixes p tail true true t more
      | none => none
    | _ => match primary p tail atStart at' with
      | some (t, more) => postfixes p tail true true t more
      | none => none
  match inner with
  | some (t, more) => match assigned p tail t more with
    | some (t, more) =>
      if !moved then some (t, more)
      else if t.isValue then some (⟨t.tree, .other, true, t.splits⟩, more)
      else none
    | none => none
  | none => none

/-- Operators and operands behind an operand. -/
def operatorsFrom (p : Parts) (tail : Bool) : Nat → Term → Reader Term
  | 0, _, _ => none
  | rounds + 1, t, cs =>
    if !t.isValue then some (t, cs)
    else match continues tail cs with
      | none => some (t, cs)
      | some at' =>
        match questionMark at' with
        | some rest => match p.expression false (skipPage rest) with
          | some (a, more) => match punct ':' more with
            | some more => match p.expression tail (skipPage more) with
              | some (b, after) =>
                if a.isValue && b.isValue then
                  some (⟨.group [t.tree, a.tree, b.tree], .other, true, b.splits⟩, after)
                else none
              | none => none
            | none => none
          | none => none
        | none => match binaryOperator at' with
          | some (isIn, rest) => match operand p tail false (skipPage rest) with
            | some (b, after) =>
              if b.isValue then
                operatorsFrom p tail rounds
                  ⟨.both t.tree b.tree, .other, true, t.splits || isIn || b.splits⟩ after
              else none
            | none => none
          | none => some (t, cs)

/-- An expression: operands with operators between them. -/
def expressionOf (p : Parts) (tail atStart : Bool) : Reader Term := fun cs =>
  match operand p tail atStart cs with
  | some (t, rest) => operatorsFrom p tail p.size t rest
  | none => none

/-! ## Statements -/

/-- The target of a declaration: a name or a pattern. -/
def binding (p : Parts) : Reader Tree := fun cs =>
  match skip cs with
  | '[' :: rest => match listTerm p rest with
    | some (t, more) => if t.shape == .pattern then some (t.tree, more) else none
    | none => none
  | '{' :: rest => match object p false rest with
    | some (t, more) => if t.shape == .pattern then some (t.tree, more) else none
    | none => none
  | cs => (name cs).map fun (_, rest) => (.leaf, rest)

/-- Declared targets with their values up to the end of the statement. -/
def declaratorsFrom (p : Parts) : Nat → List Tree → Reader Tree
  | 0, _, _ => none
  | rounds + 1, acc, cs =>
    match binding p cs with
    | none => none
    | some (b, rest) =>
      let valued := if endsHere false rest then some (none, rest) else initializer p true rest
      match valued with
      | none => none
      | some (v, rest) =>
        let acc := match v with
          | some t => t.tree :: b :: acc
          | none => b :: acc
        if endsHere v.isSome rest then some (.group acc.reverse, rest)
        else match skip rest with
          | ',' :: more => declaratorsFrom p rounds acc more
          | ';' :: more => some (.group acc.reverse, more)
          | _ => none

/-- Declared targets with their values up to the end of the statement. -/
def declarators (p : Parts) : Reader Tree := fun cs =>
  declaratorsFrom p p.size [] cs

/-- An open statement. -/
def open' (t : Tree) : Statement := ⟨t, false⟩

/-- Expressions and the end of their statement. -/
def expressionStatement (p : Parts) : Reader Statement := fun cs =>
  match sequence p true cs with
  | some (t, rest) => (semicolon true rest).map (open' t, ·)
  | none => none

/-- A statement that starts with an expression of a certain kind. -/
def statementFrom (p : Parts) (t : Term) : Reader Statement := fun cs =>
  match postfixes p true true true t cs with
  | none => none
  | some (t, rest) => match assigned p true t rest with
    | none => none
    | some (t, rest) => match operatorsFrom p true p.size t rest with
      | none => none
      | some (t, rest) =>
        if !t.isValue then none
        else match (continues true rest).bind (dropMark? [',']) with
          | some more => match expressionStatement p more with
            | some (s, after) => some (open' (.both t.tree s.tree), after)
            | none => none
          | none => (semicolon true rest).map (open' t.tree, ·)

/-- A statement that starts with an opening brace: a block or an object. -/
def braceStatement (p : Parts) : Reader Statement := fun cs =>
  let asObject := match primary p true true cs with
    | some (t, rest) => statementFrom p t rest
    | none => none
  match block p cs with
  | some (t, rest) => if onlyContinues rest then asObject else some (⟨t, true⟩, rest)
  | none => asObject

/-- A function or class at the start of a statement: a declaration if it has a name and is not
part of an expression. -/
def declared (p : Parts) (r : Reader (Bool × Tree)) : Reader Statement := fun cs =>
  match r cs with
  | some ((named, t), rest) =>
    if named && !onlyContinues rest then some (⟨t, true⟩, rest)
    else statementFrom p (.value t) rest
  | none => none

/-- A statement behind something in round brackets. -/
def guarded (p : Parts) : Reader Statement := fun cs =>
  match bracketed p cs with
  | some (c, rest) => match p.statement (skipPage rest) with
    | some (s, more) => some (⟨.both c s.tree, s.closed⟩, more)
    | none => none
  | none => none

/-- A choice from behind its first word. -/
def ifRest (p : Parts) : Reader Statement := fun cs =>
  match guarded p cs with
  | some (s, rest) => match keyword "else" rest with
    | some more => match p.statement (skipPage more) with
      | some (e, after) => some (⟨.both s.tree e.tree, e.closed⟩, after)
      | none => none
    | none => some (s, rest)
  | none => none

/-- Where the statements of a case end. -/
def atCaseEnd (cs : List Char) : Bool :=
  atBrace cs || match word cs with
    | some (w, _) => w == "case" || w == "default"
    | none => false

/-- The cases of a switch. -/
def casesTo (p : Parts) : Nat → List Tree → Reader Tree
  | 0, _, _ => none
  | rounds + 1, acc, cs =>
    match skipPage cs with
    | '}' :: rest => some (.group acc.reverse, rest)
    | cs =>
      let head : Option (Tree × List Char) := match word cs with
        | some ("case", rest) => sequence p false rest
        | some ("default", rest) => some (.leaf, rest)
        | _ => none
      match head with
      | some (h, rest) => match punct ':' rest with
        | some more => match statements p atCaseEnd more with
          | some (b, after) => casesTo p rounds (b :: h :: acc) after
          | none => none
        | none => none
      | none => none

/-- A switch from behind its first word. -/
def switchRest (p : Parts) : Reader Statement := fun cs =>
  match bracketed p cs with
  | some (c, rest) => match punct '{' rest with
    | some more => (casesTo p p.size [] more).map fun (b, after) =>
        (open' (.both c b), after)
    | none => none
  | none => none

/-- Expressions behind `in` or `of`, the closing bracket, and the body of a loop. -/
def loopOver (p : Parts) (left : Tree) : Reader Statement := fun cs =>
  match orRead (afterWord "in" (sequence p false)) (afterWord "of" (sequence p false)) cs with
  | some (r, rest) => match punct ')' rest with
    | some more => match p.statement (skipPage more) with
      | some (s, after) => some (⟨.group [left, r, s.tree], s.closed⟩, after)
      | none => none
    | none => none
  | none => none

/-- A loop over a declared target, from behind the declaring word. -/
def loopOverDeclared (p : Parts) (isVar : Bool) : Reader Statement := fun cs =>
  match binding p cs with
  | none => none
  | some (b, rest) =>
    if !isVar then loopOver p b rest
    else if endsHere false rest then none
    else match initializer p false rest with
      | some (none, rest) => loopOver p b rest
      | some (some t, rest) =>
        if t.splits then
          match punct ')' rest with
          | some more => match p.statement (skipPage more) with
            | some (s, after) => some (⟨.group [b, t.tree, s.tree], s.closed⟩, after)
            | none => none
          | none => none
        else loopOver p (.both b t.tree) rest
      | none => none

/-- A loop over a target that exists already. -/
def loopOverTarget (p : Parts) : Reader Statement := fun cs =>
  match primary p false false (skipPage cs) with
  | some (t, rest) => match postfixes p false true true t rest with
    | some (t, rest) =>
      if t.isTarget || t.shape == .brackets then loopOver p t.tree rest else none
    | none => none
  | none => none

/-- Condition, step and body of a loop. -/
def loopRest (p : Parts) (start : Tree) : Reader Statement := fun cs =>
  let condition : Option (Tree × List Char) := match skipPage cs with
    | ';' :: rest => some (.leaf, rest)
    | cs => match sequence p false cs with
      | some (t, rest) => (punct ';' rest).map (t, ·)
      | none => none
  match condition with
  | none => none
  | some (c, rest) =>
    let step : Option (Tree × List Char) := match skipPage rest with
      | ')' :: more => some (.leaf, more)
      | cs => match sequence p false cs with
        | some (t, more) => (punct ')' more).map (t, ·)
        | none => none
    match step with
    | none => none
    | some (t, rest) => match p.statement (skipPage rest) with
      | some (s, after) => some (⟨.group [start, c, t, s.tree], s.closed⟩, after)
      | none => none

/-- A loop from behind its opening bracket. -/
def forRest (p : Parts) : Reader Statement := fun cs =>
  let at' := skipPage cs
  let declaring (isVar : Bool) (rest : List Char) : Option (Statement × List Char) :=
    orRead (loopOverDeclared p isVar) (fun cs => match declarators p cs with
      | some (t, more) => loopRest p t more
      | none => none) rest
  let plain : Option (Statement × List Char) :=
    orRead (loopOverTarget p) (fun cs => match sequence p false cs with
      | some (t, rest) => match punct ';' rest with
        | some more => loopRest p t more
        | none => none
      | none => none) at'
  match at' with
  | ';' :: rest => loopRest p .leaf rest
  | _ => match word at' with
    | some ("var", rest) => declaring true rest
    | some ("const", rest) => declaring false rest
    | some ("let", rest) =>
      match skip rest with
      | '[' :: _ | '{' :: _ => declaring false rest
      | next => match name next with
        | some ("of", _) | none => plain
        | _ => declaring false rest
    | some ("using", rest) => declaring false rest
    | _ => plain

/-- A loop from behind its first word. -/
def forStatement (p : Parts) : Reader Statement := fun cs =>
  match keyword "await" cs with
  | some rest => match punct '(' rest with
    | some more =>
      let at' := skipPage more
      match word at' with
      | some ("var", rest) => loopOverDeclared p true rest
      | some ("const", rest) | some ("let", rest) | some ("using", rest) =>
        orRead (loopOverDeclared p false) (fun _ => loopOverTarget p at') rest
      | _ => loopOverTarget p at'
    | none => none
  | none => match punct '(' cs with
    | some more => forRest p more
    | none => none

/-- A loop from behind the word `do`. -/
def doRest (p : Parts) : Reader Statement := fun cs =>
  match p.statement (skipPage cs) with
  | some (s, rest) => match keyword "while" rest with
    | some more => match bracketed p more with
      | some (c, after) =>
        if endsHere false after then some (⟨.both s.tree c, true⟩, after)
        else match punct ';' after with
          | some next => some (⟨.both s.tree c, false⟩, next)
          | none => some (⟨.both s.tree c, true⟩, after)
      | none => none
    | none => none
  | none => none

/-- What is caught, and where. -/
def catchRest (p : Parts) : Reader Tree := fun cs =>
  match punct '(' cs with
  | some rest => match binding p rest with
    | some (b, more) => match punct ')' more with
      | some more => (block p more).map fun (t, after) => (.both b t, after)
      | none => none
    | none => none
  | none => block p cs

/-- A reader that may find nothing. -/
def optionally (r : Reader Tree) : Reader Tree := fun cs =>
  some ((r cs).getD (.leaf, cs))

/-- An attempt from behind its first word. -/
def tryRest (p : Parts) : Reader Statement := fun cs =>
  match block p cs with
  | none => none
  | some (t, rest) =>
    let handled : Option (Tree × List Char) := match keyword "catch" rest with
      | some more => catchRest p more
      | none => some (.leaf, rest)
    match handled with
    | none => none
    | some (c, rest) => match keyword "finally" rest with
      | some more => (block p more).map fun (f, after) => (⟨.group [t, c, f], true⟩, after)
      | none => some (⟨.both t c, true⟩, rest)

/-- A jump from behind its first word: its target, if one is named, and its end. -/
def jumpRest : Reader Statement := fun cs =>
  if endsHere false cs then some (open' .leaf, cs)
  else match punct ';' cs with
    | some rest => some (open' .leaf, rest)
    | none => match name (skip cs) with
      | some (_, rest) => (semicolon false rest).map (open' .leaf, ·)
      | none => none

/-- A name across modules: a word, a text, or the word `default`. -/
def moduleName : Reader Unit := fun cs =>
  match string cs with
  | some (_, rest) => some ((), rest)
  | none => match word cs with
    | some (w, rest) =>
      if w == "default" || !reservedWords.contains w then some ((), rest) else none
    | none => none

/-- A module name and a second one behind the word `as`, which an import needs to be a name. -/
def specifier (isImport : Bool) : Reader Unit := fun cs =>
  match moduleName cs with
  | some (_, rest) => match keyword "as" rest with
    | some more =>
      if isImport then (name (skip more)).map fun (_, after) => ((), after)
      else moduleName (skip more)
    | none => if isImport && (name cs).isNone then none else some ((), rest)
  | none => none

/-- Specifiers up to the closing brace. -/
def specifiersTo (isImport : Bool) : Nat → Reader Unit
  | 0, _ => none
  | rounds + 1, cs =>
    match skipPage cs with
    | '}' :: rest => some ((), rest)
    | cs => match specifier isImport cs with
      | some (_, rest) => match skip rest with
        | ',' :: more => specifiersTo isImport rounds more
        | '}' :: more => some ((), more)
        | _ => none
      | none => none

/-- Specifiers in braces. -/
def specifiers (isImport : Bool) : Reader Unit := fun cs =>
  match punct '{' cs with
  | some rest => specifiersTo isImport (rest.length + 1) rest
  | none => none

/-- A whole module under a name. -/
def namespaceName : Reader Unit := fun cs =>
  match punct '*' cs with
  | some rest => match keyword "as" rest with
    | some more => (name (skip more)).map fun (_, after) => ((), after)
    | none => none
  | none => none

/-- What is imported: a default, names, or all of a module. -/
def importClause : Reader Unit := fun cs =>
  match orRead (specifiers true) namespaceName cs with
  | some r => some r
  | none => match name (skip cs) with
    | some (_, rest) => match punct ',' rest with
      | some more => orRead (specifiers true) namespaceName more
      | none => some ((), rest)
    | none => none

/-- The module behind the word `from`. -/
def fromClause : Reader (List Piece) := fun cs =>
  (keyword "from" cs).bind fun rest => string (skip rest)

/-- What an import says about its module in an object. -/
def attributes (p : Parts) : Reader Tree := fun cs =>
  if endsHere false cs then some (.leaf, cs)
  else match keyword "with" cs with
    | some rest => match punct '{' rest with
      | some more => match object p false more with
        | some (t, after) => if t.isValue then some (t.tree, after) else none
        | none => none
      | none => none
    | none => some (.leaf, cs)

/-- An import from behind its first word. -/
def importRest (p : Parts) : Reader Statement := fun cs =>
  let source : Option (List Piece × List Char) := match string (skip cs) with
    | some r => some r
    | none => match importClause cs with
      | some (_, rest) => fromClause rest
      | none => none
  match source with
  | some (pieces, rest) => match attributes p rest with
    | some (t, more) => (semicolon false more).map (open' (.importFrom pieces [t]), ·)
    | none => none
  | none => none

/-- A declaration by its first word. -/
def declaration (p : Parts) (w : String) : Reader Statement := fun rest =>
  match w with
  | "var" | "let" | "const" | "using" =>
    (declarators p rest).map fun (t, more) => (open' t, more)
  | "function" => match function p rest with
    | some ((named, t), more) => if named then some (⟨t, true⟩, more) else none
    | none => none
  | "class" => match classRest p rest with
    | some ((named, t), more) => if named then some (⟨t, true⟩, more) else none
    | none => none
  | "async" => match afterWord "function" (function p) rest with
    | some ((named, t), more) => if named then some (⟨t, true⟩, more) else none
    | none => none
  | _ => none

/-- The end of an export that names a module or not. -/
def exportEnd (p : Parts) (needsModule : Bool) : Reader Statement := fun cs =>
  match fromClause cs with
  | some (_, rest) => match attributes p rest with
    | some (t, more) => (semicolon false more).map (open' t, ·)
    | none => none
  | none => if needsModule then none else (semicolon false cs).map (open' .leaf, ·)

/-- An export of a default from behind the word `default`. -/
def exportDefault (p : Parts) : Reader Statement := fun cs =>
  let asDeclaration : Option (Statement × List Char) := match word (skipPage cs) with
    | some (w, rest) => declaration p w rest
    | none => none
  match asDeclaration with
  | some (s, rest) => if onlyContinues rest && s.closed then asValue cs else some (s, rest)
  | none => asValue cs
where
  /-- The default as an expression. -/
  asValue : Reader Statement := fun cs =>
    match p.expression true (skipPage cs) with
    | some (t, rest) => if t.isValue then (semicolon true rest).map (open' t.tree, ·) else none
    | none => none

/-- An export from behind its first word. -/
def exportRest (p : Parts) : Reader Statement := fun cs =>
  match skip cs with
  | '*' :: rest => match keyword "as" rest with
    | some more => match moduleName (skip more) with
      | some (_, after) => exportEnd p true after
      | none => none
    | none => exportEnd p true rest
  | '{' :: rest => match specifiers false ('{' :: rest) with
    | some (_, more) => exportEnd p false more
    | none => none
  | at' => match word at' with
    | some ("default", rest) => exportDefault p rest
    | some (w, rest) => declaration p w rest
    | none => none

/-- A statement with a name in front of it. -/
def labelled (p : Parts) : Reader Statement := fun cs =>
  match word cs with
  | some (w, rest) =>
    if reservedWords.contains w && w != "export" || w == "undefined" || w == "yield" then none
    else match punct ':' rest with
      | some more => p.statement (skipPage more)
      | none => none
  | none => none

/-- Whether names or patterns follow that a word declares. -/
def declares (rest : List Char) : Bool :=
  !endsHere true rest && match skip rest with
    | '[' :: _ | '{' :: _ => true
    | cs => (name cs).isSome

/-- The statements that a word starts. -/
def wordStatement (p : Parts) (w : String) (cs : List Char) : Reader Statement := fun rest =>
  let plain := orRead (labelled p) (expressionStatement p)
  match w with
  | "if" => ifRest p rest
  | "switch" => switchRest p rest
  | "for" => forStatement p rest
  | "while" | "with" => guarded p rest
  | "do" => doRest p rest
  | "try" => tryRest p rest
  | "break" | "continue" => jumpRest rest
  | "debugger" => (semicolon false rest).map (open' .leaf, ·)
  | "return" =>
    if endsHere false rest then some (open' .leaf, rest)
    else match punct ';' rest with
      | some more => some (open' .leaf, more)
      | none => expressionStatement p rest
  | "throw" => expressionStatement p rest
  | "var" | "const" => declaration p w rest
  | "let" => if declares rest then declaration p w rest else plain cs
  | "using" => declaration p w rest
  | "await" => match keyword "using" rest with
    | some more =>
      if !endsHere true rest && declares more then declaration p "using" more else plain cs
    | none => plain cs
  | "function" => declared p (function p) rest
  | "class" => declared p (classRest p) rest
  | "async" =>
    if endsHere true rest then plain cs
    else match keyword "function" rest with
      | some more => declared p (function p) more
      | none => plain cs
  | "import" => match skip rest with
    | '(' :: _ | '.' :: _ => expressionStatement p cs
    | _ => importRest p rest
  | "export" =>
    if endsHere true rest then plain cs
    else match skip rest with
      | '*' :: _ | '{' :: _ => exportRest p rest
      | next => match word next with
        | some (v, _) =>
          if v == "in" || v == "instanceof" then plain cs else exportRest p rest
        | none => plain cs
  | _ => plain cs

/-- Decorators, and the class that they decorate. -/
def decorated (p : Parts) : Reader Statement := fun cs =>
  match decorators p p.size [] cs with
  | some (ds, rest) =>
    let inner : Option (Statement × List Char) := match word (skip rest) with
      | some ("class", more) => declared p (classRest p) more
      | some ("export", more) => exportRest p more
      | _ => none
    inner.map fun (s, more) => (⟨.group (ds ++ [s.tree]), s.closed⟩, more)
  | none => none

/-- A statement. -/
def statementOf (p : Parts) : Reader Statement := fun cs =>
  match cs with
  | ';' :: rest => some (open' .leaf, rest)
  | '{' :: _ => braceStatement p cs
  | '@' :: _ => decorated p cs
  | _ => match word cs with
    | some (w, rest) => wordStatement p w cs rest
    | none => expressionStatement p cs

mutual

/-- An expression whose nesting stays within a depth. -/
def expression (size : Nat) : Nat → Bool → Reader Term
  | 0 => fun _ _ => none
  | depth + 1 => fun tail => expressionOf ⟨size, expression size depth, statement size depth⟩ tail false

/-- A statement whose nesting stays within a depth. -/
def statement (size : Nat) : Nat → Reader Statement
  | 0 => fun _ => none
  | depth + 1 => statementOf ⟨size, expression size depth, statement size depth⟩

end

/-- The text after a first line that names an interpreter. -/
def afterInterpreter (cs : List Char) : List Char :=
  match skipPage cs with
  | '#' :: '!' :: rest => rest.dropWhile (· != '\n')
  | _ => cs

/-- The tree of a whole script, if it has no errors. -/
def parse? (s : String) : Option Tree :=
  let cs := s.toList
  let size := cs.length + 2
  let depth := 2 * size
  match statements ⟨size, expression size depth, statement size depth⟩ List.isEmpty (afterInterpreter cs) with
  | some (t, _) => some t
  | none => none

end PackageRisk.Script
