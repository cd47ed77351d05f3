/-!
# Inflating compressed data

Data is compressed in blocks, each stored as it is or written with two canonical prefix codes:
one for literal octets and the lengths of repetitions, one for their distances. A code is
given by the lengths of its words. Reading ends with the last block, where the data are cut
off, or where they are no compressed data.
-/

namespace PackageRisk.Inflate

/-- Why reading stopped early. -/
inductive Stop where
  | cut
  | broken
  deriving DecidableEq, Repr

/-- The bit at a position, low bits of an octet first. -/
def bit (data : ByteArray) (pos : Nat) : Except Stop Nat :=
  match data[pos / 8]? with
  | some b => .ok (b.toNat >>> (pos % 8) % 2)
  | none => .error .cut

/-- The number that `n` bits from a position on spell, low bits first. -/
def bits (data : ByteArray) : (n pos : Nat) → Except Stop Nat
  | 0, _ => .ok 0
  | n + 1, pos => do
    let low ← bit data pos
    return low + 2 * (← bits data n (pos + 1))

/-- The longest words that a code may have. -/
def maxLength : Nat := 15

/-- A canonical code: how many words there are of each length, and their symbols in order. -/
structure Code where
  counts : Array Nat
  symbols : Array Nat

/-- The number of words that are left open by a code, in units of the longest words, or nothing
if there are too many words. -/
def openWords (counts : Array Nat) : Option Nat :=
  (List.range maxLength).foldl (fun left i =>
    left.bind fun n =>
      let more := 2 * n
      let used := counts.getD (i + 1) 0
      if more < used then none else some (more - used)) (some 1)

/-- The code with words of given lengths; length zero stands for no word. A code that leaves
words open is accepted only if it has a single word of one bit and `mayBeOpen`, or none. -/
def Code.ofLengths (mayBeOpen : Bool) (lengths : List Nat) : Except Stop Code :=
  let counts := lengths.foldl (fun (cs : Array Nat) l => cs.set! l (cs.getD l 0 + 1))
    (Array.replicate (maxLength + 1) 0)
  let symbols := (List.range maxLength).flatMap fun i =>
    (lengths.zipIdx.filter fun p => p.1 == i + 1).map Prod.snd
  match openWords counts with
  | none => .error .broken
  | some 0 => .ok ⟨counts, symbols.toArray⟩
  | some _ =>
    if symbols.isEmpty || (mayBeOpen && symbols.length == counts.getD 1 0) then
      .ok ⟨counts, symbols.toArray⟩
    else .error .broken

/-- Reads a symbol: `word` is what was read of it, `first` the first word of the current length
and `index` the place of its symbol; `n` longer words are still possible. -/
def Code.readFrom (code : Code) (data : ByteArray) :
    (n length word first index pos : Nat) → Except Stop (Nat × Nat)
  | 0, _, _, _, _, _ => .error .broken
  | n + 1, length, word, first, index, pos => do
    let b ← bit data pos
    let word := 2 * word + b
    let count := code.counts.getD length 0
    if word < first + count then
      match code.symbols[index + (word - first)]? with
      | some symbol => return (symbol, pos + 1)
      | none => .error .broken
    else code.readFrom data n (length + 1) word (2 * (first + count)) (index + count) (pos + 1)

/-- Reads a symbol at a position. -/
def Code.read (code : Code) (data : ByteArray) (pos : Nat) : Except Stop (Nat × Nat) :=
  code.readFrom data maxLength 1 0 0 0 pos

/-- The least lengths of repetitions and the number of bits that follow, by symbol. -/
def lengthTable : Array (Nat × Nat) :=
  #[(3, 0), (4, 0), (5, 0), (6, 0), (7, 0), (8, 0), (9, 0), (10, 0), (11, 1), (13, 1), (15, 1),
    (17, 1), (19, 2), (23, 2), (27, 2), (31, 2), (35, 3), (43, 3), (51, 3), (59, 3), (67, 4),
    (83, 4), (99, 4), (115, 4), (131, 5), (163, 5), (195, 5), (227, 5), (258, 0)]

/-- The least distances of repetitions and the number of bits that follow, by symbol. -/
def distanceTable : Array (Nat × Nat) :=
  #[(1, 0), (2, 0), (3, 0), (4, 0), (5, 1), (7, 1), (9, 2), (13, 2), (17, 3), (25, 3), (33, 4),
    (49, 4), (65, 5), (97, 5), (129, 6), (193, 6), (257, 7), (385, 7), (513, 8), (769, 8),
    (1025, 9), (1537, 9), (2049, 10), (3073, 10), (4097, 11), (6145, 11), (8193, 12),
    (12289, 12), (16385, 13), (24577, 13)]

/-- Data with `n` octets more, each repeating the one at a distance. -/
def repeated (distance : Nat) : (n : Nat) → ByteArray → ByteArray
  | 0, out => out
  | n + 1, out => repeated distance n (out.push (out.get! (out.size - distance)))

/-- What was read: the position behind it and all data so far. -/
structure Progress where
  pos : Nat
  out : ByteArray

/-- The end of reading: with the last block, or early with the data so far. -/
inductive Ending where
  | finished (p : Progress)
  | stopped (why : Stop) (out : ByteArray)

/-- The number that a symbol of a table and the bits after it spell, and the position behind. -/
def tableValue (table : Array (Nat × Nat)) (data : ByteArray) (symbol pos : Nat) :
    Except Stop (Nat × Nat) :=
  match table[symbol]? with
  | some (least, n) => do return (least + (← bits data n pos), pos + n)
  | none => .error .broken

/-- The rest of a repetition whose length has the given symbol: its length, its distance, and
the position behind it. -/
def repetition (data : ByteArray) (distances : Code) (symbol pos : Nat) :
    Except Stop (Nat × Nat × Nat) := do
  let (length, pos) ← tableValue lengthTable data (symbol - 257) pos
  let (symbol, pos) ← distances.read data pos
  let (distance, pos) ← tableValue distanceTable data symbol pos
  return (length, distance, pos)

/-- Reads one symbol of a block: what was read with it, or the end of reading; `start` is the
number of octets that repetitions may not reach behind. -/
def symbolStep (data : ByteArray) (literals distances : Code) (start : Nat) (p : Progress) :
    Except Ending Progress :=
  match literals.read data p.pos with
  | .error e => .error (.stopped e p.out)
  | .ok (symbol, pos) =>
    if symbol < 256 then .ok ⟨pos, p.out.push (UInt8.ofNat symbol)⟩
    else if symbol = 256 then .error (.finished ⟨pos, p.out⟩)
    else match repetition data distances symbol pos with
      | .error e => .error (.stopped e p.out)
      | .ok (length, distance, pos) =>
        if p.out.size < start + distance then .error (.stopped .broken p.out)
        else .ok ⟨pos, repeated distance length p.out⟩

/-- Reads the symbols of a block; each takes at least one of `n` bits. -/
def symbolsFrom (data : ByteArray) (literals distances : Code) (start : Nat) :
    (n : Nat) → Progress → Ending
  | 0, p => .stopped .cut p.out
  | n + 1, p =>
    match symbolStep data literals distances start p with
    | .ok q => symbolsFrom data literals distances start n q
    | .error ending => ending

/-- Reads a block that is stored as it is. -/
def storedBlock (data : ByteArray) (p : Progress) : Ending :=
  let here := (p.pos + 7) / 8
  match bits data 16 (8 * here), bits data 16 (8 * here + 16) with
  | .ok length, .ok check =>
    if length + check ≠ 0xFFFF then .stopped .broken p.out
    else
      let body := data.extract (here + 4) (here + 4 + length)
      let out := p.out ++ body
      if body.size < length then .stopped .cut out
      else .finished ⟨8 * (here + 4 + length), out⟩
  | _, _ => .stopped .cut p.out

/-- The lengths of the words of the code that is fixed for literals. -/
def fixedLiterals : List Nat :=
  List.replicate 144 8 ++ List.replicate 112 9 ++ List.replicate 24 7 ++ List.replicate 8 8

/-- The lengths of the words of the code that is fixed for distances. -/
def fixedDistances : List Nat := List.replicate 32 5

/-- The order in which the lengths of the words for lengths are given. -/
def lengthOrder : List Nat :=
  [16, 17, 18, 0, 8, 7, 9, 6, 10, 5, 11, 4, 12, 3, 13, 2, 14, 1, 15]

/-- The lengths of the words for lengths: `n` numbers of three bits from a position on. -/
def lengthLengths (data : ByteArray) (n pos : Nat) : Except Stop (List Nat) := do
  let given ← (List.range n).mapM fun i => bits data 3 (pos + 3 * i)
  let pairs := lengthOrder.zip given
  return (List.range 19).map fun symbol => (pairs.lookup symbol).getD 0

/-- Reads the lengths of words until there are `total` of them; `acc` holds those read, last
first, and each step takes at least one of `n` bits. -/
def lengthsFrom (data : ByteArray) (code : Code) (total : Nat) :
    (n : Nat) → List Nat → Nat → Except Stop (List Nat × Nat)
  | 0, _, _ => .error .cut
  | n + 1, acc, pos =>
    if acc.length = total then .ok (acc.reverse, pos)
    else if total < acc.length then .error .broken
    else do
      let (symbol, pos) ← code.read data pos
      if symbol < 16 then lengthsFrom data code total n (symbol :: acc) pos
      else if symbol = 16 then
        match acc with
        | [] => .error .broken
        | last :: _ =>
          let times := 3 + (← bits data 2 pos)
          lengthsFrom data code total n (List.replicate times last ++ acc) (pos + 2)
      else
        let (least, width) := if symbol = 17 then (3, 3) else (11, 7)
        let times := least + (← bits data width pos)
        lengthsFrom data code total n (List.replicate times 0 ++ acc) (pos + width)

/-- Reads the two codes of a block and the position behind them. -/
def blockCodes (data : ByteArray) (pos : Nat) : Except Stop (Code × Code × Nat) := do
  let literals := 257 + (← bits data 5 pos)
  let distances := 1 + (← bits data 5 (pos + 5))
  let given := 4 + (← bits data 4 (pos + 10))
  if 286 < literals ∨ 30 < distances then .error .broken
  else do
    let short ← lengthLengths data given (pos + 14)
    let code ← Code.ofLengths false short
    let total := literals + distances
    let (lengths, pos) ← lengthsFrom data code total (total + 1) [] (pos + 14 + 3 * given)
    let first := lengths.take literals
    if first.getD 256 0 = 0 then .error .broken
    else return (← Code.ofLengths true first, ← Code.ofLengths true (lengths.drop literals), pos)

/-- Reads one block of the given kind, of which `n` bits may be left. -/
def block (data : ByteArray) (start n kind : Nat) (p : Progress) : Ending :=
  match kind with
  | 0 => storedBlock data p
  | 1 =>
    match Code.ofLengths false fixedLiterals, Code.ofLengths false fixedDistances with
    | .ok literals, .ok distances => symbolsFrom data literals distances start n p
    | _, _ => .stopped .broken p.out
  | 2 =>
    match blockCodes data p.pos with
    | .ok (literals, distances, pos) =>
      symbolsFrom data literals distances start n ⟨pos, p.out⟩
    | .error e => .stopped e p.out
  | _ => .stopped .broken p.out

/-- Reads blocks up to the last one; each takes at least one of `n` bits. -/
def blocksFrom (data : ByteArray) (start : Nat) : (n : Nat) → Progress → Ending
  | 0, p => .stopped .cut p.out
  | n + 1, p =>
    match bit data p.pos, bits data 2 (p.pos + 1) with
    | .ok last, .ok kind =>
      match block data start (8 * data.size) kind ⟨p.pos + 3, p.out⟩ with
      | .finished q => if last = 1 then .finished q else blocksFrom data start n q
      | stopped => stopped
    | _, _ => .stopped .cut p.out

/-- Inflates data from an octet on and appends to what is there already; repetitions do not
reach behind it. -/
def inflate (data : ByteArray) (offset : Nat) (out : ByteArray) : Ending :=
  blocksFrom data out.size (8 * data.size) ⟨8 * offset, out⟩

end PackageRisk.Inflate
