import PackageRisk.Text.Utf8

/-!
# Archives

An archive is a sequence of blocks: each member has a block that describes it and blocks of
content. A block of zeros ends the archive, and so does a block that describes nothing,
unless it is the first one. Some members only say more about the one that follows them.
-/

namespace PackageRisk.Tar

/-- The number of octets of a block. -/
def blockSize : Nat := 512

/-- Octets in whole blocks. -/
def inBlocks (size : Nat) : Nat :=
  (size + blockSize - 1) / blockSize * blockSize

/-- What a member is; all but files and directories are of no further interest. -/
inductive Kind where
  | file
  | directory
  | other
  deriving DecidableEq, Repr

/-- A member of an archive. -/
structure Member where
  name : String
  kind : Kind
  content : ByteArray

/-- Why an archive cannot be read. -/
inductive Defect where
  | empty
  | cutHeader
  | badHeader
  | cutContent
  | damaged
  deriving DecidableEq, Repr

def Defect.message : Defect → String
  | .empty => "empty file"
  | .cutHeader => "truncated header"
  | .badHeader => "invalid header"
  | .cutContent => "unexpected end of data"
  | .damaged => "damaged data"

/-- The octets of a field. -/
def octets (bytes : ByteArray) (start stop : Nat) : List UInt8 :=
  (bytes.extract start stop).toList

/-- The octets of a text field end at the first zero. -/
def textOf (field : List UInt8) : String :=
  Text.ofUtf8Lossy (field.takeWhile (· != 0))

/-- The number that digits in base eight spell. -/
def octal? (digits : List UInt8) : Option Nat :=
  digits.foldl (fun acc d => acc.bind fun n =>
    if 0x30 ≤ d && d ≤ 0x37 then some (n * 8 + (d.toNat - 0x30)) else none) (some 0)

/-- Octets without the blanks around them. -/
def stripped (field : List UInt8) : List UInt8 :=
  let isSpace (b : UInt8) : Bool := b == 0x20 || (9 ≤ b && b ≤ 13)
  ((field.dropWhile isSpace).reverse.dropWhile isSpace).reverse

/-- The number of a field: binary behind a mark, else digits in base eight; nothing is zero.
Numbers below zero count as zero. -/
def numberOf? : List UInt8 → Option Nat
  | 0x80 :: rest => some (rest.foldl (fun n b => n * 256 + b.toNat) 0)
  | 0xFF :: _ => some 0
  | field => octal? (stripped (field.takeWhile (· != 0)))

/-- The sums that a block may carry: of its octets, with or without signs, with blanks in place
of the sum. -/
def sums (bytes : ByteArray) (pos : Nat) : List Nat :=
  let counted := octets bytes pos (pos + 148) ++ octets bytes (pos + 156) (pos + blockSize)
  let unsigned := counted.foldl (fun n b => n + b.toNat) 256
  let negative := (counted.filter fun b => 0x80 ≤ b).length
  unsigned :: (if negative * 256 ≤ unsigned then [unsigned - negative * 256] else [])

/-- What a block says. -/
structure Header where
  name : String
  kind : UInt8
  size : Nat

/-- Kinds of files. -/
def isRegular (kind : UInt8) : Bool :=
  [0x30, 0, 0x37, 0x53].contains kind

/-- The kind of directories. -/
def directoryKind : UInt8 := 0x35

/-- Kinds without content: links, devices and directories. -/
def lacksContent (kind : UInt8) : Bool :=
  0x31 ≤ kind && kind ≤ 0x36

/-- Kinds that say more about the next member: a long name, a long target, and records. -/
def isLongName (kind : UInt8) : Bool := kind == 0x4C

def isLongTarget (kind : UInt8) : Bool := kind == 0x4B

def isRecords (kind : UInt8) : Bool :=
  [0x78, 0x58, 0x67].contains kind

/-- Records for all members that follow. -/
def isGlobal (kind : UInt8) : Bool := kind == 0x67

/-- A text without slashes at its end. -/
def withoutSlashes (s : String) : String :=
  String.ofList (s.toList.reverse.dropWhile (· == '/')).reverse

/-- The name of a directory has no slashes at its end. -/
def tidyName (kind : UInt8) (name : String) : String :=
  if kind == directoryKind then withoutSlashes name else name

/-- Why no header is at a position. -/
inductive NoHeader where
  | nothing
  | cut
  | zeros
  | bad
  deriving DecidableEq, Repr

/-- The fields that have to be numbers, by their bounds. -/
def numberFields : List (Nat × Nat) :=
  [(100, 108), (108, 116), (116, 124), (124, 136), (136, 148), (148, 156), (329, 337), (337, 345)]

/-- What the block at a position says. -/
def header (bytes : ByteArray) (pos : Nat) : Except NoHeader Header :=
  let field (start stop : Nat) : List UInt8 := octets bytes (pos + start) (pos + stop)
  if bytes.size ≤ pos then .error .nothing
  else if bytes.size < pos + blockSize then .error .cut
  else if (field 0 blockSize).all (· == 0) then .error .zeros
  else match numberOf? (field 148 156), numberOf? (field 124 136) with
    | some sum, some size =>
      if !(sums bytes pos).contains sum then .error .bad
      else if numberFields.any fun f => (numberOf? (field f.1 f.2)).isNone then .error .bad
      else
        let given := (bytes[pos + 156]?).getD 0
        let name := textOf (field 0 100)
        let kind := if given == 0 && name.endsWith "/" then directoryKind else given
        let folder := textOf (field 345 500)
        let tidy := tidyName kind name
        .ok { name := if folder.isEmpty || isLongName kind || isLongTarget kind ||
                kind == 0x53 then tidy else folder ++ "/" ++ tidy,
              kind, size }
    | _, _ => .error .bad

/-- The length at the head of a record and the octets behind it. -/
def recordLength (data : List UInt8) : Option (Nat × List UInt8) :=
  let digits := data.takeWhile fun b => 0x30 ≤ b && b ≤ 0x39
  match digits, data.drop digits.length with
  | _ :: _, 0x20 :: _ =>
    some (digits.foldl (fun n d => n * 10 + (d.toNat - 0x30)) 0, data.drop (digits.length + 1))
  | _, _ => none

/-- Records of the form length, key and value; `n` of them at most. -/
def recordsOf : (n : Nat) → List UInt8 → Option (List (String × String))
  | 0, _ => some []
  | n + 1, data =>
    match recordLength data with
    | none => some []
    | some (length, rest) =>
      if length == 0 then none
      else
        let body := (data.take (length - 1)).drop (data.length - rest.length)
        let key := body.takeWhile (· != 0x3D)
        match body.drop key.length with
        | _ :: value =>
          (recordsOf n (data.drop length)).map
            ((Text.ofUtf8Lossy key, Text.ofUtf8Lossy value) :: ·)
        | [] => none

/-- What members say about the next one; what was said first counts. -/
structure Amendment where
  name : Option String
  size : Option Nat
  pending : Bool
  deriving Inhabited

/-- Nothing said so far. -/
def Amendment.none : Amendment := ⟨Option.none, Option.none, false⟩

/-- An amendment with something that was said after it. -/
def Amendment.followed (a : Amendment) (name : Option String) (size : Option Nat) : Amendment :=
  ⟨a.name <|> name, a.size <|> size, true⟩

/-- The value of a key; the last of several records counts. -/
def valueOf (records : List (String × String)) (key : String) : Option String :=
  records.reverse.lookup key

/-- The name that records give. -/
def nameIn (records : List (String × String)) : Option String :=
  (valueOf records "path").map withoutSlashes

/-- The size that records give; what is no number is zero. -/
def sizeIn (records : List (String × String)) : Option Nat :=
  (valueOf records "size").map fun s => s.toNat?.getD 0

/-- The member of a header at its content, with what was said about it, and the position behind
it. -/
def memberOf (bytes : ByteArray) (h : Header) (amended : Amendment) (common : Option String)
    (start : Nat) : Member × Nat :=
  let size := amended.size.getD h.size
  let name := tidyName h.kind ((amended.name <|> common).getD h.name)
  let length := if lacksContent h.kind then 0 else inBlocks size
  if isRegular h.kind then
    (⟨name, .file, bytes.extract start (start + size)⟩, start + length)
  else (⟨name, if h.kind == directoryKind then .directory else .other, .empty⟩, start + length)

/-- The members from a position on, at most `n` blocks that describe something; `common` is the
name that all members are given. Octets behind the end of unsound data cannot be asked for. -/
def membersFrom (bytes : ByteArray) (sound : Bool) :
    (n pos : Nat) → Amendment → (common : Option String) → Except Defect (List Member)
  | 0, _, _, _ => .ok []
  | n + 1, pos, amended, common =>
    if bytes.size < pos then .error .cutContent
    else match header bytes pos with
      | .error why =>
        if !sound && (why == .nothing || why == .cut) then .error .damaged
        else if amended.pending then .error .badHeader
        else match why with
          | .zeros => .ok []
          | .nothing => if pos == 0 then .error .empty else .ok []
          | .cut => if pos == 0 then .error .cutHeader else .ok []
          | .bad => if pos == 0 then .error .badHeader else .ok []
      | .ok h =>
        let start := pos + blockSize
        let next := start + inBlocks h.size
        if isLongName h.kind then
          let name := textOf (octets bytes start (start + h.size))
          membersFrom bytes sound n next (amended.followed (some name) none) common
        else if isLongTarget h.kind then
          membersFrom bytes sound n next (amended.followed none none) common
        else if isRecords h.kind then
          match recordsOf (h.size + 1) (octets bytes start (start + h.size)) with
          | none => .error .badHeader
          | some records =>
            if isGlobal h.kind then
              membersFrom bytes sound n next (amended.followed none none)
                (nameIn records <|> common)
            else
              membersFrom bytes sound n next
                (amended.followed (nameIn records) (sizeIn records)) common
        else
          let (member, next) := memberOf bytes h amended common start
          (membersFrom bytes sound n next .none common).map (member :: ·)

/-- The members of an archive in their order; `sound` tells that reading on behind the last
octet finds the end of the data. -/
def members (bytes : ByteArray) (sound : Bool) : Except Defect (List Member) :=
  membersFrom bytes sound (bytes.size / blockSize + 2) 0 .none none

end PackageRisk.Tar
