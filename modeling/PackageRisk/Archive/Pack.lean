import PackageRisk.Archive.Tar
import PackageRisk.Path

/-!
# Packing archives

What is packed is described member by member: a block with the name, the kind and the length
of each, its content in whole blocks, and blocks of zeros at the end. A long name is kept in
two parts that are joined by a slash.
-/

namespace PackageRisk.Tar

/-- What can be packed; only files have content. -/
inductive PackedKind where
  | file (content : ByteArray)
  | directory
  | symbolicLink (target : String)
  | hardLink (target : String)
  | device
  | pipe

/-- A member to be packed. -/
structure Packed where
  name : String
  kind : PackedKind

/-- Octets filled up with zeros. -/
def padded (size : Nat) (b : ByteArray) : ByteArray :=
  b ++ ⟨Array.replicate (size - b.size) 0⟩

/-- A number by digits in base eight with a zero behind them, of the given length together. -/
def octalField (size n : Nat) : ByteArray :=
  let digits := Nat.toDigits 8 n
  (String.ofList (List.replicate (size - 1 - digits.length) '0' ++ digits)).toUTF8.push 0

/-- The most octets of a name and of what is kept in front of it. -/
def nameSize : Nat := 100

def folderSize : Nat := 155

/-- A name in two parts: none in front if it is short enough, else cut at the first slash that
leaves both parts short enough. -/
def splitName (name : String) : String × String :=
  if name.utf8ByteSize ≤ nameSize then ("", name)
  else
    let parts := (Path.splitWhere (· == '/') name.toList).map String.ofList
    let cuts := (List.range parts.length).map fun i =>
      (Text.join "/" (parts.take i), Text.join "/" (parts.drop i))
    (((cuts.drop 1).find? fun c =>
      c.1.utf8ByteSize ≤ folderSize && c.2.utf8ByteSize ≤ nameSize).getD ("", name))

namespace PackedKind

/-- The octet that tells the kind. -/
def flag : PackedKind → UInt8
  | .file _ => 0x30
  | .hardLink _ => 0x31
  | .symbolicLink _ => 0x32
  | .device => 0x33
  | .directory => directoryKind
  | .pipe => 0x36

def content : PackedKind → ByteArray
  | .file content => content
  | _ => .empty

def target : PackedKind → String
  | .symbolicLink target | .hardLink target => target
  | _ => ""

end PackedKind

/-- The name that a member is packed under: that of a directory ends with a slash. -/
def Packed.storedName (m : Packed) : String :=
  match m.kind with
  | .directory => if m.name.endsWith "/" then m.name else m.name ++ "/"
  | _ => m.name

/-- The blocks of a member. -/
def Packed.blocks (m : Packed) : ByteArray :=
  let (folder, name) := splitName m.storedName
  let content := m.kind.content
  let before := padded nameSize name.toUTF8 ++ octalField 8 0o644 ++ octalField 8 0 ++
    octalField 8 0 ++ octalField 12 content.size ++ octalField 12 0
  let after := ByteArray.mk #[m.kind.flag] ++ padded 100 m.kind.target.toUTF8 ++
    "ustar\x0000".toUTF8 ++ padded 64 .empty ++ octalField 8 0 ++ octalField 8 0 ++
    padded folderSize folder.toUTF8 ++ padded 12 .empty
  let sum := (before ++ after).toList.foldl (fun n b => n + b.toNat) 256
  before ++ (octalField 7 sum).push 0x20 ++ after ++ padded (inBlocks content.size) content

/-- An archive is a whole number of records of this size. -/
def recordSize : Nat := 10240

/-- The archive of members. -/
def pack (ms : List Packed) : ByteArray :=
  let whole := ms.foldl (fun acc m => acc ++ m.blocks) .empty ++ padded (2 * blockSize) .empty
  padded ((whole.size + recordSize - 1) / recordSize * recordSize) whole

end PackageRisk.Tar
