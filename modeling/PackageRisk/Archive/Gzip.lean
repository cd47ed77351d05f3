import PackageRisk.Archive.Inflate

/-!
# Compressed files

A compressed file is a sequence of members, each with a header, inflated data, and a checksum
and length behind it. What can be read of a damaged file is kept together with the fact that
reading on would show the damage.
-/

namespace PackageRisk.Gzip

/-- What a file holds, and whether reading it to its end shows no damage. -/
structure Expanded where
  bytes : ByteArray
  sound : Bool

/-- One step of the checksum on eight bits. -/
def crcStep (c : UInt32) : UInt32 :=
  if c &&& 1 == 1 then (0xEDB88320 : UInt32) ^^^ (c >>> 1) else c >>> 1

/-- The checksums of single octets. -/
def crcTable : Array UInt32 :=
  ((List.range 256).map fun i => (List.range 8).foldl (fun c _ => crcStep c)
    (UInt32.ofNat i)).toArray

/-- The checksum of data. -/
def crc (bytes : ByteArray) : UInt32 :=
  bytes.foldl (fun c b =>
    crcTable.getD ((c ^^^ b.toUInt32) &&& 0xFF).toNat 0 ^^^ (c >>> 8)) 0xFFFFFFFF ^^^ 0xFFFFFFFF

/-- The number that four octets spell, low ones first. -/
def word? (data : ByteArray) (pos : Nat) : Option Nat := do
  let a ← data[pos]?
  let b ← data[pos + 1]?
  let c ← data[pos + 2]?
  let d ← data[pos + 3]?
  return a.toNat + 256 * b.toNat + 65536 * c.toNat + 16777216 * d.toNat

/-- Whether a member can start at a position. -/
def startsAt (data : ByteArray) (pos : Nat) : Bool :=
  data[pos]? == some 0x1F && data[pos + 1]? == some 0x8B && data[pos + 2]? == some 8

/-- The position behind the next zero octet, of which `n` octets may come first. -/
def afterZero? (data : ByteArray) : (n pos : Nat) → Option Nat
  | 0, _ => none
  | n + 1, pos => match data[pos]? with
    | some 0 => some (pos + 1)
    | some _ => afterZero? data n (pos + 1)
    | none => none

/-- The position behind the header of a member. -/
def afterHeader? (data : ByteArray) (pos : Nat) : Option Nat := do
  let flags := (← data[pos + 3]?).toNat
  let has (n : Nat) : Bool := flags / n % 2 == 1
  let at₀ := pos + 10
  let at₁ ← if has 4 then do
      let low := (← data[at₀]?).toNat
      let high := (← data[at₀ + 1]?).toNat
      pure (at₀ + 2 + low + 256 * high)
    else some at₀
  let at₂ ← if has 8 then afterZero? data data.size at₁ else some at₁
  let at₃ ← if has 16 then afterZero? data data.size at₂ else some at₂
  let at₄ := if has 2 then at₃ + 2 else at₃
  if data.size < at₄ then none else some at₄

/-- Data are handed on in pieces of this size; of damaged data, whole pieces only. -/
def pieceSize : Nat := 8192

/-- The position behind zero octets, of which there are at most `n`. -/
def afterPadding (data : ByteArray) : (n pos : Nat) → Nat
  | 0, pos => pos
  | n + 1, pos => if data[pos]? == some 0 then afterPadding data n (pos + 1) else pos

/-- Reads members from a position on, at most `n` of them, after what was read already. -/
def membersFrom (data : ByteArray) : (n pos : Nat) → ByteArray → Expanded
  | 0, _, out => ⟨out, false⟩
  | n + 1, pos, out =>
    if data.size ≤ pos then ⟨out, true⟩
    else if !startsAt data pos then ⟨out, false⟩
    else match afterHeader? data pos with
      | none => ⟨out, false⟩
      | some body =>
        match Inflate.inflate data body out with
        | .stopped .cut read => ⟨read, false⟩
        | .stopped .broken read => ⟨read.extract 0 (read.size / pieceSize * pieceSize), false⟩
        | .finished p =>
          let trailer := (p.pos + 7) / 8
          let own := p.out.extract out.size p.out.size
          if word? data trailer == some (crc own).toNat &&
              word? data (trailer + 4) == some (own.size % 4294967296) then
            membersFrom data n (afterPadding data data.size (trailer + 8)) p.out
          else ⟨p.out, false⟩

/-- What a compressed file holds; nothing if it is no compressed file. -/
def expand? (data : ByteArray) : Option Expanded :=
  if startsAt data 0 then some (membersFrom data (data.size + 1) 0 ByteArray.empty) else none

end PackageRisk.Gzip
