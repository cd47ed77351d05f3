import PackageRisk.Text.Blank
import PackageRisk.Text.Quoted
import PackageRisk.Url.Address

/-!
# URLs

The scheme and the host part of a URL. A URL is split after the usual clean-up: blanks and
controls at its head and all tabs and line breaks are dropped. `Url.isWeb` recognises absolute
web addresses.
-/

namespace PackageRisk.Url

/-- Characters that are dropped wherever they stand. -/
def isDropped (c : Char) : Bool :=
  c == '\t' || c == '\r' || c == '\n'

/-- A URL without what is dropped from it before it is split. -/
def clean (cs : List Char) : List Char :=
  (cs.dropWhile fun c => c.toNat ≤ 32).filter fun c => !isDropped c

/-- The characters of a scheme after its first letter. -/
def isSchemeChar (c : Char) : Bool :=
  c.isAlphanum || c == '+' || c == '-' || c == '.'

/-- A scheme in lower case and what follows its colon, or no scheme and the whole text. -/
def splitScheme (cs : List Char) : String × List Char :=
  let head := cs.takeWhile isSchemeChar
  match head, cs.drop head.length with
  | c :: _, ':' :: rest =>
    if c.isAlpha then (String.ofList (head.map Char.toLower), rest) else ("", cs)
  | _, _ => ("", cs)

/-- The characters that end a host part. -/
def endsHost (c : Char) : Bool :=
  c == '/' || c == '?' || c == '#'

/-- The host part behind two slashes, empty without them, and the rest. -/
def splitHost : List Char → List Char × List Char
  | '/' :: '/' :: cs => (cs.takeWhile (!endsHost ·), cs.dropWhile (!endsHost ·))
  | cs => ([], cs)

/-- Characters whose compatibility form holds a character that separates parts of a URL. -/
def separatorLikes : List Nat :=
  [0x2047, 0x2048, 0x2049, 0x2100, 0x2101, 0x2105, 0x2106, 0x2A74, 0xFE13, 0xFE16, 0xFE55,
   0xFE56, 0xFE5F, 0xFE6B, 0xFF03, 0xFF0F, 0xFF1A, 0xFF1F, 0xFF20]

/-- What stands between the first bracket that opens and the first one behind it that closes. -/
def bracketed (host : List Char) : List Char :=
  ((host.dropWhile (· != '[')).drop 1).takeWhile (· != ']')

/-- Whether the brackets of a host part go together and have an address between them. -/
def hasFitBrackets (host : List Char) : Bool :=
  if host.contains '[' && host.contains ']' then
    isZonedAddress (bracketed host) || isFutureAddress (bracketed host)
  else !host.contains '[' && !host.contains ']'

/-- Whether a host part can be one: its brackets are fit and nothing in it is mistaken for a
separator. -/
def isHost (host : List Char) : Bool :=
  hasFitBrackets host && host.all fun c => !separatorLikes.contains c.toNat

/-- The parts of a URL. -/
structure Parts where
  scheme : String
  host : List Char
  rest : List Char

/-- The parts of a URL, if its host part can be one. -/
def parts? (s : String) : Option Parts :=
  let (scheme, rest) := splitScheme (clean s.toList)
  let (host, rest) := splitHost rest
  if isHost host then some ⟨scheme, host, rest⟩ else none

def isWebScheme (scheme : String) : Bool :=
  scheme == "http" || scheme == "https"

/-- Absolute web addresses. -/
def isWeb (s : String) : Bool :=
  match parts? s with
  | some p => isWebScheme p.scheme && !p.host.isEmpty
  | none => false

end PackageRisk.Url
