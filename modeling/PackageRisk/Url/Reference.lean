import PackageRisk.Failure
import PackageRisk.Path
import PackageRisk.Url

/-!
# References to resources

A URL in the form in which it is requested: scheme and host in lower case, no port where it is
the usual one, and all characters that may not stand in a part written by their octets. A
reference without scheme or host is completed by `Reference.join`.
-/

namespace PackageRisk.Url

/-- The octets of a character, each behind a percent sign. -/
def percentEncoded (c : Char) : List Char :=
  (String.singleton c).toUTF8.toList.flatMap fun b =>
    '%' :: (Text.hex 2 b.toNat).map Char.toUpper

/-- A part of a URL with the characters that may not stand in it written by their octets. -/
def encode (keep : Char → Bool) (cs : List Char) : List Char :=
  cs.flatMap fun c => if keep c then [c] else percentEncoded c

/-- Printed characters of the basic alphabet but some. -/
def isPlainBut (refused : String) (c : Char) : Bool :=
  33 ≤ c.toNat && c.toNat < 127 && !refused.toList.contains c

/-- Characters of a path. -/
def isPathChar : Char → Bool := isPlainBut "\"#<>?`\x7b\x7d"

/-- Characters of a query. -/
def isQueryChar : Char → Bool := isPlainBut "\"#<>"

/-- Characters of a fragment. -/
def isFragmentChar : Char → Bool := isPlainBut "\"<>`"

/-- Characters of a user's name and password. -/
def isUserChar : Char → Bool := isPlainBut "\"#<>?`\x7b\x7d/;=@[\\]^|"

/-- Characters of a host. -/
def isHostChar : Char → Bool := isPlainBut "#<>?/:@[]^"

/-- A reference to a resource; the parts behind the path are there or not. -/
structure Reference where
  scheme : String
  user : Option (List Char)
  host : List Char
  port : Option Nat
  path : List Char
  query : Option (List Char)
  fragment : Option (List Char)
  deriving DecidableEq, Repr

namespace Reference

/-- The longest text of a URL. -/
def maxLength : Nat := 65536

/-- The usual ports of schemes. -/
def usualPorts : List (String × Nat) :=
  [("ftp", 21), ("http", 80), ("https", 443), ("ws", 80), ("wss", 443)]

/-- The port that digits name, unless it is the usual one. -/
def portOf (scheme : String) (digits : List Char) : Except String (Option Nat) :=
  if digits.isEmpty then .ok none
  else match (String.ofList digits).toNat? with
    | some n => .ok (if usualPorts.lookup scheme = some n then none else some n)
    | none => .error ("Invalid port: " ++ Text.quoted (String.ofList digits))

/-- The parts of the text behind two slashes: what precedes the last `@`, the host with its
brackets if it has some, and what follows the colon behind it. -/
def splitAuthority (cs : List Char) : Option (List Char) × List Char × List Char :=
  let behind := (cs.reverse.takeWhile (· != '@')).reverse
  let user := if cs.contains '@' then some (cs.take (cs.length - behind.length - 1)) else none
  let inBrackets := (behind.reverse.dropWhile (· != ']')).reverse
  let host := if behind.head? == some '[' && !inBrackets.isEmpty then inBrackets
    else behind.takeWhile (· != ':')
  let rest := behind.drop host.length
  (user, host, match rest with | ':' :: port => port | port => port)

/-- Dot segments removed: `.` stands for nothing and `..` takes the segment before it away. -/
def removeDots (path : List Char) : List Char :=
  let segments := Path.splitWhere (· == '/') path
  if !segments.any fun s => s == ['.'] || s == ['.', '.'] then path
  else
    let kept := segments.foldl (fun (out : List (List Char)) s =>
      if s == ['.'] then out
      else if s == ['.', '.'] then (if out.isEmpty || out == [[]] then out else out.dropLast)
      else out ++ [s]) []
    ['/'].intercalate kept

/-- The first character that may not stand in a URL, with its position. -/
def unprintable? (cs : List Char) : Option (Char × Nat) :=
  cs.zipIdx.find? fun p => p.1.toNat < 32 || p.1.toNat == 127

/-- Four numbers between dots, of any size. -/
def isNumeric (host : List Char) : Bool :=
  let parts := Path.splitWhere (· == '.') host
  parts.length == 4 && parts.all fun p => !p.isEmpty && p.all Char.isDigit

/-- A host in its requested form; one given by number has to be an address. -/
def hostOf (host : List Char) : Except String (List Char) :=
  if isNumeric host then
    if isShortAddress host then .ok host
    else .error ("Invalid IPv4 address: " ++ Text.quoted (String.ofList host))
  else if host.head? == some '[' && host.getLast? == some ']' then
    if isZonedAddress (host.dropLast.drop 1) then .ok host
    else .error ("Invalid IPv6 address: " ++ Text.quoted (String.ofList host))
  else .ok (encode isHostChar (host.map Char.toLower))

/-- Why a path cannot follow what is before it. -/
def pathDefect? (hasScheme hasAuthority : Bool) (path : List Char) : Option String :=
  if hasAuthority then
    if path.isEmpty || path.head? == some '/' then none
    else some "For absolute URLs, path must be empty or begin with '/'"
  else if hasScheme then none
  else match path with
    | '/' :: '/' :: _ => some "Relative URLs cannot have a path starting with '//'"
    | ':' :: _ => some "Relative URLs cannot have a path starting with ':'"
    | _ => none

/-- The scheme in front of the first colon, if it is one; an empty one too. -/
def schemeOf (cs : List Char) : String × List Char :=
  match cs with
  | ':' :: rest => ("", rest)
  | _ => splitScheme cs

/-- The reference that a text spells, or why it spells none. -/
def parse (s : String) : Except String Reference := do
  let cs := s.toList
  if maxLength < cs.length then throw "URL too long"
  if let some (c, i) := unprintable? cs then
    throw ("Invalid non-printable ASCII character in URL, " ++ Text.quoted (String.singleton c) ++
      " at position " ++ toString i ++ ".")
  let (scheme, rest) := schemeOf cs
  let (authority, tail) := splitHost rest
  let (user, host, digits) := splitAuthority authority
  let host ← hostOf host
  let port ← portOf scheme digits
  let path := tail.takeWhile fun c => c != '?' && c != '#'
  let behind := tail.drop path.length
  let query := match behind with
    | '?' :: r => some (r.takeWhile (· != '#'))
    | _ => none
  let fragment := match behind.dropWhile (· != '#') with
    | '#' :: r => some r
    | _ => none
  let hasAuthority := user.any (!·.isEmpty) || !host.isEmpty || port.isSome
  if let some defect := pathDefect? (!scheme.isEmpty) hasAuthority path then throw defect
  let tidy := if scheme.isEmpty && !hasAuthority then path else removeDots path
  return { scheme, user := user.map (encode isUserChar), port, host,
           path := encode isPathChar tidy, query := query.map (encode isQueryChar),
           fragment := fragment.map (encode isFragmentChar) }

/-- A part behind its mark, if it is there. -/
def marked (mark : Char) : Option (List Char) → List Char
  | some cs => mark :: cs
  | none => []

/-- The text behind two slashes. -/
def authority (r : Reference) : List Char :=
  (match r.user with
    | some u => if u.isEmpty then [] else u ++ ['@']
    | none => []) ++ r.host ++ marked ':' (r.port.map (Nat.toDigits 10))

/-- The text of a reference. -/
def text (r : Reference) : String :=
  (if r.scheme.isEmpty then "" else r.scheme ++ ":") ++
    (if r.authority.isEmpty then "" else "//" ++ String.ofList r.authority) ++
    String.ofList (r.path ++ marked '?' r.query ++ marked '#' r.fragment)

/-- Whether a reference names a scheme and a host. -/
def isComplete (r : Reference) : Bool :=
  !r.scheme.isEmpty && !r.host.isEmpty

/-- The form in which a reference is requested; one that is not complete is a path. -/
def toRequest (r : Reference) : Reference :=
  if r.isComplete then r
  else { scheme := "", user := none, host := [], port := none,
         path := '/' :: r.path.dropWhile (· == '/'), query := r.query, fragment := none }

/-- The path of a relative path seen from another one. -/
def joinPath (base path : List Char) : List Char :=
  let split := Path.splitWhere (· == '/')
  let before := match (split base).reverse with
    | [] :: _ => split base
    | _ :: rest => rest.reverse
    | [] => []
  let segments := if path.head? == some '/' then split path
    else match before ++ split path with
      | first :: rest => first :: (rest.dropLast.filter (!·.isEmpty) ++ rest.getLast?.toList)
      | [] => []
  let kept := segments.foldl (fun (out : List (List Char)) s =>
    if s == ['.', '.'] then out.dropLast else if s == ['.'] then out else out ++ [s]) []
  let closed := match segments.getLast? with
    | some ['.'] | some ['.', '.'] => kept ++ [[]]
    | _ => kept
  let joined := ['/'].intercalate closed
  if joined.isEmpty then ['/'] else joined

/-- A reference seen from a complete one. -/
def join (base r : Reference) : Reference :=
  if !r.host.isEmpty then { r with scheme := base.scheme }
  else
    let seen := { r with scheme := base.scheme, user := base.user, host := base.host,
                         port := base.port }
    if r.path.isEmpty then
      { seen with path := base.path, query := if r.query.isSome then r.query else base.query }
    else { seen with path := removeDots (joinPath base.path r.path) }

/-- Where a response to a request says that the resource is. -/
def redirected (base : Reference) (location : String) : Except String Reference := do
  let given ← parse location
  let r := if !given.scheme.isEmpty && given.host.isEmpty
    then { given with host := base.host } else given
  let target := if r.isComplete then r else base.join r
  return if target.fragment.any (!·.isEmpty) then target
    else if base.fragment.any (!·.isEmpty) then { target with fragment := base.fragment }
    else target

end Reference

end PackageRisk.Url
