import PackageRisk.Fetch
import PackageRisk.Package.Document
import PackageRisk.Settings.Basic
import PackageRisk.Value.Octets

/-!
# Documents of a registry

A registry answers the name of a package with a document about all its versions. The metadata
of a version are put together from what the document says about that version and, where it is
silent, about the package. What cannot be read as such a document is a failure of the registry;
but a document whose parts are not of the kind that is looked for in them ends a lookup with a
fault of that value.
-/

namespace PackageRisk

/-- A registry as packages are looked up in it. -/
structure RegistryClient where
  url : String
  followsRedirects : Bool

namespace RegistryClient

/-- The client of a registry at a URL, with or without slashes at its end. -/
def ofUrl (url : String) (followsRedirects : Bool) : RegistryClient :=
  ⟨String.ofList (url.toList.reverse.dropWhile (· == '/')).reverse, followsRedirects⟩

/-- A name in a URL: slashes are written by their octet. -/
def encodeName (name : String) : String :=
  String.ofList (name.toList.flatMap fun c => if c == '/' then ['%', '2', 'F'] else [c])

/-- The URL of the document about a package. -/
def packageUrl (r : RegistryClient) (name : String) : String :=
  r.url ++ "/" ++ encodeName name

/-- How deep a document may be nested. -/
def maxDepth : Nat := 980

/-- The text of a body, without the mark that it may start with. -/
def bodyText? (chunks : List ByteArray) : Option String :=
  Json.textOf? (chunks.flatMap (·.toList))

/-- The document in a body. -/
def readBody (package : String) (chunks : List ByteArray) : Except Failure Value :=
  match bodyText? chunks with
  | none => .error (.registry (.notJson package))
  | some text => match Json.read maxDepth text with
    | .ok v => .ok v
    | .error .tooDeep => .error (.fault .tooDeep)
    | .error _ => .error (.registry (.notJson package))

/-- What a reply says about a package. -/
def readReply (package : String) : Reply → Except Failure Value
  | .timeout detail | .broken detail => .error (.registry (.transport package detail))
  | .silence => .error (.registry (.transport package ""))
  | .response status _ chunks =>
    if isSuccess status then readBody package chunks
    else if status == 404 then .error (.packageNotFound package none)
    else .error (.registry (.status status package))

/-- The document about a package, from what fetching it ended with. -/
def readFetched (package : String) : Except Failure Reply → Except Failure Fields
  | .error (.fault (.wrongValue _)) => .error (.registry (.notJson package))
  | .error e => .error e
  | .ok reply => do
    match ← readReply package reply with
    | .object fields => return fields
    | _ => throw (.registry (.notObject package))

/-- The document about a package. -/
def packument (r : RegistryClient) (package : String) : Session Fields := do
  let outcome ← (Session.fetch r.followsRedirects (r.packageUrl package)).attempt
  Session.lift (readFetched package outcome)

end RegistryClient

namespace Packument

/-- A field, or null if it is absent. -/
def field (fields : Fields) (key : String) : Value :=
  (Fields.get? fields key).getD .null

/-- The fields under a key; none if what is there does not count as given. -/
def mapUnder (document : Fields) (key : String) : Except Fault Fields :=
  let v := field document key
  if !v.isGiven then .ok []
  else match v with
    | .object fields => .ok fields
    | v => .error (.lacking ("'" ++ v.kindName ++ "' object has no attribute 'get'"))

/-- The version that is tagged as the latest one. -/
def latest (package : String) (document : Fields) : Except Failure Value := do
  let tags ← (mapUnder document "dist-tags").mapError .fault
  let version := field tags "latest"
  if version.isGiven then return version else throw (.packageNotFound package none)

/-- A version that may be named by a value of any kind. -/
def versionUnder (versions : Fields) : Value → Except Fault Value
  | .text version => .ok (field versions version)
  | v => if v.canBeKey then .ok .null
      else .error (.wrongKind ("unhashable type: '" ++ v.kindName ++ "'"))

/-- The first given of several values, or the last one if none is. -/
def firstGiven : List Value → Value
  | [] => .null
  | [v] => v
  | v :: rest => v.orElse (firstGiven rest)

/-- The license in one of its forms: a text, an object, or the first of a list of those. What the
document says under `licenses` is taken last, whether it is given or not. -/
def licenseOf (document version : Fields) : Value :=
  let form (v : Value) : Value := match v with
    | .text s => .text s
    | .object fields => .object fields
    | _ => .null
  match firstGiven [field version "license", field version "licenses",
      field document "license", field document "licenses"] with
  | .list (v :: _) => form v
  | v => form v

/-- What the document about a package may say for all its versions. -/
def sharedKeys : List String :=
  ["maintainers", "repository", "homepage", "description", "author"]

/-- Fields with what the document says where they say nothing. -/
def withShared (document : Fields) (fields : Fields) (key : String) : Fields :=
  let shared := field document key
  if !(field fields key).isGiven && shared.isGiven then Fields.put key shared fields else fields

/-- The metadata of a version, before they are checked. -/
def assemble (package version : String) (document fields : Fields) : Fields :=
  let name := firstGiven [field fields "name", field document "name", .text package]
  let named := Fields.put "version" (.text version) (Fields.put "name" name fields)
  Fields.put "license" (licenseOf document fields) (sharedKeys.foldl (withShared document) named)

/-- The metadata of a version from what the document has under its name. -/
def describe (package : String) (wanted : Value) (document : Fields) :
    Value → Except Failure Package
  | .object fields =>
    match Package.check (.object (assemble package wanted.plain document fields)) with
    | .valid p => .ok p
    | .invalid issues => .error (.registry (.malformed package wanted.plain issues))
  | _ => .error (.packageNotFound package (some wanted))

/-- The metadata of a version, by default of the latest one. -/
def version (package : String) (wanted : Option Value) (document : Fields) :
    Except Failure Package := do
  let wanted ← match wanted with
    | some v => pure v
    | none => latest package document
  let versions ← (mapUnder document "versions").mapError .fault
  let found ← (versionUnder versions wanted).mapError .fault
  describe package wanted document found

/-- The names of all versions, in the order of the document. -/
def versionNames (document : Fields) : Except Fault (List String) :=
  let v := field document "versions"
  if !v.isGiven then .ok []
  else match v with
    | .object fields => .ok (fields.map (·.1))
    | v => .error (.lacking ("'" ++ v.kindName ++ "' object has no attribute 'keys'"))

end Packument

namespace RegistryClient

/-- The metadata of a version of a package, by default of the latest one. -/
def metadata (r : RegistryClient) (package : String) (wanted : Option Value) :
    Session Package := do
  Session.lift (Packument.version package wanted (← r.packument package))

/-- The names of all versions of a package. -/
def versions (r : RegistryClient) (package : String) : Session (List String) := do
  Session.liftFault (Packument.versionNames (← r.packument package))

/-- The URL of the archive of a version. -/
def archiveUrl (r : RegistryClient) (package : String) (wanted : Option Value) :
    Session (Option String) := do
  return (← r.metadata package wanted).dist.tarball

end RegistryClient

end PackageRisk
