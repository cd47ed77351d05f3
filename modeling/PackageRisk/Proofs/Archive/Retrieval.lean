import PackageRisk.Proofs.Archive.Inspection
import PackageRisk.Proofs.Archive.Sizes
import PackageRisk.Proofs.Archive.WorkDirectory
import PackageRisk.Proofs.Fetch

/-!
# How a retrieval ends

An archive is downloaded, extracted and inspected in a directory of its own, and what that ends
with is decided by the package's name, the URL, the network and the content of the archive.
Most failures are about the archive; `Escapes` says which inputs lead to another one.
-/

namespace PackageRisk.Archive

open Disk Location

variable {net : Network} {w : Workspace} {url package : String} {file target : List String}
  {content : ByteArray} {entropies : Bool} {size : Nat} {maxFiles : Int}

/-! ## Download -/

/-- A URL at which an archive is found: a web address with a successful response that is not
too large. -/
def Downloads (net : Network) (url : String) (content : ByteArray) : Prop :=
  ∃ parts status location chunks, Url.parts? url = some parts ∧
    Url.isWebScheme parts.scheme = true ∧
    (Session.fetch true url).Ends net (.ok (.response status location chunks)) ∧
    isSuccess status = true ∧
    receive ArchiveSettings.standard.maxArchiveSize .empty chunks = (true, content)

/-- A text that cannot be split as a URL, or a web address that cannot be asked for, or that
leads to one that cannot. -/
def Unaskable (net : Network) (url : String) : Prop :=
  Url.parts? url = none ∨ ∃ parts e, Url.parts? url = some parts ∧
    Url.isWebScheme parts.scheme = true ∧ (Session.fetch true url).Ends net (.error e)

/-- What a download ends with, and the disk afterwards. -/
inductive Downloaded (net : Network) (url : String) (d : Disk) (file : List String) :
    Except Failure Nat → Disk → Prop
  | complete {content : ByteArray} (found : Downloads net url content) :
    Downloaded net url d file (.ok content.size) (d.put file (.file content))
  | failed {e : Failure} {d' : Disk} (missing : ∀ content, ¬Downloads net url content)
    (escapes : e.aboutTarball = false ↔ Unaskable net url) (grows : d.Grows d') :
    Downloaded net url d file (.error e) d'

/-- What is kept of a body is within the limit. -/
theorem receive_size_le {limit : Int} {held : ByteArray} {chunks : List ByteArray}
    (start : held.size ≤ limit) : ((receive limit held chunks).2.size : Int) ≤ limit := by
  induction chunks generalizing held with
  | nil => exact start
  | cons chunk rest ih =>
    unfold receive
    split_ifs with above
    · exact start
    · refine ih ?_
      rw [ByteArray.size_append]
      omega

theorem Downloads.size_le (found : Downloads net url content) : content.size ≤ 50000000 := by
  obtain ⟨parts, status, location, chunks, -, -, -, -, received⟩ := found
  have bound : ((receive ArchiveSettings.standard.maxArchiveSize .empty chunks).2.size : Int) ≤
      ArchiveSettings.standard.maxArchiveSize := receive_size_le (by decide)
  rw [received] at bound
  exact Int.ofNat_le.1 bound

theorem Downloads.web {parts : Url.Parts} (found : Downloads net url content)
    (split : Url.parts? url = some parts) : Url.isWebScheme parts.scheme = true := by
  obtain ⟨_, _, _, _, given, web, -⟩ := found
  rw [split] at given
  cases given
  exact web

theorem Downloads.response {reply : Except Failure Reply} (found : Downloads net url content)
    (ends : (Session.fetch true url).Ends net reply) :
    ∃ status location chunks, reply = .ok (.response status location chunks) ∧
      isSuccess status = true ∧
      receive ArchiveSettings.standard.maxArchiveSize .empty chunks = (true, content) := by
  obtain ⟨_, status, location, chunks, -, -, ends', success, received⟩ := found
  exact ⟨status, location, chunks, ends.unique ends', success, received⟩

/-- At a URL no more than one archive is found. -/
theorem Downloads.unique {content' : ByteArray} (found : Downloads net url content)
    (found' : Downloads net url content') : content = content' := by
  obtain ⟨_, _, _, _, -, -, ends, -, received⟩ := found
  obtain ⟨_, _, _, ⟨⟩, -, received'⟩ := found'.response ends
  rw [received] at received'
  cases received'
  rfl

/-- A reply is no reason that a URL could not be asked for. -/
theorem not_unaskable {parts : Url.Parts} {reply : Reply} (split : Url.parts? url = some parts)
    (ends : (Session.fetch true url).Ends net (.ok reply)) : ¬Unaskable net url := by
  rintro (unsplit | ⟨_, e, -, -, failed⟩)
  · rw [split] at unsplit
    cases unsplit
  · cases ends.unique failed

/-- A file that can be written where nothing is. -/
structure IsWritable (d : Disk) (file : List String) : Prop where
  noNul : ¬HasNul (Location.text file)
  ne_nil : file ≠ []
  free : d.at? file = none
  write : ∀ content, d.write file content = (.ok (), d.put file (.file content))

theorem IsWritable.grows {d : Disk} (writable : IsWritable d file) (content : ByteArray) :
    d.Grows (d.put file (.file content)) := by
  refine grows_put writable.ne_nil ?_
  rw [writable.free]
  exact .written content

/-- The steps of a download once a web address has been asked for. -/
def keepReply (url : String) (file : List String) : Reply → Session Nat
  | .response status _ chunks =>
    if !isSuccess status then Session.fail (.download (.status status))
    else
      let (complete, held) := receive ArchiveSettings.standard.maxArchiveSize .empty chunks
      changing (Location.text file) (fun d => d.write file held) >>= fun _ =>
        if complete then pure held.size
        else Session.fail (.download (.tooLarge ArchiveSettings.standard.maxArchiveSize))
  | .timeout _ | .silence =>
    Session.fail (.downloadTimeout url ArchiveSettings.standard.timeout)
  | .broken detail => Session.fail (.download (.transport detail))

theorem download_eq {parts : Url.Parts} (split : Url.parts? url = some parts)
    (web : Url.isWebScheme parts.scheme = true) :
    download .standard url file = Session.fetch true url >>= keepReply url file := by
  have time : ArchiveSettings.standard.timeout.le 0 = false := by decide
  unfold download
  rw [split]
  dsimp only
  rw [if_neg (by simp [web]), if_neg (by simp [time])]
  rfl

/-- Without a complete response of success nothing is kept. -/
theorem Downloaded.refused {d : Disk} {e : Failure} (about : e.aboutTarball = true)
    (askable : ¬Unaskable net url) (missing : ∀ content, ¬Downloads net url content) :
    Downloaded net url d file (.error e) d :=
  .failed missing (iff_of_false (by simp [about]) askable) (Grows.refl d)

/-- What a download ends with once a response is there. -/
theorem keepReply_response {parts : Url.Parts} {status : Nat} {location : Option String}
    {chunks : List ByteArray} (split : Url.parts? url = some parts)
    (web : Url.isWebScheme parts.scheme = true)
    (ends : (Session.fetch true url).Ends net (.ok (.response status location chunks)))
    (writable : IsWritable w.disk file) :
    ∃ outcome w', keepReply url file (.response status location chunks) net w = (outcome, w') ∧
      Downloaded net url w.disk file outcome w'.disk := by
  have askable := not_unaskable split ends
  unfold keepReply
  dsimp only
  by_cases success : isSuccess status = true
  · rw [if_neg (by simp [success])]
    rcases received : receive ArchiveSettings.standard.maxArchiveSize .empty chunks
      with ⟨complete, held⟩
    have changed : changing (Location.text file) (fun d => d.write file held) net w =
        (.ok (), { w with disk := w.disk.put file (.file held) }) := by
      rw [run_changing writable.noNul, writable.write]
      rfl
    dsimp only
    rw [Session.bind_of_ok changed]
    cases complete with
    | true =>
      refine ⟨_, _, rfl, .complete ?_⟩
      exact ⟨parts, status, location, chunks, split, web, ends, success, received⟩
    | false =>
      refine ⟨_, _, rfl, .failed (fun content found => ?_)
        (iff_of_false (by simp [Failure.aboutTarball]) askable) (writable.grows held)⟩
      obtain ⟨_, _, _, ⟨⟩, -, all⟩ := found.response ends
      rw [received] at all
      cases all
  · rw [if_pos (by simpa using success)]
    refine ⟨_, w, rfl, .refused rfl askable fun content found => ?_⟩
    obtain ⟨_, _, _, ⟨⟩, succeeds, -⟩ := found.response ends
    exact success succeeds

/-- What a download ends with once a reply is there. -/
theorem keepReply_ends {parts : Url.Parts} {reply : Reply} (split : Url.parts? url = some parts)
    (web : Url.isWebScheme parts.scheme = true)
    (ends : (Session.fetch true url).Ends net (.ok reply)) (writable : IsWritable w.disk file) :
    ∃ outcome w', keepReply url file reply net w = (outcome, w') ∧
      Downloaded net url w.disk file outcome w'.disk := by
  have askable := not_unaskable split ends
  have missing (noResponse : ∀ status location chunks, reply ≠ .response status location chunks)
      (content : ByteArray) : ¬Downloads net url content := by
    intro found
    obtain ⟨status, location, chunks, same, -⟩ := found.response ends
    exact noResponse status location chunks (Except.ok.inj same)
  cases reply with
  | response status location chunks => exact keepReply_response split web ends writable
  | timeout detail => exact ⟨_, w, rfl, .refused rfl askable (missing nofun)⟩
  | broken detail => exact ⟨_, w, rfl, .refused rfl askable (missing nofun)⟩
  | silence => exact ⟨_, w, rfl, .refused rfl askable (missing nofun)⟩

/-- What a download ends with at a web address. -/
theorem download_of_web {parts : Url.Parts} (split : Url.parts? url = some parts)
    (web : Url.isWebScheme parts.scheme = true) (writable : IsWritable w.disk file) :
    ∃ outcome w', download .standard url file net w = (outcome, w') ∧
      Downloaded net url w.disk file outcome w'.disk := by
  obtain ⟨reply, ends, faults⟩ : (Session.fetch true url).Settles net :=
    Session.fetch_settles true url
  obtain ⟨w', run, disk, -⟩ := ends w
  rw [← disk] at writable ⊢
  rw [download_eq split web]
  rcases reply with e | reply
  · obtain ⟨cause, rfl⟩ := faults e rfl
    have unaskable : Unaskable net url := .inr ⟨parts, _, split, web, ends⟩
    have missing (content : ByteArray) : ¬Downloads net url content := by
      intro found
      obtain ⟨_, _, _, ⟨⟩, -⟩ := found.response ends
    refine ⟨_, w', Session.bind_of_error run, ?_⟩
    exact .failed missing (iff_of_true rfl unaskable) (Grows.refl _)
  · rw [Session.bind_of_ok run]
    exact keepReply_ends split web ends writable

theorem download_ends (url : String) (writable : IsWritable w.disk file) :
    ∃ outcome w', download .standard url file net w = (outcome, w') ∧
      Downloaded net url w.disk file outcome w'.disk := by
  rcases split : Url.parts? url with _ | parts
  · have missing (content : ByteArray) : ¬Downloads net url content := by
      rintro ⟨parts, _, _, _, given, -⟩
      rw [split] at given
      cases given
    refine ⟨.error (.fault (splitFault url)), w, ?_, ?_⟩
    · unfold download
      rw [split]
      rfl
    · exact .failed missing (iff_of_true rfl (.inl split)) (Grows.refl _)
  by_cases web : Url.isWebScheme parts.scheme = true
  · exact download_of_web split web writable
  · have askable : ¬Unaskable net url := by
      rintro (unsplit | ⟨_, e, given, isWeb, -⟩)
      · rw [split] at unsplit
        cases unsplit
      · rw [split] at given
        cases given
        exact web isWeb
    refine ⟨.error (.download (.scheme parts.scheme)), w, ?_, ?_⟩
    · unfold download
      rw [split]
      dsimp only
      rw [if_pos (by simpa using web)]
      rfl
    · exact .refused rfl askable fun content found => web (found.web split)

/-! ## Extraction and inspection -/

/-- An archive whose first name that does not pass is one with a NUL. -/
def NulEndsCheck (target : List String) (content : ByteArray) : Prop :=
  ∃ ms, members content = .ok ms ∧ NulComesFirst target ms

theorem extractArchive_error {d : Disk} {e : Failure} (fresh : IsFresh d target)
    (noLinks : d.NoLinks) (failed : (extractArchive d target content).1 = .error e) :
    e.aboutTarball = false ↔ NulEndsCheck target content := by
  unfold extractArchive at failed
  split at failed
  · next defect unread =>
    cases failed
    refine iff_of_false (by simp [Failure.aboutTarball]) ?_
    rintro ⟨ms, read, -⟩
    rw [unread] at read
    cases read
  · next ms read =>
    rw [extract_error fresh noLinks failed]
    constructor
    · exact fun nul => ⟨ms, read, nul⟩
    · rintro ⟨ms', read', nul⟩
      rw [read] at read'
      cases read'
      exact nul

theorem extractArchive_grows {d : Disk} (noLinks : d.NoLinks) :
    d.Grows (extractArchive d target content).2 := by
  unfold extractArchive
  split
  · exact Grows.refl d
  · exact extract_grows noLinks

theorem extractArchive_holds {d : Disk} (fresh : IsFresh d target) (noLinks : d.NoLinks)
    (extracted : (extractArchive d target content).1 = .ok ()) :
    ¬NulEndsCheck target content ∧
      (extractArchive d target content).2.Holds (Listed target (memberLimit content.size)) := by
  rcases read : members content with defect | ms
  · rw [extractArchive, read] at extracted
    cases extracted
  · rw [extractArchive, read] at extracted ⊢
    refine ⟨?_, extract_holds fresh noLinks (members_content_size_le read) extracted⟩
    rintro ⟨ms', read', nul⟩
    rw [read] at read'
    cases read'
    exact extract_ok fresh noLinks extracted nul

/-- What unpacking ends with. -/
inductive Unpacked (target : List String) (content : ByteArray) :
    Except Failure ArchiveSummary → Prop
  | summary {s : ArchiveSummary} (passes : ¬NulEndsCheck target content)
    (sizes : ∀ f ∈ s.largestFiles, 0 ≤ f.size ∧ f.size ≤ memberLimit content.size) :
    Unpacked target content (.ok s)
  | failed {e : Failure} (escapes : e.aboutTarball = false ↔ NulEndsCheck target content) :
    Unpacked target content (.error e)

/-- The standard settings but for the number of files that are listed. -/
def listing (maxFiles : Int) : ArchiveSettings :=
  { ArchiveSettings.standard with maxLargestFiles := maxFiles }

/-- Unpacking is an extraction to a fresh directory and then an inspection. -/
theorem run_unpack {d : Disk} (isName : ∀ name ∈ target, Path.IsName name)
    (ensured : w.disk.ensureDirectory target = (.ok (), d)) (fresh : IsFresh d target)
    (noLinks : d.NoLinks) (readable : d.read file = .ok content) :
    unpack (listing maxFiles) file target size entropies net w =
      ((extractArchive d target content).1 >>= fun _ =>
          inspect (extractArchive d target content).2 target maxFiles size entropies,
        { w with disk := (extractArchive d target content).2 }) := by
  have plain : ∀ name ∈ target, IsPlain name := fun name mem => (fresh.plain name mem).1
  have changed : changing (Location.text target) (fun d => d.ensureDirectory target) net w =
      (.ok (), { w with disk := d }) := by
    rw [run_changing (noNul_text isName fun name mem => (fresh.plain name mem).2), ensured]
    rfl
  have resolved := resolve_of_straight (noLinks.straight : d.Straight [] target)
    (fun mem => (plain "." mem).1 rfl) fun name mem => (fresh.plain name mem).2
  rw [descend_initial plain List.prefix_rfl] at resolved
  unfold unpack
  rw [Session.bind_of_ok changed, Session.bind_of_ok rfl]
  dsimp only
  rw [resolved, Session.bind_of_ok rfl, readable]
  dsimp only
  rcases extractArchive d target content with ⟨e | _, later⟩
  · rfl
  · show Session.lift (inspect later target maxFiles size entropies) net
      { w with disk := later } = _
    rw [Session.run_lift]
    rfl

theorem unpack_ends {d : Disk} (isName : ∀ name ∈ target, Path.IsName name)
    (ensured : w.disk.ensureDirectory target = (.ok (), d)) (fresh : IsFresh d target)
    (noLinks : d.NoLinks) (readable : d.read file = .ok content) :
    ∃ outcome w', unpack (listing maxFiles) file target size entropies net w = (outcome, w') ∧
      d.Grows w'.disk ∧ Unpacked target content outcome := by
  have grows : d.Grows (extractArchive d target content).2 := extractArchive_grows noLinks
  refine ⟨_, _, run_unpack isName ensured fresh noLinks readable, grows, ?_⟩
  rcases extracted : extractArchive d target content with ⟨e | _, later⟩
  · exact .failed (extractArchive_error fresh noLinks (by rw [extracted]))
  · rw [extracted] at grows
    obtain ⟨passes, holds⟩ := extractArchive_holds fresh noLinks (by rw [extracted])
    rw [extracted] at holds
    show Unpacked target content (inspect later target maxFiles size entropies)
    rcases inspected : inspect later target maxFiles size entropies with e | s
    · have about := inspect_error (grows.noLinks noLinks) fresh.plain holds inspected
      exact .failed (iff_of_false (by simp [about]) passes)
    · exact .summary passes fun f mem => inspect_ok fresh.plain holds inspected mem

/-! ## The whole retrieval -/

/-- Inputs for which a retrieval ends with a failure that is not about the archive: a name of a
package that makes too long a name of a directory, a URL that cannot be asked for, and an
archive with a NUL in the name of a member. -/
inductive Escapes (net : Network) (url package : String) : Prop
  | package (long : nameLimit < (directoryName package).utf8ByteSize)
  | url (unaskable : Unaskable net url)
  | member {content : ByteArray} (found : Downloads net url content)
    (nul : NulEndsCheck (workNames package ++ [extractName]) content)

/-- What a retrieval ends with. -/
inductive Retrieved (net : Network) (url package : String) : Except Failure ArchiveSummary → Prop
  | summary {s : ArchiveSummary} (stays : ¬Escapes net url package)
    (sizes : ∀ f ∈ s.largestFiles, 0 ≤ f.size ∧ f.size ≤ memberLimit 50000000) :
    Retrieved net url package (.ok s)
  | failed {e : Failure} (escapes : e.aboutTarball = false ↔ Escapes net url package) :
    Retrieved net url package (.error e)

/-- The archive can be written to its directory. -/
theorem isWritable_archive {d : Disk} (fresh : IsFresh d (workNames package))
    (noLinks : d.NoLinks) (short : (directoryName package).utf8ByteSize ≤ nameLimit) :
    IsWritable d (workNames package ++ [archiveName]) where
  noNul := noNul_text (isName_child isName_archiveName) fun name mem =>
    (plain_child (by decide) name mem).2
  ne_nil := by simp
  free := fresh.empty _ (List.prefix_append _ _) (by simp)
  write content := by
    have vacant := fresh.vacant (by decide : IsPlain archiveName) (short_child short (by decide))
      (fits_workNames short (by decide))
    rw [write_of_vacant noLinks.straight vacant,
      descend_initial (fun name mem => (fresh.plain name mem).1) List.prefix_rfl]

theorem read_archive {d : Disk} (laid : d.IsLaid (workNames package)) (noLinks : d.NoLinks)
    (short : (directoryName package).utf8ByteSize ≤ nameLimit)
    (held : d.at? (workNames package ++ [archiveName]) = some (.file content)) :
    d.read (workNames package ++ [archiveName]) = .ok content := by
  have plain : ∀ name ∈ workNames package ++ [archiveName], IsPlain name := fun name mem =>
    (plain_child (by decide) name mem).1
  have here := descend_initial plain List.prefix_rfl
  refine read_of_file noLinks.straight ?_ (fits_workNames short (by decide)) (by rwa [here])
  refine isOpen_snoc_iff.2 ⟨laid.isOpen (workNames_short short), laid _ List.prefix_rfl,
    fun _ => ⟨by decide, ?_⟩⟩
  rw [descend_initial plain (List.prefix_append _ _), held]
  simp

/-- A disk with an archive in the directory of its package, and beside it a directory to extract
the archive to. -/
def delivered (d : Disk) (package : String) (content : ByteArray) : Disk :=
  ((d.put (workNames package ++ [archiveName]) (.file content)).ensureDirectory
    (workNames package ++ [extractName])).2

/-- An archive can be read on a disk, and extracted to a fresh directory. -/
structure IsExtractable (d : Disk) (package : String) (content : ByteArray) (d' : Disk) : Prop where
  ensured : (d.put (workNames package ++ [archiveName]) (.file content)).ensureDirectory
    (workNames package ++ [extractName]) = (.ok (), d')
  fresh : IsFresh d' (workNames package ++ [extractName])
  noLinks : d'.NoLinks
  readable : d'.read (workNames package ++ [archiveName]) = .ok content
  grows : d.Grows d'

theorem isExtractable_delivered {d : Disk} (fresh : IsFresh d (workNames package))
    (noLinks : d.NoLinks) (short : (directoryName package).utf8ByteSize ≤ nameLimit)
    (content : ByteArray) : IsExtractable d package content (delivered d package content) := by
  have grows := (isWritable_archive fresh noLinks short).grows content
  have noLinks' := grows.noLinks noLinks
  obtain ⟨ensured, fresh', held⟩ := fresh.beside content (by decide : extractName ≠ archiveName)
    (by decide) (short_child short (by decide)) (fits_workNames short (by decide)) noLinks
  have later := noLinks'.ensureDirectory_grows (workNames package ++ [extractName])
  exact ⟨Prod.ext ensured rfl, fresh', later.noLinks noLinks',
    read_archive (later.isLaid (grows.isLaid fresh.isLaid)) (later.noLinks noLinks') short held,
    grows.trans later⟩

theorem escapes_iff_of_downloads (short : (directoryName package).utf8ByteSize ≤ nameLimit)
    (found : Downloads net url content) :
    Escapes net url package ↔ NulEndsCheck (workNames package ++ [extractName]) content := by
  constructor
  · rintro (long | unaskable | ⟨found', nul⟩)
    · exact absurd short (not_le.2 long)
    · obtain ⟨_, _, _, _, split, -, ends, -⟩ := found
      exact absurd unaskable (not_unaskable split ends)
    · rw [found.unique found']
      exact nul
  · exact fun nul => .member found nul

theorem memberLimit_mono {m n : Nat} (le : m ≤ n) : memberLimit m ≤ memberLimit n := by
  unfold memberLimit Inflate.inflateLimit Inflate.blockLimit
  gcongr

/-- The steps that work on the directory once it is there. -/
def retrieve (maxFiles : Int) (url package : String) (entropies : Bool) :
    Session ArchiveSummary := do
  let size ← download .standard url (workNames package ++ [archiveName])
  unpack (listing maxFiles) (workNames package ++ [archiveName])
    (workNames package ++ [extractName]) size entropies

theorem retrieve_ends (fresh : IsFresh w.disk (workNames package)) (noLinks : w.disk.NoLinks)
    (short : (directoryName package).utf8ByteSize ≤ nameLimit) :
    ∃ outcome w', retrieve maxFiles url package entropies net w = (outcome, w') ∧
      w.disk.Grows w'.disk ∧ Retrieved net url package outcome := by
  have writable := isWritable_archive fresh noLinks short
  obtain ⟨outcome, w', run, downloaded⟩ : ∃ outcome w',
      download .standard url (workNames package ++ [archiveName]) net w = (outcome, w') ∧
        Downloaded net url w.disk (workNames package ++ [archiveName]) outcome w'.disk :=
    download_ends url writable
  unfold retrieve
  generalize disk : w'.disk = d at downloaded
  cases downloaded with
  | @failed e _ missing escapes grows =>
    refine ⟨.error e, w', Session.bind_of_error run, disk ▸ grows, .failed (escapes.trans ?_)⟩
    constructor
    · exact .url
    · rintro (long | unaskable | ⟨found, -⟩)
      · exact absurd short (not_le.2 long)
      · exact unaskable
      · exact absurd found (missing _)
  | @complete content found =>
    have able := isExtractable_delivered fresh noLinks short content
    obtain ⟨outcome, w'', run', grows, unpacked⟩ := unpack_ends (isName_child isName_extractName)
      (by rw [disk]; exact able.ensured) able.fresh able.noLinks able.readable
    refine ⟨outcome, w'', (Session.bind_of_ok run).trans run', able.grows.trans grows, ?_⟩
    have escapes := escapes_iff_of_downloads short found
    cases unpacked with
    | summary passes sizes =>
      refine .summary (fun is => passes (escapes.1 is)) fun f mem => ?_
      have := memberLimit_mono found.size_le
      have := sizes f mem
      omega
    | failed isNul => exact .failed (isNul.trans escapes.symm)

/-- Where the archive is found, a retrieval is its extraction and then an inspection. -/
theorem run_retrieve {d : Disk} {outcome : Except Failure Unit}
    (fresh : IsFresh w.disk (workNames package)) (noLinks : w.disk.NoLinks)
    (short : (directoryName package).utf8ByteSize ≤ nameLimit)
    (found : Downloads net url content)
    (extracted : extractArchive (delivered w.disk package content)
      (workNames package ++ [extractName]) content = (outcome, d)) :
    (retrieve maxFiles url package entropies net w).1 = outcome >>= fun _ =>
      inspect d (workNames package ++ [extractName]) maxFiles content.size entropies := by
  obtain ⟨result, w', run, downloaded⟩ : ∃ result w',
      download .standard url (workNames package ++ [archiveName]) net w = (result, w') ∧
        Downloaded net url w.disk (workNames package ++ [archiveName]) result w'.disk :=
    download_ends url (isWritable_archive fresh noLinks short)
  unfold retrieve
  generalize disk : w'.disk = later at downloaded
  cases downloaded with
  | failed missing => exact absurd found (missing content)
  | complete found' =>
    cases found.unique found'
    have able := isExtractable_delivered fresh noLinks short content
    rw [Session.bind_of_ok run, run_unpack (isName_child isName_extractName)
      (by rw [disk]; exact able.ensured) able.fresh able.noLinks able.readable, extracted]

theorem workPath_listing (maxFiles : Int) (package : String) :
    workPath (listing maxFiles) package = workPath .standard package := rfl

theorem analyze_eq (given : url.isEmpty = false) (w' : Workspace)
    (cleaned : cleanUp (workPath .standard package) net w = (.ok (), w')) :
    analyze (listing maxFiles) url package entropies net w =
      (changing (Location.text (workNames package))
          (fun d => d.ensureDirectory (workNames package)) >>= fun _ =>
        (retrieve maxFiles url package entropies).thenAlways (cleanUp (workPath .standard package)))
        net w' := by
  unfold analyze
  rw [if_neg (by simp [given])]
  dsimp only
  rw [workPath_listing, Session.bind_of_ok cleaned, text_workPath,
    Session.bind_of_ok (run_namesOf_text (workNames_isName package))]
  rfl

/-- Too long a name of a directory is found out before anything is asked for. -/
theorem analyze_of_long (given : url.isEmpty = false) (noLinks : w.disk.NoLinks)
    (long : nameLimit < (directoryName package).utf8ByteSize) :
    ∃ cause,
      (analyze (listing maxFiles) url package entropies net w).1 = .error (.fault cause) := by
  have among : directoryName package ∈ workNames package := by simp [workNames]
  have cleans : cleanUp (workPath .standard package) net w = (.ok (), w) ∨
      ∃ cause, cleanUp (workPath .standard package) net w = (.error (.fault cause), w) := by
    unfold cleanUp
    rw [text_workPath, Session.bind_of_ok (run_namesOf_text (workNames_isName package)),
      Session.bind_of_ok rfl]
    rcases entered : w.disk.enter (workNames package) with e | l
    · cases e
      case nameTooLong => exact .inr ⟨_, rfl⟩
      all_goals exact .inl rfl
    · have isOpen := ((enter_eq_ok_iff noLinks.straight).1 entered).2.1
      exact absurd (isOpen.short _ among) (not_le.2 long)
  rcases cleans with cleaned | ⟨cause, failed⟩
  · obtain ⟨e, fails⟩ : ∃ e, (w.disk.ensureDirectory (workNames package)).1 = .error e := by
      rcases made : (w.disk.ensureDirectory (workNames package)).1 with e | _
      · exact ⟨e, rfl⟩
      · exact absurd (short_of_ensurePath noLinks.straight made _ among) (not_le.2 long)
    have changed : changing (Location.text (workNames package))
        (fun d => d.ensureDirectory (workNames package)) net w =
        (.error (.fault (.system e (Location.text (workNames package)))),
          { w with disk := (w.disk.ensureDirectory (workNames package)).2 }) := by
      rw [run_changing (noNul_text (workNames_isName package) fun name mem =>
        (workNames_plain package name mem).2), fails]
      rfl
    refine ⟨.system e (Location.text (workNames package)), ?_⟩
    rw [analyze_eq given w cleaned, Session.bind_of_error changed]
  · refine ⟨cause, ?_⟩
    unfold analyze
    rw [if_neg (by simp [given])]
    dsimp only
    rw [workPath_listing, Session.bind_of_error failed]

/-- On the prepared disk a retrieval ends with what its steps end with. -/
theorem run_analyze (given : url.isEmpty = false) (workable : IsWorkable w.disk package)
    (short : (directoryName package).utf8ByteSize ≤ nameLimit) :
    (analyze (listing maxFiles) url package entropies net w).1 =
      (retrieve maxFiles url package entropies net
        { w with disk := prepared w.disk package }).1 := by
  have usable := workable.usable short
  obtain ⟨ensured, fresh, noLinks⟩ := isFresh_prepared workable short
  have cleaned : cleanUp (workPath .standard package) net w =
      (.ok (), { w with disk := cleared w.disk (workNames package) }) :=
    run_cleanUp (text_workPath package) (workNames_isName package) usable
  have made : changing (Location.text (workNames package))
      (fun d => d.ensureDirectory (workNames package)) net
      { w with disk := cleared w.disk (workNames package) } =
        (.ok (), { w with disk := prepared w.disk package }) := by
    rw [run_changing (noNul_text (workNames_isName package) fun name mem =>
      (workNames_plain package name mem).2), ensured]
    rfl
  obtain ⟨outcome, w', run, grows, -⟩ : ∃ outcome w',
      retrieve maxFiles url package entropies net { w with disk := prepared w.disk package } =
        (outcome, w') ∧ (prepared w.disk package).Grows w'.disk ∧
          Retrieved net url package outcome := retrieve_ends fresh noLinks short
  have after : cleanUp (workPath .standard package) net w' =
      (.ok (), { w' with disk := cleared w'.disk (workNames package) }) :=
    run_cleanUp (text_workPath package) (workNames_isName package)
      ((grows.isLaid fresh.isLaid).usable (workNames_short short) usable.makeable.fits)
  rw [analyze_eq given _ cleaned, Session.bind_of_ok made, Session.run_thenAlways run after, run]

/-- A retrieval ends with a failure that is not about the archive just where an input escapes. -/
theorem analyze_ends (given : url.isEmpty = false) (workable : IsWorkable w.disk package) :
    Retrieved net url package (analyze (listing maxFiles) url package entropies net w).1 := by
  rcases lt_or_ge nameLimit (directoryName package).utf8ByteSize with long | short
  · obtain ⟨cause, failed⟩ : ∃ cause,
        (analyze (listing maxFiles) url package entropies net w).1 = .error (.fault cause) :=
      analyze_of_long given workable.tree.noLinks long
    rw [failed]
    exact .failed (iff_of_true rfl (.package long))
  · obtain ⟨-, fresh, noLinks⟩ := isFresh_prepared workable short
    obtain ⟨outcome, w', run, -, retrieved⟩ : ∃ outcome w',
        retrieve maxFiles url package entropies net { w with disk := prepared w.disk package } =
          (outcome, w') ∧ (prepared w.disk package).Grows w'.disk ∧
            Retrieved net url package outcome := retrieve_ends fresh noLinks short
    rw [run_analyze given workable short, run]
    exact retrieved

end PackageRisk.Archive
