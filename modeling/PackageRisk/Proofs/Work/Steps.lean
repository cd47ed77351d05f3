import PackageRisk.Archive.Retrieve
import PackageRisk.Proofs.Archive.WorkDirectory
import PackageRisk.Proofs.Disk.Entering
import PackageRisk.Proofs.Fetch
import PackageRisk.Proofs.Work.Basic

/-!
# Retrieving an archive step by step

The retrieval of an archive as work that others may interrupt: between any two looks at the disk,
and between a look and a change, others may have their turn. Where nobody interrupts it, it ends
like the retrieval as a whole and leaves the same disk (`run_retrieval`).
-/

namespace PackageRisk.Work

variable {d d' : Disk}

/-! ## Directories and files -/

def makeDirectory (names : List String) : Work SystemFault Unit :=
  change (·.makeDirectory names)

def write (names : List String) (content : ByteArray) : Work SystemFault Unit :=
  change (·.write names content)

def isThere {ε : Type} (names : List String) : Work ε Bool :=
  see (·.isThere names)

/-- Makes a directory, its names last one first, and before it those that lead to it. -/
def makePath : (reversed : List String) → Work SystemFault Unit
  | [] => .ended (.error .alreadyThere)
  | name :: above =>
    if above.isEmpty then makeDirectory (name :: above).reverse
    else do
      if ← isThere above.reverse then makeDirectory (name :: above).reverse
      else (makePath above).followedBy fun
        | .error .alreadyThere | .ok () =>
          if name == "." then pure () else makeDirectory (name :: above).reverse
        | .error e => .ended (.error e)

/-- What a failed attempt to make a directory comes to on a disk. -/
def unlessThere (names : List String) (e : SystemFault) (d : Disk) : Except SystemFault Unit :=
  match d.entryAt? names with
  | some .directory => .ok ()
  | _ => .error e

/-- That a directory could not be made is no fault if names lead to one. -/
def unlessDirectory (names : List String) (outcome : Except SystemFault Unit) :
    Work SystemFault Unit :=
  match outcome with
  | .ok () => pure ()
  | .error e => look (unlessThere names e)

/-- Makes sure of a directory, its names last one first, and before it of those above. -/
def ensurePath : (reversed : List String) → Work SystemFault Unit
  | [] => pure ()
  | name :: above =>
    let names := (name :: above).reverse
    (makeDirectory names).followedBy fun
      | .error .absent => do
        ensurePath above
        (makeDirectory names).followedBy (unlessDirectory names)
      | outcome => unlessDirectory names outcome

@[simp]
theorem run_makeDirectory (names : List String) :
    (makeDirectory names).run d = d.makeDirectory names := rfl

@[simp]
theorem run_write (names : List String) (content : ByteArray) :
    (write names content).run d = d.write names content := rfl

theorem run_makePath (reversed : List String) :
    (makePath reversed).run d = d.makePath reversed := by
  induction reversed generalizing d with
  | nil => rfl
  | cons name above ih =>
    rw [makePath, Disk.makePath]
    by_cases first : above.isEmpty = true
    · rw [if_pos first, first, Bool.true_or, if_pos rfl]
      rfl
    · rw [if_neg first, Bool.eq_false_iff.2 first, Bool.false_or, isThere,
        run_see_bind]
      by_cases there : d.isThere above.reverse = true
      · rw [if_pos there, if_pos there]
        rfl
      · rw [if_neg there, if_neg there, run_followedBy, ih]
        rcases d.makePath above with ⟨e | _, later⟩
        · cases e
          case alreadyThere =>
            dsimp only
            split_ifs <;> rfl
          all_goals rfl
        · dsimp only
          split_ifs <;> rfl

theorem run_unlessDirectory (names : List String) (outcome : Except SystemFault Unit) :
    (unlessDirectory names outcome).run d = Disk.unlessDirectory names (outcome, d) := by
  rcases outcome with e | _
  · rw [unlessDirectory, run_look, unlessThere, Disk.unlessDirectory]
    rcases d.entryAt? names with _ | (_ | _ | _) <;> rfl
  · rfl

theorem run_ensurePath (reversed : List String) :
    (ensurePath reversed).run d = d.ensurePath reversed := by
  induction reversed generalizing d with
  | nil => rfl
  | cons name above ih =>
    rw [ensurePath, Disk.ensurePath, run_followedBy, run_makeDirectory]
    rcases d.makeDirectory (name :: above).reverse with ⟨e | _, later⟩
    · cases e
      case absent =>
        dsimp only
        rcases ensured : later.ensurePath above with ⟨e | _, later'⟩
        · rw [run_bind_of_error ((ih).trans ensured)]
        · rw [run_bind_of_ok ((ih).trans ensured), run_followedBy, run_makeDirectory,
            run_unlessDirectory]
      all_goals exact run_unlessDirectory _ _
    · exact run_unlessDirectory _ _

/-! ## Extraction -/

open Archive (namesOf)

def makeRoom (names : List String) : Work SystemFault Unit := do
  if ← isThere names.dropLast then pure () else makePath names.dropLast.reverse

def writeMember (root : Location) (m : Tar.Member) : Work SystemFault Unit :=
  let names := namesOf root m.name
  match m.kind with
  | .other => pure ()
  | .file => do
    makeRoom names
    write names m.content
  | .directory => do
    makeRoom names
    (makeDirectory names).followedBy fun
      | .error .alreadyThere => unlessDirectory names (.error .alreadyThere)
      | outcome => .ended outcome

def writeMembers (root : Location) : List Tar.Member → Work SystemFault Unit
  | [] => pure ()
  | m :: rest => do
    writeMember root m
    writeMembers root rest

def checkNames (root : Location) : List Tar.Member → Work Failure Unit
  | [] => pure ()
  | m :: rest => do
    look fun d => Archive.checkName d root m.name
    checkNames root rest

def extract (root : Location) (ms : List Tar.Member) : Work Failure Unit := do
  checkNames root ms
  (writeMembers root ms).mapError fun e => .extraction e.reason

def extractArchive (root : Location) (content : ByteArray) : Work Failure Unit :=
  match Archive.members content with
  | .error defect => .ended (.error (.extraction defect.message))
  | .ok ms => extract root ms

variable {root : Location}

theorem run_makeRoom (names : List String) :
    (makeRoom names).run d = Archive.makeRoom d names := by
  rw [makeRoom, Archive.makeRoom, isThere, run_see_bind]
  split_ifs
  · rfl
  · exact run_makePath _

theorem run_writeMember (m : Tar.Member) :
    (writeMember root m).run d = Archive.writeMember d root m := by
  unfold writeMember Archive.writeMember
  dsimp only
  cases m.kind with
  | other => rfl
  | file =>
    dsimp only
    rcases room : Archive.makeRoom d (namesOf root m.name) with ⟨e | _, later⟩
    · rw [run_bind_of_error ((run_makeRoom _).trans room)]
    · rw [run_bind_of_ok ((run_makeRoom _).trans room)]
      rfl
  | directory =>
    dsimp only
    rcases room : Archive.makeRoom d (namesOf root m.name) with ⟨e | _, later⟩
    · rw [run_bind_of_error ((run_makeRoom _).trans room)]
    · rw [run_bind_of_ok ((run_makeRoom _).trans room), run_followedBy, run_makeDirectory]
      dsimp only
      rcases later.makeDirectory (namesOf root m.name) with ⟨e | _, later'⟩
      · cases e
        case alreadyThere => exact run_unlessDirectory _ _
        all_goals rfl
      · rfl

theorem run_writeMembers (ms : List Tar.Member) :
    (writeMembers root ms).run d = Archive.writeMembers d root ms := by
  induction ms generalizing d with
  | nil => rfl
  | cons m rest ih =>
    rw [writeMembers, Archive.writeMembers]
    rcases first : Archive.writeMember d root m with ⟨e | _, later⟩
    · rw [run_bind_of_error ((run_writeMember m).trans first)]
    · rw [run_bind_of_ok ((run_writeMember m).trans first), ih]

theorem run_checkNames (ms : List Tar.Member) :
    (checkNames root ms).run d = (Archive.checkNames d root ms, d) := by
  induction ms with
  | nil => rfl
  | cons m rest ih =>
    rw [checkNames, Archive.checkNames]
    rcases first : Archive.checkName d root m.name with e | _
    · rw [run_bind_of_error ((run_look _).trans (by rw [first]))]
      rfl
    · rw [run_bind_of_ok ((run_look _).trans (by rw [first])), ih]
      rfl

theorem run_extract (ms : List Tar.Member) :
    (extract root ms).run d = Archive.extract d root ms := by
  rw [extract, Archive.extract]
  rcases checked : Archive.checkNames d root ms with e | _
  · rw [run_bind_of_error ((run_checkNames ms).trans (by rw [checked]))]
  · rw [run_bind_of_ok ((run_checkNames ms).trans (by rw [checked])), run_mapError,
      run_writeMembers]
    rcases Archive.writeMembers d root ms with ⟨e | _, later⟩ <;> rfl

theorem run_extractArchive (content : ByteArray) :
    (extractArchive root content).run d = Archive.extractArchive d root content := by
  unfold extractArchive Archive.extractArchive
  rcases Archive.members content with defect | ms
  · rfl
  · exact run_extract ms

/-! ## Inspection -/

open Archive (PackageFile)

def readInside (root : List String) (path : String) : Work Failure ByteArray := do
  let l ← look fun d => Archive.resolveInside d root path
  look fun d => (d.read l).mapError fun e => .unreadableFile path (e.report (Location.text l))

def fileEntropy (root : Location) (path : String) : Work Failure (Option Binary64) :=
  if !Archive.isScript path then pure none
  else do
    let content ← readInside root path
    return some (entropy (content.extract 0 Archive.sampleSize).toList)

def describe (root : Location) (entropies : Bool) :
    List PackageFile → Work Failure (List ArchiveFile)
  | [] => pure []
  | f :: rest => do
    let measured ← if entropies then fileEntropy root f.path else pure none
    return ⟨f.path, f.size, measured⟩ :: (← describe root entropies rest)

def inspect (l : Location) (maxFiles archiveSize : Int) (entropies : Bool) :
    Work Failure ArchiveSummary := do
  let root ← see fun d => Archive.packageRoot d l
  let files ← see fun d => Archive.filesOf d root
  let largestFiles ← describe root entropies (Archive.firstOf maxFiles files)
  let hasManifest ← see fun d => Archive.hasManifest d root
  return { hasManifest, largestFiles, totalFiles := files.length, archiveSize }

/-- What a work comes to that only looks at the disk. -/
theorem run_bind_of_looks {ε α β : Type} {w : Work ε α} {outcome : Except ε α}
    {f : α → Work ε β} {g : α → Except ε β} (first : w.run d = (outcome, d))
    (later : ∀ a, (f a).run d = (g a, d)) : (w >>= f).run d = (outcome >>= g, d) := by
  rcases outcome with e | a
  · exact run_bind_of_error first
  · rw [run_bind_of_ok first]
    exact later a

theorem run_readInside (path : String) :
    (readInside root path).run d = (Archive.readInside d root path, d) := by
  refine run_bind_of_looks (run_look _) fun l => ?_
  rw [run_look]
  rcases d.read l with e | content <;> rfl

theorem run_fileEntropy (path : String) :
    (fileEntropy root path).run d = (Archive.fileEntropy d root path, d) := by
  unfold fileEntropy Archive.fileEntropy
  split_ifs
  · rfl
  · exact run_bind_of_looks (run_readInside path) fun _ => rfl

theorem run_describe (entropies : Bool) (files : List PackageFile) :
    (describe root entropies files).run d = (Archive.describe d root entropies files, d) := by
  induction files with
  | nil => rfl
  | cons f rest ih =>
    unfold describe Archive.describe
    split_ifs
    · refine run_bind_of_looks (run_fileEntropy f.path) fun measured => ?_
      exact run_bind_of_looks ih fun _ => rfl
    · have unmeasured : (pure none : Work Failure (Option Binary64)).run d = (.ok none, d) := rfl
      exact run_bind_of_looks unmeasured fun _ => run_bind_of_looks ih fun _ => rfl

theorem run_inspect (l : Location) (maxFiles archiveSize : Int) (entropies : Bool) :
    (inspect l maxFiles archiveSize entropies).run d =
      (Archive.inspect d l maxFiles archiveSize entropies, d) := by
  unfold inspect
  rw [run_see_bind, run_see_bind]
  exact run_bind_of_looks (run_describe entropies _) fun _ => rfl

/-! ## Retrieval -/

open Archive (archiveName extractName directoryName tempNames workPath)

/-- Keeps what comes in chunks: before each chunk all that was held is in the file. -/
def receive (limit : Int) (file : List String) (held : ByteArray) :
    List ByteArray → Work SystemFault (Bool × ByteArray)
  | [] => do
    write file held
    return (true, held)
  | chunk :: rest => do
    write file held
    if limit < held.size + chunk.size then return (false, held)
    else receive limit file (held ++ chunk) rest

/-- Work whose faults are those of a path. -/
def changing {α : Type} (path : String) (w : Work SystemFault α) : Work Failure α :=
  if path.toList.contains '\x00' then .ended (.error (.fault (.wrongValue "embedded null byte")))
  else w.mapError fun e => .fault (.system e path)

def cleanUp (path : String) (names : List String) : Work Failure Unit :=
  (look (·.enter names)).followedBy fun
    | .ok _ => change fun d => (.ok (), d.removeTree names)
    | .error .nameTooLong => .ended (.error (.fault (.system .nameTooLong path)))
    | .error _ => pure ()

/-- Downloads an archive, given what the network answered. -/
def download (settings : ArchiveSettings) (url : String) (reply : Except Failure Reply)
    (file : List String) : Work Failure Nat :=
  match Url.parts? url with
  | none => .ended (.error (.fault (Archive.splitFault url)))
  | some parts =>
    if !Url.isWebScheme parts.scheme then .ended (.error (.download (.scheme parts.scheme)))
    else if settings.timeout.le 0 then .ended (.error (.downloadTimeout url settings.timeout))
    else do
      match ← Work.ended reply with
      | .response status _ chunks =>
        if !isSuccess status then .ended (.error (.download (.status status)))
        else do
          let (complete, held) ←
            changing (Location.text file) (receive settings.maxArchiveSize file .empty chunks)
          if complete then return held.size
          else .ended (.error (.download (.tooLarge settings.maxArchiveSize)))
      | .timeout _ | .silence => .ended (.error (.downloadTimeout url settings.timeout))
      | .broken detail => .ended (.error (.download (.transport detail)))

/-- The whole archive that an answer of the network brings. -/
def Delivers (settings : ArchiveSettings) (reply : Except Failure Reply) (content : ByteArray) :
    Prop :=
  ∃ status location chunks, reply = .ok (.response status location chunks) ∧ isSuccess status ∧
    Archive.receive settings.maxArchiveSize .empty chunks = (true, content)

def unpack (settings : ArchiveSettings) (file target : List String) (size : Nat)
    (entropies : Bool) : Work Failure ArchiveSummary := do
  changing (Location.text target) (ensurePath target.reverse)
  let root ← look fun d => (d.resolve target).mapError .fault
  let content ← look fun d => (d.read file).mapError fun e => .extraction e.reason
  extractArchive root content
  inspect root settings.maxLargestFiles size entropies

/-- Retrieves the archive of a package below the directory that names lead to, given what the
network answered. -/
def analysis (settings : ArchiveSettings) (reply : Except Failure Reply) (names : List String)
    (url package : String) (entropies : Bool) : Work Failure ArchiveSummary :=
  if url.isEmpty then .ended (.error .missingUrl)
  else do
    let path := (workPath settings package).text
    cleanUp path names
    changing path (ensurePath names.reverse)
    let retrieved : Work Failure ArchiveSummary := do
      let size ← download settings url reply (names ++ [archiveName])
      unpack settings (names ++ [archiveName]) (names ++ [extractName]) size entropies
    retrieved.followedBy fun outcome => do
      cleanUp path names
      .ended outcome

/-- Work in a directory that was made for it: the archive is downloaded and unpacked there, and the
directory is removed. -/
def visit (settings : ArchiveSettings) (reply : Except Failure Reply) (names : List String)
    (url path : String) (entropies : Bool) : Work Failure ArchiveSummary :=
  Work.followedBy (do
    let size ← download settings url reply (names ++ [archiveName])
    unpack settings (names ++ [archiveName]) (names ++ [extractName]) size entropies)
  fun outcome => do
    cleanUp path names
    .ended outcome

theorem analysis_eq {settings : ArchiveSettings} {reply : Except Failure Reply}
    {names : List String} {url package : String} {entropies : Bool} (given : url ≠ "") :
    analysis settings reply names url package entropies = (do
      cleanUp (workPath settings package).text names
      changing (workPath settings package).text (ensurePath names.reverse)
      visit settings reply names url (workPath settings package).text entropies) :=
  if_neg (by simpa using given)

/-! ## Against sessions -/

variable {α β : Type} {net : Network} {home : Location}

/-- A work does to the disk what a session does, and ends like it. -/
def Performs (u : Work Failure α) (s : Session α) (net : Network) (home : Location) : Prop :=
  ∀ w, w.home = home →
    u.run w.disk = ((s net w).1, (s net w).2.disk) ∧ (s net w).2.home = home

theorem Performs.bind {u : Work Failure α} {s : Session α} {f : α → Work Failure β}
    {g : α → Session β} (first : Performs u s net home)
    (later : ∀ a, Performs (f a) (g a) net home) : Performs (u >>= f) (s >>= g) net home := by
  intro w atHome
  obtain ⟨run, stays⟩ := first w atHome
  rcases session : s net w with ⟨e | a, w'⟩
  · rw [session] at run stays
    rw [run_bind_of_error run, Session.bind_of_error session]
    exact ⟨rfl, stays⟩
  · rw [session] at run stays
    rw [run_bind_of_ok run, Session.bind_of_ok session]
    exact later a w' stays

theorem performs_lift (outcome : Except Failure α) :
    Performs (.ended outcome) (Session.lift outcome) net home := by
  intro w atHome
  rw [Session.run_lift]
  exact ⟨rfl, atHome⟩

theorem performs_fail (e : Failure) :
    Performs (.ended (.error e)) (Session.fail e : Session α) net home :=
  performs_lift _

/-- What a network answers for a URL. -/
def fetched (net : Network) (url : String) : Except Failure Reply :=
  (Session.fetch true url net default).1

theorem performs_fetch (url : String) :
    Performs (.ended (fetched net url)) (Session.fetch true url) net home := by
  intro w atHome
  obtain ⟨outcome, ends, -⟩ : (Session.fetch true url).Settles net :=
    Session.fetch_settles true url
  obtain ⟨w', run, disk, stays⟩ := ends w
  rw [fetched, ends.outcome_eq, run, run_ended]
  exact ⟨by rw [disk], stays.trans atHome⟩

theorem performs_changing {path : String} {u : Work SystemFault α} {step : Disk → Disk.Changed}
    {f : α → Work Failure β} {s : Session β} (a : α)
    (same : ∀ d, u.run d = ((step d).1.map fun _ => a, (step d).2))
    (later : Performs (f a) s net home) :
    Performs (changing path u >>= f) (Archive.changing path step >>= fun _ => s) net home := by
  intro w atHome
  by_cases nul : Disk.HasNul path
  · have contains : path.toList.contains '\x00' = true := by simpa [Disk.HasNul] using nul
    have failed : Archive.changing path step net w =
        (.error (.fault (.wrongValue "embedded null byte")), w) := by
      unfold Archive.changing
      rw [Session.bind_of_ok rfl, if_pos contains]
      rfl
    rw [Session.bind_of_error failed]
    unfold changing
    rw [if_pos contains]
    exact ⟨rfl, atHome⟩
  · have run : (changing path u).run w.disk = (((step w.disk).1.map fun _ => a).mapError
        fun e => .fault (.system e path), (step w.disk).2) := by
      unfold changing
      rw [if_neg (by simpa [Disk.HasNul] using nul), run_mapError, same]
    have session : Archive.changing path step net w = _ := Archive.run_changing nul step
    rcases changed : step w.disk with ⟨e | _, later'⟩
    · rw [changed] at run session
      rw [run_bind_of_error run, Session.bind_of_error session]
      exact ⟨rfl, atHome⟩
    · rw [changed] at run session
      rw [run_bind_of_ok run, Session.bind_of_ok session]
      exact later { w with disk := later' } atHome

theorem performs_ensureDirectory {path : String} {names : List String} {u : Work Failure β}
    {s : Session β} (later : Performs u s net home) :
    Performs (changing path (ensurePath names.reverse) >>= fun _ => u)
      (Archive.changing path (fun d => d.ensureDirectory names) >>= fun _ => s) net home := by
  refine performs_changing () (fun d => ?_) later
  rw [run_ensurePath]
  show d.ensureDirectory names = _
  rcases d.ensureDirectory names with ⟨e | _, later⟩ <;> rfl

theorem Performs.thenAlways {u : Work Failure α} {s : Session α} {last : Work Failure Unit}
    {last' : Session Unit} (performs : Performs u s net home)
    (always : Performs last last' net home) :
    Performs (u.followedBy fun outcome => last >>= fun _ => .ended outcome) (s.thenAlways last')
      net home := by
  intro w atHome
  obtain ⟨run, stays⟩ := performs w atHome
  have after := (always.bind fun _ => performs_lift (s net w).1) (s net w).2 stays
  rw [run_followedBy, run, Session.thenAlways, Session.bind_of_ok (Session.run_attempt s)]
  exact after

theorem performs_cleanUp (settings : ArchiveSettings) (package : String) :
    Performs (cleanUp (workPath settings package).text
        (tempNames settings home ++ [directoryName package]))
      (Archive.cleanUp (workPath settings package)) net home := by
  intro w atHome
  unfold Archive.cleanUp cleanUp
  rw [Session.bind_of_ok (Archive.run_namesOf_workPath settings package), Session.bind_of_ok rfl,
    run_followedBy, run_look, atHome]
  rcases w.disk.enter (tempNames settings home ++ [directoryName package]) with e | l
  · cases e <;> exact ⟨rfl, atHome⟩
  · exact ⟨rfl, atHome⟩

theorem run_receive {limit : Int} {file : List String} (held : ByteArray)
    (chunks : List ByteArray) :
    (receive limit file held chunks).run d =
      ((d.write file (Archive.receive limit held chunks).2).1.map fun _ =>
          Archive.receive limit held chunks,
        (d.write file (Archive.receive limit held chunks).2).2) := by
  induction chunks generalizing d held with
  | nil =>
    rw [receive, Archive.receive]
    rcases written : d.write file held with ⟨e | _, later⟩
    · rw [run_bind_of_error ((run_write _ _).trans written)]
      rfl
    · rw [run_bind_of_ok ((run_write _ _).trans written)]
      rfl
  | cons chunk rest ih =>
    rw [receive]
    rcases Disk.write_inv d file with ⟨e, fails⟩ | ⟨l, -, -, writes⟩
    · rw [run_bind_of_error ((run_write _ _).trans (fails held)), fails]
      rfl
    · have written := (writes held).1
      rw [run_bind_of_ok ((run_write _ _).trans written), Archive.receive]
      split_ifs with above
      · rw [written]
        rfl
      · rw [ih, Disk.write_write written]

theorem performs_download (settings : ArchiveSettings) (url : String) (file : List String) :
    Performs (download settings url (fetched net url) file) (Archive.download settings url file)
      net home := by
  unfold download Archive.download
  rcases Url.parts? url with _ | parts
  · exact performs_fail _
  dsimp only
  split_ifs
  · exact performs_fail _
  · exact performs_fail _
  refine (performs_fetch url).bind fun reply => ?_
  cases reply with
  | response status location chunks =>
    dsimp only
    by_cases success : isSuccess status = true
    · rw [if_neg (by simp [success]), if_neg (by simp [success])]
      refine performs_changing _ (fun d => run_receive .empty chunks) ?_
      split_ifs
      · exact performs_lift (.ok _)
      · exact performs_fail _
    · rw [if_pos (by simpa using success), if_pos (by simpa using success)]
      exact performs_fail _
  | timeout detail => exact performs_fail _
  | silence => exact performs_fail _
  | broken detail => exact performs_fail _

theorem performs_unpack (settings : ArchiveSettings) (file target : List String) (size : Nat)
    (entropies : Bool) :
    Performs (unpack settings file target size entropies)
      (Archive.unpack settings file target size entropies) net home := by
  refine performs_ensureDirectory fun w atHome => ?_
  rw [Session.bind_of_ok rfl]
  rcases resolved : w.disk.resolve target with e | root
  · rw [run_bind_of_error ((run_look _).trans (by rw [resolved]; rfl))]
    exact ⟨rfl, atHome⟩
  rw [run_bind_of_ok ((run_look _).trans (by rw [resolved]; rfl)), Session.bind_of_ok rfl]
  rcases readable : w.disk.read file with e | content
  · rw [run_bind_of_error ((run_look _).trans (by rw [readable]; rfl))]
    exact ⟨rfl, atHome⟩
  rw [run_bind_of_ok ((run_look _).trans (by rw [readable]; rfl))]
  have extracts : (extractArchive root content).run w.disk = _ := run_extractArchive content
  dsimp only
  rcases extracted : Archive.extractArchive w.disk root content with ⟨e | _, later⟩
  · rw [extracted] at extracts
    rw [run_bind_of_error extracts]
    exact ⟨rfl, atHome⟩
  · rw [extracted] at extracts
    rw [run_bind_of_ok extracts, run_inspect, Session.bind_of_ok rfl, Session.bind_of_ok rfl,
      Session.run_lift]
    exact ⟨rfl, atHome⟩

/-- Where nobody interrupts it, the retrieval step by step does to the disk what the retrieval as
a whole does, and ends like it. -/
theorem performs_analysis (settings : ArchiveSettings) (url package : String) (entropies : Bool) :
    Performs (analysis settings (fetched net url)
        (tempNames settings home ++ [directoryName package]) url package entropies)
      (Archive.analyze settings url package entropies) net home := by
  unfold analysis Archive.analyze
  split_ifs
  · exact performs_fail _
  refine (performs_cleanUp settings package).bind fun _ w atHome => ?_
  rw [Session.bind_of_ok (Archive.run_namesOf_workPath settings package), atHome]
  refine performs_ensureDirectory (Performs.thenAlways ?_ ?_) w atHome
  · exact (performs_download settings url _).bind fun size => performs_unpack _ _ _ _ _
  · exact performs_cleanUp settings package

/-- The retrieval of the archive of a package. -/
def retrieval (settings : ArchiveSettings) (net : Network) (home : Location) (url package : String)
    (entropies : Bool) : Work Failure ArchiveSummary :=
  analysis settings (fetched net url) (tempNames settings home ++ [directoryName package]) url
    package entropies

/-- The outcome of a retrieval and the disk afterwards are those of its steps. -/
theorem run_retrieval (settings : ArchiveSettings) (url package : String) (entropies : Bool)
    (w : Workspace) :
    (retrieval settings net w.home url package entropies).run w.disk =
      ((Archive.analyze settings url package entropies net w).1,
        (Archive.analyze settings url package entropies net w).2.disk) :=
  (performs_analysis settings url package entropies w rfl).1

end PackageRisk.Work
