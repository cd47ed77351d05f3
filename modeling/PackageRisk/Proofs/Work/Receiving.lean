import PackageRisk.Proofs.Work.Steps

/-!
# Downloads within a limit

A body arrives in chunks. Each of them is counted before it is written, so a body is kept whole or
up to the first chunk that would bring it above the limit (`receives`). From the moment at which the
file is opened it never holds more than the limit (`disks_receive`), and how a download ends depends
on the body alone, not on how it is split (`download_bounded`).
-/

namespace PackageRisk

namespace Work

variable {ε δ α β : Type} {d d' : Disk}

/-! ## The disks on the way -/

/-- The disks that a work leaves, one after each of its steps, where nobody interrupts it. -/
def disks : Work ε α → Disk → List Disk
  | .ended _, _ => []
  | .step change next, d => change d :: (next d).disks (change d)

theorem disks_followedBy (w : Work ε α) (f : Except ε α → Work δ β) :
    (w.followedBy f).disks d = w.disks d ++ (f (w.run d).1).disks (w.run d).2 := by
  induction w generalizing d with
  | ended outcome => rfl
  | step change next ih => exact congrArg (change d :: ·) (ih d)

theorem disks_mapError (f : ε → δ) (w : Work ε α) : (w.mapError f).disks d = w.disks d := by
  show (w.followedBy _).disks d = _
  rw [disks_followedBy]
  exact List.append_nil _

theorem disks_bind_of_ok {w : Work ε α} {f : α → Work ε β} {a : α}
    (first : w.run d = (.ok a, d')) : (w >>= f).disks d = w.disks d ++ (f a).disks d' := by
  show (w.followedBy _).disks d = _
  rw [disks_followedBy, first]

theorem disks_bind_of_error {w : Work ε α} {f : α → Work ε β} {e : ε}
    (first : w.run d = (.error e, d')) : (w >>= f).disks d = w.disks d := by
  show (w.followedBy _).disks d = _
  rw [disks_followedBy, first]
  exact List.append_nil _

/-- What only decides how a work ends leaves no more disks. -/
theorem disks_bind_of_ends {w : Work ε α} {f : α → Work ε β}
    (ends : ∀ a, ∃ outcome, f a = .ended outcome) : (w >>= f).disks d = w.disks d := by
  rcases first : w.run d with ⟨e | a, d'⟩
  · exact disks_bind_of_error first
  · obtain ⟨outcome, last⟩ := ends a
    rw [disks_bind_of_ok first, last]
    exact List.append_nil _

/-- The last one is the disk that is left in the end. -/
theorem getLastD_disks (w : Work ε α) : (w.disks d).getLastD d = (w.run d).2 := by
  induction w generalizing d with
  | ended outcome => rfl
  | step change next ih =>
    rw [disks, List.getLastD_cons, ih]
    rfl

end Work

namespace Archive

open Disk

/-! ## Bodies in chunks -/

/-- The body that chunks make up. -/
def body : List ByteArray → ByteArray
  | [] => .empty
  | chunk :: rest => chunk ++ body rest

theorem body_append (before rest : List ByteArray) :
    body (before ++ rest) = body before ++ body rest := by
  induction before with
  | nil => simp [body]
  | cons chunk before ih => simp [body, ih, ByteArray.append_assoc]

/-- How the reception of chunks ends on top of what is held: all of them are kept, or those before
the first one that would bring the whole above the limit. -/
inductive Receives (limit : Int) (held : ByteArray) (chunks : List ByteArray) :
    Bool × ByteArray → Prop
  | complete (fits : (held ++ body chunks).size ≤ limit) :
    Receives limit held chunks (true, held ++ body chunks)
  | aborted {before rest : List ByteArray} {chunk : ByteArray}
    (cut : chunks = before ++ chunk :: rest) (fits : (held ++ body before).size ≤ limit)
    (above : limit < (held ++ body (before ++ [chunk])).size) :
    Receives limit held chunks (false, held ++ body before)

/-- One more chunk that fits is held first. -/
theorem Receives.cons {limit : Int} {held chunk : ByteArray} {chunks : List ByteArray}
    {result : Bool × ByteArray} (receives : Receives limit (held ++ chunk) chunks result) :
    Receives limit held (chunk :: chunks) result := by
  have assoc (more : List ByteArray) : held ++ chunk ++ body more = held ++ body (chunk :: more) :=
    ByteArray.append_assoc
  cases receives with
  | complete fits =>
    rw [assoc] at fits ⊢
    exact .complete fits
  | aborted cut fits above =>
    rw [assoc] at fits above ⊢
    exact .aborted (congrArg (chunk :: ·) cut) fits above

theorem receives {limit : Int} {held : ByteArray} (start : held.size ≤ limit)
    (chunks : List ByteArray) : Receives limit held chunks (receive limit held chunks) := by
  induction chunks generalizing held with
  | nil =>
    have whole : held ++ body [] = held := ByteArray.append_empty
    show Receives limit held [] (true, held)
    conv => rhs; rw [← whole]
    exact .complete (by rwa [whole])
  | cons chunk rest ih =>
    rw [receive]
    split_ifs with above
    · have none : held ++ body [] = held := ByteArray.append_empty
      conv => rhs; rw [← none]
      refine .aborted (rfl : chunk :: rest = [] ++ chunk :: rest) (by rwa [none]) ?_
      simpa [body, ByteArray.size_append] using above
    · refine (ih ?_).cons
      rw [ByteArray.size_append]
      omega

/-- From nothing on, a body is held as a whole if it is within the limit; if not, what is held is
that of the chunks before the first that brings it above. -/
theorem receive_empty {limit : Int} (nonneg : 0 ≤ limit) (chunks : List ByteArray) :
    (receive limit .empty chunks).1 = decide ((body chunks).size ≤ limit) ∧
      ((body chunks).size ≤ limit → (receive limit .empty chunks).2 = body chunks) ∧
      (limit < (body chunks).size → ∃ before chunk rest, chunks = before ++ chunk :: rest ∧
        limit < (body (before ++ [chunk])).size ∧
        (receive limit .empty chunks).2 = body before) := by
  have ends : Receives limit .empty chunks (receive limit .empty chunks) := receives nonneg chunks
  generalize receive limit .empty chunks = result at ends ⊢
  cases ends with
  | complete fits =>
    rw [ByteArray.empty_append] at fits ⊢
    exact ⟨(decide_eq_true fits).symm, fun _ => rfl, fun above => by omega⟩
  | @aborted before rest chunk cut fits above =>
    rw [ByteArray.empty_append] at above ⊢
    have exceeds : ¬((body chunks).size : Int) ≤ limit := by
      rw [cut, ← List.singleton_append, ← List.append_assoc, body_append, ByteArray.size_append]
      omega
    exact ⟨(decide_eq_false exceeds).symm, fun within => absurd within exceeds,
      fun _ => ⟨before, chunk, rest, cut, above, rfl⟩⟩

/-! ## The file -/

/-- A file that cannot be opened, whatever is to be written to it. -/
inductive Refuses (d : Disk) (file : List String) : Fault → Prop
  | nul (nul : HasNul (Location.text file)) : Refuses d file (.wrongValue "embedded null byte")
  | closed {e : SystemFault} (noNul : ¬HasNul (Location.text file))
    (fails : ∀ content, d.write file content = (.error e, d)) :
    Refuses d file (.system e (Location.text file))

/-- A file that can be opened. -/
structure Admits (d : Disk) (file : List String) : Prop where
  noNul : ¬HasNul (Location.text file)
  writes : ∀ content, ∃ d', d.write file content = (.ok (), d')

theorem refuses_or_admits (d : Disk) (file : List String) :
    (∃ cause, Refuses d file cause) ∨ Admits d file := by
  by_cases nul : HasNul (Location.text file)
  · exact .inl ⟨_, .nul nul⟩
  · obtain ⟨e, fails⟩ | ⟨l, -, -, writes⟩ := write_inv d file
    · exact .inl ⟨_, .closed nul fails⟩
    · exact .inr ⟨nul, fun content => ⟨_, (writes content).1⟩⟩

theorem Admits.write {d d' : Disk} {file : List String} {content : ByteArray}
    (admits : Admits d file) (written : d.write file content = (.ok (), d')) : Admits d' file := by
  refine ⟨admits.noNul, fun later => ?_⟩
  rw [write_write written]
  exact admits.writes later

theorem Admits.not_refuses {d : Disk} {file : List String} {cause : Fault}
    (admits : Admits d file) : ¬Refuses d file cause := by
  intro refuses
  cases refuses with
  | nul nul => exact admits.noNul nul
  | closed noNul fails =>
    obtain ⟨d', written⟩ := admits.writes .empty
    cases (fails .empty).symm.trans written

/-- The disk after a write that succeeds is the first on the way of what begins with it. -/
theorem mem_disks_write_bind {α : Type} {d next d' : Disk} {file : List String}
    {content : ByteArray} {f : Unit → Work SystemFault α}
    (written : d.write file content = (.ok (), next)) :
    d' ∈ (Work.write file content >>= f).disks d ↔ d' = next ∨ d' ∈ (f ()).disks next := by
  rw [Work.disks_bind_of_ok ((Work.run_write file content).trans written)]
  show d' ∈ [(d.write file content).2] ++ _ ↔ _
  rw [written, List.singleton_append, List.mem_cons]

/-- Whatever the chunks, the file never holds more than the limit once it is open. -/
theorem disks_receive {limit : Int} {d : Disk} {file : List String} {held : ByteArray}
    (admits : Admits d file) (start : held.size ≤ limit) (chunks : List ByteArray) :
    ∀ d' ∈ (Work.receive limit file held chunks).disks d,
      ∃ part : ByteArray, d'.read file = .ok part ∧ part.size ≤ limit := by
  induction chunks generalizing d held with
  | nil =>
    obtain ⟨next, written⟩ := admits.writes held
    intro d' mem
    rw [Work.receive, mem_disks_write_bind written] at mem
    obtain rfl | mem := mem
    · exact ⟨held, read_of_write written, start⟩
    · cases mem
  | cons chunk rest ih =>
    obtain ⟨next, written⟩ := admits.writes held
    intro d' mem
    rw [Work.receive, mem_disks_write_bind written] at mem
    obtain rfl | mem := mem
    · exact ⟨held, read_of_write written, start⟩
    · split_ifs at mem with above
      · cases mem
      · refine ih (admits.write written) ?_ d' mem
        rw [ByteArray.size_append]
        omega

/-! ## Downloads -/

variable {settings : ArchiveSettings} {net net' : Network} {url : String} {file : List String}
  {chunks chunks' : List ByteArray} {w : Workspace}

/-- A web address at which a response of success brings chunks in time. -/
structure Serves (settings : ArchiveSettings) (net : Network) (url : String)
    (chunks : List ByteArray) : Prop where
  web : ∃ parts, Url.parts? url = some parts ∧ Url.isWebScheme parts.scheme = true
  inTime : settings.timeout.le 0 = false
  response : ∃ status location, isSuccess status = true ∧
    (Session.fetch true url).Ends net (.ok (.response status location chunks))

/-- How a download ends, by what was received. -/
def told (limit : Int) : Bool × ByteArray → Except Failure Nat
  | (true, held) => .ok held.size
  | (false, _) => .error (.download (.tooLarge limit))

/-- How a download of a body ends. -/
def verdict (limit : Int) (content : ByteArray) : Except Failure Nat :=
  if content.size ≤ limit then .ok content.size else .error (.download (.tooLarge limit))

theorem told_receive {limit : Int} (nonneg : 0 ≤ limit) (chunks : List ByteArray) :
    told limit (receive limit .empty chunks) = verdict limit (body chunks) := by
  obtain ⟨complete, whole, -⟩ := receive_empty nonneg chunks
  generalize receive limit .empty chunks = received at complete whole ⊢
  obtain ⟨fits, held⟩ := received
  unfold verdict
  split_ifs with within
  · obtain rfl : fits = true := complete.trans (decide_eq_true within)
    exact congrArg (Except.ok ·.size) (whole within)
  · obtain rfl : fits = false := complete.trans (decide_eq_false within)
    rfl

/-- What a download does once its response is there. -/
def keep (settings : ArchiveSettings) (file : List String) (chunks : List ByteArray) :
    Session Nat :=
  let (complete, held) := receive settings.maxArchiveSize .empty chunks
  changing (Location.text file) (fun d => d.write file held) >>= fun _ =>
    if complete then pure held.size
    else Session.fail (.download (.tooLarge settings.maxArchiveSize))

theorem download_of_serves (serves : Serves settings net url chunks) (file : List String)
    (w : Workspace) :
    ∃ w', w'.disk = w.disk ∧
      download settings url file net w = keep settings file chunks net w' := by
  obtain ⟨parts, split, web⟩ := serves.web
  obtain ⟨status, location, success, ends⟩ := serves.response
  obtain ⟨w', run, same, -⟩ := ends w
  refine ⟨w', same, ?_⟩
  unfold download
  rw [split]
  dsimp only
  rw [if_neg (by simp [web]), if_neg (by simp [serves.inTime]), Session.bind_of_ok run]
  dsimp only
  rw [if_neg (by simp [success])]
  rfl

theorem disks_download (serves : Serves settings net url chunks) (d : Disk) :
    (Work.download settings url (Work.fetched net url) file).disks d =
      (Work.changing (Location.text file)
        (Work.receive settings.maxArchiveSize file .empty chunks)).disks d := by
  obtain ⟨parts, split, web⟩ := serves.web
  obtain ⟨status, location, success, ends⟩ := serves.response
  have fetched : Work.fetched net url = .ok (.response status location chunks) :=
    ends.outcome_eq default
  unfold Work.download
  rw [split, fetched]
  dsimp only
  rw [if_neg (by simp [web]), if_neg (by simp [serves.inTime]), Work.ended_ok_bind]
  dsimp only
  rw [if_neg (by simp [success])]
  apply Work.disks_bind_of_ends
  intro received
  obtain ⟨complete, held⟩ := received
  cases complete with
  | true => exact ⟨.ok held.size, rfl⟩
  | false => exact ⟨.error (.download (.tooLarge settings.maxArchiveSize)), rfl⟩

theorem keep_of_refuses {cause : Fault} (refuses : Refuses w.disk file cause)
    (settings : ArchiveSettings) (chunks : List ByteArray) :
    keep settings file chunks net w = (.error (.fault cause), w) := by
  have changed (content : ByteArray) :
      changing (Location.text file) (fun d => d.write file content) net w =
        (.error (.fault cause), w) := by
    cases refuses with
    | nul nul =>
      have contains : (Location.text file).toList.contains '\x00' = true := by
        simpa [HasNul] using nul
      unfold changing
      rw [Session.bind_of_ok rfl, if_pos contains]
      rfl
    | closed noNul fails =>
      rw [run_changing noNul, fails]
      rfl
  unfold keep
  rcases receive settings.maxArchiveSize .empty chunks with ⟨complete, held⟩
  exact Session.bind_of_error (changed held)

theorem keep_of_admits (net : Network) (admits : Admits w.disk file) (settings : ArchiveSettings)
    (chunks : List ByteArray) :
    ∃ w', keep settings file chunks net w =
        (told settings.maxArchiveSize (receive settings.maxArchiveSize .empty chunks), w') ∧
      w.disk.write file (receive settings.maxArchiveSize .empty chunks).2 = (.ok (), w'.disk) := by
  unfold keep
  rcases receive settings.maxArchiveSize .empty chunks with ⟨complete, held⟩
  obtain ⟨d', written⟩ := admits.writes held
  have changed : changing (Location.text file) (fun d => d.write file held) net w =
      (.ok (), { w with disk := d' }) := by
    rw [run_changing admits.noNul, written]
    rfl
  refine ⟨{ w with disk := d' }, ?_, written⟩
  dsimp only
  rw [Session.bind_of_ok changed]
  cases complete with
  | true => rfl
  | false => rfl

theorem download_of_refuses {cause : Fault} (serves : Serves settings net url chunks)
    (refuses : Refuses w.disk file cause) :
    ∃ w', download settings url file net w = (.error (.fault cause), w') ∧ w'.disk = w.disk := by
  obtain ⟨w', same, runs⟩ := download_of_serves serves file w
  rw [← same] at refuses
  exact ⟨w', runs.trans (keep_of_refuses refuses settings chunks), same⟩

theorem download_of_admits (serves : Serves settings net url chunks) (admits : Admits w.disk file) :
    ∃ w', download settings url file net w =
        (told settings.maxArchiveSize (receive settings.maxArchiveSize .empty chunks), w') ∧
      w.disk.write file (receive settings.maxArchiveSize .empty chunks).2 = (.ok (), w'.disk) := by
  obtain ⟨w', same, runs⟩ := download_of_serves serves file w
  rw [← same] at admits ⊢
  obtain ⟨w'', kept, written⟩ := keep_of_admits net admits settings chunks
  exact ⟨w'', runs.trans kept, written⟩

/-- The disks on the way of a download whose file can be opened are those of its reception. -/
theorem disks_download_of_admits {d : Disk} (serves : Serves settings net url chunks)
    (admits : Admits d file) :
    (Work.download settings url (Work.fetched net url) file).disks d =
      (Work.receive settings.maxArchiveSize file .empty chunks).disks d := by
  have noNul : ¬(Location.text file).toList.contains '\x00' = true := by
    simpa [HasNul] using admits.noNul
  rw [disks_download serves, Work.changing, if_neg noNul, Work.disks_mapError]

/-- The disk in the end is one of them, since the file is opened first. -/
theorem disk_mem_disks_download (serves : Serves settings net url chunks)
    (admits : Admits w.disk file) :
    (download settings url file net w).2.disk ∈
      (Work.download settings url (Work.fetched net url) file).disks w.disk := by
  obtain ⟨performs, -⟩ := Work.performs_download settings url file w rfl
  have last : (download settings url file net w).2.disk =
      ((Work.download settings url (Work.fetched net url) file).disks w.disk).getLastD w.disk := by
    rw [Work.getLastD_disks, performs]
  obtain ⟨first, written⟩ := admits.writes .empty
  have mem : first ∈ (Work.download settings url (Work.fetched net url) file).disks w.disk := by
    rw [disks_download_of_admits serves admits]
    cases chunks with
    | nil => exact (mem_disks_write_bind written).2 (.inl rfl)
    | cons chunk rest => exact (mem_disks_write_bind written).2 (.inl rfl)
  rw [last, List.getLastD_eq_getLast?, List.getLast?_eq_some_getLast (List.ne_nil_of_mem mem)]
  exact List.getLast_mem _

/-- A download that is served. If its file cannot be opened, nothing changes. Else it tells the size
of the body and leaves just the body in the file if that is within the limit; if not, it is given up
and leaves the chunks before the first that goes above. On the way the file never holds more than
the limit. How it ends does not depend on how the body is split into chunks, nor does the disk that
it leaves if the body is within the limit. -/
theorem download_bounded (serves : Serves settings net url chunks)
    (nonneg : 0 ≤ settings.maxArchiveSize) (w : Workspace) (file : List String) :
    ((∃ cause, Refuses w.disk file cause ∧ ∃ w',
          download settings url file net w = (.error (.fault cause), w') ∧ w'.disk = w.disk) ∨
        Admits w.disk file ∧ ∃ w',
          download settings url file net w =
            (verdict settings.maxArchiveSize (body chunks), w') ∧
          ((body chunks).size ≤ settings.maxArchiveSize → w'.disk.read file = .ok (body chunks)) ∧
          (settings.maxArchiveSize < (body chunks).size →
            ∃ before chunk rest, chunks = before ++ chunk :: rest ∧
              settings.maxArchiveSize < (body (before ++ [chunk])).size ∧
              w'.disk.read file = .ok (body before)) ∧
          w'.disk ∈ (Work.download settings url (Work.fetched net url) file).disks w.disk ∧
          ∀ d ∈ (Work.download settings url (Work.fetched net url) file).disks w.disk,
            ∃ part : ByteArray, d.read file = .ok part ∧ part.size ≤ settings.maxArchiveSize) ∧
      ∀ net' chunks', Serves settings net' url chunks' → body chunks' = body chunks →
        (download settings url file net' w).1 = (download settings url file net w).1 ∧
          ((body chunks).size ≤ settings.maxArchiveSize →
            (download settings url file net' w).2.disk =
              (download settings url file net w).2.disk) := by
  obtain ⟨cause, refuses⟩ | admits := refuses_or_admits w.disk file
  · obtain ⟨w', ends, same⟩ := download_of_refuses serves refuses
    refine ⟨.inl ⟨cause, refuses, w', ends, same⟩, ?_⟩
    intro net' chunks' serves' _
    obtain ⟨w'', ends', same'⟩ := download_of_refuses serves' refuses
    rw [ends, ends']
    exact ⟨rfl, fun _ => same'.trans same.symm⟩
  · obtain ⟨w', ends, written⟩ := download_of_admits serves admits
    rw [told_receive nonneg] at ends
    obtain ⟨-, whole, cut⟩ := receive_empty nonneg chunks
    have mem := disk_mem_disks_download serves admits
    rw [ends] at mem
    refine ⟨.inr ⟨admits, w', ends, ?_, ?_, mem, ?_⟩, ?_⟩
    · intro within
      rw [read_of_write written, whole within]
    · intro above
      obtain ⟨before, chunk, rest, split, exceeds, held⟩ := cut above
      exact ⟨before, chunk, rest, split, exceeds, by rw [read_of_write written, held]⟩
    · rw [disks_download_of_admits serves admits]
      exact disks_receive admits nonneg chunks
    · intro net' chunks' serves' same
      obtain ⟨w'', ends', written'⟩ := download_of_admits serves' admits
      rw [told_receive nonneg] at ends'
      rw [ends, ends', same]
      refine ⟨rfl, fun within => ?_⟩
      obtain ⟨-, whole', -⟩ := receive_empty nonneg chunks'
      rw [whole' (same ▸ within), same, ← whole within, written] at written'
      exact (Prod.mk.inj written').2.symm

/-- An address at which every request is answered with the same chunks. -/
theorem serves_always (inTime : settings.timeout.le 0 = false) (chunks : List ByteArray) :
    Serves settings (fun _ => .response 200 none chunks) "https://h/a.tgz" chunks := by
  have web : ((Url.parts? "https://h/a.tgz").any fun parts => Url.isWebScheme parts.scheme) =
      true := by decide +kernel
  have complete : ((Url.Reference.parse "https://h/a.tgz").toOption.any fun r =>
      r.toRequest.isComplete) = true := by decide +kernel
  obtain ⟨parts, split, isWeb⟩ := (Option.any_eq_true ..).1 web
  obtain ⟨r, parsed, isComplete⟩ := (Option.any_eq_true ..).1 complete
  rw [toOption_eq_some_iff] at parsed
  exact ⟨⟨parts, split, isWeb⟩, inTime, 200, none, rfl,
    Session.fetch_of_response parsed isComplete rfl⟩

theorem admits_empty : Admits Disk.empty ["f"] := by
  refine ⟨by decide +kernel, fun content => ?_⟩
  have absent : Disk.empty.enter ["f"] = .error .absent := by decide +kernel
  have vacant : Disk.empty.vacancy ["f"] = .ok ["f"] := by decide +kernel
  refine ⟨Disk.empty.put ["f"] (.file content), ?_⟩
  simp only [Disk.write, List.getLast?_singleton, absent, vacant]
  rfl

/-- Two bytes of two and two, where three are allowed. -/
theorem download_of_twoChunks :
    let settings := { ArchiveSettings.standard with maxArchiveSize := 3 }
    let chunks : List ByteArray := [⟨#[1, 2]⟩, ⟨#[3, 4]⟩]
    let net : Network := fun _ => .response 200 none chunks
    Serves settings net "https://h/a.tgz" chunks ∧ 0 ≤ settings.maxArchiveSize ∧
      ∃ w', download settings "https://h/a.tgz" ["f"] net ⟨.empty, [], []⟩ =
          (.error (.download (.tooLarge 3)), w') ∧ w'.disk.read ["f"] = .ok ⟨#[1, 2]⟩ := by
  intro settings chunks net
  have serves : Serves settings net "https://h/a.tgz" chunks := serves_always (by decide) chunks
  have above : settings.maxArchiveSize < (body chunks).size := by decide
  refine ⟨serves, by decide, ?_⟩
  obtain ⟨⟨_, refuses, -⟩ | ⟨-, w', ends, -, cut, -⟩, -⟩ :=
    download_bounded serves (by decide) ⟨.empty, [], []⟩ ["f"]
  · exact absurd refuses admits_empty.not_refuses
  · obtain ⟨before, chunk, rest, split, exceeds, held⟩ := cut above
    refine ⟨w', ends, ?_⟩
    match before, split with
    | [], split =>
      obtain ⟨rfl, -⟩ := List.cons.inj split
      exact absurd exceeds (by decide)
    | [_], split =>
      obtain ⟨rfl, -⟩ := List.cons.inj split
      exact held
    | _ :: _ :: before, split => simp [chunks] at split

/-- Below zero even a body of nothing is above the limit, but no chunk of it tells. -/
theorem download_of_nothing_below_zero :
    let settings := { ArchiveSettings.standard with maxArchiveSize := -1 }
    let net : Network := fun _ => .response 200 none []
    Serves settings net "https://h/a.tgz" [] ∧ settings.maxArchiveSize < (body []).size ∧
      (download settings "https://h/a.tgz" ["f"] net ⟨.empty, [], []⟩).1 = .ok 0 := by
  intro settings net
  have serves : Serves settings net "https://h/a.tgz" [] := serves_always (by decide) []
  obtain ⟨w', ends, -⟩ := download_of_admits (w := ⟨.empty, [], []⟩) serves admits_empty
  exact ⟨serves, by decide, congrArg Prod.fst ends⟩

end Archive

end PackageRisk
