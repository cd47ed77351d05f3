import PackageRisk.Disk.Walk

/-!
# Sessions

A session works on a disk and asks a network. It ends with a result or a failure, and in both
cases with a workspace: what was written before a failure stays written, and the journal tells
what was asked for. `attempt` turns a failure into a result and `thenAlways` runs a last step
after success and failure alike.
-/

namespace PackageRisk

/-- What comes back for a request. -/
inductive Reply where
  | response (status : Nat) (location : Option String) (chunks : List ByteArray)
  | timeout (detail : String)
  | broken (detail : String)
  | silence
  deriving Inhabited

/-- The answer of a network to each URL. -/
abbrev Network := String → Reply

/-- A network without connection. -/
def Network.unreachable : Network := fun _ => .broken "Network is unreachable"

/-- What a journal tells. -/
inductive Event where
  | requested (url : String)
  | noted (v : Value)
  deriving Inhabited

/-- A disk, the directory that relative paths start from, and a journal, last event first. -/
structure Workspace where
  disk : Disk
  home : Location
  journal : List Event
  deriving Inhabited

/-- Work on a workspace that may fail. -/
def Session (α : Type) := Network → Workspace → Except Failure α × Workspace

namespace Session

variable {α β : Type}

instance : Monad Session where
  pure a := fun _ w => (.ok a, w)
  bind s f := fun net w =>
    match s net w with
    | (.ok a, w) => f a net w
    | (.error e, w) => (.error e, w)

/-- Ends a session with a failure. -/
def fail (e : Failure) : Session α := fun _ w => (.error e, w)

/-- A result that is known, or its failure. -/
def lift : Except Failure α → Session α
  | .ok a => pure a
  | .error e => fail e

/-- A result of unchecked values, or its fault. -/
def liftFault : Except Fault α → Session α
  | .ok a => pure a
  | .error e => fail (.fault e)

/-- The outcome of a session as a result. -/
def attempt (s : Session α) : Session (Except Failure α) := fun net w =>
  let (outcome, w) := s net w
  (.ok outcome, w)

/-- A session and then a last step, whatever the outcome of the first; a failure of the last
step wins. -/
def thenAlways (s : Session α) (last : Session Unit) : Session α := do
  let outcome ← s.attempt
  last
  lift outcome

/-- The disk as it is. -/
def disk : Session Disk := fun _ w => (.ok w.disk, w)

/-- The directory that relative paths start from. -/
def home : Session Location := fun _ w => (.ok w.home, w)

/-- Changes the disk. -/
def setDisk (d : Disk) : Session Unit := fun _ w => (.ok (), { w with disk := d })

/-- Writes an event into the journal. -/
def record (e : Event) : Session Unit := fun _ w =>
  (.ok (), { w with journal := e :: w.journal })

/-- Writes a note into the journal. -/
def note (v : Value) : Session Unit := record (.noted v)

/-- Asks the network for a URL. -/
def request (url : String) : Session Reply := do
  record (.requested url)
  fun net w => (.ok (net url), w)

/-- A step for each item, in order; the first failure ends it. -/
def forEach (items : List α) (step : α → Session β) : Session (List β) :=
  match items with
  | [] => pure []
  | a :: rest => do
    let b ← step a
    return b :: (← forEach rest step)

/-- The names that a path leads through from the root. -/
def namesOf (path : String) : Session (List String) := do
  let p := Path.parse path
  let start ← home
  return if p.isAbsolute then p.parts else start ++ p.parts

end Session

end PackageRisk
