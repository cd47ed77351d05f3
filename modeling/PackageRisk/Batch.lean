import PackageRisk.Session

/-!
# Batches

A batch works on named jobs, a limited number of them at a time. Jobs start in order, one
whenever there is room, and finish in any order. Each that finishes is counted and reported
at once; the outcomes stand in the order of the jobs, whatever the order of their ends.
-/

namespace PackageRisk

/-- What is reported when a job ends: how many have ended, how many there are, and its name. -/
structure Progress where
  completed : Nat
  total : Nat
  name : String
  deriving DecidableEq, Repr

/-- Jobs by their places, and what is known about them. -/
structure Batch (α : Type) where
  names : List String
  limit : Nat
  waiting : List Nat
  running : List Nat
  finished : List (Nat × α)
  completed : Nat
  reports : List Progress

namespace Batch

variable {α : Type}

/-- A batch before its first job starts. -/
def ofNames (limit : Nat) (names : List String) : Batch α :=
  { names, limit, waiting := List.range names.length, running := [], finished := [],
    completed := 0, reports := [] }

/-- The name of a job. -/
def name (b : Batch α) (i : Nat) : String :=
  b.names[i]?.getD ""

/-- Whether another job may start. -/
def hasRoom (b : Batch α) : Bool :=
  b.running.length < b.limit

/-- Starts the next job if there is one and there is room for it. -/
def start? (b : Batch α) : Option (Nat × Batch α) :=
  match b.waiting with
  | [] => none
  | i :: rest =>
    if b.hasRoom then some (i, { b with waiting := rest, running := i :: b.running }) else none

/-- Ends a running job with an outcome. -/
def finish (b : Batch α) (i : Nat) (outcome : α) : Batch α :=
  if b.running.contains i then
    let completed := b.completed + 1
    { b with running := b.running.erase i, finished := (i, outcome) :: b.finished, completed,
             reports := b.reports ++ [⟨completed, b.names.length, b.name i⟩] }
  else b

/-- The outcomes of the jobs that have ended, in the order of the jobs. -/
def outcomes (b : Batch α) : List (String × α) :=
  b.names.zipIdx.filterMap fun (name, i) => (b.finished.lookup i).map (name, ·)

/-- What may happen to a batch: a job starts, or a running one ends with the outcome that its
name leads to. -/
inductive Step (outcomeOf : String → α) : Batch α → Batch α → Prop where
  | starts {b : Batch α} {i : Nat} {next : Batch α} (h : b.start? = some (i, next)) :
    Step outcomeOf b next
  | ends {b : Batch α} {i : Nat} (h : i ∈ b.running) :
    Step outcomeOf b (b.finish i (outcomeOf (b.name i)))

/-- What may have become of a batch after any number of steps. -/
inductive Reaches (outcomeOf : String → α) : Batch α → Batch α → Prop where
  | refl (b : Batch α) : Reaches outcomeOf b b
  | step {a b c : Batch α} (h : Reaches outcomeOf a b) (s : Step outcomeOf b c) :
    Reaches outcomeOf a c

/-- Works on `n` more jobs, each to its end before the next one starts. -/
def work (job : String → Session α) : (n : Nat) → Batch (Except Failure α) →
    Session (Batch (Except Failure α))
  | 0, b => pure b
  | n + 1, b =>
    match b.start? with
    | none => pure b
    | some (i, b) => do
      let outcome ← (job (b.name i)).attempt
      work job n (b.finish i outcome)

/-- Works on all jobs. -/
def run (limit : Nat) (names : List String) (job : String → Session α) :
    Session (Batch (Except Failure α)) :=
  work job names.length (ofNames limit names)

end Batch

end PackageRisk
