import Mathlib.Data.List.Perm.Basic
import Mathlib.Data.List.Range
import Mathlib.Tactic.Common
import PackageRisk.Batch
import PackageRisk.Proofs.Session

/-!
# What becomes of a batch

Whatever order jobs start and end in, and whatever they end with, each job is waiting, running or
finished, no more than the limit are running, and the reports tell of the finished ones, numbered
in the order of their ends (`Batch.Sound`). The start and the end of a job keep it so. Once nothing
waits and nothing runs, there is one outcome for each name, in the order of the names
(`Sound.outcomes_eq`).
-/

namespace PackageRisk

namespace Batch

variable {α : Type} {names : List String} {limit i : Nat} {b c next : Batch α} {outcome : α}

/-! ## Starts and ends of jobs -/

theorem start?_eq_some_iff :
    b.start? = some (i, next) ↔ ∃ rest, b.waiting = i :: rest ∧ b.running.length < b.limit ∧
      next = { b with waiting := rest, running := i :: b.running } := by
  unfold start? hasRoom
  cases b.waiting with
  | nil => simp
  | cons first rest =>
    dsimp only
    split_ifs with room
    · rw [decide_eq_true_iff] at room
      simp only [Option.some.injEq, Prod.mk.injEq, List.cons.injEq]
      constructor
      · rintro ⟨rfl, rfl⟩
        exact ⟨rest, ⟨rfl, rfl⟩, room, rfl⟩
      · rintro ⟨_, ⟨rfl, rfl⟩, -, rfl⟩
        exact ⟨rfl, rfl⟩
    · rw [decide_eq_true_iff] at room
      simp only [false_iff]
      rintro ⟨_, -, room', -⟩
      exact room room'

theorem finish_of_running (running : i ∈ b.running) :
    b.finish i outcome =
      { b with running := b.running.erase i, finished := (i, outcome) :: b.finished,
               completed := b.completed + 1,
               reports := b.reports ++ [⟨b.completed + 1, b.names.length, b.name i⟩] } := by
  rw [finish, if_pos (List.contains_iff_mem.2 running)]

/-- The reports about jobs that ended, in the order of their ends. -/
def reportsOf (names : List String) (ended : List Nat) : List Progress :=
  ended.zipIdx.map fun (i, k) => ⟨k + 1, names.length, names[i]?.getD ""⟩

/-- A batch in which nothing waits and nothing runs. -/
structure IsOver (b : Batch α) : Prop where
  waiting : b.waiting = []
  running : b.running = []

/-- A batch of named jobs in which each of them has one place, no more than the limit are running,
and those that finished are counted and reported. -/
structure Sound (names : List String) (limit : Nat) (b : Batch α) : Prop where
  names_eq : b.names = names
  limit_eq : b.limit = limit
  jobs : (b.waiting ++ b.running ++ b.finished.map Prod.fst).Perm (List.range names.length)
  room : b.running.length ≤ limit
  completed : b.completed = b.finished.length
  reports : b.reports = reportsOf names (b.finished.map Prod.fst).reverse

theorem sound_ofNames (limit : Nat) (names : List String) :
    Sound names limit (ofNames limit names : Batch α) where
  names_eq := rfl
  limit_eq := rfl
  jobs := by simp [ofNames]
  room := Nat.zero_le limit
  completed := rfl
  reports := rfl

namespace Sound

theorem start (sound : Sound names limit b) (starts : b.start? = some (i, next)) :
    Sound names limit next := by
  obtain ⟨rest, waiting, room, rfl⟩ := start?_eq_some_iff.1 starts
  refine ⟨sound.names_eq, sound.limit_eq, ?_, ?_, sound.completed, sound.reports⟩
  · have jobs := sound.jobs
    rw [waiting] at jobs
    refine List.Perm.trans ?_ jobs
    exact List.perm_middle.append_right _
  · rw [sound.limit_eq] at room
    exact room

theorem finish (sound : Sound names limit b) (running : i ∈ b.running) (outcome : α) :
    Sound names limit (b.finish i outcome) := by
  rw [finish_of_running running]
  refine ⟨sound.names_eq, sound.limit_eq, ?_, ?_, ?_, ?_⟩
  · refine List.Perm.trans ?_ sound.jobs
    have moved : (b.running.erase i ++ i :: b.finished.map Prod.fst).Perm
        (b.running ++ b.finished.map Prod.fst) :=
      List.perm_middle.trans ((List.perm_cons_erase running).symm.append_right _)
    simpa using moved.append_left b.waiting
  · exact (List.length_erase_le ..).trans sound.room
  · exact congrArg (· + 1) sound.completed
  · show b.reports ++ [_] = _
    rw [sound.reports, reportsOf, reportsOf, sound.completed, List.map_cons, List.reverse_cons,
      List.zipIdx_append, List.map_append, name, sound.names_eq]
    simp

theorem running_lt (sound : Sound names limit b) (running : i ∈ b.running) : i < names.length := by
  refine List.mem_range.1 (sound.jobs.subset ?_)
  simp [running]

/-- No job has two places. -/
theorem nodup (sound : Sound names limit b) :
    (b.waiting ++ b.running ++ b.finished.map Prod.fst).Nodup :=
  sound.jobs.nodup_iff.2 List.nodup_range

theorem nodup_finished (sound : Sound names limit b) : (b.finished.map Prod.fst).Nodup :=
  (List.nodup_append.1 sound.nodup).2.1

theorem notMem_waiting (sound : Sound names limit b) (running : i ∈ b.running) :
    i ∉ b.waiting := by
  intro waiting
  have once := sound.nodup
  rw [List.append_assoc] at once
  exact (List.nodup_append.1 once).2.2 i waiting i (List.mem_append_left _ running) rfl

/-- The first of the waiting jobs starts where none is running. -/
theorem start?_of_idle {rest : List Nat} (sound : Sound names limit b) (enough : 0 < limit)
    (idle : b.running = []) (waiting : b.waiting = i :: rest) :
    b.start? = some (i, { b with waiting := rest, running := [i] }) := by
  refine start?_eq_some_iff.2 ⟨rest, waiting, ?_, by rw [idle]⟩
  rw [idle, sound.limit_eq]
  exact enough

/-- A batch goes on until it is over: a job can start, or one is running. -/
theorem goes_on (sound : Sound names limit b) (enough : 0 < limit) (going : ¬b.IsOver) :
    (∃ i next, b.start? = some (i, next)) ∨ ∃ i, i ∈ b.running := by
  rcases running : b.running with _ | ⟨i, others⟩
  · rcases waiting : b.waiting with _ | ⟨i, rest⟩
    · exact absurd ⟨waiting, running⟩ going
    · exact .inl ⟨i, _, sound.start?_of_idle enough running waiting⟩
  · exact .inr ⟨i, List.mem_cons_self⟩

/-! ## Reports -/

/-- The reports are numbered from one. -/
theorem map_completed (sound : Sound names limit b) :
    b.reports.map (·.completed) = List.range' 1 b.completed := by
  have numbered (ended : List Nat) :
      (reportsOf names ended).map (·.completed) = List.range' 1 ended.length := by
    have places : (reportsOf names ended).map (·.completed) =
        (ended.zipIdx.map Prod.snd).map (1 + ·) := by
      rw [reportsOf, List.map_map, List.map_map]
      exact List.map_congr_left fun pair _ => Nat.add_comm pair.2 1
    rw [places, List.zipIdx_map_snd, List.map_add_range']
  rw [sound.reports, numbered, sound.completed, List.length_reverse, List.length_map]

theorem total_eq (sound : Sound names limit b) : ∀ r ∈ b.reports, r.total = names.length := by
  rw [sound.reports, reportsOf, List.forall_mem_map]
  exact fun _ _ => rfl

theorem map_name (sound : Sound names limit b) :
    b.reports.map (·.name) =
      (b.finished.map Prod.fst).reverse.map fun i => names[i]?.getD "" := by
  have jobs := congrArg (List.map fun i => names[i]?.getD "")
    (List.zipIdx_map_fst 0 (b.finished.map Prod.fst).reverse)
  rw [List.map_map] at jobs
  rw [sound.reports, reportsOf, List.map_map]
  exact jobs

/-! ## Outcomes -/

theorem finished_perm (sound : Sound names limit b) (isOver : b.IsOver) :
    (b.finished.map Prod.fst).Perm (List.range names.length) := by
  have jobs := sound.jobs
  rwa [isOver.waiting, isOver.running, List.nil_append, List.nil_append] at jobs

theorem completed_eq (sound : Sound names limit b) (isOver : b.IsOver) :
    b.completed = names.length := by
  rw [sound.completed, ← List.length_map Prod.fst, (sound.finished_perm isOver).length_eq,
    List.length_range]

/-- In the end each job has been reported once. -/
theorem map_name_perm (sound : Sound names limit b) (isOver : b.IsOver) :
    (b.reports.map (·.name)).Perm names := by
  have each : (List.range names.length).map (fun i => names[i]?.getD "") = names := by
    refine List.ext_getElem (by simp) fun i _ h => ?_
    simp [h]
  rw [sound.map_name]
  refine List.Perm.trans ?_ (List.Perm.of_eq each)
  exact ((List.reverse_perm _).trans (sound.finished_perm isOver)).map _

theorem exists_finished (sound : Sound names limit b) (isOver : b.IsOver)
    (among : i < names.length) : ∃ outcome, (i, outcome) ∈ b.finished := by
  have key := (sound.finished_perm isOver).mem_iff.2 (List.mem_range.2 among)
  obtain ⟨⟨_, outcome⟩, mem, rfl⟩ := List.mem_map.1 key
  exact ⟨outcome, mem⟩

/-- What a job ended with is found under its number. -/
theorem lookup_finished (sound : Sound names limit b) (isOver : b.IsOver) {f : Nat → α}
    (ended : ∀ i outcome, (i, outcome) ∈ b.finished → outcome = f i) (among : i < names.length) :
    b.finished.lookup i = some (f i) := by
  rcases found : b.finished.lookup i with _ | outcome
  · rw [List.lookup_eq_none_iff] at found
    obtain ⟨outcome, mem⟩ := sound.exists_finished isOver among
    exact absurd (found _ mem) (by simp)
  · obtain ⟨front, rest, split, -⟩ := List.lookup_eq_some_iff.1 found
    rw [ended i outcome (by simp [split])]

/-- In the end there is one outcome for each name, in the order of the names. -/
theorem outcomes_eq (sound : Sound names limit b) (isOver : b.IsOver) {f : Nat → α}
    (ended : ∀ i outcome, (i, outcome) ∈ b.finished → outcome = f i) :
    b.outcomes = names.zipIdx.map fun (name, i) => (name, f i) := by
  rw [outcomes, sound.names_eq, ← List.filterMap_eq_map]
  refine List.filterMap_congr fun ⟨name, i⟩ mem => ?_
  have among : i < names.length := List.snd_lt_of_mem_zipIdx mem
  show (b.finished.lookup i).map (name, ·) = some (name, f i)
  rw [sound.lookup_finished isOver ended among]
  rfl

end Sound

/-! ## Batches whose jobs end as their names tell -/

variable {outcomeOf : String → α}

theorem Step.sound (step : Step outcomeOf b c) (sound : Sound names limit b) :
    Sound names limit c := by
  cases step with
  | starts starts => exact sound.start starts
  | ends running => exact sound.finish running _

theorem Reaches.sound (reaches : Reaches outcomeOf b c) (sound : Sound names limit b) :
    Sound names limit c := by
  induction reaches with
  | refl => exact sound
  | step _ step ih => exact step.sound ih

theorem Step.finished (step : Step outcomeOf b c) (sound : Sound names limit b)
    (ended : ∀ i outcome, (i, outcome) ∈ b.finished → outcome = outcomeOf (names[i]?.getD "")) :
    ∀ i outcome, (i, outcome) ∈ c.finished → outcome = outcomeOf (names[i]?.getD "") := by
  cases step with
  | starts starts =>
    obtain ⟨_, -, -, rfl⟩ := start?_eq_some_iff.1 starts
    exact ended
  | ends running =>
    intro i outcome mem
    rw [finish_of_running running] at mem
    rcases List.mem_cons.1 mem with same | mem
    · cases same
      rw [name, sound.names_eq]
    · exact ended i outcome mem

theorem Reaches.finished (reaches : Reaches outcomeOf b c) (sound : Sound names limit b)
    (ended : ∀ i outcome, (i, outcome) ∈ b.finished → outcome = outcomeOf (names[i]?.getD "")) :
    ∀ i outcome, (i, outcome) ∈ c.finished → outcome = outcomeOf (names[i]?.getD "") := by
  induction reaches with
  | refl => exact ended
  | step reaches step ih => exact step.finished (reaches.sound sound) ih

/-- In the end each name stands with the outcome that it leads to, in the order of the names. -/
theorem Reaches.outcomes_eq (reaches : Reaches outcomeOf (ofNames limit names) b)
    (isOver : b.IsOver) : b.outcomes = names.map fun name => (name, outcomeOf name) := by
  have sound := reaches.sound (sound_ofNames limit names)
  rw [sound.outcomes_eq isOver (f := fun i => outcomeOf (names[i]?.getD ""))
    (reaches.finished (sound_ofNames limit names) nofun)]
  refine List.ext_getElem (by simp) fun i _ within => ?_
  rw [List.length_map] at within
  simp [within]

/-! ## Jobs that leave the workspace as it is -/

section Quiet

variable {job : String → Session α} {outcomeOf : String → Except Failure α} {net : Network}
  {w : Workspace} (quiet : ∀ name, job name net w = (outcomeOf name, w))

include quiet

/-- Working on such jobs one after the other is one of the ways in which they may start and end. -/
theorem exists_work_of_quiet {a b : Batch (Except Failure α)} {n : Nat}
    (reaches : Reaches outcomeOf a b) (sound : b.Sound names limit) (enough : 0 < limit)
    (idle : b.running = []) (all : b.waiting.length = n) :
    ∃ c, work job n b net w = (.ok c, w) ∧ Reaches outcomeOf a c ∧ c.IsOver := by
  induction n generalizing b with
  | zero => exact ⟨b, rfl, reaches, List.length_eq_zero_iff.1 all, idle⟩
  | succ n ih =>
    obtain ⟨i, rest, waiting⟩ := List.exists_cons_of_length_eq_add_one all
    let next : Batch (Except Failure α) := { b with waiting := rest, running := [i] }
    have starts : b.start? = some (i, next) := sound.start?_of_idle enough idle waiting
    have running : i ∈ next.running := List.mem_singleton_self i
    have finished : next.finish i (outcomeOf (next.name i)) = _ := finish_of_running running
    have ends : (job (next.name i)).attempt net w = (.ok (outcomeOf (next.name i)), w) := by
      rw [Session.run_attempt, quiet]
    rw [work, starts]
    dsimp only
    rw [Session.bind_of_ok ends]
    apply ih ((reaches.step (.starts starts)).step (.ends running))
    · exact (sound.start starts).finish running _
    · rw [finished]
      exact List.erase_cons_head i []
    · rw [finished]
      rw [waiting] at all
      exact Nat.succ.inj all

/-- A batch of such jobs ends with what each name leads to. -/
theorem exists_run_of_quiet (names : List String) (enough : 0 < limit) :
    ∃ b, run limit names job net w = (.ok b, w) ∧
      b.outcomes = names.map fun name => (name, outcomeOf name) := by
  obtain ⟨b, run, reaches, isOver⟩ := exists_work_of_quiet quiet (.refl _)
    (sound_ofNames limit names) enough rfl List.length_range
  exact ⟨b, run, reaches.outcomes_eq isOver⟩

end Quiet

end Batch

end PackageRisk
