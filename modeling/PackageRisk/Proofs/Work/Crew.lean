import Mathlib.Data.DFinsupp.WellFounded
import Mathlib.Data.Prod.Lex
import PackageRisk.Proofs.Batch
import PackageRisk.Proofs.Work.Steps

/-!
# Batches of works

The jobs of a batch as works on one disk that take turns: a job starts if there is room for it, one
of the running works takes its next step, or a job whose work has ended is finished. Which of these
happens next is left open (`Crew.Step`).

In whatever order things happen, the batch stays sound, goes on until it is over and comes to an end
(`Crew.wellFounded_step`), and what a job is finished with is what its work ended with. Works that
keep to terms and guarantee what the others rely on end as expected (`Crew.ends_of_keeps`).
-/

namespace PackageRisk

open Relation (ReflTransGen)

variable {ε α : Type}

/-! ## Works end -/

namespace Work

/-- What is left of a work after its next step. -/
inductive Follows : Work ε α → Work ε α → Prop
  | mk (change : Disk → Disk) (next : Disk → Work ε α) (d : Disk) :
    Follows (next d) (.step change next)

theorem wellFounded_follows : WellFounded (Follows (ε := ε) (α := α)) := by
  refine ⟨fun w => ?_⟩
  induction w with
  | ended outcome => exact ⟨_, nofun⟩
  | step change next ih =>
    refine ⟨_, fun later follows => ?_⟩
    cases follows with
    | mk _ _ d => exact ih d

end Work

/-- A batch, the work of each job, and the disk that all of them work on. -/
structure Crew (ε α : Type) where
  batch : Batch (Except ε α)
  works : Nat → Work ε α
  disk : Disk

namespace Crew

variable {c c' : Crew ε α} {names : List String} {limit i : Nat} {outcome : Except ε α}
  {works : Nat → Work ε α} {d d' : Disk}

/-- A crew before its first job starts. -/
def ofNames (limit : Nat) (names : List String) (works : Nat → Work ε α) (disk : Disk) :
    Crew ε α :=
  ⟨.ofNames limit names, works, disk⟩

/-- What may happen next: a job starts, the work of a running one takes its next step, or a running
one whose work has ended is finished. -/
inductive Step : Crew ε α → Crew ε α → Prop
  | start {c : Crew ε α} {i : Nat} {next : Batch (Except ε α)}
    (starts : c.batch.start? = some (i, next)) :
    Step c { c with batch := next }
  | turn {c : Crew ε α} {i : Nat} {change : Disk → Disk} {next : Disk → Work ε α}
    (running : i ∈ c.batch.running) (goesOn : c.works i = .step change next) :
    Step c { c with works := Function.update c.works i (next c.disk), disk := change c.disk }
  | finish {c : Crew ε α} {i : Nat} {outcome : Except ε α}
    (running : i ∈ c.batch.running) (ended : c.works i = .ended outcome) :
    Step c { c with batch := c.batch.finish i outcome }

/-! ## Whatever the works do -/

theorem Step.sound (step : Step c c') (sound : c.batch.Sound names limit) :
    c'.batch.Sound names limit := by
  cases step with
  | start starts => exact sound.start starts
  | turn => exact sound
  | finish running => exact sound.finish running _

theorem sound_of_reaches (reaches : ReflTransGen Step c c') (sound : c.batch.Sound names limit) :
    c'.batch.Sound names limit := by
  induction reaches with
  | refl => exact sound
  | tail _ step ih => exact step.sound ih

/-- A work that has ended stays as it is. -/
theorem Step.ended (step : Step c c') (ended : c.works i = .ended outcome) :
    c'.works i = .ended outcome := by
  cases step with
  | start | finish => exact ended
  | @turn j _ _ running goesOn =>
    have other : i ≠ j := by
      rintro rfl
      rw [ended] at goesOn
      cases goesOn
    exact (Function.update_of_ne other _ _).trans ended

/-- Jobs are finished with what their works ended with. -/
def Truthful (c : Crew ε α) : Prop :=
  ∀ i outcome, (i, outcome) ∈ c.batch.finished → c.works i = .ended outcome

theorem Step.truthful (step : Step c c') (truthful : c.Truthful) : c'.Truthful := by
  intro i outcome mem
  refine step.ended ?_
  cases step with
  | start starts =>
    obtain ⟨_, -, -, rfl⟩ := Batch.start?_eq_some_iff.1 starts
    exact truthful i outcome mem
  | turn => exact truthful i outcome mem
  | finish running ended =>
    rw [Batch.finish_of_running running] at mem
    rcases List.mem_cons.1 mem with same | mem
    · cases same
      exact ended
    · exact truthful i outcome mem

theorem truthful_of_reaches (reaches : ReflTransGen Step (ofNames limit names works d) c) :
    c.Truthful := by
  induction reaches with
  | refl => exact nofun
  | tail _ step ih => exact step.truthful ih

/-- What is so at any time: there is room for what is in progress, the reports are numbered in the
order in which they come, and no job is finished twice. -/
structure Orderly (c : Crew ε α) (names : List String) (limit : Nat) : Prop where
  room : c.batch.running.length ≤ limit
  numbered : c.batch.reports.map (·.completed) = List.range' 1 c.batch.finished.length
  total : ∀ r ∈ c.batch.reports, r.total = names.length
  named : c.batch.reports.map (·.name) =
    (c.batch.finished.map Prod.fst).reverse.map fun i => names[i]?.getD ""
  once : (c.batch.finished.map Prod.fst).Nodup
  truthful : c.Truthful

theorem orderly_of_reaches (reaches : ReflTransGen Step (ofNames limit names works d) c) :
    c.Orderly names limit := by
  have sound := sound_of_reaches reaches (Batch.sound_ofNames limit names)
  refine ⟨sound.room, ?_, sound.total_eq, sound.map_name, sound.nodup_finished,
    truthful_of_reaches reaches⟩
  rw [sound.map_completed, sound.completed]

/-- What is so in the end: each job was reported, they were counted one by one, and there is one
outcome for each, in their order, which is what its work ended with. -/
structure Complete (c : Crew ε α) (names : List String) : Prop where
  reported : (c.batch.reports.map (·.name)).Perm names
  counted : c.batch.reports.map (·.completed) = List.range' 1 names.length
  each : c.batch.outcomes.length = names.length
  inOrder : ∀ i : Fin names.length, ∃ outcome, c.works i = .ended outcome ∧
    c.batch.outcomes[i.val]? = some (names.get i, outcome)

theorem complete_of_reaches (reaches : ReflTransGen Step (ofNames limit names works d) c)
    (isOver : c.batch.IsOver) : c.Complete names := by
  have sound := sound_of_reaches reaches (Batch.sound_ofNames limit names)
  have truthful := truthful_of_reaches reaches
  have outcomes := sound.outcomes_eq isOver (f := fun i => ((c.works i).run c.disk).1)
    fun i outcome mem => by rw [truthful i outcome mem, Work.run_ended]
  refine ⟨sound.map_name_perm isOver, ?_, ?_, fun i => ?_⟩
  · rw [sound.map_completed, sound.completed_eq isOver]
  · rw [outcomes]
    simp
  · obtain ⟨outcome, mem⟩ := sound.exists_finished isOver i.isLt
    refine ⟨outcome, truthful i outcome mem, ?_⟩
    rw [outcomes]
    simp [truthful i outcome mem]

/-- Until it is over, something can happen next. -/
theorem exists_step (sound : c.batch.Sound names limit) (enough : 0 < limit)
    (going : ¬c.batch.IsOver) : ∃ c', Step c c' := by
  rcases sound.goes_on enough going with ⟨i, next, starts⟩ | ⟨i, running⟩
  · exact ⟨_, .start starts⟩
  · rcases work : c.works i with outcome | ⟨change, next⟩
    · exact ⟨_, .finish running work⟩
    · exact ⟨_, .turn running work⟩

/-- How often a job is still to be started or finished. -/
def pending (c : Crew ε α) : Nat := 2 * c.batch.waiting.length + c.batch.running.length

/-- A start and an end leave less to start or finish, and the steps in between leave less to do. -/
theorem wellFounded_step (names : List String) (limit : Nat) :
    WellFounded fun c' c : Crew ε α => c.batch.Sound names limit ∧ Step c c' := by
  let left : Crew ε α → Nat × (Fin names.length → Work ε α) :=
    fun c => (c.pending, fun i => c.works i)
  have ends : WellFounded (Prod.Lex (· < ·) (Pi.Lex (· < ·) (fun {_} => Work.Follows)) :
      Nat × (Fin names.length → Work ε α) → _ → Prop) :=
    WellFounded.prod_lex Nat.lt_wfRel.wf (Pi.Lex.wellFounded (· < ·) fun _ =>
      Work.wellFounded_follows)
  refine Subrelation.wf (fun {c' c} ⟨sound, step⟩ => ?_) (InvImage.wf left ends)
  cases step with
  | start starts =>
    obtain ⟨rest, waiting, -, rfl⟩ := Batch.start?_eq_some_iff.1 starts
    refine .left _ _ ?_
    simp only [pending, waiting, List.length_cons]
    omega
  | @turn i change next running goesOn =>
    refine .right _ ⟨⟨i, sound.running_lt running⟩, fun j before => ?_, ?_⟩
    · exact Function.update_of_ne (Fin.val_ne_of_ne before.ne) _ _
    · dsimp only
      rw [Function.update_self, goesOn]
      exact .mk change next c.disk
  | finish running ended =>
    refine .left _ _ ?_
    have one := List.length_pos_of_mem running
    simp only [pending, Batch.finish_of_running running, List.length_erase_of_mem running]
    omega

/-- The number of steps is bounded on every way. -/
theorem not_forever (sound : c.batch.Sound names limit) :
    ¬∃ run : ℕ → Crew ε α, run 0 = c ∧ ∀ k, Step (run k) (run (k + 1)) := by
  rintro ⟨run, rfl, steps⟩
  have sounds (k : ℕ) : (run k).batch.Sound names limit := by
    induction k with
    | zero => exact sound
    | succ k ih => exact (steps k).sound ih
  have ends : IsWellFounded (Crew ε α) fun c' c => c.batch.Sound names limit ∧ Step c c' :=
    ⟨wellFounded_step names limit⟩
  obtain ⟨k, stops⟩ := WellFounded.not_rel_apply_succ (h := ends) run
  exact stops ⟨sounds k, steps k⟩

/-! ## Works that end as their names tell -/

theorem Step.batch {outcomeOf : String → Except ε α} (step : Step c c')
    (sound : c.batch.Sound names limit)
    (ends : ∀ (i : Fin names.length) outcome, c.works i = .ended outcome →
      outcome = outcomeOf (names.get i)) :
    c'.batch = c.batch ∨ Batch.Step outcomeOf c.batch c'.batch := by
  cases step with
  | start starts => exact .inr (.starts starts)
  | turn => exact .inl rfl
  | @finish i outcome running ended =>
    have within := sound.running_lt running
    have name : c.batch.name i = names.get ⟨i, within⟩ := by
      rw [Batch.name, sound.names_eq, List.getElem?_eq_getElem within, Option.getD_some,
        List.get_eq_getElem]
    have finished : outcome = outcomeOf (c.batch.name i) :=
      (ends ⟨i, within⟩ outcome ended).trans (congrArg outcomeOf name.symm)
    rw [finished]
    exact .inr (.ends running)

/-- The batch of a crew goes a way of its own if each work ends with what the name of its job leads
to. -/
theorem batch_reaches {outcomeOf : String → Except ε α}
    (reaches : ReflTransGen Step (ofNames limit names works d) c)
    (ends : ∀ c', ReflTransGen Step (ofNames limit names works d) c' →
      ∀ (i : Fin names.length) outcome, c'.works i = .ended outcome →
        outcome = outcomeOf (names.get i)) :
    Batch.Reaches outcomeOf (.ofNames limit names) c.batch := by
  induction reaches with
  | refl => exact .refl _
  | @tail c c' before step ih =>
    have sound := sound_of_reaches before (Batch.sound_ofNames limit names)
    rcases step.batch sound (ends c before) with same | step
    · rw [same]
      exact ih
    · exact ih.step step

/-! ## Terms -/

open Work (Keeps Terms Performs)

variable {t : Fin names.length → Terms} {Q : Fin names.length → Except ε α → Disk → Prop}

theorem Step.keeps (step : Step c c') (sound : c.batch.Sound names limit)
    (suit : Pairwise fun i j => ∀ d d', (t i).guarantee d d' → (t j).rely d d')
    (keeps : ∀ i, Keeps (t i) (Q i) (c.works i) c.disk) :
    ∀ i, Keeps (t i) (Q i) (c'.works i) c'.disk := by
  cases step with
  | start | finish => exact keeps
  | @turn i change next running goesOn =>
    let own : Fin names.length := ⟨i, sound.running_lt running⟩
    have acts : Keeps (t own) (Q own) (.step change next) c.disk := goesOn ▸ keeps own
    intro j
    by_cases same : own = j
    · subst same
      dsimp only
      rw [Function.update_self]
      exact acts.goesOn
    · dsimp only
      rw [Function.update_of_ne fun equal => same (Fin.ext equal.symm)]
      exact (keeps j).stable (suit same _ _ acts.complies.guarantee)

/-- Works each of which guarantees what the others rely on keep to their terms in whatever order
they take turns, and each ends as expected. -/
theorem ends_of_keeps (suit : Pairwise fun i j => ∀ d d', (t i).guarantee d d' → (t j).rely d d')
    (keeps : ∀ i, Keeps (t i) (Q i) (works i) d)
    (reaches : ReflTransGen Step (ofNames limit names works d) c) {i : Fin names.length}
    (ended : c.works i = .ended outcome) : Q i outcome c.disk := by
  have kept : ∀ i, Keeps (t i) (Q i) (c.works i) c.disk := by
    clear ended
    induction reaches with
    | refl => exact keeps
    | tail before step ih =>
      exact step.keeps (sound_of_reaches before (Batch.sound_ofNames limit names)) suit ih
  have own := kept i
  rw [ended] at own
  exact own.ends

/-! ## One after the other -/

/-- A running work may go on to its end before anything else happens. -/
theorem reaches_end {batch : Batch (Except ε α)} {u : Work ε α} (running : i ∈ batch.running)
    (work : works i = u) :
    ReflTransGen Step ⟨batch, works, d⟩
      ⟨batch, Function.update works i (.ended (u.run d).1), (u.run d).2⟩ := by
  induction u generalizing works d with
  | ended outcome =>
    rw [Work.run_ended, ← work, Function.update_eq_self]
  | step change next ih =>
    refine .head (.turn running work) ?_
    have later := @ih d (Function.update works i (next d)) (change d) (Function.update_self ..)
    rw [Function.update_idem] at later
    exact later

/-- What happens until a running job is finished, if nothing else happens. -/
theorem reaches_finish {α : Type} {s : Session α} {net : Network} {w : Workspace}
    {b : Batch (Except Failure α)} {works : Nat → Work Failure α} (running : i ∈ b.running)
    (performs : Performs (works i) s net w.home) :
    ReflTransGen Step ⟨b, works, w.disk⟩ ⟨b.finish i (s net w).1,
      Function.update works i (.ended (s net w).1), (s net w).2.disk⟩ := by
  have works' := reaches_end (d := w.disk) running (rfl : works i = works i)
  rw [(performs w rfl).1] at works'
  exact works'.tail (.finish running (Function.update_self ..))

/-- A batch that is worked on job by job goes one of the ways in which its works may take turns. -/
theorem exists_reaches_work {α : Type} (job : String → Session α) {net : Network} {n : Nat}
    {b : Batch (Except Failure α)} {works : Nat → Work Failure α} {w : Workspace}
    (sound : b.Sound names limit) (enough : 0 < limit) (idle : b.running = [])
    (all : b.waiting.length = n)
    (performs : ∀ i ∈ b.waiting, Performs (works i) (job (b.name i)) net w.home) :
    ∃ c w', ReflTransGen Step ⟨b, works, w.disk⟩ c ∧ c.batch.IsOver ∧
      Batch.work job n b net w = (.ok c.batch, w') ∧ w'.disk = c.disk := by
  induction n generalizing b works w with
  | zero =>
    exact ⟨_, w, .refl, ⟨List.length_eq_zero_iff.1 all, idle⟩, rfl, rfl⟩
  | succ n ih =>
    obtain ⟨i, rest, waiting⟩ := List.exists_cons_of_length_eq_add_one all
    let next : Batch (Except Failure α) := { b with waiting := rest, running := [i] }
    have starts : b.start? = some (i, next) := sound.start?_of_idle enough idle waiting
    have running : i ∈ next.running := List.mem_singleton_self i
    rw [waiting, List.forall_mem_cons] at performs
    have first := reaches_finish running performs.1
    have stays := (performs.1 w rfl).2
    let ended : Batch (Except Failure α) := next.finish i (job (b.name i) net w).1
    have finished : ended = _ := Batch.finish_of_running running
    have sound' : ended.Sound names limit := (sound.start starts).finish running _
    have idle' : ended.running = [] :=
      (congrArg Batch.running finished).trans (List.erase_cons_head i [])
    have all' : ended.waiting.length = n := by
      rw [waiting] at all
      rw [finished]
      exact Nat.succ.inj all
    have left : i ∉ rest := (sound.start starts).notMem_waiting running
    have performs' : ∀ j ∈ ended.waiting,
        Performs (Function.update works i (.ended (job (b.name i) net w).1) j)
          (job (ended.name j)) net (job (b.name i) net w).2.home := by
      rw [finished, stays]
      intro j among
      rw [Function.update_of_ne (ne_of_mem_of_not_mem among left)]
      exact performs.2 j among
    obtain ⟨c, w', reaches, isOver, later, same⟩ := ih sound' idle' all' performs'
    refine ⟨c, w', .head (.start starts) (first.trans reaches), isOver, ?_, same⟩
    rw [Batch.work, starts]
    exact later

end Crew

end PackageRisk
