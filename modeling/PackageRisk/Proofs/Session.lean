import PackageRisk.Proofs.Results
import PackageRisk.Session

/-!
# Runs of sessions

What a session does from a given network and workspace. A run of a sequence is a run of its
first part and then, if that ended with a result, of its second (`run_bind`).
-/

namespace PackageRisk

namespace Session

variable {α β : Type} {net : Network} {w w' : Workspace}

@[simp]
theorem run_pure (a : α) : (pure a : Session α) net w = (.ok a, w) := rfl

@[simp]
theorem run_fail (e : Failure) : (fail e : Session α) net w = (.error e, w) := rfl

@[simp]
theorem run_lift (outcome : Except Failure α) : lift outcome net w = (outcome, w) := by
  cases outcome <;> rfl

@[simp]
theorem run_liftFault (outcome : Except Fault α) :
    liftFault outcome net w = (outcome.mapError .fault, w) := by
  cases outcome <;> rfl

@[simp]
theorem run_attempt (s : Session α) :
    s.attempt net w = (.ok (s net w).1, (s net w).2) := rfl

/-- How a session goes on from what its first part ended with. -/
def resume (f : α → Session β) (net : Network) :
    Except Failure α × Workspace → Except Failure β × Workspace
  | (.ok a, w) => f a net w
  | (.error e, w) => (.error e, w)

theorem run_bind (s : Session α) (f : α → Session β) :
    (s >>= f) net w = resume f net (s net w) := rfl

theorem outcome_bind (s : Session α) (f : α → Session β) :
    ((s >>= f) net w).1 = (s net w).1 >>= fun a => (f a net (s net w).2).1 := by
  rw [run_bind]
  rcases s net w with ⟨e | a, w'⟩ <;> rfl

theorem bind_of_ok {s : Session α} {f : α → Session β} {a : α}
    (first : s net w = (.ok a, w')) : (s >>= f) net w = f a net w' := by
  rw [run_bind, first, resume]

theorem bind_of_error {s : Session α} {f : α → Session β} {e : Failure}
    (first : s net w = (.error e, w')) : (s >>= f) net w = (.error e, w') := by
  rw [run_bind, first, resume]

/-- Two parts that leave the workspace as it is do so one after the other. -/
theorem workspace_bind {s : Session α} {f : α → Session β} (first : (s net w).2 = w)
    (second : ∀ a, (f a net w).2 = w) : ((s >>= f) net w).2 = w := by
  rcases ends : s net w with ⟨outcome, w'⟩
  obtain rfl : w' = w := by rwa [ends] at first
  rcases outcome with e | a
  · rw [bind_of_error ends]
  · rw [bind_of_ok ends, second]

theorem run_thenAlways {s : Session α} {last : Session Unit} {outcome : Except Failure α}
    {w'' : Workspace} (first : s net w = (outcome, w')) (after : last net w' = (.ok (), w'')) :
    s.thenAlways last net w = (outcome, w'') := by
  rw [thenAlways, bind_of_ok (run_attempt s), first, bind_of_ok after, run_lift]

end Session

end PackageRisk
