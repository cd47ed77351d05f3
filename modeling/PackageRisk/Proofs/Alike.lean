import PackageRisk.Proofs.Session

/-!
# Two runs

What one input gives is compared with what another one gives. Two outcomes are alike if both are
results and these are related, or if both are the same failure. Two sessions are alike if they end
alike from every workspace and leave the same one behind, so sequences of sessions that are alike
are alike again (`Session.Alike.bind`).
-/

namespace PackageRisk

/-- Two results that are related, or one failure on both sides. -/
inductive Alike {ε α β : Type} (R : α → β → Prop) : Except ε α → Except ε β → Prop
  | ok {a : α} {b : β} (related : R a b) : Alike R (.ok a) (.ok b)
  | error (e : ε) : Alike R (.error e) (.error e)

section Outcomes

variable {ε α β α' β' : Type} {R : α → β → Prop} {S : α' → β' → Prop}

theorem Alike.refl {Q : α → α → Prop} (refl : ∀ a, Q a a) (x : Except ε α) : Alike Q x x := by
  rcases x with e | a
  · exact .error e
  · exact .ok (refl a)

theorem Alike.bind {x : Except ε α} {y : Except ε β} {f : α → Except ε α'} {g : β → Except ε β'}
    (first : Alike R x y) (second : ∀ a b, R a b → Alike S (f a) (g b)) :
    Alike S (x >>= f) (y >>= g) := by
  cases first with
  | ok related => exact second _ _ related
  | error e => exact .error e

theorem Alike.exists_left {x : Except ε α} {b : β} (alike : Alike R x (.ok b)) :
    ∃ a, x = .ok a ∧ R a b := by
  cases alike with
  | ok related => exact ⟨_, rfl, related⟩

theorem Alike.mono {S : α → β → Prop} {x : Except ε α} {y : Except ε β} (alike : Alike R x y)
    (weaker : ∀ a b, R a b → S a b) : Alike S x y := by
  cases alike with
  | ok related => exact .ok (weaker _ _ related)
  | error e => exact .error e

theorem Alike.ofFault {x : Except Fault α} {y : Except Fault β} (alike : Alike R x y) :
    Alike R (Failure.ofFault x) (Failure.ofFault y) := by
  cases alike with
  | ok related => exact .ok related
  | error e => exact .error (Failure.fault e)

/-- What is told beside a deduction has no part in it. -/
theorem RuleResult.deducting_details (weight : Value) (risk : Risk) (details details' : Fields) :
    Alike (fun r r' => r.details = details ∧ r' = { r with details := details' })
      (deducting weight risk details) (deducting weight risk details') := by
  refine (Alike.refl (fun _ => rfl) _).bind ?_
  rintro given _ rfl
  refine (Alike.refl (fun _ => rfl) _).bind ?_
  rintro deduction _ rfl
  exact .ok ⟨rfl, rfl⟩

end Outcomes

namespace Session

variable {α β α' β' : Type} {R : α → β → Prop} {S : α' → β' → Prop}

/-- Two sessions that end alike wherever they start, and leave the same workspace. -/
def Alike (R : α → β → Prop) (s : Session α) (t : Session β) : Prop :=
  ∀ net w, PackageRisk.Alike R (s net w).1 (t net w).1 ∧ (s net w).2 = (t net w).2

theorem Alike.refl {Q : α → α → Prop} (refl : ∀ a, Q a a) (s : Session α) : s.Alike Q s :=
  fun _ _ => ⟨.refl refl _, rfl⟩

theorem alike_pure {a : α} {b : β} (related : R a b) :
    Alike R (pure a : Session α) (pure b : Session β) :=
  fun _ _ => ⟨.ok related, rfl⟩

theorem alike_lift {x : Except Failure α} {y : Except Failure β}
    (alike : PackageRisk.Alike R x y) : Alike R (lift x) (lift y) := by
  intro net w
  rw [run_lift, run_lift]
  exact ⟨alike, rfl⟩

theorem Alike.bind {s : Session α} {t : Session β} {f : α → Session α'} {g : β → Session β'}
    (first : s.Alike R t) (second : ∀ a b, R a b → (f a).Alike S (g b)) :
    (s >>= f).Alike S (t >>= g) := by
  intro net w
  obtain ⟨outcome, workspace⟩ := first net w
  rw [run_bind, run_bind]
  generalize s net w = x at outcome workspace
  generalize t net w = y at outcome workspace
  obtain ⟨x, w₁⟩ := x
  obtain ⟨y, w₂⟩ := y
  obtain rfl : w₁ = w₂ := workspace
  cases outcome with
  | ok related => exact second _ _ related net w₁
  | error e => exact ⟨.error e, rfl⟩

theorem Alike.attempt {s : Session α} {t : Session β} (alike : s.Alike R t) :
    s.attempt.Alike (PackageRisk.Alike R) t.attempt := by
  intro net w
  obtain ⟨outcome, workspace⟩ := alike net w
  rw [run_attempt, run_attempt]
  exact ⟨.ok outcome, workspace⟩

end Session

end PackageRisk
