import Mathlib.Logic.Relation
import PackageRisk.Disk.Basic

/-!
# Work that takes turns

Work on a disk that others work on as well is a sequence of steps, each of which looks at the disk
and changes it at once; between two steps the disk may change. `Turn` lets two works take turns in
any order.

What a work needs of the others and what they may expect of it are its terms. `Keeps` says that a
work keeps to its terms as long as the others do what it relies on, and that it ends as expected.
Two works that each keep to what the other relies on keep to their terms however they take turns
(`Keeps.interleaved`).
-/

namespace PackageRisk

/-- Work on a disk: it has ended, or its next step changes the disk and goes on from what it
looked like before. -/
inductive Work (ε α : Type) where
  | ended (outcome : Except ε α)
  | step (change : Disk → Disk) (next : Disk → Work ε α)

namespace Work

variable {ε δ α β : Type} {d d' : Disk}

/-- Work that nobody interrupts. -/
def run : Work ε α → Disk → Except ε α × Disk
  | .ended outcome, d => (outcome, d)
  | .step change next, d => (next d).run (change d)

/-- A work and then another one, which depends on how the first ended. -/
def followedBy : Work ε α → (Except ε α → Work δ β) → Work δ β
  | .ended outcome, f => f outcome
  | .step change next, f => .step change fun d => (next d).followedBy f

instance : Monad (Work ε) where
  pure a := .ended (.ok a)
  bind w f := w.followedBy fun
    | .ok a => f a
    | .error e => .ended (.error e)

/-- A work with other failures. -/
def mapError (f : ε → δ) (w : Work ε α) : Work δ α :=
  w.followedBy fun outcome => .ended (outcome.mapError f)

/-- One look at a disk. -/
def look (see : Disk → Except ε α) : Work ε α :=
  .step id fun d => .ended (see d)

/-- A look that does not fail. -/
def see (sight : Disk → α) : Work ε α :=
  look fun d => .ok (sight d)

/-- One change of a disk, which may fail. -/
def change (act : Disk → Except ε α × Disk) : Work ε α :=
  .step (fun d => (act d).2) fun d => .ended (act d).1

/-! ## Runs -/

theorem run_followedBy (w : Work ε α) (f : Except ε α → Work δ β) :
    (w.followedBy f).run d = (f (w.run d).1).run (w.run d).2 := by
  induction w generalizing d with
  | ended outcome => rfl
  | step change next ih => exact ih d

@[simp]
theorem run_ended (outcome : Except ε α) : (ended outcome).run d = (outcome, d) := rfl

@[simp]
theorem run_look (see : Disk → Except ε α) : (look see).run d = (see d, d) := rfl

@[simp]
theorem run_mapError (f : ε → δ) (w : Work ε α) :
    (w.mapError f).run d = ((w.run d).1.mapError f, (w.run d).2) :=
  run_followedBy w _

@[simp]
theorem ended_ok_bind (a : α) (f : α → Work ε β) : Work.ended (.ok a) >>= f = f a := rfl

theorem run_bind_of_ok {w : Work ε α} {f : α → Work ε β} {a : α} (first : w.run d = (.ok a, d')) :
    (w >>= f).run d = (f a).run d' := by
  show (w.followedBy _).run d = _
  rw [run_followedBy, first]

theorem run_bind_of_error {w : Work ε α} {f : α → Work ε β} {e : ε}
    (first : w.run d = (.error e, d')) : (w >>= f).run d = (.error e, d') := by
  show (w.followedBy _).run d = _
  rw [run_followedBy, first]
  rfl

theorem run_see_bind (sight : Disk → α) (f : α → Work ε β) :
    (see sight >>= f).run d = (f (sight d)).run d := rfl

/-! ## Terms -/

/-- What a work relies on in the steps of others, what it guarantees for its own, and all of a
disk that it has in sight. -/
structure Terms where
  rely : Disk → Disk → Prop
  guarantee : Disk → Disk → Prop
  sight : Disk → Disk
  rely_refl : ∀ d, rely d d
  rely_trans : ∀ {d d' d''}, rely d d' → rely d' d'' → rely d d''
  guarantee_refl : ∀ d, guarantee d d
  guarantee_trans : ∀ {d d' d''}, guarantee d d' → guarantee d' d'' → guarantee d d''

variable {t t' : Terms} {change : Disk → Disk} {next : Disk → Work ε α} {w : Work ε α}
  {Q Q' : Except ε α → Disk → Prop} {R : Except δ β → Disk → Prop}

/-- A step on a disk that does what is guaranteed, and does not depend on what is out of sight. -/
structure Complies (t : Terms) (change : Disk → Disk) (next : Disk → Work ε α) (d : Disk) :
    Prop where
  guarantee : t.guarantee d (change d)
  change : change (t.sight d) = t.sight (change d)
  next : next (t.sight d) = next d

/-- From a disk on, each step complies with the terms whatever others do between the steps that is
relied on, and so does the end with what is expected of it. -/
def Keeps (t : Terms) (Q : Except ε α → Disk → Prop) : Work ε α → Disk → Prop
  | .ended outcome, d => ∀ d', t.rely d d' → Q outcome d'
  | .step change next, d => ∀ d', t.rely d d' →
    Complies t change next d' ∧ Keeps t Q (next d') (change d')

theorem Keeps.stable (keeps : Keeps t Q w d) (others : t.rely d d') : Keeps t Q w d' := by
  cases w with
  | ended outcome => exact fun d'' later => keeps d'' (t.rely_trans others later)
  | step change next => exact fun d'' later => keeps d'' (t.rely_trans others later)

theorem Keeps.complies (keeps : Keeps t Q (.step change next) d) : Complies t change next d :=
  (keeps d (t.rely_refl d)).1

theorem Keeps.goesOn (keeps : Keeps t Q (.step change next) d) : Keeps t Q (next d) (change d) :=
  (keeps d (t.rely_refl d)).2

theorem Keeps.ends {outcome : Except ε α} (keeps : Keeps t Q (.ended outcome) d) : Q outcome d :=
  keeps d (t.rely_refl d)

theorem Keeps.mono (keeps : Keeps t Q w d) (weaker : ∀ outcome d, Q outcome d → Q' outcome d) :
    Keeps t Q' w d := by
  induction w generalizing d with
  | ended outcome => exact fun d' others => weaker _ _ (keeps d' others)
  | step change next ih =>
    exact fun d' others => ⟨(keeps d' others).1, ih d' (keeps d' others).2⟩

theorem Keeps.followedBy {f : Except ε α → Work δ β} (keeps : Keeps t Q w d)
    (later : ∀ outcome d, Q outcome d → Keeps t R (f outcome) d) :
    Keeps t R (w.followedBy f) d := by
  induction w generalizing d with
  | ended outcome => exact later outcome d (keeps d (t.rely_refl d))
  | step change next ih =>
    intro d' others
    obtain ⟨complies, goesOn⟩ := keeps d' others
    refine ⟨⟨complies.guarantee, complies.change, ?_⟩, ih d' goesOn⟩
    exact congrArg (Work.followedBy · f) complies.next

theorem keeps_ended {outcome : Except ε α} (ends : ∀ d', t.rely d d' → Q outcome d') :
    Keeps t Q (.ended outcome) d := ends

theorem Keeps.bind {f : α → Work ε β} {R : Except ε β → Disk → Prop} (keeps : Keeps t Q w d)
    (later : ∀ a d, Q (.ok a) d → Keeps t R (f a) d)
    (failed : ∀ e d, Q (.error e) d → ∀ d', t.rely d d' → R (.error e) d') :
    Keeps t R (w >>= f) d := by
  refine keeps.followedBy fun outcome d ends => ?_
  cases outcome with
  | ok a => exact later a d ends
  | error e => exact failed e d ends

theorem Keeps.mapError {f : ε → δ} {R : Except δ α → Disk → Prop} (keeps : Keeps t Q w d)
    (ends : ∀ outcome d, Q outcome d → ∀ d', t.rely d d' → R (outcome.mapError f) d') :
    Keeps t R (w.mapError f) d :=
  keeps.followedBy ends

/-- A look complies if it does not depend on what is out of sight. -/
theorem keeps_look {see : Disk → Except ε α}
    (blind : ∀ d', t.rely d d' → see (t.sight d') = see d')
    (ends : ∀ d', t.rely d d' → ∀ d'', t.rely d' d'' → Q (see d') d'') :
    Keeps t Q (look see) d := by
  intro d' others
  exact ⟨⟨t.guarantee_refl d', rfl, congrArg ended (blind d' others)⟩, ends d' others⟩

theorem Keeps.see_bind {sight : Disk → α} {f : α → Work ε β} {R : Except ε β → Disk → Prop}
    (blind : ∀ d', t.rely d d' → sight (t.sight d') = sight d')
    (later : ∀ d', t.rely d d' → Keeps t R (f (sight d')) d') : Keeps t R (see sight >>= f) d := by
  intro d' others
  exact ⟨⟨t.guarantee_refl d', rfl, congrArg f (blind d' others)⟩, later d' others⟩

/-- A change complies if it does alike where it has not all in sight. -/
theorem keeps_change {act : Disk → Except ε α × Disk}
    (guarantee : ∀ d', t.rely d d' → t.guarantee d' (act d').2)
    (blind : ∀ d', t.rely d d' → act (t.sight d') = ((act d').1, t.sight (act d').2))
    (ends : ∀ d', t.rely d d' → ∀ d'', t.rely (act d').2 d'' → Q (act d').1 d'') :
    Keeps t Q (Work.change act) d := by
  intro d' others
  refine ⟨⟨guarantee d' others, ?_, ?_⟩, ends d' others⟩
  · rw [blind d' others]
  · rw [blind d' others]

/-- Where nobody interrupts it, a work that keeps to its terms does as a whole what it guarantees
for each step, and ends as expected. -/
theorem Keeps.run (keeps : Keeps t Q w d) :
    t.guarantee d (w.run d).2 ∧ Q (w.run d).1 (w.run d).2 := by
  induction w generalizing d with
  | ended outcome => exact ⟨t.guarantee_refl d, keeps d (t.rely_refl d)⟩
  | step change next ih =>
    obtain ⟨complies, goesOn⟩ := keeps d (t.rely_refl d)
    obtain ⟨later, ends⟩ := ih d goesOn
    exact ⟨t.guarantee_trans complies.guarantee later, ends⟩

/-! ## Taking turns -/

/-- Two works on one disk. -/
structure Both (ε α δ β : Type) where
  first : Work ε α
  second : Work δ β
  disk : Disk

/-- One of two works takes its next step. -/
inductive Turn : Both ε α δ β → Both ε α δ β → Prop
  | first {change : Disk → Disk} {next : Disk → Work ε α} {other : Work δ β} {d : Disk} :
    Turn ⟨.step change next, other, d⟩ ⟨next d, other, change d⟩
  | second {change : Disk → Disk} {next : Disk → Work δ β} {other : Work ε α} {d : Disk} :
    Turn ⟨other, .step change next, d⟩ ⟨other, next d, change d⟩

/-- Two works keep to their terms in whatever order they take turns, if each guarantees what the
other relies on. -/
theorem Keeps.interleaved {v : Work δ β} {s : Both ε α δ β}
    (first : ∀ {d d'}, t.guarantee d d' → t'.rely d d')
    (second : ∀ {d d'}, t'.guarantee d d' → t.rely d d')
    (keeps : Keeps t Q w d) (keeps' : Keeps t' R v d)
    (turns : Relation.ReflTransGen Turn ⟨w, v, d⟩ s) :
    Keeps t Q s.first s.disk ∧ Keeps t' R s.second s.disk := by
  induction turns with
  | refl => exact ⟨keeps, keeps'⟩
  | tail _ turn ih =>
    obtain ⟨ihFirst, ihSecond⟩ := ih
    cases turn with
    | first =>
      obtain ⟨complies, goesOn⟩ := ihFirst _ (t.rely_refl _)
      exact ⟨goesOn, ihSecond.stable (first complies.guarantee)⟩
    | second =>
      obtain ⟨complies, goesOn⟩ := ihSecond _ (t'.rely_refl _)
      exact ⟨ihFirst.stable (second complies.guarantee), goesOn⟩

/-! ## Out of sight -/

/-- Terms that rely on more where a disk is of one kind: that it stays of this kind, and when it is
also of another kind, that it stays of that one and nothing changes in sight. -/
def Terms.unseen (t : Terms) (I J : Disk → Prop) : Terms where
  rely d d' := I d → t.rely d d' ∧ I d' ∧ (J d → J d' ∧ t.sight d' = t.sight d)
  guarantee := t.guarantee
  sight := t.sight
  rely_refl d known := ⟨t.rely_refl d, known, fun settled => ⟨settled, rfl⟩⟩
  rely_trans first second known := by
    obtain ⟨others, known, unseen⟩ := first known
    obtain ⟨others', known', unseen'⟩ := second known
    refine ⟨t.rely_trans others others', known', fun settled => ?_⟩
    obtain ⟨settled, looks⟩ := unseen settled
    obtain ⟨settled, looks'⟩ := unseen' settled
    exact ⟨settled, looks'.trans looks⟩
  guarantee_refl := t.guarantee_refl
  guarantee_trans := t.guarantee_trans

variable {I J : Disk → Prop}

/-- A work that keeps a disk of a kind may know that it is of this kind. -/
theorem Keeps.knowing (keeps : Keeps t Q w d) (known : I d)
    (own : ∀ {d d'}, I d → t.guarantee d d' → I d') :
    Keeps (t.unseen I J) (fun outcome d => Q outcome d ∧ I d) w d := by
  induction w generalizing d with
  | ended outcome =>
    intro d' others
    obtain ⟨others, known', -⟩ := others known
    exact ⟨keeps d' others, known'⟩
  | step change next ih =>
    intro d' others
    obtain ⟨others, known', -⟩ := others known
    obtain ⟨complies, goesOn⟩ := keeps d' others
    exact ⟨⟨complies.guarantee, complies.change, complies.next⟩,
      ih d' goesOn (own known' complies.guarantee)⟩

/-- Where others change nothing in sight, a work ends like a run of it alone from a disk that looks
the same: both take the same steps. -/
theorem Keeps.unseen {a : Disk} (keeps : Keeps t Q w d) (known : I d) (settled : J d)
    (own : ∀ {d d'}, I d → J d → t.guarantee d d' → I d' ∧ J d') (alone : Keeps t Q w a)
    (looks : t.sight a = t.sight d) :
    Keeps (t.unseen I J) (fun outcome _ => outcome = (w.run a).1) w d := by
  induction w generalizing d a with
  | ended outcome => exact fun _ _ => rfl
  | step change next ih =>
    intro d' others
    obtain ⟨others, known', unseen⟩ := others known
    obtain ⟨settled', looks'⟩ := unseen settled
    obtain ⟨complies, goesOn⟩ := keeps d' others
    obtain ⟨complies', goesOn'⟩ := alone a (t.rely_refl a)
    have looks'' : t.sight a = t.sight d' := looks.trans looks'.symm
    have same : next d' = next a := by
      rw [← complies.next, ← looks'', complies'.next]
    obtain ⟨later, settled''⟩ := own known' settled' complies.guarantee
    refine ⟨⟨complies.guarantee, complies.change, complies.next⟩, ?_⟩
    rw [Work.run, ← same]
    rw [← same] at goesOn'
    refine ih d' goesOn later settled'' goesOn' ?_
    rw [← complies'.change, looks'', complies.change]

-- A work is not to be unfolded in search of what it has to keep to.
attribute [irreducible] Keeps

end Work

end PackageRisk
