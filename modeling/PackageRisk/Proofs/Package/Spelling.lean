import PackageRisk.Proofs.Package.Parts

/-!
# Documents in another spelling

Six fields have a spelling of the registry and one of their own. A document that spells some of them
the one way stands for the same package as one that spells them the other way
(`Package.Parts.respelled`), wherever the fields are listed: what counts is what is under each key.
-/

namespace PackageRisk

namespace Fields

/-- Fields of which some that the registry's spelling is used for have their own spelling in
`fields'`, and those of the other keys are related. The two columns of `spellings` are the
registry's and the fields' own. A field that has both spellings keeps them. -/
structure Respelled (spellings : List (String × String)) (V : String → Value → Value → Prop)
    (fields fields' : Fields) : Prop where
  spelled : ∀ s ∈ spellings,
    (get? fields' s.1 = get? fields s.1 ∧ get? fields' s.2 = get? fields s.2) ∨
      get? fields s.2 = none ∧ get? fields' s.1 = none ∧ get? fields' s.2 = get? fields s.1
  others : ∀ key, (∀ s ∈ spellings, key ≠ s.1 ∧ key ≠ s.2) →
    Option.Rel (V key) (get? fields key) (get? fields' key)

/-- What is the same is related, where each value is related to itself. -/
theorem rel_of_eq {R : Value → Value → Prop} {x y : Option Value} (refl : ∀ v, R v v)
    (same : y = x) : Option.Rel R x y := by
  subst same
  cases y with
  | none => exact .none
  | some v => exact .some (refl v)

namespace Respelled

variable {spellings : List (String × String)} {V : String → Value → Value → Prop}
  {fields fields' : Fields} {registry own key : String} {α : Type} {default a : α}
  {check : Check α}

theorem fieldOr_spelled (respelled : Respelled spellings V fields fields')
    (among : (registry, own) ∈ spellings) :
    fieldOr [registry, own] default check fields = .valid a →
      fieldOr [registry, own] default check fields' = .valid a := by
  intro accepted
  rw [fieldOr_cons, fieldOr_cons] at accepted ⊢
  obtain ⟨first, second⟩ | ⟨absent, gone, moved⟩ := respelled.spelled _ among
  · rw [first, second]
    exact accepted
  · rw [gone, moved]
    rw [absent] at accepted
    cases found : get? fields registry with
    | none => rwa [found] at accepted
    | some v =>
      rw [found] at accepted
      exact Checked.inside_eq_valid.2 (Checked.inside_eq_valid.1 accepted)

theorem get?_eq (respelled : Respelled spellings V fields fields')
    (plain : ∀ v v', V key v v' → v = v') (other : ∀ s ∈ spellings, key ≠ s.1 ∧ key ≠ s.2) :
    get? fields' key = get? fields key := by
  have related := respelled.others key other
  generalize get? fields key = x at related
  generalize get? fields' key = y at related
  cases related with
  | none => rfl
  | some same => rw [plain _ _ same]

theorem fieldOr_eq (respelled : Respelled spellings V fields fields')
    (plain : ∀ v v', V key v v' → v = v') (other : ∀ s ∈ spellings, key ≠ s.1 ∧ key ≠ s.2) :
    fieldOr [key] default check fields' = fieldOr [key] default check fields := by
  rw [fieldOr_cons, fieldOr_cons, respelled.get?_eq plain other]
  rfl

end Respelled

end Fields

/-- The fields of a distribution that have two spellings. -/
def Distribution.spellings : List (String × String) :=
  [("unpackedSize", "unpacked_size"), ("fileCount", "file_count")]

/-- The fields of a package that have two spellings. -/
def Package.spellings : List (String × String) :=
  [("devDependencies", "dev_dependencies"), ("peerDependencies", "peer_dependencies"),
   ("optionalDependencies", "optional_dependencies"), ("_npmUser", "npm_user")]

/-- The fields of a distribution, some in another spelling. -/
def Distribution.Respelled (fields fields' : Fields) : Prop :=
  Fields.Respelled Distribution.spellings (fun _ v v' => v = v') fields fields'

/-- Values under a key of which that of the distribution may have some fields in another
spelling. -/
def Package.RespelledPart (key : String) (v v' : Value) : Prop :=
  v = v' ∨ key = "dist" ∧
    ∃ dist dist', v = .object dist ∧ v' = .object dist' ∧ Distribution.Respelled dist dist'

/-- The fields of a package, some in another spelling, those of its distribution too. -/
def Package.Respelled (fields fields' : Fields) : Prop :=
  Fields.Respelled Package.spellings Package.RespelledPart fields fields'

variable {fields fields' : Fields}

theorem Distribution.Parts.respelled {d : Distribution} (parts : Parts fields d)
    (respelled : Distribution.Respelled fields fields') : Parts fields' d where
  tarball := by rw [respelled.fieldOr_eq (fun _ _ => id) (by decide), parts.tarball]
  unpackedSize := respelled.fieldOr_spelled (by decide) parts.unpackedSize
  fileCount := respelled.fieldOr_spelled (by decide) parts.fileCount
  size := by rw [respelled.fieldOr_eq (fun _ _ => id) (by decide), parts.size]
  shasum := by rw [respelled.fieldOr_eq (fun _ _ => id) (by decide), parts.shasum]
  integrity := by rw [respelled.fieldOr_eq (fun _ _ => id) (by decide), parts.integrity]
  signatures := by rw [respelled.fieldOr_eq (fun _ _ => id) (by decide), parts.signatures]
  attestations := by rw [respelled.fieldOr_eq (fun _ _ => id) (by decide), parts.attestations]

namespace Package

theorem eq_of_respelledPart {key : String} {v v' : Value} (same : RespelledPart key v v')
    (plain : key ≠ "dist") : v = v' := by
  obtain same | ⟨here, -⟩ := same
  · exact same
  · exact absurd here plain

theorem Respelled.fieldOr_plain {key : String} {α : Type} {default : α} {check : Check α}
    (respelled : Package.Respelled fields fields') (plain : key ≠ "dist")
    (other : ∀ s ∈ spellings, key ≠ s.1 ∧ key ≠ s.2) :
    fieldOr [key] default check fields' = fieldOr [key] default check fields :=
  respelled.fieldOr_eq (fun _ _ same => eq_of_respelledPart same plain) other

/-- The distribution is read from its own fields, whichever spelling these have. -/
theorem Respelled.fieldOr_dist {d : Distribution} (respelled : Package.Respelled fields fields')
    (accepted : fieldOr ["dist"] .unknown (.orEmptyObject Distribution.check) fields = .valid d) :
    fieldOr ["dist"] .unknown (.orEmptyObject Distribution.check) fields' = .valid d := by
  have related := respelled.others "dist" (by decide)
  rw [fieldOr_cons] at accepted ⊢
  generalize Fields.get? fields "dist" = x at related accepted
  generalize Fields.get? fields' "dist" = y at related ⊢
  cases related with
  | none => exact accepted
  | some same =>
    obtain rfl | ⟨-, dist, dist', rfl, rfl, inner⟩ := same
    · exact accepted
    · have parts := Distribution.check_eq_valid_iff.1 (Checked.inside_eq_valid.1 accepted)
      exact Checked.inside_eq_valid.2 (Distribution.check_eq_valid_iff.2 (parts.respelled inner))

theorem Parts.respelled {p : Package} (parts : Parts fields p)
    (respelled : Package.Respelled fields fields') : Parts fields' p where
  name := by
    have same : Fields.get? fields' "name" = Fields.get? fields "name" :=
      respelled.get?_eq (fun _ _ same => eq_of_respelledPart same (by decide)) (by decide)
    rw [required, same]
    exact parts.name
  version := by rw [respelled.fieldOr_plain (by decide) (by decide), parts.version]
  description := by rw [respelled.fieldOr_plain (by decide) (by decide), parts.description]
  scripts := by rw [respelled.fieldOr_plain (by decide) (by decide), parts.scripts]
  dependencies := by rw [respelled.fieldOr_plain (by decide) (by decide), parts.dependencies]
  devDependencies := respelled.fieldOr_spelled (by decide) parts.devDependencies
  peerDependencies := respelled.fieldOr_spelled (by decide) parts.peerDependencies
  optionalDependencies := respelled.fieldOr_spelled (by decide) parts.optionalDependencies
  dist := respelled.fieldOr_dist parts.dist
  files := by rw [respelled.fieldOr_plain (by decide) (by decide), parts.files]
  repository := by rw [respelled.fieldOr_plain (by decide) (by decide), parts.repository]
  author := by rw [respelled.fieldOr_plain (by decide) (by decide), parts.author]
  license := by rw [respelled.fieldOr_plain (by decide) (by decide), parts.license]
  homepage := by rw [respelled.fieldOr_plain (by decide) (by decide), parts.homepage]
  maintainers := by rw [respelled.fieldOr_plain (by decide) (by decide), parts.maintainers]
  publisher := respelled.fieldOr_spelled (by decide) parts.publisher
  sbom := by rw [respelled.fieldOr_plain (by decide) (by decide), parts.sbom]

/-- What an accepted package is written as is accepted as that package, and so is its document with
fields in another spelling. -/
theorem check_settled {p : Package} (accepted : check (.object fields) = .valid p)
    (respelled : Package.Respelled fields fields') :
    check p.toValue = .valid p ∧ check (.object fields') = .valid p := by
  have parts := check_eq_valid_iff.1 accepted
  exact ⟨check_toValue parts.given, check_eq_valid_iff.2 (parts.respelled respelled)⟩

/-- Two documents of one package. The second one lists its fields in another order, and those that
have the registry's spelling in the first one under their own. -/
theorem check_settled_moved :
    let dist : Fields := [("tarball", .text ""), ("unpackedSize", .bool true), ("size", .null)]
    let dist' : Fields := [("unpacked_size", .bool true), ("tarball", .text ""), ("size", .null)]
    let fields : Fields := [("name", .text "p"), ("devDependencies", .object [("a", .text "1")]),
      ("peerDependencies", .null), ("_npmUser", .object [("name", .text "u")]),
      ("dist", .object dist)]
    let fields' : Fields := [("name", .text "p"), ("peerDependencies", .null),
      ("dist", .object dist'), ("npm_user", .object [("name", .text "u")]),
      ("dev_dependencies", .object [("a", .text "1")])]
    ∃ p, check (.object fields) = .valid p ∧ p.dist.unpackedSize = 1 ∧
      check p.toValue = .valid p ∧ check (.object fields') = .valid p := by
  intro dist dist' fields fields'
  have inner : Distribution.Respelled dist dist' := by
    constructor
    · simp [Distribution.spellings, dist, dist', Fields.get?, List.lookup]
    · intro key other
      simp only [Distribution.spellings, List.forall_mem_cons] at other
      apply Fields.rel_of_eq (fun _ => rfl)
      simp [dist, dist', Fields.get?, List.lookup_cons, beq_false_of_ne, other.1.1, other.1.2]
  have respelled : Package.Respelled fields fields' := by
    constructor
    · simp [Package.spellings, fields, fields', Fields.get?, List.lookup]
    · intro key other
      simp only [Package.spellings, List.forall_mem_cons] at other
      obtain ⟨dev, -, -, user, -⟩ := other
      by_cases here : key = "dist"
      · subst here
        exact .some (.inr ⟨rfl, dist, dist', rfl, rfl, inner⟩)
      · apply Fields.rel_of_eq (fun _ => .inl rfl)
        simp [fields, fields', Fields.get?, List.lookup_cons, beq_false_of_ne, dev, user, here]
  exact ⟨_, rfl, rfl, check_settled rfl respelled⟩

end Package
end PackageRisk
