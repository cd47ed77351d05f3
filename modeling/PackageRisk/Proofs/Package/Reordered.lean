import Mathlib.Data.List.Perm.Basic
import PackageRisk.Package.Check
import PackageRisk.Proofs.Fields
import PackageRisk.Proofs.Results

/-!
# Documents in another order

A document may list its scripts, its dependencies, its files, its maintainers and its signatures in
another order. The check of packages accepts both documents or neither, and the packages that they
stand for differ in the order of these parts only (`reordered_of_check`).
-/

namespace PackageRisk

/-! ## Two checks -/

namespace Checked

variable {α β α' β' : Type} {Q : α → β → Prop} {S : α' → β' → Prop} {x : Checked α} {y : Checked β}

/-- Where one check accepts, so does another one, with a related outcome. -/
def Keeps (Q : α → β → Prop) (x : Checked α) (y : Checked β) : Prop :=
  ∀ a, x = .valid a → ∃ b, y = .valid b ∧ Q a b

theorem Keeps.refl {Q : α → α → Prop} (refl : ∀ a, Q a a) (x : Checked α) : Keeps Q x x :=
  fun a accepted => ⟨a, accepted, refl a⟩

theorem keeps_valid {a : α} {b : β} (related : Q a b) : Keeps Q (.valid a) (.valid b) := by
  rintro _ ⟨⟩
  exact ⟨b, rfl, related⟩

theorem Keeps.map {f : α → α'} {g : β → β'} (maps : Relator.LiftFun Q S f g) (keeps : Keeps Q x y) :
    Keeps S (f <$> x) (g <$> y) := by
  intro _ accepted
  obtain ⟨a, one, rfl⟩ := map_eq_valid.1 accepted
  obtain ⟨b, two, related⟩ := keeps a one
  exact ⟨_, map_eq_valid.2 ⟨b, two, rfl⟩, maps related⟩

theorem Keeps.seq {f : Checked (α → α')} {g : Checked (β → β')}
    (maps : Keeps (Relator.LiftFun Q S) f g) (keeps : Keeps Q x y) :
    Keeps S (f <*> x) (g <*> y) := by
  intro _ accepted
  obtain ⟨h, a, made, one, rfl⟩ := seq_eq_valid.1 accepted
  obtain ⟨h', made', lifted⟩ := maps h made
  obtain ⟨b, two, related⟩ := keeps a one
  exact ⟨_, seq_eq_valid.2 ⟨h', b, made', two, rfl⟩, lifted related⟩

theorem Keeps.inside (keeps : Keeps Q x y) (step step' : Step) :
    Keeps Q (x.inside step) (y.inside step') := by
  intro a accepted
  obtain ⟨b, two, related⟩ := keeps a (inside_eq_valid.1 accepted)
  exact ⟨b, inside_eq_valid.2 two, related⟩

end Checked

open Checked (Keeps)

/-! ## Shuffled values -/

namespace Check

variable {α : Type} {check : Check α}

theorem keeps_itemsFrom {i j : Nat} {items items' : List Value} (perm : items.Perm items') :
    Keeps List.Perm (itemsFrom check i items) (itemsFrom check j items') := by
  intro checked accepted
  obtain ⟨checked', all, perm'⟩ :=
    List.perm_comp_forall₂ perm.symm (itemsFrom_eq_valid_iff.1 accepted)
  exact ⟨checked', itemsFrom_eq_valid_iff.2 all, perm'.symm⟩

theorem keeps_fieldsOf {fields fields' : Fields} (perm : fields.Perm fields') :
    Keeps List.Perm (fieldsOf check fields) (fieldsOf check fields') := by
  intro checked accepted
  obtain ⟨checked', all, perm'⟩ :=
    List.perm_comp_forall₂ perm.symm (fieldsOf_eq_valid_iff.1 accepted)
  exact ⟨checked', fieldsOf_eq_valid_iff.2 all, perm'.symm⟩

end Check

/-- The fields of an object with each key once, or the items of a list, in another order. -/
inductive Value.Shuffled : Value → Value → Prop
  | object {fields fields' : Fields} (once : (Fields.keys fields).Nodup)
      (perm : fields.Perm fields') : Shuffled (.object fields) (.object fields')
  | list {items items' : List Value} (perm : items.Perm items') :
      Shuffled (.list items) (.list items')

namespace Value.Shuffled

variable {α : Type} {check : Check α} {v v' : Value}

theorem keeps_list (shuffled : v.Shuffled v') :
    Keeps List.Perm (Check.list check v) (Check.list check v') := by
  cases shuffled with
  | object => exact nofun
  | list perm => exact Check.keeps_itemsFrom perm

theorem keeps_orEmptyList (shuffled : v.Shuffled v') :
    Keeps List.Perm (Check.orEmptyList (.list check) v) (Check.orEmptyList (.list check) v') := by
  have keeps : Keeps List.Perm (Check.list check v) (Check.list check v') := shuffled.keeps_list
  cases shuffled <;> exact keeps

theorem keeps_versions (shuffled : v.Shuffled v') :
    Keeps List.Perm (Check.versions v) (Check.versions v') := by
  cases shuffled with
  | object once perm => exact Check.keeps_fieldsOf perm
  | list => exact nofun

theorem keeps_scripts (shuffled : v.Shuffled v') :
    Keeps (fun f g => ∀ key, Fields.get? f key = Fields.get? g key)
      (Check.orEmptyObject .object v) (Check.orEmptyObject .object v') := by
  cases shuffled with
  | object once perm => exact Checked.keeps_valid fun key => Fields.get?_perm perm once
  | list => exact nofun

end Value.Shuffled

/-! ## Documents field by field -/

/-- Fields of the same keys in the same order, with values that are related under their keys. -/
def Fields.Related (V : String → Value → Value → Prop) (fields fields' : Fields) : Prop :=
  List.Forall₂ (fun f g => f.1 = g.1 ∧ V f.1 f.2 g.2) fields fields'

namespace Fields.Related

variable {V : String → Value → Value → Prop} {fields fields' : Fields} {key name : String}

theorem get? (related : Fields.Related V fields fields') (key : String) :
    Option.Rel (V key) (Fields.get? fields key) (Fields.get? fields' key) := by
  unfold Fields.get?
  induction related with
  | nil => exact .none
  | @cons f g fields fields' one _ ih =>
    obtain ⟨k, v⟩ := f
    obtain ⟨_, v'⟩ := g
    obtain ⟨rfl, here⟩ := one
    rw [List.lookup_cons, List.lookup_cons]
    rcases at' : key == k with _ | _
    · exact ih
    · exact .some (beq_iff_eq.1 at' ▸ here)

variable {α : Type} {Q : α → α → Prop} {check : Check α} {default : α} {spellings : List String}

theorem keeps_required (related : Fields.Related V fields fields')
    (each : ∀ v v', V name v v' → Keeps Q (check v) (check v')) :
    Keeps Q (required name check fields) (required name check fields') := by
  have here := related.get? name
  unfold required
  generalize Fields.get? fields name = x at here ⊢
  generalize Fields.get? fields' name = y at here ⊢
  cases here with
  | some same => exact (each _ _ same).inside _ _
  | none => exact nofun

/-- The first spelling that one document has is the first one that the other has. -/
theorem keeps_fieldOr (related : Fields.Related V fields fields') (absent : Q default default)
    (each : ∀ key ∈ spellings, ∀ v v', V key v v' → Keeps Q (check v) (check v')) :
    Keeps Q (fieldOr spellings default check fields)
      (fieldOr spellings default check fields') := by
  induction spellings with
  | nil => exact Checked.keeps_valid absent
  | cons key rest ih =>
    rw [List.forall_mem_cons] at each
    have here := related.get? key
    rw [fieldOr_cons, fieldOr_cons]
    generalize Fields.get? fields key = x at here ⊢
    generalize Fields.get? fields' key = y at here ⊢
    cases here with
    | some same => exact (each.1 _ _ same).inside _ _
    | none => exact ih each.2

theorem keeps_same (related : Fields.Related V fields fields')
    (same : ∀ key ∈ spellings, ∀ v v', V key v v' → v = v') :
    Keeps (· = ·) (fieldOr spellings default check fields)
      (fieldOr spellings default check fields') := by
  refine related.keeps_fieldOr rfl fun key among v v' here => ?_
  rw [same key among v v' here]
  exact .refl (fun _ => rfl) _

end Fields.Related

/-! ## Distributions and packages -/

/-- The parts of a distribution in two documents: signatures may be in another order. -/
def Distribution.SamePart (key : String) (v v' : Value) : Prop :=
  v = v' ∨ key = "signatures" ∧ v.Shuffled v'

/-- The parts of a package that may be in another order. -/
def Package.shuffledKeys : List String :=
  ["scripts", "dependencies", "devDependencies", "dev_dependencies", "peerDependencies",
    "peer_dependencies", "optionalDependencies", "optional_dependencies", "files", "maintainers"]

/-- The parts of a package in two documents. -/
def Package.SamePart (key : String) (v v' : Value) : Prop :=
  v = v' ∨ (key ∈ shuffledKeys ∧ v.Shuffled v') ∨
    key = "dist" ∧ ∃ fields fields', v = .object fields ∧ v' = .object fields' ∧
      Fields.Related Distribution.SamePart fields fields'

/-- A document with its scripts, each group of dependencies, its files, its maintainers and its
signatures in another order. -/
def Document.Reordered (document document' : Value) : Prop :=
  ∃ fields fields', document = .object fields ∧ document' = .object fields' ∧
    Fields.Related Package.SamePart fields fields'

/-- Distributions that differ in the order of their signatures at most. -/
structure Distribution.Reordered (d d' : Distribution) : Prop where
  tarball : d.tarball = d'.tarball
  unpackedSize : d.unpackedSize = d'.unpackedSize
  signatures : d.signatures.Perm d'.signatures
  attestations : d.attestations = d'.attestations

/-- Packages that list the same in another order. -/
structure Package.Reordered (p p' : Package) : Prop where
  name : p.name = p'.name
  version : p.version = p'.version
  scripts : ∀ key, Fields.get? p.scripts key = Fields.get? p'.scripts key
  dependencies : p.dependencies.Perm p'.dependencies
  devDependencies : p.devDependencies.Perm p'.devDependencies
  optionalDependencies : p.optionalDependencies.Perm p'.optionalDependencies
  dist : p.dist.Reordered p'.dist
  files : p.files.Perm p'.files
  maintainers : p.maintainers.Perm p'.maintainers
  publisher : p.publisher = p'.publisher
  sbom : p.sbom = p'.sbom

variable {fields fields' : Fields} {document document' : Value} {p : Package}

theorem Distribution.keeps_check (related : Fields.Related SamePart fields fields') :
    Keeps Distribution.Reordered (check (.object fields)) (check (.object fields')) := by
  have plain {spellings : List String} (others : "signatures" ∉ spellings) :
      ∀ key ∈ spellings, ∀ v v', SamePart key v v' → v = v' := by
    rintro key among v v' (rfl | ⟨rfl, -⟩)
    · rfl
    · exact absurd among others
  have signatures : Keeps List.Perm (fieldOr ["signatures"] [] (.list .object) fields)
      (fieldOr ["signatures"] [] (.list .object) fields') := by
    refine related.keeps_fieldOr .rfl ?_
    rintro _ _ v v' (rfl | ⟨-, shuffled⟩)
    · exact .refl .refl _
    · exact shuffled.keeps_list
  refine Keeps.map ?_ (related.keeps_same (plain (by decide)))
    |>.seq (related.keeps_same (plain (by decide)))
    |>.seq (related.keeps_same (plain (by decide)))
    |>.seq (related.keeps_same (plain (by decide)))
    |>.seq (related.keeps_same (plain (by decide)))
    |>.seq (related.keeps_same (plain (by decide)))
    |>.seq signatures
    |>.seq (related.keeps_same (plain (by decide)))
  intro _ _ tarball _ _ unpackedSize _ _ _ _ _ _ _ _ _ _ _ _ _ _ signatures _ _ attestations
  exact ⟨tarball, unpackedSize, signatures, attestations⟩

theorem Distribution.Reordered.refl (d : Distribution) : d.Reordered d :=
  ⟨rfl, rfl, .rfl, rfl⟩

namespace Package

theorem eq_of_samePart {key : String} {v v' : Value} (same : SamePart key v v')
    (plain : key ∉ "dist" :: shuffledKeys) : v = v' := by
  rw [List.mem_cons, not_or] at plain
  obtain rfl | ⟨among, -⟩ | ⟨rfl, -⟩ := same
  · rfl
  · exact absurd among plain.2
  · exact absurd rfl plain.1

/-- A part that may be in another order is checked with an outcome in another order. -/
theorem keeps_shuffled {α : Type} {spellings : List String} {Q : α → α → Prop} {default : α}
    {checkPart : Check α} (related : Fields.Related SamePart fields fields')
    (refl : ∀ a, Q a a) (noDist : "dist" ∉ spellings)
    (keeps : ∀ v v' : Value, v.Shuffled v' → Keeps Q (checkPart v) (checkPart v')) :
    Keeps Q (fieldOr spellings default checkPart fields)
      (fieldOr spellings default checkPart fields') := by
  refine related.keeps_fieldOr (refl default) ?_
  rintro key among v v' (rfl | ⟨-, shuffled⟩ | ⟨rfl, -⟩)
  · exact .refl refl _
  · exact keeps v v' shuffled
  · exact absurd among noDist

theorem keeps_dist (related : Fields.Related SamePart fields fields') :
    Keeps Distribution.Reordered
      (fieldOr ["dist"] .unknown (.orEmptyObject Distribution.check) fields)
      (fieldOr ["dist"] .unknown (.orEmptyObject Distribution.check) fields') := by
  refine related.keeps_fieldOr (.refl _) ?_
  rintro key among v v' (rfl | ⟨shuffles, -⟩ | ⟨-, dist, dist', rfl, rfl, parts⟩)
  · exact .refl Distribution.Reordered.refl _
  · rw [List.mem_singleton.1 among] at shuffles
    exact absurd shuffles (by decide)
  · exact Distribution.keeps_check parts

theorem keeps_check (related : Fields.Related SamePart fields fields') :
    Keeps Package.Reordered (check (.object fields)) (check (.object fields')) := by
  have plain {spellings : List String} (others : ∀ key ∈ spellings, key ∉ "dist" :: shuffledKeys) :
      ∀ key ∈ spellings, ∀ v v', SamePart key v v' → v = v' :=
    fun key among v v' same => eq_of_samePart same (others key among)
  have name : Keeps (· = ·) (required "name" .text fields) (required "name" .text fields') := by
    refine related.keeps_required fun v v' same => ?_
    rw [eq_of_samePart same (by decide)]
    exact .refl (fun _ => rfl) _
  have lists {α : Type} {spellings : List String} {item : Check α} (noDist : "dist" ∉ spellings) :
      Keeps List.Perm (fieldOr spellings [] (.orEmptyList (.list item)) fields)
        (fieldOr spellings [] (.orEmptyList (.list item)) fields') :=
    keeps_shuffled related .refl noDist fun _ _ shuffled => shuffled.keeps_orEmptyList
  have versions {spellings : List String} (noDist : "dist" ∉ spellings) :
      Keeps List.Perm (fieldOr spellings [] .versions fields)
        (fieldOr spellings [] .versions fields') :=
    keeps_shuffled related .refl noDist fun _ _ shuffled => shuffled.keeps_versions
  have scripts : Keeps (fun f g => ∀ key, Fields.get? f key = Fields.get? g key)
      (fieldOr ["scripts"] [] (.orEmptyObject .object) fields)
      (fieldOr ["scripts"] [] (.orEmptyObject .object) fields') :=
    keeps_shuffled related (fun _ _ => rfl) (by decide) fun _ _ shuffled => shuffled.keeps_scripts
  refine Keeps.map ?_ name
    |>.seq (related.keeps_same (plain (by decide)))
    |>.seq (related.keeps_same (plain (by decide)))
    |>.seq scripts
    |>.seq (versions (by decide))
    |>.seq (versions (by decide))
    |>.seq (versions (by decide))
    |>.seq (versions (by decide))
    |>.seq (keeps_dist related)
    |>.seq (lists (by decide))
    |>.seq (related.keeps_same (plain (by decide)))
    |>.seq (related.keeps_same (plain (by decide)))
    |>.seq (related.keeps_same (plain (by decide)))
    |>.seq (related.keeps_same (plain (by decide)))
    |>.seq (lists (by decide))
    |>.seq (related.keeps_same (plain (by decide)))
    |>.seq (related.keeps_same (plain (by decide)))
  intro _ _ name _ _ version _ _ _ _ _ scripts _ _ dependencies _ _ devDependencies _ _ _ _ _
    optionalDependencies _ _ dist _ _ files _ _ _ _ _ _ _ _ _ _ _ _ _ _ maintainers _ _ publisher
    _ _ sbom
  exact ⟨name, version, scripts, dependencies, devDependencies, optionalDependencies, dist, files,
    maintainers, publisher, sbom⟩

/-- A document in another order is as valid, and stands for a package in another order. -/
theorem reordered_of_check (reordered : Document.Reordered document document')
    (valid : check document = .valid p) :
    ∃ p', check document' = .valid p' ∧ p.Reordered p' := by
  obtain ⟨fields, fields', rfl, rfl, related⟩ := reordered
  exact keeps_check related p valid

end Package

end PackageRisk
