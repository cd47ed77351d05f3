import PackageRisk.Package.Document
import PackageRisk.Proofs.Fields
import PackageRisk.Proofs.Results
import PackageRisk.Proofs.Number.Order

/-!
# The parts of a checked package

A document is accepted as a package just when each field is accepted as the part that it is read
into (`Distribution.check_eq_valid_iff`, `Package.check_eq_valid_iff`). So what a package is written
as is accepted, as that package (`Package.check_toValue`), given that the URL of its archive is not
an empty text: the check makes no such package (`Package.Parts.given`).
-/

namespace PackageRisk

open Checked (inside_eq_valid)

/-! ## Checks of what is written -/

namespace Check

variable {v : Value}

theorem givenText_ofText? {s : Option String} (given : s ≠ some "") :
    Check.givenText (.ofText? s) = .valid s := by
  cases s with
  | none => rfl
  | some s =>
    have nonempty : (Value.text s).isGiven = true := by
      simp only [Value.isGiven, Bool.not_eq_true', String.isEmpty_eq_false_iff]
      intro empty
      exact given (congrArg some empty)
    show (if (Value.text s).isGiven then _ else _) = _
    rw [nonempty]
    rfl

theorem size_nat (n : Nat) : Check.size (.nat n) = .valid n := by
  have nonneg : Bound.holds (.atLeast 0) (.int n) = true := Number.le_int.2 (Int.natCast_nonneg n)
  show Checked.map Int.toNat (if Bound.holds (.atLeast 0) (.int n) then _ else _) = _
  rw [nonneg]
  rfl

theorem list_map {α : Type} {check : Check α} {write : α → Value}
    (reads : ∀ a, check (write a) = .valid a) (items : List α) :
    Check.list check (.list (items.map write)) = .valid items := by
  refine itemsFrom_eq_valid_iff.2 ?_
  rw [List.forall₂_map_left_iff, List.forall₂_same]
  exact fun a _ => reads a

theorem versions_ofTexts (versions : List (String × String)) :
    Check.versions (.ofTexts versions) = .valid versions := by
  refine fieldsOf_eq_valid_iff.2 ?_
  rw [List.forall₂_map_left_iff, List.forall₂_same]
  exact fun _ _ => ⟨rfl, rfl⟩

theorem text_eq_valid_iff {s : String} : Check.text v = .valid s ↔ v = .text s := by
  cases v <;> simp [Check.text, Checked.fail]

theorem textOrObject_eq_valid_iff {t : TextOrObject} :
    TextOrObject.check v = .valid t ↔ v = t.toValue := by
  cases v <;> cases t <;> simp [TextOrObject.check, TextOrObject.toValue]

/-- A check that reads what values are written as accepts just that, or null for none. -/
theorem optional_eq_valid_iff {α : Type} {check : Check α} {write : α → Value} {a : Option α}
    (reads : ∀ {v a}, check v = .valid a ↔ v = write a) (notNull : ∀ a, write a ≠ .null) :
    Check.optional check v = .valid a ↔ v = (a.map write).getD .null := by
  cases v with
  | null =>
    cases a with
    | none => exact iff_of_true rfl rfl
    | some a => exact iff_of_false nofun fun same => notNull a same.symm
  | _ =>
    show (check _).map some = _ ↔ _
    cases a with
    | none =>
      refine iff_of_false (fun accepted => ?_) nofun
      obtain ⟨_, -, ⟨⟩⟩ := Checked.map_eq_valid.1 accepted
    | some a =>
      refine Checked.map_eq_valid.trans ?_
      simp [reads]

theorem optional_text_eq_valid_iff {s : Option String} :
    Check.optional .text v = .valid s ↔ v = .ofText? s := by
  have written : Value.ofText? s = (s.map Value.text).getD .null := by
    cases s <;> rfl
  rw [written]
  exact optional_eq_valid_iff text_eq_valid_iff nofun

theorem optional_textOrObject_eq_valid_iff {t : Option TextOrObject} :
    Check.optional TextOrObject.check v = .valid t ↔ v = .ofTextOrObject? t := by
  have written : Value.ofTextOrObject? t = (t.map TextOrObject.toValue).getD .null := by
    cases t <;> rfl
  rw [written]
  refine optional_eq_valid_iff textOrObject_eq_valid_iff fun a => ?_
  cases a <;> exact nofun

/-- Null stands for an empty list. -/
theorem orEmptyList_textOrObject_eq_valid_iff {ts : List TextOrObject} :
    Check.orEmptyList (.list TextOrObject.check) v = .valid ts ↔
      v = .list (ts.map TextOrObject.toValue) ∨ v = .null ∧ ts = [] := by
  have items_iff (items : List Value) : Check.list TextOrObject.check (.list items) = .valid ts ↔
      items = ts.map TextOrObject.toValue := by
    refine itemsFrom_eq_valid_iff.trans ?_
    simp only [textOrObject_eq_valid_iff]
    rw [← List.forall₂_map_right_iff (R := fun v u => v = u) (f := TextOrObject.toValue),
      List.forall₂_eq_eq_eq]
  cases v with
  | null =>
    refine (items_iff []).trans ?_
    simp [eq_comm]
  | list items =>
    refine (items_iff items).trans ?_
    simp
  | _ => exact iff_of_false nofun nofun

end Check

variable {fields : Fields}

namespace Distribution

/-- Where the parts of an accepted distribution are from. -/
structure Parts (fields : Fields) (d : Distribution) : Prop where
  tarball : fieldOr ["tarball"] none .givenText fields = .valid d.tarball
  unpackedSize : fieldOr ["unpackedSize", "unpacked_size"] 0 .size fields = .valid d.unpackedSize
  fileCount : fieldOr ["fileCount", "file_count"] 0 .size fields = .valid d.fileCount
  size : fieldOr ["size"] 0 .size fields = .valid d.size
  shasum : fieldOr ["shasum"] none (.optional .text) fields = .valid d.shasum
  integrity : fieldOr ["integrity"] none (.optional .text) fields = .valid d.integrity
  signatures : fieldOr ["signatures"] [] (.list .object) fields = .valid d.signatures
  attestations : fieldOr ["attestations"] none (.optional .object) fields = .valid d.attestations

theorem check_eq_valid_iff {d : Distribution} :
    Distribution.check (.object fields) = .valid d ↔ Parts fields d := by
  constructor
  · intro accepted
    obtain ⟨_, _, seven, eighth, rfl⟩ := Checked.seq_eq_valid.1 accepted
    obtain ⟨_, _, six, seventh, rfl⟩ := Checked.seq_eq_valid.1 seven
    obtain ⟨_, _, five, sixth, rfl⟩ := Checked.seq_eq_valid.1 six
    obtain ⟨_, _, four, fifth, rfl⟩ := Checked.seq_eq_valid.1 five
    obtain ⟨_, _, three, fourth, rfl⟩ := Checked.seq_eq_valid.1 four
    obtain ⟨_, _, two, third, rfl⟩ := Checked.seq_eq_valid.1 three
    obtain ⟨_, _, one, second, rfl⟩ := Checked.seq_eq_valid.1 two
    obtain ⟨_, first, rfl⟩ := Checked.map_eq_valid.1 one
    exact ⟨first, second, third, fourth, fifth, sixth, seventh, eighth⟩
  · intro parts
    rw [Distribution.check, record, parts.tarball, parts.unpackedSize, parts.fileCount, parts.size,
      parts.shasum, parts.integrity, parts.signatures, parts.attestations]
    rfl

/-- A URL that an accepted distribution has is not empty. -/
theorem Parts.given {d : Distribution} (parts : Parts fields d) : d.tarball ≠ some "" := by
  intro empty
  have tarball := parts.tarball
  rw [empty] at tarball
  rcases fieldOr_eq_valid tarball with absent | ⟨v, accepted⟩
  · cases absent
  · unfold Check.givenText at accepted
    split_ifs at accepted with given
    · obtain ⟨s, isText, same⟩ := Checked.map_eq_valid.1 accepted
      cases v <;> cases isText
      cases same
      exact absurd given (by decide)
    · cases accepted

/-- The check reads what a distribution is written as. -/
theorem check_toValue {d : Distribution} (given : d.tarball ≠ some "") :
    Distribution.check d.toValue = .valid d := by
  refine check_eq_valid_iff.2 ⟨?_, ?_, ?_, ?_, ?_, ?_, ?_, ?_⟩
  · exact inside_eq_valid.2 (Check.givenText_ofText? given)
  · exact inside_eq_valid.2 (Check.size_nat _)
  · exact inside_eq_valid.2 (Check.size_nat _)
  · exact inside_eq_valid.2 (Check.size_nat _)
  · exact inside_eq_valid.2 (Check.optional_text_eq_valid_iff.2 rfl)
  · exact inside_eq_valid.2 (Check.optional_text_eq_valid_iff.2 rfl)
  · exact inside_eq_valid.2 (@Check.list_map _ Check.object Value.object (fun _ => rfl) _)
  · apply inside_eq_valid.2
    cases d.attestations <;> rfl

end Distribution

theorem Publisher.check_toValue (p : Publisher) : Publisher.check p.toValue = .valid p := by
  have name : Check.optional .text (.ofText? p.name) = .valid p.name :=
    Check.optional_text_eq_valid_iff.2 rfl
  have email : Check.optional .text (.ofText? p.email) = .valid p.email :=
    Check.optional_text_eq_valid_iff.2 rfl
  show Publisher.mk <$> (Check.optional .text (.ofText? p.name)).inside (.key "name") <*>
    (Check.optional .text (.ofText? p.email)).inside (.key "email") = _
  rw [name, email]
  rfl

namespace Package

/-- Where the parts of an accepted package are from. -/
structure Parts (fields : Fields) (p : Package) : Prop where
  name : required "name" .text fields = .valid p.name
  version : fieldOr ["version"] "" .text fields = .valid p.version
  description : fieldOr ["description"] none (.optional .text) fields = .valid p.description
  scripts : fieldOr ["scripts"] [] (.orEmptyObject .object) fields = .valid p.scripts
  dependencies : fieldOr ["dependencies"] [] .versions fields = .valid p.dependencies
  devDependencies :
    fieldOr ["devDependencies", "dev_dependencies"] [] .versions fields = .valid p.devDependencies
  peerDependencies : fieldOr ["peerDependencies", "peer_dependencies"] [] .versions fields =
    .valid p.peerDependencies
  optionalDependencies :
    fieldOr ["optionalDependencies", "optional_dependencies"] [] .versions fields =
      .valid p.optionalDependencies
  dist : fieldOr ["dist"] .unknown (.orEmptyObject Distribution.check) fields = .valid p.dist
  files : fieldOr ["files"] [] (.orEmptyList (.list .text)) fields = .valid p.files
  repository :
    fieldOr ["repository"] none (.optional TextOrObject.check) fields = .valid p.repository
  author : fieldOr ["author"] none (.optional TextOrObject.check) fields = .valid p.author
  license : fieldOr ["license"] none (.optional TextOrObject.check) fields = .valid p.license
  homepage : fieldOr ["homepage"] none (.optional .text) fields = .valid p.homepage
  maintainers : fieldOr ["maintainers"] [] (.orEmptyList (.list TextOrObject.check)) fields =
    .valid p.maintainers
  publisher : fieldOr ["_npmUser", "npm_user"] none (.optional Publisher.check) fields =
    .valid p.publisher
  sbom : fieldOr ["sbom"] none (.optional TextOrObject.check) fields = .valid p.sbom

theorem check_eq_valid_iff {p : Package} :
    Package.check (.object fields) = .valid p ↔ Parts fields p := by
  constructor
  · intro accepted
    obtain ⟨_, _, sixteen, sbom, rfl⟩ := Checked.seq_eq_valid.1 accepted
    obtain ⟨_, _, fifteen, publisher, rfl⟩ := Checked.seq_eq_valid.1 sixteen
    obtain ⟨_, _, fourteen, maintainers, rfl⟩ := Checked.seq_eq_valid.1 fifteen
    obtain ⟨_, _, thirteen, homepage, rfl⟩ := Checked.seq_eq_valid.1 fourteen
    obtain ⟨_, _, twelve, license, rfl⟩ := Checked.seq_eq_valid.1 thirteen
    obtain ⟨_, _, eleven, author, rfl⟩ := Checked.seq_eq_valid.1 twelve
    obtain ⟨_, _, ten, repository, rfl⟩ := Checked.seq_eq_valid.1 eleven
    obtain ⟨_, _, nine, files, rfl⟩ := Checked.seq_eq_valid.1 ten
    obtain ⟨_, _, eight, dist, rfl⟩ := Checked.seq_eq_valid.1 nine
    obtain ⟨_, _, seven, optionals, rfl⟩ := Checked.seq_eq_valid.1 eight
    obtain ⟨_, _, six, peers, rfl⟩ := Checked.seq_eq_valid.1 seven
    obtain ⟨_, _, five, devs, rfl⟩ := Checked.seq_eq_valid.1 six
    obtain ⟨_, _, four, dependencies, rfl⟩ := Checked.seq_eq_valid.1 five
    obtain ⟨_, _, three, scripts, rfl⟩ := Checked.seq_eq_valid.1 four
    obtain ⟨_, _, two, description, rfl⟩ := Checked.seq_eq_valid.1 three
    obtain ⟨_, _, one, version, rfl⟩ := Checked.seq_eq_valid.1 two
    obtain ⟨_, name, rfl⟩ := Checked.map_eq_valid.1 one
    exact ⟨name, version, description, scripts, dependencies, devs, peers, optionals, dist, files,
      repository, author, license, homepage, maintainers, publisher, sbom⟩
  · intro parts
    rw [Package.check, record, parts.name, parts.version, parts.description, parts.scripts,
      parts.dependencies, parts.devDependencies, parts.peerDependencies,
      parts.optionalDependencies, parts.dist, parts.files, parts.repository, parts.author,
      parts.license, parts.homepage, parts.maintainers, parts.publisher, parts.sbom]
    rfl

/-- A URL that an accepted package has is not empty. -/
theorem Parts.given {p : Package} (parts : Parts fields p) : p.dist.tarball ≠ some "" := by
  rcases fieldOr_eq_valid parts.dist with absent | ⟨v, accepted⟩
  · rw [absent]
    exact nofun
  · cases v with
    | null => exact (Distribution.check_eq_valid_iff.1 accepted).given
    | object inner => exact (Distribution.check_eq_valid_iff.1 accepted).given
    | _ => cases accepted

/-- The check reads what a package is written as. -/
theorem check_toValue {p : Package} (given : p.dist.tarball ≠ some "") :
    Package.check p.toValue = .valid p := by
  refine check_eq_valid_iff.2
    ⟨?_, ?_, ?_, ?_, ?_, ?_, ?_, ?_, ?_, ?_, ?_, ?_, ?_, ?_, ?_, ?_, ?_⟩
  case refine_1 => rfl
  case refine_2 => rfl
  case refine_4 => rfl
  case refine_3 | refine_14 => exact inside_eq_valid.2 (Check.optional_text_eq_valid_iff.2 rfl)
  case refine_5 | refine_6 | refine_7 | refine_8 =>
    exact inside_eq_valid.2 (Check.versions_ofTexts _)
  case refine_9 => exact inside_eq_valid.2 (Distribution.check_toValue given)
  case refine_10 => exact inside_eq_valid.2 (@Check.list_map _ Check.text Value.text (fun _ => rfl) _)
  case refine_11 | refine_12 | refine_13 | refine_17 =>
    exact inside_eq_valid.2 (Check.optional_textOrObject_eq_valid_iff.2 rfl)
  case refine_15 => exact inside_eq_valid.2 (Check.list_map (fun _ => Check.textOrObject_eq_valid_iff.2 rfl) _)
  case refine_16 =>
    apply inside_eq_valid.2
    cases publisher : p.publisher with
    | none => rfl
    | some u =>
      have read := congrArg (Checked.map some) (Publisher.check_toValue u)
      exact read

end Package
end PackageRisk
