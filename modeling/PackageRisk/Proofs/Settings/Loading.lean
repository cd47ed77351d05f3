import PackageRisk.Proofs.Settings.Layers

/-!
# Configuration files that derail the loading

Whoever loads settings is prepared for a defect of the configuration. A file ends the loading with
something else just when the way to it is none, its octets are no text, or its text is beyond what
is read as JSON (`load_of_derails`, `load_of_not_derails`).
-/

namespace PackageRisk.Settings

/-- What is in the file that names lead to, if it has the format of a configuration. -/
def Holds (d : Disk) (names : List String) (content : ByteArray) : Prop :=
  ∃ l, d.resolve names = .ok l ∧
    checkFormat (Location.text l) (Path.nameSuffix (l.getLast?.getD "")) = .ok () ∧
    d.read l = .ok content

/-- A configuration file that ends the loading with something else than a defect of the
configuration. -/
inductive Derails (d : Disk) (names : List String) : Prop
  | path {fault : Fault} (lost : d.resolve names = .error fault)
  | encoding {content : ByteArray} (holds : Holds d names content)
      (garbled : Text.ofUtf8? content.toList = none)
  | depth {content : ByteArray} {text : String} (holds : Holds d names content)
      (decoded : Text.ofUtf8? content.toList = some text)
      (deep : Json.read maxDepth text = .error .tooDeep)
  | digits {content : ByteArray} {text : String} (holds : Holds d names content)
      (decoded : Text.ofUtf8? content.toList = some text)
      (long : Json.read maxDepth text = .error .tooManyDigits)

variable {d : Disk} {names : List String} {e : Failure} {content : ByteArray}
  {text : String}

theorem checkFormat_eq_error {path suffix : String} (refused : checkFormat path suffix = .error e) :
    ∃ defect, e = .config defect := by
  unfold checkFormat at refused
  dsimp only at refused
  split_ifs at refused <;> cases refused
  all_goals exact ⟨_, rfl⟩

theorem readFile_of_resolve {l : Location} (found : d.resolve names = .ok l) :
    readFile d names =
      checkFormat (Location.text l) (Path.nameSuffix (l.getLast?.getD "")) >>= fun _ =>
        match d.read l with
        | .error .absent => .error (.config (.absent (Location.text l)))
        | .error e => .error (.config (.unreadable (Location.text l) e))
        | .ok content => match Text.ofUtf8? content.toList with
          | none => .error (.fault .notText)
          | some text => readText (Location.text l) text := by
  rw [readFile, found]
  rfl

theorem readFile_of_holds (holds : Holds d names content) :
    ∃ path, readFile d names = match Text.ofUtf8? content.toList with
      | none => .error (.fault .notText)
      | some text => readText path text := by
  obtain ⟨l, found, format, read⟩ := holds
  refine ⟨Location.text l, ?_⟩
  rw [readFile_of_resolve found, format, read]
  rfl

theorem readFile_of_garbled (holds : Holds d names content)
    (garbled : Text.ofUtf8? content.toList = none) : readFile d names = .error (.fault .notText) := by
  obtain ⟨path, ends⟩ := readFile_of_holds holds
  rw [ends, garbled]

theorem readFile_of_decoded (holds : Holds d names content)
    (decoded : Text.ofUtf8? content.toList = some text) :
    ∃ path, readFile d names = readText path text := by
  obtain ⟨path, ends⟩ := readFile_of_holds holds
  rw [decoded] at ends
  exact ⟨path, ends⟩

theorem readText_eq_error {path : String} (refused : readText path text = .error e) :
    (∃ defect, e = .config defect) ∨ Json.read maxDepth text = .error .tooDeep ∨
      Json.read maxDepth text = .error .tooManyDigits := by
  unfold readText at refused
  split at refused
  · cases refused
  · exact .inl ⟨_, (Except.error.inj refused).symm⟩
  · exact .inl ⟨_, (Except.error.inj refused).symm⟩
  · exact .inr (.inl ‹_›)
  · exact .inr (.inr ‹_›)

theorem readFile_of_not_holds {l : Location} (found : d.resolve names = .ok l)
    (none : ∀ content, ¬Holds d names content) :
    ∃ defect, readFile d names = .error (.config defect) := by
  rw [readFile_of_resolve found]
  rcases format : checkFormat (Location.text l) (Path.nameSuffix (l.getLast?.getD "")) with e | _
  · obtain ⟨defect, rfl⟩ := checkFormat_eq_error format
    exact ⟨defect, rfl⟩
  · rcases read : d.read l with e | content
    · cases e <;> exact ⟨_, rfl⟩
    · exact absurd ⟨l, found, format, read⟩ (none content)

theorem readFile_of_derails (derails : Derails d names) :
    ∃ cause, readFile d names = .error (.fault cause) := by
  cases derails with
  | @path fault lost =>
    refine ⟨fault, ?_⟩
    rw [readFile, lost]
    rfl
  | encoding holds garbled => exact ⟨_, readFile_of_garbled holds garbled⟩
  | depth holds decoded deep =>
    obtain ⟨path, ends⟩ := readFile_of_decoded holds decoded
    rw [ends, readText, deep]
    exact ⟨_, rfl⟩
  | digits holds decoded long =>
    obtain ⟨path, ends⟩ := readFile_of_decoded holds decoded
    rw [ends, readText, long]
    exact ⟨_, rfl⟩

theorem readFile_of_not_derails (sound : ¬Derails d names) (ends : readFile d names = .error e) :
    ∃ defect, e = .config defect := by
  rcases found : d.resolve names with fault | l
  · exact absurd (.path found) sound
  · by_cases holds : ∃ content, Holds d names content
    · obtain ⟨content, holds⟩ := holds
      rcases decoded : Text.ofUtf8? content.toList with _ | text
      · exact absurd (.encoding holds decoded) sound
      · obtain ⟨path, same⟩ := readFile_of_decoded holds decoded
        rcases readText_eq_error (same.symm.trans ends) with told | deep | long
        · exact told
        · exact absurd (.depth holds decoded deep) sound
        · exact absurd (.digits holds decoded long) sound
    · obtain ⟨defect, same⟩ := readFile_of_not_holds found fun content => not_exists.1 holds content
      exact ⟨defect, Except.error.inj (ends.symm.trans same)⟩

variable {env : Environment} {file : Option (List String)}

/-- A file that derails the loading does so whatever the environment says. -/
theorem load_of_derails (derails : Derails d names) (env : Environment) :
    ∃ cause, load d (some names) env = .error (.fault cause) := by
  obtain ⟨cause, ends⟩ := readFile_of_derails derails
  refine ⟨cause, ?_⟩
  rw [load_eq, fileFields, ends]
  rfl

theorem load_of_not_derails (sound : ∀ names, file = some names → ¬Derails d names)
    (ends : load d file env = .error e) : ∃ defect, e = .config defect := by
  rw [load_eq, bind_eq_error] at ends
  rcases ends with unread | ⟨fields, -, refused⟩
  · cases file with
    | none => cases unread
    | some names => exact readFile_of_not_derails (sound names rfl) unread
  · split at refused
    · cases refused
    · exact ⟨_, (Except.error.inj refused).symm⟩

end PackageRisk.Settings
