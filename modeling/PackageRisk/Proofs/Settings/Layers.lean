import Mathlib.Tactic.SplitIfs
import PackageRisk.Proofs.Fields
import PackageRisk.Proofs.Settings.Parts
import PackageRisk.Settings.Load

/-!
# Layers of settings

Variables of the environment lie over the configuration file, and the file over what is standard.
A variable that is set decides its setting in whichever spelling the file has it, and nothing else
(`load_layered`). Settings are checked only when all layers are merged, and with some of the
variables alone they need not pass (a lower bound above the standard upper one, say). So the
variables are followed one by one through unchecked fields (`get?_laid`, and `get?_layers` for all
of them), and `Overlaid.of_fieldOr` says what that makes of a checked field.
-/

namespace PackageRisk.Settings

/-! ## Unchecked fields -/

/-- The fields of a group of settings, or those outside of all groups. -/
def partOf (part : Option String) (fields : Fields) : Fields :=
  match part with
  | some group => groupOf fields group
  | none => fields

namespace Variable

/-- Fields with what one variable sets over them. -/
def laid (env : Environment) (fields : Fields) (v : Variable) : Fields :=
  Value.mergeDeep fields (v.fields env)

/-- What is under the key of a variable that is laid over what was there. -/
def covering (env : Environment) (old : Option Value) (v : Variable) : Option Value :=
  ((v.text? env).map .text).or old

/-- A variable whose setting is under a key of a part. -/
def Sets (part : Option String) (key : String) (v : Variable) : Prop :=
  v.part = part ∧ v.key = key

/-- A variable that does not set a group where a single setting is looked for, or the other way
around. -/
def Clear (part : Option String) (key : String) (v : Variable) : Prop :=
  match part with
  | some group => v.part = none → v.key ≠ group
  | none => v.part ≠ some key

end Variable

variable {env : Environment} {fields : Fields} {v : Variable} {part : Option String}
  {group key : String}

instance : Decidable (v.Sets part key) :=
  inferInstanceAs (Decidable (v.part = part ∧ v.key = key))

instance : Decidable (v.Clear part key) :=
  match part with
  | some group => inferInstanceAs (Decidable (v.part = none → v.key ≠ group))
  | none => inferInstanceAs (Decidable (v.part ≠ some key))

theorem groupOf_put_self {inner : Fields} :
    groupOf (Fields.put group (.object inner) fields) group = inner := by
  rw [groupOf, Fields.get?_put, if_pos rfl]

theorem groupOf_put_of_ne {new : Value} (apart : group ≠ key) :
    groupOf (Fields.put key new fields) group = groupOf fields group := by
  rw [groupOf, Fields.get?_put, if_neg apart, groupOf]

/-- A setting laid over a group is put there, also if there was no such group. -/
theorem laidOver_group {text : String} :
    Value.laidOver (Fields.get? fields group) (.object [(key, .text text)]) =
      .object (Fields.put key (.text text) (groupOf fields group)) := by
  unfold groupOf
  rcases Fields.get? fields group with _ | old
  · rfl
  · cases old <;> rfl

theorem laid_of_unset (unset : v.text? env = none) : v.laid env fields = fields := by
  rw [Variable.laid, Variable.fields, unset]
  rfl

theorem laid_of_set_group {text : String} (grouped : v.part = some group)
    (set : v.text? env = some text) :
    v.laid env fields =
      Fields.put group (.object (Fields.put v.key (.text text) (groupOf fields group))) fields := by
  rw [Variable.laid, Variable.fields, set, grouped, ← laidOver_group]
  rfl

theorem laid_of_set_single {text : String} (single : v.part = none)
    (set : v.text? env = some text) : v.laid env fields = Fields.put v.key (.text text) fields := by
  rw [Variable.laid, Variable.fields, set, single]
  rfl

/-- One variable more decides what is under its key, if it is set, and nothing else. -/
theorem get?_laid (clear : v.Clear part key) :
    Fields.get? (partOf part (v.laid env fields)) key =
      if v.Sets part key then v.covering env (Fields.get? (partOf part fields) key)
      else Fields.get? (partOf part fields) key := by
  rcases set : v.text? env with _ | text
  · rw [laid_of_unset set, Variable.covering, set, Option.map_none, Option.none_or, ite_self]
  · simp only [Variable.covering, Variable.Sets, set]
    rcases grouped : v.part with _ | group
    · rw [laid_of_set_single grouped set]
      cases part with
      | none => simp [partOf, Fields.get?_put, eq_comm]
      | some group =>
        rw [partOf, groupOf_put_of_ne (clear grouped).symm]
        simp [partOf]
    · rw [laid_of_set_group grouped set]
      cases part with
      | none =>
        have apart : key ≠ group := fun same => clear (same ▸ grouped)
        simp [partOf, Fields.get?_put, apart]
      | some asked =>
        by_cases same : group = asked
        · subst same
          simp [partOf, groupOf_put_self, Fields.get?_put, eq_comm]
        · rw [partOf, groupOf_put_of_ne (Ne.symm same)]
          simp [partOf, same]

/-- Of variables that are laid over fields one after the other, those of a key decide what is under
it. -/
theorem get?_layers {layers : List Variable} (clear : ∀ v ∈ layers, v.Clear part key) :
    Fields.get? (partOf part (layers.foldl (Variable.laid env) fields)) key =
      (layers.filter (·.Sets part key)).foldl (Variable.covering env)
        (Fields.get? (partOf part fields) key) := by
  induction layers generalizing fields with
  | nil => rfl
  | cons v rest ih =>
    rw [List.forall_mem_cons] at clear
    rw [List.foldl_cons, ih clear.2, get?_laid clear.1, List.filter_cons]
    by_cases sets : v.Sets part key <;> simp [sets]

/-! ## Checked fields -/

/-- A setting that a variable was laid over: it passed its check as the variable spells it, or is as
it was if the variable is not set or empty. -/
def Overlaid {α : Type} (said : Option String) (check : Check α) (below above : α) : Prop :=
  match said with
  | none | some "" => above = below
  | some text => check (.text text) = .valid above

section Field

variable {α : Type} {check : Check α} {default below above : α} {others : List String}
  {old new : Fields}

theorem overlaid_iff :
    Overlaid (env.lookup (variableStem ++ v.name)) check below above ↔
      match v.text? env with
      | none => above = below
      | some text => check (.text text) = .valid above := by
  unfold Overlaid Variable.text?
  rcases env.lookup (variableStem ++ v.name) with _ | text
  · rfl
  · by_cases empty : text = "" <;> simp [empty]

/-- A field is overlaid if its first spelling is and the others are as they were. -/
theorem Overlaid.of_fieldOr (first : Fields.get? new key = v.covering env (Fields.get? old key))
    (rest : ∀ k ∈ others, Fields.get? new k = Fields.get? old k)
    (plain : fieldOr (key :: others) default check old = .valid below)
    (checked : fieldOr (key :: others) default check new = .valid above) :
    Overlaid (env.lookup (variableStem ++ v.name)) check below above := by
  rw [overlaid_iff]
  rcases set : v.text? env with _ | text
  · rw [Variable.covering, set] at first
    rw [fieldOr_congr (List.forall_mem_cons.2 ⟨first, rest⟩), plain] at checked
    exact (Checked.valid.inj checked).symm
  · rw [fieldOr_cons, first, Variable.covering, set] at checked
    exact Checked.inside_eq_valid.1 checked

/-- A spelling that no variable sets. -/
def Unset (part : Option String) (key : String) : Prop :=
  ∀ v ∈ allVariables, v.Clear part key ∧ ¬v.Sets part key

instance : Decidable (Unset part key) :=
  inferInstanceAs (Decidable (∀ v ∈ allVariables, v.Clear part key ∧ ¬v.Sets part key))

theorem get?_of_unset (unset : Unset part key) :
    Fields.get? (partOf part (withEnvironment env fields)) key =
      Fields.get? (partOf part fields) key := by
  refine (get?_layers fun v mem => (unset v mem).1).trans ?_
  rw [List.filter_eq_nil_iff.2 fun v mem => by simpa using (unset v mem).2, List.foldl_nil]

/-- A field is laid over by the one variable that sets its first spelling. -/
theorem overlaid_of_set (part : Option String) (v : Variable)
    (clear : ∀ u ∈ allVariables, u.Clear part key)
    (alone : allVariables.filter (·.Sets part key) = [v]) (unset : ∀ k ∈ others, Unset part k)
    (plain : fieldOr (key :: others) default check (partOf part fields) = .valid below)
    (laid : fieldOr (key :: others) default check (partOf part (withEnvironment env fields)) =
      .valid above) :
    Overlaid (env.lookup (variableStem ++ v.name)) check below above := by
  refine .of_fieldOr ?_ (fun k mem => get?_of_unset (unset k mem)) plain laid
  refine (get?_layers clear).trans ?_
  rw [alone, List.foldl_cons, List.foldl_nil]

/-- A field whose spellings no variable sets is as it was. -/
theorem eq_of_unset (part : Option String) {spellings : List String}
    (unset : ∀ k ∈ spellings, Unset part k)
    (plain : fieldOr spellings default check (partOf part fields) = .valid below)
    (laid : fieldOr spellings default check (partOf part (withEnvironment env fields)) =
      .valid above) : below = above := by
  rw [fieldOr_congr fun k mem => get?_of_unset (unset k mem), plain] at laid
  exact Checked.valid.inj laid

end Field

/-! ## Loaded settings -/

/-- Settings that an environment was laid over, beside those without it: each variable decides one
of them, and all others are the same. -/
structure LiesOver (env : Environment) (below above : Settings) : Prop where
  base : Overlaid (env.lookup "NPM_SECURITY_SCORE_BASE_SCORE") .measure
    below.scoring.base above.scoring.base
  min : Overlaid (env.lookup "NPM_SECURITY_SCORE_MIN_SCORE") .measure
    below.scoring.min above.scoring.min
  max : Overlaid (env.lookup "NPM_SECURITY_SCORE_MAX_SCORE") .measure
    below.scoring.max above.scoring.max
  timeout : Overlaid (env.lookup "NPM_SECURITY_SCORE_TIMEOUT") (.bounded (.above 0) id .measure)
    below.archives.timeout above.archives.timeout
  url : Overlaid (env.lookup "NPM_SECURITY_SCORE_REGISTRY") .text
    below.registry.url above.registry.url
  threshold : Overlaid (env.lookup "NPM_SECURITY_SCORE_THRESHOLD")
    (.bounded (.atLeast 0) id .measure) below.threshold above.threshold
  others : { above with
    scoring := below.scoring
    archives.timeout := below.archives.timeout
    registry.url := below.registry.url
    threshold := below.threshold } = below

theorem liesOver_of_check {below above : Settings}
    (plain : Settings.check (.object fields) = .valid below)
    (laid : Settings.check (.object (withEnvironment env fields)) = .valid above) :
    LiesOver env below above := by
  have old := parts_of_check plain
  have new := parts_of_check laid
  have oldBounds := ScoreBounds.parts_of_check old.scoring
  have newBounds := ScoreBounds.parts_of_check new.scoring
  have oldArchives := ArchiveSettings.parts_of_check old.archives
  have newArchives := ArchiveSettings.parts_of_check new.archives
  have oldRegistry := RegistrySettings.parts_of_check old.registry
  have newRegistry := RegistrySettings.parts_of_check new.registry
  constructor
  case base =>
    exact overlaid_of_set (some "scoring") _ (by decide) rfl (by decide)
      oldBounds.base newBounds.base
  case min =>
    exact overlaid_of_set (some "scoring") _ (by decide) rfl (by decide)
      oldBounds.min newBounds.min
  case max =>
    exact overlaid_of_set (some "scoring") _ (by decide) rfl (by decide)
      oldBounds.max newBounds.max
  case timeout =>
    exact overlaid_of_set (some "tarball") _ (by decide) rfl (by decide)
      oldArchives.timeout newArchives.timeout
  case url =>
    exact overlaid_of_set (some "registry") _ (by decide) rfl (by decide)
      oldRegistry.url newRegistry.url
  case threshold =>
    exact overlaid_of_set none _ (by decide) rfl (by decide) old.threshold new.threshold
  case others =>
    have rules := eq_of_unset none (by decide) old.rules new.rules
    have tempDir :=
      eq_of_unset (some "tarball") (by decide) oldArchives.tempDir newArchives.tempDir
    have maxLargestFiles :=
      eq_of_unset (some "tarball") (by decide) oldArchives.maxLargestFiles
        newArchives.maxLargestFiles
    have maxArchiveSize :=
      eq_of_unset (some "tarball") (by decide) oldArchives.maxArchiveSize
        newArchives.maxArchiveSize
    have timeout :=
      eq_of_unset (some "registry") (by decide) oldRegistry.timeout newRegistry.timeout
    simp only [← rules, ← tempDir, ← maxLargestFiles, ← maxArchiveSize, ← timeout]

/-- What the configuration file says; without one, nothing. -/
def fileFields (d : Disk) (file : Option (List String)) : Except Failure Fields :=
  match file with
  | none => pure []
  | some names => readFile d names

theorem load_eq {d : Disk} {file : Option (List String)} :
    load d file env = fileFields d file >>= fun fields =>
      match Settings.check (.object (withEnvironment env fields)) with
      | .valid settings => .ok settings
      | .invalid issues => .error (.config (.invalid issues)) := by
  cases file <;> rfl

theorem load_eq_ok_iff {d : Disk} {file : Option (List String)} {settings : Settings} :
    load d file env = .ok settings ↔ ∃ fields, fileFields d file = .ok fields ∧
      Settings.check (.object (withEnvironment env fields)) = .valid settings := by
  rw [load_eq, bind_eq_ok]
  refine exists_congr fun fields => and_congr_right fun _ => ?_
  cases Settings.check (.object (withEnvironment env fields)) <;> simp

/-- Settings that are accepted with and without an environment differ in what its variables say,
whatever the configuration file is. -/
theorem load_layered {d : Disk} {file : Option (List String)} {below above : Settings}
    (plain : load d file [] = .ok below) (loaded : load d file env = .ok above) :
    LiesOver env below above := by
  obtain ⟨fields, read, plain⟩ := load_eq_ok_iff.1 plain
  obtain ⟨_, again, laid⟩ := load_eq_ok_iff.1 loaded
  obtain rfl := Except.ok.inj (again.symm.trans read)
  exact liesOver_of_check plain laid

/-- A configuration file with its own spelling of the base. -/
def configured : Disk :=
  ⟨[(["c.json"], .file
    "\x7b\"scoring\":\x7b\"baseScore\":95\x7d,\"threshold\":80\x7d".toUTF8)]⟩

/-- An environment with three settings and an empty variable. -/
def settingEnvironment : Environment :=
  [("NPM_SECURITY_SCORE_BASE_SCORE", "90"), ("NPM_SECURITY_SCORE_TIMEOUT", "15"),
   ("NPM_SECURITY_SCORE_REGISTRY", "https://npm.internal.example"),
   ("NPM_SECURITY_SCORE_THRESHOLD", "")]

theorem load_layered_configured :
    ∃ below above, load configured (some ["c.json"]) [] = .ok below ∧
      load configured (some ["c.json"]) settingEnvironment = .ok above ∧
      LiesOver settingEnvironment below above := by
  have plain : ((load configured (some ["c.json"]) []).toOption).isSome := by decide +kernel
  have loaded : ((load configured (some ["c.json"]) settingEnvironment).toOption).isSome := by
    decide +kernel
  obtain ⟨below, plain⟩ := Option.isSome_iff_exists.1 plain
  obtain ⟨above, loaded⟩ := Option.isSome_iff_exists.1 loaded
  rw [toOption_eq_some_iff] at plain loaded
  exact ⟨below, above, plain, loaded, load_layered plain loaded⟩

end PackageRisk.Settings
