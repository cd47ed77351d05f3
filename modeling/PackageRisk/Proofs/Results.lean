import Mathlib.Data.List.Forall2
import PackageRisk.Rules.Result

/-!
# Results that are known

What is known of a computation that ended with a result: so did each of its parts. The same
holds of checks: each field of a document that a check accepted has passed its own check, or it
was absent and its default stands in for it (`fieldOr_eq_valid`).
-/

namespace PackageRisk

section Except

variable {ε δ α β : Type}

theorem bind_eq_ok {x : Except ε α} {f : α → Except ε β} {b : β} :
    x >>= f = .ok b ↔ ∃ a, x = .ok a ∧ f a = .ok b := by
  rcases x with e | a
  · exact iff_of_false nofun nofun
  · constructor
    · intro second
      exact ⟨a, rfl, second⟩
    · rintro ⟨_, ⟨⟩, second⟩
      exact second

theorem bind_eq_error {x : Except ε α} {f : α → Except ε β} {e : ε} :
    x >>= f = .error e ↔ x = .error e ∨ ∃ a, x = .ok a ∧ f a = .error e := by
  rcases x with e' | a
  · constructor
    · rintro ⟨⟩
      exact .inl rfl
    · rintro (⟨⟨⟩⟩ | ⟨_, ⟨⟩, -⟩)
      rfl
  · constructor
    · intro second
      exact .inr ⟨a, rfl, second⟩
    · rintro (⟨⟨⟩⟩ | ⟨_, ⟨⟩, second⟩)
      exact second

theorem mapError_eq_ok {x : Except ε α} {f : ε → δ} {a : α} :
    x.mapError f = .ok a ↔ x = .ok a := by
  rcases x with e | b
  · exact iff_of_false nofun nofun
  · exact ⟨fun same => by cases same; rfl, fun same => by cases same; rfl⟩

theorem ofFault_eq_ok {x : Except Fault α} {a : α} :
    Failure.ofFault x = .ok a ↔ x = .ok a := by
  rcases x with e | b
  · exact iff_of_false nofun nofun
  · exact ⟨fun same => by cases same; rfl, fun same => by cases same; rfl⟩

theorem toOption_eq_some_iff {x : Except ε α} {a : α} : x.toOption = some a ↔ x = .ok a := by
  rcases x with e | b
  · exact iff_of_false nofun nofun
  · exact ⟨fun same => by cases same; rfl, fun same => by cases same; rfl⟩

theorem toOption_eq_none_iff {x : Except ε α} : x.toOption = none ↔ ∃ e, x = .error e := by
  rcases x with e | b
  · exact iff_of_true rfl ⟨e, rfl⟩
  · exact iff_of_false nofun nofun

/-- Items that all have a result, in order. -/
theorem mapM_eq_ok {f : α → Except ε β} {items : List α} {results : List β}
    (mapped : items.mapM f = .ok results) :
    List.Forall₂ (fun item result => f item = .ok result) items results := by
  induction items generalizing results with
  | nil =>
    rw [List.mapM_nil] at mapped
    cases mapped
    exact .nil
  | cons item rest ih =>
    rw [List.mapM_cons] at mapped
    obtain ⟨first, one, mapped⟩ := bind_eq_ok.1 mapped
    obtain ⟨others, later, ⟨⟩⟩ := bind_eq_ok.1 mapped
    exact .cons one (ih later)

theorem mapM_of_forall₂ {f : α → Except ε β} {items : List α} {results : List β}
    (each : List.Forall₂ (fun item result => f item = .ok result) items results) :
    items.mapM f = .ok results := by
  induction each with
  | nil => rfl
  | cons one _ later =>
    rw [List.mapM_cons]
    exact bind_eq_ok.2 ⟨_, one, bind_eq_ok.2 ⟨_, later, rfl⟩⟩

theorem exists_mapM_ok {f : α → Except ε β} {items : List α}
    (each : ∀ item ∈ items, ∃ result, f item = .ok result) :
    ∃ results, items.mapM f = .ok results := by
  induction items with
  | nil => exact ⟨[], rfl⟩
  | cons item rest ih =>
    rw [List.forall_mem_cons] at each
    obtain ⟨⟨result, one⟩, others⟩ := each
    obtain ⟨results, later⟩ := ih others
    rw [List.mapM_cons]
    exact ⟨_, bind_eq_ok.2 ⟨result, one, bind_eq_ok.2 ⟨results, later, rfl⟩⟩⟩

/-- What items fail with is what one of them fails with. -/
theorem mapM_eq_error {f : α → Except ε β} {items : List α} {e : ε}
    (failed : items.mapM f = .error e) : ∃ item ∈ items, f item = .error e := by
  induction items with
  | nil => cases failed
  | cons item rest ih =>
    rw [List.mapM_cons] at failed
    rcases bind_eq_error.1 failed with one | ⟨first, -, later⟩
    · exact ⟨item, List.mem_cons_self, one⟩
    · rcases bind_eq_error.1 later with others | ⟨_, -, ⟨⟩⟩
      obtain ⟨i, mem, failed⟩ := ih others
      exact ⟨i, List.mem_cons_of_mem _ mem, failed⟩

end Except

theorem exists_of_mem_right {α β : Type} {R : α → β → Prop} {l : List α} {m : List β}
    (pairs : List.Forall₂ R l m) : ∀ b ∈ m, ∃ a ∈ l, R a b := by
  induction pairs with
  | nil => exact List.forall_mem_nil _
  | cons one _ ih =>
    refine List.forall_mem_cons.2 ⟨⟨_, List.mem_cons_self, one⟩, fun b mem => ?_⟩
    obtain ⟨a, among, related⟩ := ih b mem
    exact ⟨a, List.mem_cons_of_mem _ among, related⟩

/-- What can be told of an item from what goes with it holds of one just when it is told of one. -/
theorem exists_mem_iff_of_forall₂ {α β : Type} {R : α → β → Prop} {P : α → Prop} {Q : β → Prop}
    {l : List α} {m : List β} (pairs : List.Forall₂ R l m)
    (alike : ∀ {a b}, R a b → (P a ↔ Q b)) : (∃ b ∈ m, Q b) ↔ ∃ a ∈ l, P a := by
  induction pairs with
  | nil => simp
  | cons one _ ih => simp only [List.mem_cons, exists_eq_or_imp, ih, alike one]

/-- What holds between any two of some items holds between what goes with them. -/
theorem pairwise_of_forall₂ {α β : Type} {R : α → β → Prop} {S : α → α → Prop} {T : β → β → Prop}
    {l : List α} {m : List β} (between : ∀ {a a' b b'}, S a a' → R a b → R a' b' → T b b')
    (pairs : List.Forall₂ R l m) (pairwise : l.Pairwise S) : m.Pairwise T := by
  induction pairs with
  | nil => exact .nil
  | cons one rest ih =>
    rw [List.pairwise_cons] at pairwise
    refine List.pairwise_cons.2 ⟨fun b mem => ?_, ih pairwise.2⟩
    obtain ⟨a, among, related⟩ := exists_of_mem_right rest b mem
    exact between (pairwise.1 a among) one related

/-- What is taken from the head of a list ends where the first item that is not taken stands. -/
theorem takeWhile_append_of_head {α : Type} {p : α → Bool} {before behind : List α}
    (all : before.all p = true) (ends : ∀ a ∈ behind.head?, p a = false) :
    (before ++ behind).takeWhile p = before := by
  rw [List.takeWhile_append_of_pos (List.all_eq_true.1 all)]
  cases behind with
  | nil => simp
  | cons a rest =>
    rw [List.takeWhile_cons_of_neg (by simp [ends a rfl]), List.append_nil]

theorem dropWhile_append_of_head {α : Type} {p : α → Bool} {before behind : List α}
    (all : before.all p = true) (ends : ∀ a ∈ behind.head?, p a = false) :
    (before ++ behind).dropWhile p = behind := by
  have split := List.takeWhile_append_dropWhile (p := p) (l := before ++ behind)
  rw [takeWhile_append_of_head all ends] at split
  exact List.append_cancel_left split

namespace Checked

variable {α β : Type} {b : β}

theorem map_eq_valid {f : α → β} {a : Checked α} :
    f <$> a = .valid b ↔ ∃ x, a = .valid x ∧ f x = b := by
  show map f a = _ ↔ _
  cases a <;> simp [map]

theorem seq_eq_valid {f : Checked (α → β)} {a : Checked α} :
    f <*> a = .valid b ↔ ∃ g x, f = .valid g ∧ a = .valid x ∧ g x = b := by
  show both f a = _ ↔ _
  cases f <;> cases a <;> simp [both]

theorem andThen_eq_valid {a : Checked α} {f : α → Checked β} :
    a.andThen f = .valid b ↔ ∃ x, a = .valid x ∧ f x = .valid b := by
  cases a <;> simp [andThen]

theorem inside_eq_valid {a : Checked β} {step : Step} :
    a.inside step = .valid b ↔ a = .valid b := by
  cases a <;> simp [inside]

theorem orFail_eq_ok {a : Checked β} {record : String} :
    a.orFail record = .ok b ↔ a = .valid b := by
  cases a <;> simp [Checked.orFail]

end Checked

namespace Check

variable {α : Type} {check : Check α}

theorem itemsFrom_eq_valid_iff {i : Nat} {items : List Value} {checked : List α} :
    itemsFrom check i items = .valid checked ↔
      List.Forall₂ (fun v a => check v = .valid a) items checked := by
  induction items generalizing i checked with
  | nil =>
    rw [List.forall₂_nil_left_iff]
    exact ⟨fun accepted => (Checked.valid.inj accepted).symm, fun same => same ▸ rfl⟩
  | cons v rest ih =>
    rw [itemsFrom, Checked.seq_eq_valid, List.forall₂_cons_left_iff]
    constructor
    · rintro ⟨_, later, first, others, rfl⟩
      obtain ⟨a, one, rfl⟩ := Checked.map_eq_valid.1 first
      exact ⟨a, later, Checked.inside_eq_valid.1 one, ih.1 others, rfl⟩
    · rintro ⟨a, later, one, others, rfl⟩
      exact ⟨_, later, Checked.map_eq_valid.2 ⟨a, Checked.inside_eq_valid.2 one, rfl⟩,
        ih.2 others, rfl⟩

theorem fieldsOf_eq_valid_iff {fields : Fields} {checked : List (String × α)} :
    fieldsOf check fields = .valid checked ↔
      List.Forall₂ (fun f g => f.1 = g.1 ∧ check f.2 = .valid g.2) fields checked := by
  induction fields generalizing checked with
  | nil =>
    rw [List.forall₂_nil_left_iff]
    exact ⟨fun accepted => (Checked.valid.inj accepted).symm, fun same => same ▸ rfl⟩
  | cons field rest ih =>
    obtain ⟨key, v⟩ := field
    rw [fieldsOf, Checked.seq_eq_valid, List.forall₂_cons_left_iff]
    constructor
    · rintro ⟨_, later, first, others, rfl⟩
      obtain ⟨a, one, rfl⟩ := Checked.map_eq_valid.1 first
      exact ⟨(key, a), later, ⟨rfl, Checked.inside_eq_valid.1 one⟩, ih.1 others, rfl⟩
    · rintro ⟨⟨_, a⟩, later, ⟨rfl, one⟩, others, rfl⟩
      exact ⟨_, later, Checked.map_eq_valid.2 ⟨a, Checked.inside_eq_valid.2 one, rfl⟩,
        ih.2 others, rfl⟩

end Check

variable {α : Type} {a default : α} {check : Check α} {spellings : List String} {fields : Fields}

/-- The spellings of a field are tried in turn. -/
theorem fieldOr_cons {key : String} :
    fieldOr (key :: spellings) default check fields =
      match Fields.get? fields key with
      | some v => (check v).inside (.key key)
      | none => fieldOr spellings default check fields := by
  unfold fieldOr findField
  rw [List.findSome?_cons]
  cases Fields.get? fields key <;> rfl

/-- A field is the same where all its spellings are. -/
theorem fieldOr_congr {fields' : Fields}
    (same : ∀ k ∈ spellings, Fields.get? fields' k = Fields.get? fields k) :
    fieldOr spellings default check fields' = fieldOr spellings default check fields := by
  induction spellings with
  | nil => rfl
  | cons k rest ih =>
    rw [List.forall_mem_cons] at same
    rw [fieldOr_cons, fieldOr_cons, same.1, ih same.2]

theorem fieldOr_eq_valid (accepted : fieldOr spellings default check fields = .valid a) :
    a = default ∨ ∃ v, check v = .valid a := by
  unfold fieldOr at accepted
  split at accepted
  · exact .inr ⟨_, Checked.inside_eq_valid.1 accepted⟩
  · cases accepted
    exact .inl rfl

theorem record_eq_valid {name : String} {checkFields : Fields → Checked α} {v : Value}
    (accepted : record name checkFields v = .valid a) :
    ∃ fields, v = .object fields ∧ checkFields fields = .valid a := by
  cases v
  case object fields => exact ⟨fields, rfl, accepted⟩
  all_goals cases accepted

end PackageRisk
