import Mathlib.Data.List.Count
import Mathlib.Data.Set.Function
import PackageRisk.Proofs.Results
import PackageRisk.Proofs.Settings.Documents
import PackageRisk.Rules.HiddenCode

/-!
# What entropy depends on

Counting goes through the symbols once. Whatever was read so far, the tally holds its symbols in the
order of their first occurrence and how often each of them occurred (`Tally.Counts`; one more symbol
is `Tally.Counts.add`). So the terms of an entropy and the order in which they are summed are those
of the pattern of repetition: content has the entropy of the same content with its symbols renamed,
to the last bit (`contentEntropy_of_renamed`).
-/

namespace PackageRisk

variable {α β : Type} [BEq α] [LawfulBEq α] [BEq β] [LawfulBEq β]

/-! ## Symbols in the order of their first occurrence -/

section FirstOccurrence

variable {as : List α} {a : α} {f : α → β}

theorem eraseDups_snoc :
    (as ++ [a]).eraseDups = if a ∈ as then as.eraseDups else as.eraseDups ++ [a] := by
  rw [List.eraseDups_append]
  split_ifs with old <;> simp [old, List.removeAll, List.eraseDups_cons]

/-- The symbols of a renamed list occur first where those of the list do. -/
theorem eraseDups_map (injective : Set.InjOn f {a | a ∈ as}) :
    (as.map f).eraseDups = as.eraseDups.map f := by
  induction as using List.reverseRecOn with
  | nil => rfl
  | append_singleton as a ih =>
    have onlyOld : f a ∈ as.map f ↔ a ∈ as := by
      constructor
      · intro renamed
        obtain ⟨b, old, same⟩ := List.mem_map.1 renamed
        have equal : b = a := injective (by simp [old]) (by simp) same
        rwa [← equal]
      · exact List.mem_map_of_mem
    have earlier := ih (injective.mono fun b old => List.mem_append_left _ old)
    rw [List.map_append, List.map_singleton, eraseDups_snoc, eraseDups_snoc, earlier]
    simp only [onlyOld]
    split_ifs <;> simp

/-- A renamed symbol occurs as often as the symbol did. -/
theorem count_map_of_injOn (injective : Set.InjOn f {a | a ∈ as}) (old : a ∈ as) :
    (as.map f).count (f a) = as.count a := by
  rw [List.count, List.count, List.countP_map]
  apply List.countP_congr
  intro b mem
  simpa using injective.eq_iff mem old

end FirstOccurrence

/-! ## Counting -/

namespace Tally

variable [Hashable α] {t : Tally α} {as : List α} {a : α}

/-- A tally of the symbols of a list. -/
structure Counts (t : Tally α) (as : List α) : Prop where
  order : t.order.reverse = as.eraseDups
  counts : ∀ a, t.counts[a]? = if a ∈ as then some (as.count a) else none

theorem counts_empty : (empty : Tally α).Counts [] :=
  ⟨rfl, fun a => by simp [empty]⟩

/-- One more symbol is counted once more, and comes last in the order if it is new. -/
theorem Counts.add (counted : t.Counts as) (a : α) : (t.add a).Counts (as ++ [a]) := by
  have found := counted.counts a
  unfold Tally.add
  split_ifs at found with old
  · rw [found]
    refine ⟨?_, fun b => ?_⟩
    · rw [eraseDups_snoc, if_pos old]
      exact counted.order
    · dsimp only
      rw [Std.HashMap.getElem?_insert, counted.counts b]
      by_cases same : a = b
      · subst same
        simp
      · simp [same, Ne.symm same]
  · rw [found]
    refine ⟨?_, fun b => ?_⟩
    · rw [eraseDups_snoc, if_neg old, List.reverse_cons, counted.order]
    · dsimp only
      rw [Std.HashMap.getElem?_insert, counted.counts b]
      by_cases same : a = b
      · subst same
        simp [List.count_eq_zero_of_not_mem old]
      · simp [same, Ne.symm same]

theorem counts_ofList (as : List α) : (ofList as).Counts as := by
  induction as using List.reverseRecOn with
  | nil => exact counts_empty
  | append_singleton as a ih =>
    rw [ofList, List.foldl_append]
    exact ih.add a

/-- How often each symbol occurs, in the order of first occurrence. -/
theorem toCounts_ofList (as : List α) : (ofList as).toCounts = as.eraseDups.map (as.count ·) := by
  have counted := counts_ofList as
  rw [toCounts, counted.order]
  apply List.map_congr_left
  intro a mem
  rw [counted.counts, if_pos (List.mem_eraseDups.1 mem), Option.getD_some]

end Tally

/-! ## Entropy -/

/-- The entropy of a list is that of the list with its symbols renamed. -/
theorem entropy_map [Hashable α] [Hashable β] {as : List α} {f : α → β}
    (injective : Set.InjOn f {a | a ∈ as}) : entropy (as.map f) = entropy as := by
  have terms : (Tally.ofList (as.map f)).toCounts = (Tally.ofList as).toCounts := by
    rw [Tally.toCounts_ofList, Tally.toCounts_ofList, eraseDups_map injective, List.map_map]
    apply List.map_congr_left
    intro a mem
    exact count_map_of_injOn injective (List.mem_eraseDups.1 mem)
  rw [entropy, entropy, terms, List.isEmpty_map, List.length_map]

/-- The symbols of content by number: the characters of a text, the octets of bytes. -/
def Value.symbols? : Value → Option (List Nat)
  | .text s => some (s.toList.map Char.toNat)
  | .bytes b => some (b.toList.map UInt8.toNat)
  | _ => none

/-- A text with each character written by one octet. -/
def Text.latin1 (s : String) : ByteArray :=
  ⟨(s.toList.map fun c => c.toNat.toUInt8).toArray⟩

variable {v w : Value} {s : String} {symbols : List Nat} {f : Nat → Nat} {limits : CodeLimits}

theorem contentEntropy_of_symbols (spelled : v.symbols? = some symbols) :
    contentEntropy v = .ok (entropy symbols) := by
  cases v with
  | text s =>
    cases spelled
    rfl
  | bytes b =>
    cases spelled
    have injective : Set.InjOn UInt8.toNat {a | a ∈ b.toList} := fun _ _ _ _ => UInt8.toNat_inj.1
    rw [entropy_map injective]
    rfl
  | _ => cases spelled

/-- The octets of a text that has one for each of its characters are numbered like these. -/
theorem symbols?_latin1 (small : ∀ c ∈ s.toList, c.toNat < 256) :
    (Value.bytes (Text.latin1 s)).symbols? = (Value.text s).symbols? := by
  rw [Value.symbols?, Value.symbols?, toList_eq, Text.latin1, List.map_map]
  congr 1
  apply List.map_congr_left
  intro c mem
  have := small c mem
  simp [Nat.mod_eq_of_lt this]

theorem isExceededBy_congr (same : contentEntropy w = contentEntropy v) :
    limits.isExceededBy w = limits.isExceededBy v := by
  rw [CodeLimits.isExceededBy, CodeLimits.isExceededBy, same]

/-- Content and renamed content, each a text or bytes, have the same entropy and are judged alike
under any limits, if no two symbols get one name. A text whose characters have numbers below 256 and
the bytes with these numbers are such content. -/
theorem contentEntropy_of_renamed :
    (∀ v w symbols f, v.symbols? = some symbols → Set.InjOn f {n | n ∈ symbols} →
      w.symbols? = some (symbols.map f) →
        (∃ x, contentEntropy v = .ok x ∧ contentEntropy w = .ok x) ∧
          ∀ limits : CodeLimits, limits.isExceededBy w = limits.isExceededBy v) ∧
    ∀ s, (∀ c ∈ s.toList, c.toNat < 256) →
      contentEntropy (.bytes (Text.latin1 s)) = contentEntropy (.text s) ∧
        ∀ limits : CodeLimits,
          limits.isExceededBy (.bytes (Text.latin1 s)) = limits.isExceededBy (.text s) := by
  refine ⟨fun v w symbols f spelled injective renamed => ?_, fun s small => ?_⟩
  · have before := contentEntropy_of_symbols spelled
    have after := contentEntropy_of_symbols renamed
    rw [entropy_map injective] at after
    exact ⟨⟨_, before, after⟩, fun limits => isExceededBy_congr (after.trans before.symm)⟩
  · have same : contentEntropy (.bytes (Text.latin1 s)) = contentEntropy (.text s) := by
      rw [contentEntropy_of_symbols (symbols?_latin1 small), contentEntropy_of_symbols rfl]
    exact ⟨same, fun limits => isExceededBy_congr same⟩

/-- Two letters and two octets that take turns, and the octets of a text with an accent. -/
theorem contentEntropy_takingTurns :
    (Value.text "abab").symbols? = some [97, 98, 97, 98] ∧
      Set.InjOn (fun n => if n = 97 then 0 else 255) {n | n ∈ [97, 98, 97, 98]} ∧
      contentEntropy (.bytes ⟨#[0, 255, 0, 255]⟩) = contentEntropy (.text "abab") ∧
      contentEntropy (.bytes ⟨#[233, 116, 233]⟩) = contentEntropy (.text "été") := by
  have spelled : (Value.text "abab").symbols? = some [97, 98, 97, 98] := by decide
  have injective : Set.InjOn (fun n => if n = 97 then 0 else 255) {n | n ∈ [97, 98, 97, 98]} := by
    intro a first b second same
    simp only [List.mem_cons, List.not_mem_nil, or_false, Set.mem_ofPred_eq] at first second
    grind
  have renamed : (Value.bytes ⟨#[0, 255, 0, 255]⟩).symbols? =
      some ([97, 98, 97, 98].map fun n => if n = 97 then 0 else 255) := by
    rw [Value.symbols?, toList_eq]
    rfl
  have small : ∀ c ∈ "été".toList, c.toNat < 256 := by
    rw [show "été".toList = ['é', 't', 'é'] by decide +kernel]
    simp only [List.mem_cons, List.not_mem_nil, or_false, forall_eq_or_imp, forall_eq]
    decide
  obtain ⟨x, before, after⟩ :=
    (contentEntropy_of_renamed.1 _ _ _ _ spelled injective renamed).1
  exact ⟨spelled, injective, after.trans before.symm, (contentEntropy_of_renamed.2 "été" small).1⟩

end PackageRisk
