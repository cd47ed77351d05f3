import Mathlib.Data.List.Induction
import Mathlib.Data.List.Nodup
import Mathlib.Data.List.Perm.Basic
import PackageRisk.Value.Basic

/-!
# Fields and their keys

A map that is put together field by field has the keys of all its parts (`mem_keys_merge`), each
once (`nodup_keys_merge`) and where it was put first (`pairwise_keys_merge`), with the value that it
was put to last (`get?_merge`). Where each key is there once, the order of the fields decides
nothing about what is under a key (`get?_perm`).
-/

namespace PackageRisk.Fields

variable {α : Type} {key name : String} {v : α} {fields later : List (String × α)}

/-- The keys of some fields, in order. -/
def keys (fields : List (String × α)) : List String := fields.map Prod.fst

theorem get?_put :
    get? (put key v fields) name = if name = key then some v else get? fields name := by
  unfold get?
  induction fields with
  | nil =>
    rw [put, List.lookup_cons]
    by_cases same : name = key <;> simp [same, beq_false_of_ne]
  | cons field rest ih =>
    obtain ⟨k, w⟩ := field
    unfold put
    by_cases here : k = key
    · subst here
      rw [if_pos rfl, List.lookup_cons, List.lookup_cons]
      by_cases same : name = k <;> simp [same, beq_false_of_ne]
    · rw [if_neg here, List.lookup_cons, List.lookup_cons, ih]
      by_cases same : name = k
      · simp [same, here]
      · simp [beq_false_of_ne same]

theorem mem_keys_put : name ∈ keys (put key v fields) ↔ name = key ∨ name ∈ keys fields := by
  induction fields with
  | nil => simp [keys, put]
  | cons field rest ih =>
    obtain ⟨k, w⟩ := field
    unfold put
    split_ifs with same
    · simp [keys, same]
    · simp only [keys, List.map_cons, List.mem_cons] at ih ⊢
      rw [ih, or_left_comm]

theorem nodup_keys_put (once : (keys fields).Nodup) : (keys (put key v fields)).Nodup := by
  induction fields with
  | nil => exact List.nodup_singleton key
  | cons field rest ih =>
    obtain ⟨k, w⟩ := field
    have head : k ∉ keys rest := (List.nodup_cons.1 once).1
    unfold put
    split_ifs with same
    · exact same ▸ once
    · refine List.nodup_cons.2 ⟨fun mem => ?_, ih (List.nodup_cons.1 once).2⟩
      exact (mem_keys_put.1 mem).elim same head

theorem mem_keys_merge :
    name ∈ keys (merge fields later) ↔ name ∈ keys fields ∨ name ∈ keys later := by
  unfold merge
  induction later generalizing fields with
  | nil => simp [keys]
  | cons field rest ih =>
    rw [List.foldl_cons, ih, mem_keys_put]
    simp only [keys, List.map_cons, List.mem_cons]
    tauto

theorem nodup_keys_merge (once : (keys fields).Nodup) : (keys (merge fields later)).Nodup := by
  unfold merge
  induction later generalizing fields with
  | nil => exact once
  | cons field rest ih => exact ih (nodup_keys_put once)

/-! ## Places and values of what was put -/

theorem keys_put : keys (put key v fields) =
    if key ∈ keys fields then keys fields else keys fields ++ [key] := by
  induction fields with
  | nil => rfl
  | cons field rest ih =>
    obtain ⟨k, w⟩ := field
    unfold put
    by_cases here : k = key
    · have mem : key ∈ keys ((k, w) :: rest) := here ▸ List.mem_cons_self
      rw [if_pos here, if_pos mem, ← here]
      rfl
    · have mem_iff : key ∈ keys ((k, w) :: rest) ↔ key ∈ keys rest := by
        simp [keys, Ne.symm here]
      have parts : keys ((k, w) :: put key v rest) = k :: keys (put key v rest) := rfl
      rw [if_neg here, parts, ih]
      simp only [mem_iff]
      split_ifs <;> rfl

/-- A field is under its key what it was put to last. -/
theorem get?_merge :
    get? (merge fields later) key = (get? later.reverse key).or (get? fields key) := by
  unfold merge
  induction later generalizing fields with
  | nil => rfl
  | cons field rest ih =>
    obtain ⟨k, w⟩ := field
    rw [List.foldl_cons, ih, get?_put, List.reverse_cons]
    unfold get?
    rw [List.lookup_append, List.lookup_cons, List.lookup_nil, Option.or_assoc]
    congr 1
    by_cases same : key = k
    · simp [same]
    · simp [same, beq_false_of_ne]

/-- Merged fields are in the order in which their keys were put first. -/
theorem pairwise_keys_merge (later : List (String × α)) :
    (keys (merge [] later)).Pairwise fun a b =>
      (keys later).idxOf a < (keys later).idxOf b := by
  induction later using List.reverseRecOn with
  | nil => exact List.Pairwise.nil
  | append_singleton later field ih =>
    have put_last : merge [] (later ++ [field]) = put field.1 field.2 (merge [] later) := by
      rw [merge, List.foldl_append]
      rfl
    have listed : keys (later ++ [field]) = keys later ++ [field.1] := List.map_append
    have mem_iff {name : String} : name ∈ keys (merge [] later) ↔ name ∈ keys later := by
      rw [mem_keys_merge]
      simp [keys]
    -- the keys that were there keep their places
    have kept : (keys (merge [] later)).Pairwise fun a b =>
        (keys later ++ [field.1]).idxOf a < (keys later ++ [field.1]).idxOf b := by
      refine ih.imp_of_mem fun {a b} memA memB lt => ?_
      rw [List.idxOf_append_of_mem (mem_iff.1 memA), List.idxOf_append_of_mem (mem_iff.1 memB)]
      exact lt
    rw [put_last, keys_put, listed]
    split_ifs with mem
    · exact kept
    · refine List.pairwise_append.2 ⟨kept, List.pairwise_singleton _ _, fun a memA b memB => ?_⟩
      obtain rfl := List.mem_singleton.1 memB
      rw [List.idxOf_append_of_mem (mem_iff.1 memA),
        List.idxOf_append_of_notMem (mt mem_iff.2 mem)]
      have before : (keys later).idxOf a < (keys later).length :=
        List.idxOf_lt_length_iff.2 (mem_iff.1 memA)
      omega

/-- Fields with each key once are looked up alike in any order. -/
theorem get?_perm {fields' : List (String × α)} (perm : fields.Perm fields')
    (once : (keys fields).Nodup) : get? fields key = get? fields' key := by
  unfold get?
  induction perm with
  | nil => rfl
  | cons field _ ih =>
    obtain ⟨k, w⟩ := field
    rw [List.lookup_cons, List.lookup_cons, ih (List.nodup_cons.1 once).2]
  | swap field other rest =>
    obtain ⟨k, w⟩ := field
    obtain ⟨k', w'⟩ := other
    have apart : k' ≠ k := fun same => (List.nodup_cons.1 once).1 (same ▸ List.mem_cons_self)
    simp only [List.lookup_cons]
    rcases at' : key == k with _ | _
    · rfl
    · have other : (key == k') = false := by
        rw [beq_iff_eq.1 at', beq_eq_false_iff_ne]
        exact apart.symm
      rw [other]
  | trans first _ ih ih' =>
    exact (ih once).trans (ih' ((first.map Prod.fst).nodup_iff.1 once))

end PackageRisk.Fields
