import Mathlib.Tactic.Common
import PackageRisk.Packument
import PackageRisk.Proofs.Fetch

/-!
# How lookups end

Whoever looks a package up is prepared for a result and for a failure of the registry, which may be
that the package was not found (`IsAnswer`). Not every lookup ends so. The URL of the package may be
none, and what the registry answered may be nested too deep, name its versions in something that is
no object, or tag as the latest version what is no key (`lookups_isAnswer_iff`). Each part of a
lookup has one lemma that says when it ends with an answer; `isAnswer_bind_iff` puts them together.
-/

namespace PackageRisk

/-- Failures of a registry. -/
def Failure.aboutRegistry : Failure → Bool
  | .registry _ | .packageNotFound .. => true
  | _ => false

/-- A result, or a failure of a registry. -/
def IsAnswer {α : Type} (outcome : Except Failure α) : Prop :=
  ∀ e, outcome = .error e → e.aboutRegistry = true

section IsAnswer

variable {α β : Type} {e : Failure}

theorem isAnswer_ok (a : α) : IsAnswer (.ok a) :=
  fun _ same => by cases same

theorem isAnswer_error_iff : IsAnswer (.error e : Except Failure α) ↔ e.aboutRegistry = true :=
  ⟨fun answer => answer e rfl, fun about _ same => Except.error.inj same ▸ about⟩

instance (outcome : Except Failure α) : Decidable (IsAnswer outcome) :=
  match outcome with
  | .ok a => .isTrue (isAnswer_ok a)
  | .error _ => decidable_of_iff _ isAnswer_error_iff.symm

theorem isAnswer_bind_iff {x : Except Failure α} {f : α → Except Failure β} :
    IsAnswer (x >>= f) ↔ IsAnswer x ∧ ∀ a, x = .ok a → IsAnswer (f a) := by
  rcases x with e | a
  · constructor
    · intro answer
      exact ⟨isAnswer_error_iff.2 (isAnswer_error_iff.1 answer), fun _ same => by cases same⟩
    · intro ⟨answer, _⟩
      exact isAnswer_error_iff.2 (isAnswer_error_iff.1 answer)
  · constructor
    · intro answer
      exact ⟨isAnswer_ok a, fun _ same => Except.ok.inj same ▸ answer⟩
    · intro ⟨_, later⟩
      exact later a rfl

/-- A fault of a value is no answer. -/
theorem isAnswer_mapError_fault_iff {x : Except Fault α} :
    IsAnswer (x.mapError .fault) ↔ ∃ a, x = .ok a := by
  rcases x with fault | a
  · exact iff_of_false (fun answer => nomatch isAnswer_error_iff.1 answer) nofun
  · exact iff_of_true (isAnswer_ok a) ⟨a, rfl⟩

end IsAnswer

namespace Packument

variable {document fields : Fields} {key package : String} {wanted : Option Value} {v : Value}

/-! ## Documents -/

/-- What a document has under a key counts as given but is no object. -/
def IsMisshapen (document : Fields) (key : String) : Prop :=
  (field document key).isGiven = true ∧ ∀ fields, field document key ≠ .object fields

/-- The version that is looked for: the one that is wanted, or the one that is tagged. -/
inductive Seeks (document : Fields) : Option Value → Value → Prop
  | wanted (v : Value) : Seeks document (some v) v
  | latest {tags : Fields} (tagged : field document "dist-tags" = .object tags)
      (given : (field tags "latest").isGiven = true) : Seeks document none (field tags "latest")

/-- A document in which no version can be looked for. -/
inductive Derails (document : Fields) (wanted : Option Value) : Prop
  | tags (unnamed : wanted = none) (misshapen : IsMisshapen document "dist-tags")
  | versions {v : Value} (seeks : Seeks document wanted v)
      (misshapen : IsMisshapen document "versions")
  | key {v : Value} (seeks : Seeks document wanted v) (unusable : v.canBeKey = false)

theorem mapUnder_eq_ok_iff :
    mapUnder document key = .ok fields ↔
      (field document key).isGiven = false ∧ fields = [] ∨
        (field document key).isGiven = true ∧ field document key = .object fields := by
  rw [mapUnder]
  rcases given : (field document key).isGiven
  · simp [eq_comm]
  · cases found : field document key <;> simp [eq_comm]

theorem exists_mapUnder_iff :
    (∃ fields, mapUnder document key = .ok fields) ↔ ¬IsMisshapen document key := by
  rw [mapUnder, IsMisshapen]
  rcases given : (field document key).isGiven
  · simp
  · cases found : field document key <;> simp

/-! ## Versions -/

theorem isAnswer_latest_iff :
    IsAnswer (latest package document) ↔ ¬IsMisshapen document "dist-tags" := by
  rw [latest, isAnswer_bind_iff, isAnswer_mapError_fault_iff, exists_mapUnder_iff]
  refine and_iff_left fun tags _ => ?_
  dsimp only
  split_ifs
  · exact isAnswer_ok _
  · exact isAnswer_error_iff.2 rfl

theorem seeks_none_iff : Seeks document none v ↔ latest package document = .ok v := by
  simp only [latest, bind_eq_ok, mapError_eq_ok, mapUnder_eq_ok_iff]
  constructor
  · intro seeks
    cases seeks with
    | @latest tags tagged given =>
      refine ⟨tags, .inr ⟨?_, tagged⟩, if_pos given⟩
      rw [tagged]
      cases tags with
      | nil => cases given
      | cons tag rest => rfl
  · rintro ⟨tags, tagged, found⟩
    split_ifs at found with given
    cases found
    rcases tagged with ⟨-, rfl⟩ | ⟨-, tagged⟩
    · cases given
    · exact .latest tagged given

theorem isAnswer_describe (found : Value) : IsAnswer (describe package v document found) := by
  unfold describe
  split
  · split
    · exact isAnswer_ok _
    · exact isAnswer_error_iff.2 rfl
  · exact isAnswer_error_iff.2 rfl

theorem version_some :
    version package (some v) document =
      (mapUnder document "versions").mapError .fault >>= fun versions =>
        (versionUnder versions v).mapError .fault >>= describe package v document := rfl

theorem version_none :
    version package none document = latest package document >>= fun v =>
      version package (some v) document := rfl

theorem exists_versionUnder_iff {versions : Fields} :
    (∃ found, versionUnder versions v = .ok found) ↔ v.canBeKey = true := by
  unfold versionUnder
  split
  · exact iff_of_true ⟨_, rfl⟩ rfl
  · split_ifs with usable
    · exact iff_of_true ⟨_, rfl⟩ usable
    · exact iff_of_false nofun usable

/-- Where the version is known, a lookup ends with an answer just when the document names its
versions in an object and the version can be a key. -/
theorem isAnswer_version_some_iff :
    IsAnswer (version package (some v) document) ↔
      ¬IsMisshapen document "versions" ∧ v.canBeKey = true := by
  simp only [version_some, isAnswer_bind_iff, isAnswer_mapError_fault_iff, exists_versionUnder_iff,
    isAnswer_describe, implies_true, and_true]
  rw [← exists_mapUnder_iff]
  refine and_congr_right fun ⟨versions, named⟩ => ?_
  exact ⟨fun usable => usable versions (mapError_eq_ok.2 named), fun usable _ _ => usable⟩

theorem not_derails_iff :
    ¬Derails document wanted ↔ (wanted = none → ¬IsMisshapen document "dist-tags") ∧
      ∀ v, Seeks document wanted v → ¬IsMisshapen document "versions" ∧ v.canBeKey = true := by
  constructor
  · intro sound
    refine ⟨fun unnamed misshapen => sound (.tags unnamed misshapen), fun v seeks => ?_⟩
    refine ⟨fun misshapen => sound (.versions seeks misshapen), ?_⟩
    by_contra unusable
    exact sound (.key seeks (Bool.eq_false_iff.2 unusable))
  · rintro ⟨tags, sought⟩ (⟨unnamed, misshapen⟩ | ⟨seeks, misshapen⟩ | ⟨seeks, unusable⟩)
    · exact tags unnamed misshapen
    · exact (sought _ seeks).1 misshapen
    · exact ne_true_of_eq_false unusable (sought _ seeks).2

theorem isAnswer_version_iff :
    IsAnswer (version package wanted document) ↔ ¬Derails document wanted := by
  rw [not_derails_iff]
  cases wanted with
  | some v =>
    rw [isAnswer_version_some_iff]
    constructor
    · intro sound
      refine ⟨nofun, fun v seeks => ?_⟩
      cases seeks
      exact sound
    · intro ⟨_, sound⟩
      exact sound v (.wanted v)
  | none =>
    rw [version_none, isAnswer_bind_iff, isAnswer_latest_iff]
    simp only [isAnswer_version_some_iff, ← seeks_none_iff, forall_const]

theorem isAnswer_versionNames_iff :
    IsAnswer ((versionNames document).mapError Failure.fault) ↔
      ¬IsMisshapen document "versions" := by
  rw [isAnswer_mapError_fault_iff, versionNames, IsMisshapen]
  rcases given : (field document "versions").isGiven
  · simp
  · cases found : field document "versions" <;> simp

end Packument

namespace RegistryClient

variable {package : String} {wanted : Option Value} {net : Network} {w : Workspace}

/-! ## Replies -/

/-- A reply of success whose document is nested deeper than documents are read. -/
inductive IsTooDeep : Reply → Prop
  | body {status : Nat} {location : Option String} {chunks : List ByteArray} {text : String}
      (success : isSuccess status = true) (readable : bodyText? chunks = some text)
      (deep : Json.read maxDepth text = .error .tooDeep) :
      IsTooDeep (.response status location chunks)

/-- A lookup that gets to see a document, or a failure of the registry in place of it. -/
structure Reads (r : RegistryClient) (package : String) (net : Network) (w : Workspace) : Prop where
  url : ∃ reference, Url.Reference.parse (r.packageUrl package) = .ok reference
  shallow : ∀ reply, (Session.fetch r.followsRedirects (r.packageUrl package) net w).1 = .ok reply →
    ¬IsTooDeep reply

theorem isAnswer_readBody_iff {chunks : List ByteArray} :
    IsAnswer (readBody package chunks) ↔
      ¬∃ text, bodyText? chunks = some text ∧ Json.read maxDepth text = .error .tooDeep := by
  rw [readBody]
  rcases bodyText? chunks with _ | text
  · exact iff_of_true (isAnswer_error_iff.2 rfl) (by simp)
  · simp only [Option.some.injEq, exists_eq_left']
    rcases Json.read maxDepth text with fault | document
    · cases fault
      case tooDeep => simp [isAnswer_error_iff, Failure.aboutRegistry]
      all_goals exact iff_of_true (isAnswer_error_iff.2 rfl) nofun
    · exact iff_of_true (isAnswer_ok _) nofun

theorem isAnswer_readReply_iff {reply : Reply} :
    IsAnswer (readReply package reply) ↔ ¬IsTooDeep reply := by
  cases reply with
  | response status location chunks =>
    rw [readReply]
    by_cases success : isSuccess status = true
    · rw [if_pos success, isAnswer_readBody_iff]
      refine not_congr ⟨?_, ?_⟩
      · rintro ⟨text, readable, deep⟩
        exact .body success readable deep
      · rintro ⟨-, readable, deep⟩
        exact ⟨_, readable, deep⟩
    · rw [if_neg success]
      refine iff_of_true ?_ fun ⟨successful, _, _⟩ => success successful
      split_ifs
      all_goals exact isAnswer_error_iff.2 rfl
  | _ => exact iff_of_true (isAnswer_error_iff.2 rfl) nofun

theorem isAnswer_readFetched_ok_iff {reply : Reply} :
    IsAnswer (readFetched package (.ok reply)) ↔ ¬IsTooDeep reply := by
  rw [readFetched, isAnswer_bind_iff, isAnswer_readReply_iff]
  refine and_iff_left fun document _ => ?_
  split
  · exact isAnswer_ok _
  · exact isAnswer_error_iff.2 rfl

theorem run_packument (r : RegistryClient) :
    (r.packument package net w).1 =
      readFetched package (Session.fetch r.followsRedirects (r.packageUrl package) net w).1 := by
  rw [packument, Session.bind_of_ok (Session.run_attempt _), Session.run_lift]

theorem isAnswer_packument_iff (r : RegistryClient) :
    IsAnswer (r.packument package net w).1 ↔ r.Reads package net w := by
  rw [run_packument]
  rcases parsed : Url.Reference.parse (r.packageUrl package) with why | reference
  · rw [Session.fetch_of_parse_error parsed]
    refine iff_of_false (fun answer => nomatch isAnswer_error_iff.1 answer) fun reads => ?_
    obtain ⟨reference, parsed'⟩ := reads.url
    rw [parsed] at parsed'
    cases parsed'
  · obtain ⟨outcome, ends, failures⟩ : (Session.fetch r.followsRedirects
        (r.packageUrl package)).SettlesIn net Session.IsWrongValue :=
      Session.fetch_settles_of_parse_ok parsed
    rw [ends.outcome_eq]
    rcases outcome with e | reply
    · obtain ⟨detail, rfl⟩ := failures e rfl
      refine iff_of_true (isAnswer_error_iff.2 rfl) ⟨⟨_, parsed⟩, fun reply fetched => ?_⟩
      rw [ends.outcome_eq] at fetched
      cases fetched
    · rw [isAnswer_readFetched_ok_iff]
      constructor
      · intro shallow
        refine ⟨⟨_, parsed⟩, fun reply' fetched => ?_⟩
        rw [ends.outcome_eq] at fetched
        exact Except.ok.inj fetched ▸ shallow
      · intro reads
        exact reads.shallow reply (ends.outcome_eq w)

/-! ## Lookups -/

theorem run_metadata (r : RegistryClient) :
    (r.metadata package wanted net w).1 =
      (r.packument package net w).1 >>= Packument.version package wanted := by
  rw [metadata, Session.outcome_bind]
  simp only [Session.run_lift]

/-- Whoever looks a package up asks for its URL. -/
theorem requested_of_metadata (r : RegistryClient) {reference : Url.Reference}
    (parsed : Url.Reference.parse (r.packageUrl package) = .ok reference) :
    .requested reference.toRequest.text ∈ (r.metadata package wanted net w).2.journal := by
  have fetched : (r.packument package net w).2 =
      (Session.fetch r.followsRedirects (r.packageUrl package) net w).2 := by
    rw [packument, Session.bind_of_ok (Session.run_attempt _), Session.run_lift]
  have asked := Session.requested_of_fetch parsed r.followsRedirects net w
  rcases ends : r.packument package net w with ⟨outcome, w'⟩
  rw [← fetched, ends] at asked
  rcases outcome with e | document
  · rwa [metadata, Session.bind_of_error ends]
  · rwa [metadata, Session.bind_of_ok ends, Session.run_lift]

theorem run_versions (r : RegistryClient) :
    (r.versions package net w).1 = (r.packument package net w).1 >>= fun document =>
      (Packument.versionNames document).mapError .fault := by
  rw [versions, Session.outcome_bind]
  simp only [Session.run_liftFault]

theorem isAnswer_metadata_iff (r : RegistryClient) :
    IsAnswer (r.metadata package wanted net w).1 ↔ r.Reads package net w ∧
      ∀ document, (r.packument package net w).1 = .ok document →
        ¬Packument.Derails document wanted := by
  rw [run_metadata, isAnswer_bind_iff, isAnswer_packument_iff]
  simp only [Packument.isAnswer_version_iff]

/-- A registry that tags versions in a list. -/
def listedTags : Network := fun url =>
  if url = "https://registry.npmjs.org/p" then
    .response 200 none ["\x7b\"dist-tags\":[\"x\"]\x7d".toUTF8]
  else .response 404 none []

end RegistryClient

end PackageRisk
