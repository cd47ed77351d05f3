import Mathlib
import PackageRisk.Proofs.Results
import PackageRisk.Url

/-!
# Web addresses

What `Url.isWeb` recognises, said of the text itself (`IsWebAddress`): a scheme of the web in any
case, `://`, and a host part that nothing is wrong with (`HostDefect`), up to the end or to the
first character that ends it. All of it is said of the text after its clean-up.
-/

namespace PackageRisk.Url

variable {a a' b cs host rest scheme after : List Char} {c : Char}

/-! ## Host parts -/

/-- A host part cut at its first bracket that opens and at the next one that closes, or at the end
if none does. -/
structure BracketCut (host before inner after : List Char) : Prop where
  spelled : host = before ++ '[' :: (inner ++ after)
  first : '[' ∉ before
  inside : ']' ∉ inner
  ends : ∀ c ∈ after.head?, c = ']'

/-- What is wrong with a host part: one kind of bracket without the other, brackets with no address
between them, or a character whose compatibility form separates parts. -/
inductive HostDefect (host : List Char) : Prop
  | unclosed (opening : '[' ∈ host) (closing : ']' ∉ host)
  | unopened (opening : '[' ∉ host) (closing : ']' ∈ host)
  | noAddress {before inner after : List Char} (cut : BracketCut host before inner after)
    (closing : ']' ∈ host) (unzoned : isZonedAddress inner = false)
    (unversioned : isFutureAddress inner = false)
  | separatorLike {c : Char} (mem : c ∈ host) (like : c.toNat ∈ separatorLikes)

theorem all_bne_iff {d : Char} : a.all (· != d) = true ↔ d ∉ a := by
  simp [List.all_eq_true, List.forall_mem_ne']

theorem BracketCut.bracketed_eq {before inner after : List Char}
    (cut : BracketCut host before inner after) : bracketed host = inner := by
  unfold bracketed
  rw [cut.spelled, List.dropWhile_append_of_pos (List.all_eq_true.1 (all_bne_iff.2 cut.first)),
    List.dropWhile_cons_of_neg (by simp)]
  apply takeWhile_append_of_head (all_bne_iff.2 cut.inside)
  intro c first
  simp [cut.ends c first]

theorem exists_bracketCut (opening : '[' ∈ host) :
    ∃ before inner after, BracketCut host before inner after := by
  obtain ⟨before, behind, spelled, first⟩ := List.eq_append_cons_of_mem opening
  refine ⟨before, behind.takeWhile (· != ']'), behind.dropWhile (· != ']'), ?_, first, ?_, ?_⟩
  · rw [List.takeWhile_append_dropWhile]
    exact spelled
  · intro mem
    simpa using List.mem_takeWhile_imp mem
  · intro c head
    have stops := List.head?_dropWhile_not (· != ']') behind
    rw [Option.mem_def.1 head] at stops
    simpa using stops

theorem hasFitBrackets_iff :
    hasFitBrackets host = true ↔ ('[' ∈ host ↔ ']' ∈ host) ∧
      ('[' ∈ host → isZonedAddress (bracketed host) || isFutureAddress (bracketed host)) := by
  unfold hasFitBrackets
  by_cases opening : '[' ∈ host <;> by_cases closing : ']' ∈ host <;> simp [opening, closing]

theorem isHost_iff : isHost host = true ↔ ¬HostDefect host := by
  have plain : (host.all fun c => !separatorLikes.contains c.toNat) = true ↔
      ∀ c ∈ host, c.toNat ∉ separatorLikes := by
    simp
  unfold isHost
  rw [Bool.and_eq_true, hasFitBrackets_iff, plain]
  constructor
  · intro ⟨⟨together, address⟩, plain⟩ defect
    cases defect with
    | unclosed opening closing => exact closing (together.1 opening)
    | unopened opening closing => exact opening (together.2 closing)
    | noAddress cut closing unzoned unversioned =>
      have fits := address (together.2 closing)
      rw [cut.bracketed_eq, unzoned, unversioned] at fits
      cases fits
    | separatorLike mem like => exact plain _ mem like
  · intro sound
    have together : '[' ∈ host ↔ ']' ∈ host := by
      constructor
      · intro opening
        by_contra closing
        exact sound (.unclosed opening closing)
      · intro closing
        by_contra opening
        exact sound (.unopened opening closing)
    refine ⟨⟨together, fun opening => ?_⟩, fun c mem like => sound (.separatorLike mem like)⟩
    by_contra fails
    obtain ⟨before, inner, after, cut⟩ := exists_bracketCut opening
    rw [cut.bracketed_eq, Bool.not_eq_true, Bool.or_eq_false_iff] at fails
    exact sound (.noAddress cut (together.1 opening) fails.1 fails.2)

/-! ## Addresses -/

/-- A scheme of the web, in any case. -/
def IsWebName (scheme : List Char) : Prop :=
  scheme.map Char.toLower = ['h', 't', 't', 'p'] ∨
    scheme.map Char.toLower = ['h', 't', 't', 'p', 's']

/-- What follows the colon of a web address: two slashes, a host part with nothing wrong, and
behind it nothing or a text whose first character ends it. -/
inductive LeadsToHost : List Char → Prop
  | intro {host rest : List Char} (filled : host ≠ []) (unended : ∀ c ∈ host, endsHost c = false)
    (ended : ∀ c ∈ rest.head?, endsHost c = true) (sound : ¬HostDefect host) :
    LeadsToHost ('/' :: '/' :: (host ++ rest))

theorem LeadsToHost.slashes {after : List Char} (leads : LeadsToHost after) :
    ∃ rest, after = '/' :: '/' :: rest := by
  cases leads
  exact ⟨_, rfl⟩

/-- Absolute addresses of the web. -/
inductive IsWebAddress : List Char → Prop
  | intro {scheme after : List Char} (web : IsWebName scheme) (leads : LeadsToHost after) :
    IsWebAddress (scheme ++ ':' :: after)

theorem IsWebName.isAlpha (web : IsWebName scheme) : ∀ c ∈ scheme, c.isAlpha = true := by
  have letters : ∀ d ∈ scheme.map Char.toLower, d.isAlpha = true := by
    rcases web with web | web
    · rw [web]
      simp
    · rw [web]
      simp
  intro c mem
  rw [← Char.isAlpha_toLower_eq_isAlpha]
  exact letters _ (List.mem_map_of_mem mem)

theorem isWebScheme_ofList (scheme : List Char) :
    isWebScheme (String.ofList (scheme.map Char.toLower)) = true ↔ IsWebName scheme := by
  unfold isWebScheme IsWebName
  rw [Bool.or_eq_true, beq_iff_eq, beq_iff_eq, String.ext_iff, String.ext_iff, String.toList_ofList]
  rfl

theorem splitScheme_of_web (web : IsWebName scheme) (after : List Char) :
    splitScheme (scheme ++ ':' :: after) = (String.ofList (scheme.map Char.toLower), after) := by
  have head : (scheme ++ ':' :: after).takeWhile isSchemeChar = scheme := by
    refine takeWhile_append_of_head (List.all_eq_true.2 fun c mem => ?_) (by simp; decide)
    simp [isSchemeChar, Char.isAlphanum, web.isAlpha c mem]
  unfold splitScheme
  dsimp only
  rw [head, List.drop_left]
  match scheme, web with
  | c :: tail, web => exact if_pos (web.isAlpha c List.mem_cons_self)

theorem splitScheme_eq (cs : List Char) :
    splitScheme cs = ("", cs) ∨ ∃ scheme after, cs = scheme ++ ':' :: after ∧
      splitScheme cs = (String.ofList (scheme.map Char.toLower), after) := by
  have whole := List.prefix_iff_eq_append.1 (List.takeWhile_prefix isSchemeChar (l := cs))
  unfold splitScheme
  dsimp only
  split
  · next c tail after head behind =>
    split_ifs with letter
    · rw [behind, head] at whole
      exact .inr ⟨c :: tail, after, whole.symm, by rw [head]⟩
    · exact .inl rfl
  · exact .inl rfl

/-- A text is split behind a scheme of the web just where it spells one and a colon. -/
theorem isWebScheme_splitScheme (web : isWebScheme (splitScheme cs).1 = true) :
    ∃ scheme, IsWebName scheme ∧ cs = scheme ++ ':' :: (splitScheme cs).2 := by
  obtain none | ⟨scheme, after, spelled, split⟩ := splitScheme_eq cs
  · rw [none] at web
    exact absurd (show isWebScheme "" = true from web) (by decide)
  · rw [split] at web ⊢
    exact ⟨scheme, (isWebScheme_ofList scheme).1 web, spelled⟩

theorem leadsToHost_iff :
    LeadsToHost after ↔ (splitHost after).1 ≠ [] ∧ isHost (splitHost after).1 = true := by
  constructor
  · intro leads
    cases leads with
    | @intro host rest filled unended ended sound =>
      have taken : (host ++ rest).takeWhile (!endsHost ·) = host := by
        apply takeWhile_append_of_head
        · simpa using unended
        · intro c first
          simp [ended c first]
      rw [splitHost, taken]
      exact ⟨filled, isHost_iff.2 sound⟩
  · intro ⟨filled, sound⟩
    unfold splitHost at filled sound
    split at filled
    · next behind =>
      dsimp only at filled sound
      rw [← List.takeWhile_append_dropWhile (p := (!endsHost ·)) (l := behind)]
      refine .intro filled (fun c mem => ?_) (fun c first => ?_) (isHost_iff.1 sound)
      · simpa using List.mem_takeWhile_imp mem
      · have stops := List.head?_dropWhile_not (!endsHost ·) behind
        rw [Option.mem_def.1 first] at stops
        simpa using stops
    · exact absurd rfl filled

theorem isWeb_iff (s : String) : isWeb s = true ↔ IsWebAddress (clean s.toList) := by
  have parts : isWeb s = true ↔ isWebScheme (splitScheme (clean s.toList)).1 = true ∧
      LeadsToHost (splitScheme (clean s.toList)).2 := by
    rw [leadsToHost_iff]
    unfold isWeb parts?
    dsimp only
    by_cases sound : isHost (splitHost (splitScheme (clean s.toList)).2).1 = true
    · simp [sound]
    · simp [sound]
  rw [parts]
  constructor
  · intro ⟨web, leads⟩
    obtain ⟨scheme, name, spelled⟩ := isWebScheme_splitScheme web
    rw [spelled]
    exact .intro name leads
  · intro address
    generalize clean s.toList = cs at address ⊢
    cases address with
    | intro name leads =>
      rw [splitScheme_of_web name]
      exact ⟨(isWebScheme_ofList _).2 name, leads⟩

/-! ## The clean-up -/

/-- Blanks and controls are dropped from the head alone. -/
theorem clean_append (a b : List Char) :
    clean (a ++ b) = if ∀ c ∈ a, c.toNat ≤ 32 then clean b
      else clean a ++ b.filter (!isDropped ·) := by
  have empty : ((a.dropWhile fun c => c.toNat ≤ 32).isEmpty = true) = ∀ c ∈ a, c.toNat ≤ 32 := by
    simp [List.isEmpty_iff, List.dropWhile_eq_nil_iff]
  unfold clean
  rw [List.dropWhile_append]
  simp only [empty]
  split_ifs with blank
  · rfl
  · exact List.filter_append ..

theorem clean_eq_nil_of_blank (blank : ∀ c ∈ a, c.toNat ≤ 32) : clean a = [] := by
  have whole := clean_append a []
  rwa [List.append_nil, if_pos blank] at whole

theorem toNat_of_isDropped (dropped : isDropped c = true) : c.toNat ≤ 32 := by
  simp only [isDropped, Bool.or_eq_true, beq_iff_eq] at dropped
  obtain (rfl | rfl) | rfl := dropped <;> decide

theorem clean_insert (dropped : isDropped c = true) (a b : List Char) :
    clean (a ++ c :: b) = clean (a ++ b) := by
  rw [clean_append, clean_append]
  split_ifs
  · show clean ([c] ++ b) = _
    rw [clean_append, if_pos (by simpa using toNat_of_isDropped dropped)]
  · rw [List.filter_cons_of_neg (by simp [dropped])]

/-- A colon stays where it is. -/
theorem clean_colon (a b : List Char) :
    clean (a ++ ':' :: b) = clean a ++ ':' :: b.filter (!isDropped ·) := by
  rw [clean_append]
  split_ifs with blank
  · rw [clean_eq_nil_of_blank blank]
    rfl
  · rfl

theorem not_blank_of_isAlpha (letter : c.isAlpha = true) : ¬c.toNat ≤ 32 := by
  simp only [Char.isAlpha, Char.isUpper, Char.isLower, Bool.or_eq_true, Bool.and_eq_true,
    decide_eq_true_eq, UInt32.le_iff_toNat_le, ge_iff_le, Char.reduceVal, UInt32.reduceToNat,
    Char.toNat_val] at letter
  omega

/-- Whether a character is dropped does not depend on its case. -/
theorem blank_toLower (c : Char) :
    decide (c.toLower.toNat ≤ 32) = decide (c.toNat ≤ 32) ∧
      isDropped c.toLower = isDropped c := by
  by_cases letter : c.isAlpha = true
  · have plain : ¬c.toNat ≤ 32 := not_blank_of_isAlpha letter
    have lower : ¬c.toLower.toNat ≤ 32 :=
      not_blank_of_isAlpha (by rwa [Char.isAlpha_toLower_eq_isAlpha])
    rw [decide_eq_false plain, decide_eq_false lower,
      Bool.eq_false_iff.2 fun dropped => plain (toNat_of_isDropped dropped),
      Bool.eq_false_iff.2 fun dropped => lower (toNat_of_isDropped dropped)]
    exact ⟨rfl, rfl⟩
  · rw [Char.toLower_eq_of_not_isUpper fun upper => letter (by simp [Char.isAlpha, upper])]
    exact ⟨rfl, rfl⟩

theorem clean_map_toLower (a : List Char) :
    clean (a.map Char.toLower) = (clean a).map Char.toLower := by
  have blank : (fun c : Char => decide (c.toNat ≤ 32)) ∘ Char.toLower =
      fun c => decide (c.toNat ≤ 32) := funext fun c => (blank_toLower c).1
  have dropped : (fun c => !isDropped c) ∘ Char.toLower = fun c => !isDropped c :=
    funext fun c => congrArg (!·) (blank_toLower c).2
  unfold clean
  rw [List.dropWhile_map, List.filter_map, blank, dropped]

/-! ## Other spellings -/

theorem IsWebName.not_mem {d : Char} (web : IsWebName scheme) (other : d.isAlpha = false) :
    d ∉ scheme := by
  intro mem
  rw [web.isAlpha d mem] at other
  cases other

/-- What stands before the first colon. -/
theorem takeWhile_colon (noColon : ':' ∉ a) (b : List Char) :
    (a ++ ':' :: b).takeWhile (· != ':') = a :=
  takeWhile_append_of_head (all_bne_iff.2 noColon) (by simp)

theorem isWebAddress_colon_iff (noColon : ':' ∉ a) :
    IsWebAddress (a ++ ':' :: b) ↔ IsWebName a ∧ LeadsToHost b := by
  constructor
  · intro address
    generalize whole : a ++ ':' :: b = cs at address
    cases address with
    | @intro scheme after web leads =>
      obtain rfl : a = scheme := by
        rw [← takeWhile_colon noColon b, whole, takeWhile_colon (web.not_mem (by decide))]
      obtain rfl : b = after := by simpa using whole
      exact ⟨web, leads⟩
  · intro ⟨web, leads⟩
    exact .intro web leads

/-- Where a text goes on, a web address reaches into it only if its two slashes are there. -/
theorem prefix_of_slashes (slashes : ['/', '/'] <:+: a) (web : IsWebName scheme)
    (whole : a ++ b = scheme ++ ':' :: '/' :: '/' :: after) :
    scheme ++ [':', '/', '/'] <+: a := by
  obtain ⟨before, behind, rfl⟩ := slashes
  have reached : before ++ ['/', '/'] ++ behind <+: scheme ++ ':' :: '/' :: '/' :: after :=
    ⟨b, whole⟩
  have long : scheme.length + 1 ≤ before.length := by
    by_contra short
    -- Else the first of the slashes would stand in the scheme or be the colon.
    have first : before ++ ['/'] <+: scheme ++ ':' :: '/' :: '/' :: after :=
      List.IsPrefix.trans ⟨'/' :: behind, by simp⟩ reached
    have colon : scheme ++ [':'] <+: scheme ++ ':' :: '/' :: '/' :: after :=
      ⟨'/' :: '/' :: after, by simp⟩
    have early : before ++ ['/'] <+: scheme ++ [':'] := by
      refine List.prefix_of_prefix_length_le first colon ?_
      simp only [List.length_append, List.length_singleton]
      omega
    have among : '/' ∈ scheme ++ [':'] := early.subset (by simp)
    simp [web.not_mem (d := '/') (by decide)] at among
  have head : scheme ++ [':', '/', '/'] <+: scheme ++ ':' :: '/' :: '/' :: after :=
    ⟨after, by simp⟩
  refine List.prefix_of_prefix_length_le head reached ?_
  simp only [List.length_append, List.length_cons, List.length_nil]
  omega

/-- A host part is over where something stands that ends it. -/
theorem leadsToHost_append_iff (ending : endsHost c = true) :
    LeadsToHost ('/' :: '/' :: (a ++ c :: b)) ↔ LeadsToHost ('/' :: '/' :: a) := by
  constructor
  · intro leads
    generalize whole : a ++ c :: b = after at leads
    cases leads with
    | @intro host rest filled unended ended sound =>
      obtain ⟨more, rfl, rfl⟩ | ⟨more, rfl, split⟩ := List.append_eq_append_iff.1 whole.symm
      · refine .intro filled unended (fun d first => ?_) sound
        cases more with
        | nil => cases first
        | cons e more => exact ended d first
      · cases more with
        | nil =>
          rw [← List.append_nil a]
          exact .intro (by simpa using filled) (by simpa using unended) nofun (by simpa using sound)
        | cons d more =>
          obtain ⟨rfl, -⟩ := List.cons.inj split
          rw [unended c (by simp)] at ending
          cases ending
  · intro leads
    cases leads with
    | @intro host rest filled unended ended sound =>
      rw [List.append_assoc]
      refine .intro filled unended (fun d first => ?_) sound
      cases rest with
      | nil =>
        cases first
        exact ending
      | cons e rest => exact ended d first

/-- A web address goes on behind its host part as it likes. -/
theorem isWebAddress_append_iff (slashes : ['/', '/'] <:+: a)
    (ends : ∃ c ∈ b.head?, endsHost c = true) : IsWebAddress (a ++ b) ↔ IsWebAddress a := by
  obtain ⟨c, first, ending⟩ := ends
  obtain ⟨b, rfl⟩ := List.head?_eq_some_iff.1 first
  constructor
  · intro address
    generalize whole : a ++ c :: b = cs at address
    cases address with
    | @intro scheme after web leads =>
      obtain ⟨rest, rfl⟩ := leads.slashes
      obtain ⟨behind, rfl⟩ := prefix_of_slashes slashes web whole
      obtain rfl : behind ++ c :: b = rest := by simpa using whole
      simpa using IsWebAddress.intro web ((leadsToHost_append_iff ending).1 leads)
  · intro address
    cases address with
    | @intro scheme after web leads =>
      obtain ⟨rest, rfl⟩ := leads.slashes
      simpa using IsWebAddress.intro web ((leadsToHost_append_iff ending).2 leads)

theorem colon_mem_map_toLower : ':' ∈ a.map Char.toLower ↔ ':' ∈ a := by
  rw [List.mem_map]
  constructor
  · intro ⟨c, mem, lower⟩
    have other : c.isAlpha = false := by
      rw [← Char.isAlpha_toLower_eq_isAlpha, lower]
      rfl
    have same : c.toLower = c := Char.toLower_eq_of_not_isUpper fun upper => by
      simp [Char.isAlpha, upper] at other
    rwa [← lower, same]
  · intro mem
    exact ⟨':', mem, rfl⟩

/-- How the scheme is spelled does not matter but for its case. -/
theorem isWebAddress_congr (same : a.map Char.toLower = a'.map Char.toLower) (noColon : ':' ∉ a) :
    IsWebAddress (a ++ ':' :: b) ↔ IsWebAddress (a' ++ ':' :: b) := by
  have noColon' : ':' ∉ a' := by rwa [← colon_mem_map_toLower, ← same, colon_mem_map_toLower]
  rw [isWebAddress_colon_iff noColon, isWebAddress_colon_iff noColon', IsWebName, IsWebName, same]

theorem not_isDropped_of_endsHost (ending : endsHost c = true) : isDropped c = false := by
  simp only [endsHost, Bool.or_eq_true, beq_iff_eq] at ending
  obtain (rfl | rfl) | rfl := ending <;> decide

theorem not_mem_clean {d : Char} (notMem : d ∉ a) : d ∉ clean a := by
  intro mem
  exact notMem (List.dropWhile_subset _ (List.mem_of_mem_filter mem))

end PackageRisk.Url
