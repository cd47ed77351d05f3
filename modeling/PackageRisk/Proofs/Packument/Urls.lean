import Mathlib.Data.List.TakeWhile
import Mathlib.Tactic.SplitIfs
import PackageRisk.Packument

/-!
# The URLs of packages

The URL of a package ends in its name with slashes written by their octet; no other character is.
So two names have one URL just when they are the same with each `%2F` read as a slash, and the name
is read back from the path of its URL just when no character in it ends the path and no percent sign
in it starts the spelling of an octet (`packageUrl_identifies`). Both follow from what the spelling
of slashes leaves as it is: what the characters after a percent sign spell, and with it all octets
that a text stands for (`octets_encoded`).
-/

namespace PackageRisk

namespace Url

/-- The octet that the text behind a percent sign spells with two digits in base sixteen. -/
def escape? : List Char → Option UInt8
  | a :: b :: _ => do return (16 * (← Json.hexDigit? a) + (← Json.hexDigit? b)).toUInt8
  | _ => none

/-- The octets that a text stands for: those that it spells behind percent signs, and those that
write its other characters. -/
def octets : List Char → List UInt8
  | [] => []
  | c :: rest =>
    match if c = '%' then escape? rest else none with
    | some b => b :: octets (rest.drop 2)
    | none => String.utf8EncodeChar c ++ octets rest
  termination_by cs => cs.length
  decreasing_by all_goals simp; try omega

/-- The octets that write a text. -/
def written (cs : List Char) : List UInt8 :=
  cs.flatMap String.utf8EncodeChar

/-- The text that the octets write for which a part of a URL stands, if they write one. -/
def decoded? (cs : List Char) : Option String :=
  String.fromUTF8? (octets cs).toByteArray

/-- Characters of a path as it stands in a URL. -/
def staysInPath (c : Char) : Bool :=
  c != '?' && c != '#'

/-- The path of a URL behind its base and a slash. -/
def pathBehind (base url : String) : List Char :=
  (url.toList.drop (base.length + 1)).takeWhile staysInPath

/-- A percent sign and what it spells. -/
def HasEscape (cs : List Char) : Prop :=
  ∃ before rest, cs = before ++ '%' :: rest ∧ (escape? rest).isSome = true

variable {c : Char} {cs rest : List Char} {b : UInt8} {s : String}

theorem octets_cons_of_escape (spelled : escape? rest = some b) :
    octets ('%' :: rest) = b :: octets (rest.drop 2) := by
  rw [octets, if_pos rfl, spelled]

theorem octets_cons (plain : c = '%' → escape? rest = none) :
    octets (c :: rest) = String.utf8EncodeChar c ++ octets rest := by
  rw [octets]
  split_ifs with percent
  · rw [plain percent]
  · rfl

theorem hasEscape_cons_iff :
    HasEscape (c :: rest) ↔ c = '%' ∧ (escape? rest).isSome = true ∨ HasEscape rest := by
  constructor
  · rintro ⟨_ | ⟨first, before⟩, after, split, spelled⟩
    · cases split
      exact .inl ⟨rfl, spelled⟩
    · cases split
      exact .inr ⟨before, after, rfl, spelled⟩
  · rintro (⟨rfl, spelled⟩ | ⟨before, after, rfl, spelled⟩)
    · exact ⟨[], rest, rfl, spelled⟩
    · exact ⟨c :: before, after, rfl, spelled⟩

theorem octets_of_noEscape (noEscape : ¬HasEscape cs) : octets cs = written cs := by
  induction cs with
  | nil => simp [octets, written]
  | cons c rest ih =>
    rw [hasEscape_cons_iff, not_or] at noEscape
    rw [octets_cons fun percent => by simpa [percent] using noEscape.1, ih noEscape.2, written,
      written, List.flatMap_cons]

theorem length_written_cons :
    (written (c :: rest)).length = c.utf8Size + (written rest).length := by
  simp [written]

/-- Fewer octets write the beginning of a text than the text. -/
theorem eq_nil_of_length_written {front back : List Char} (parts : front ++ back = cs)
    (few : (written cs).length ≤ (written front).length) : back = [] := by
  subst parts
  rcases back with _ | ⟨c, back⟩
  · rfl
  · have positive := c.utf8Size_pos
    rw [written, List.flatMap_append, List.length_append, ← written, ← written,
      length_written_cons] at few
    omega

/-- A text stands for no more octets than write it, and for fewer if it spells one. -/
theorem length_octets (cs : List Char) :
    (octets cs).length ≤ (written cs).length ∧
      (HasEscape cs → (octets cs).length < (written cs).length) := by
  fun_induction octets cs with
  | case1 => simp [HasEscape]
  | case2 c rest b spelled ih =>
    split_ifs at spelled with percent
    -- two digits are left out with the sign
    rcases rest with _ | ⟨x, _ | ⟨y, rest⟩⟩
    · cases spelled
    · cases spelled
    · have := x.utf8Size_pos
      have := y.utf8Size_pos
      have := c.utf8Size_pos
      simp only [List.drop_succ_cons, List.drop_zero] at ih
      simp only [length_written_cons, List.length_cons, List.drop_succ_cons, List.drop_zero]
      omega
  | case3 c rest spelled ih =>
    rw [hasEscape_cons_iff, length_written_cons, List.length_append, String.length_utf8EncodeChar]
    refine ⟨by omega, ?_⟩
    rintro (⟨rfl, spells⟩ | later)
    · simp_all
    · have := ih.2 later
      omega

/-- A text stands for the octets that write it just when it spells none. -/
theorem octets_eq_written_iff : octets cs = written cs ↔ ¬HasEscape cs := by
  refine ⟨fun same spells => ?_, octets_of_noEscape⟩
  have shorter := (length_octets cs).2 spells
  rw [same] at shorter
  exact lt_irrefl _ shorter

theorem decoded?_eq_some_iff : decoded? cs = some s ↔ octets cs = written s.toList := by
  have encoded : s.toByteArray = (written s.toList).toByteArray := String.utf8Encode_toList.symm
  have injective {as bs : List UInt8} : as.toByteArray = bs.toByteArray ↔ as = bs := by
    simp
  rw [← injective, ← encoded, decoded?, String.fromUTF8?]
  split_ifs with valid
  · rw [Option.some_inj, ← String.toByteArray_inj]
    rfl
  · refine iff_of_false nofun fun same => valid ?_
    rw [same]
    exact s.isValidUTF8

end Url

namespace RegistryClient

open Url

/-- The characters of a name in a URL. -/
def encoded (cs : List Char) : List Char :=
  cs.flatMap fun c => if c == '/' then ['%', '2', 'F'] else [c]

/-- Characters with each `%2F` read as a slash. -/
def withSlashes : List Char → List Char
  | '%' :: '2' :: 'F' :: rest => '/' :: withSlashes rest
  | c :: rest => c :: withSlashes rest
  | [] => []

variable {r : RegistryClient} {a b : String} {c : Char} {cs rest : List Char}

theorem toList_encodeName : (encodeName a).toList = encoded a.toList := by
  simp [encodeName, encoded]

theorem encoded_slash : encoded ('/' :: rest) = '%' :: '2' :: 'F' :: encoded rest := by
  simp [encoded]

theorem encoded_cons (ne : c ≠ '/') : encoded (c :: rest) = c :: encoded rest := by
  simp [encoded, ne]

/-! ## What a name stands for -/

theorem escape?_encoded (cs : List Char) : escape? (encoded cs) = escape? cs := by
  rcases cs with _ | ⟨x, _ | ⟨y, rest⟩⟩
  · rfl
  · by_cases slash : x = '/'
    · subst slash
      rfl
    · rw [encoded_cons slash]
      rfl
  · by_cases slash : x = '/'
    · subst slash
      rfl
    · rw [encoded_cons slash]
      by_cases slash' : y = '/'
      · subst slash'
        rw [encoded_slash]
        simp [escape?, show Json.hexDigit? '%' = none from rfl,
          show Json.hexDigit? '/' = none from rfl]
      · rw [encoded_cons slash']
        rfl

/-- None of the digits behind a percent sign is a slash. -/
theorem drop_encoded {b : UInt8} (spelled : escape? rest = some b) :
    (encoded rest).drop 2 = encoded (rest.drop 2) := by
  have noDigit : Json.hexDigit? '/' = none := rfl
  rcases rest with _ | ⟨x, _ | ⟨y, rest⟩⟩
  · cases spelled
  · cases spelled
  · have first : x ≠ '/' := by
      rintro rfl
      simp [escape?, noDigit] at spelled
    have second : y ≠ '/' := by
      rintro rfl
      simp [escape?, noDigit] at spelled
    rw [encoded_cons first, encoded_cons second]
    rfl

/-- A name stands for the same octets when its slashes are spelled. -/
theorem octets_encoded (cs : List Char) : octets (encoded cs) = octets cs := by
  fun_induction octets cs with
  | case1 => simp [encoded, octets]
  | case2 c rest b spelled ih =>
    split_ifs at spelled with percent
    subst percent
    rw [encoded_cons (by decide), octets_cons_of_escape (by rwa [escape?_encoded]),
      drop_encoded spelled, ih]
  | case3 c rest plain ih =>
    by_cases slash : c = '/'
    · subst slash
      have spelled : escape? ('2' :: 'F' :: encoded rest) = some 47 := rfl
      have written : String.utf8EncodeChar '/' = [47] := by decide
      rw [encoded_slash, octets_cons_of_escape spelled, written]
      simpa using ih
    · rw [encoded_cons slash, octets_cons, ih]
      intro percent
      rw [escape?_encoded]
      simpa [percent] using plain

theorem takeWhile_encoded (cs : List Char) :
    (encoded cs).takeWhile staysInPath = encoded (cs.takeWhile staysInPath) := by
  induction cs with
  | nil => rfl
  | cons c rest ih =>
    by_cases slash : c = '/'
    · subst slash
      have stays : staysInPath '/' = true := rfl
      rw [encoded_slash, List.takeWhile_cons_of_pos stays, encoded_slash, ← ih]
      rfl
    · rw [encoded_cons slash, List.takeWhile_cons, List.takeWhile_cons]
      split_ifs
      · rw [ih, encoded_cons slash]
      · rfl

theorem pathBehind_packageUrl :
    pathBehind r.url (r.packageUrl a) = encoded (a.toList.takeWhile staysInPath) := by
  have base : (r.url.toList ++ "/".toList).length = r.url.length + 1 := by
    rw [List.length_append, String.length_toList]
    rfl
  rw [pathBehind, packageUrl, String.toList_append, String.toList_append, List.drop_left' base,
    toList_encodeName, takeWhile_encoded]

/-- The octets of a name are those of the path of its URL if all of it is in that path and spells
no octet. -/
theorem octets_pathBehind_iff :
    octets (pathBehind r.url (r.packageUrl a)) = written a.toList ↔
      '?' ∉ a.toList ∧ '#' ∉ a.toList ∧ ¬HasEscape a.toList := by
  have allStay : (∀ c ∈ a.toList, staysInPath c = true) ↔ '?' ∉ a.toList ∧ '#' ∉ a.toList := by
    simp only [staysInPath, Bool.and_eq_true, bne_iff_ne, ne_eq]
    grind
  rw [pathBehind_packageUrl, octets_encoded, ← and_assoc, ← allStay, ← List.takeWhile_eq_self_iff]
  by_cases whole : a.toList.takeWhile staysInPath = a.toList
  · rw [whole, octets_eq_written_iff]
    exact (and_iff_right rfl).symm
  · refine iff_of_false (fun same => ?_) fun both => whole both.1
    -- what is behind the path is missing
    have parts : a.toList.takeWhile staysInPath ++ a.toList.dropWhile staysInPath = a.toList :=
      List.takeWhile_append_dropWhile
    have few := (length_octets (a.toList.takeWhile staysInPath)).1
    rw [same] at few
    rw [eq_nil_of_length_written parts few, List.append_nil] at parts
    exact whole parts

/-! ## Names with one URL -/

theorem starts_of_encoded {tail : List Char} (starts : encoded cs = '2' :: 'F' :: tail) :
    ∃ rest, cs = '2' :: 'F' :: rest := by
  rcases cs with _ | ⟨x, _ | ⟨y, rest⟩⟩ <;> simp [encoded] at starts <;> grind

/-- Slashes are read from a name as from its spelling. -/
theorem withSlashes_encoded (cs : List Char) : withSlashes (encoded cs) = withSlashes cs := by
  fun_induction withSlashes cs with
  | case1 rest ih =>
    rw [encoded_cons (by decide), encoded_cons (by decide), encoded_cons (by decide),
      withSlashes, ih]
  | case2 c rest other ih =>
    by_cases slash : c = '/'
    · subst slash
      rw [encoded_slash, withSlashes, ih]
    · rw [encoded_cons slash, withSlashes, ih]
      intro tail percent starts
      obtain ⟨rest', rfl⟩ := starts_of_encoded starts
      exact other rest' percent rfl
  | case3 => rfl

/-- A slash is spelled as it was if it was. -/
theorem encoded_withSlashes (cs : List Char) : encoded (withSlashes cs) = encoded cs := by
  fun_induction withSlashes cs with
  | case1 rest ih =>
    rw [encoded_slash, ih, encoded_cons (by decide), encoded_cons (by decide),
      encoded_cons (by decide)]
  | case2 c rest _ ih =>
    by_cases slash : c = '/'
    · subst slash
      rw [encoded_slash, encoded_slash, ih]
    · rw [encoded_cons slash, encoded_cons slash, ih]
  | case3 => rfl

theorem packageUrl_eq_iff :
    r.packageUrl a = r.packageUrl b ↔ withSlashes a.toList = withSlashes b.toList := by
  have names : r.packageUrl a = r.packageUrl b ↔ encoded a.toList = encoded b.toList := by
    simp only [packageUrl, ← String.toList_inj, String.toList_append, List.append_right_inj,
      toList_encodeName]
  rw [names]
  constructor
  · intro same
    rw [← withSlashes_encoded, same, withSlashes_encoded]
  · intro same
    rw [← encoded_withSlashes, same, encoded_withSlashes]

theorem withSlashes_of_plain (plain : ¬['%', '2', 'F'] <:+: cs) : withSlashes cs = cs := by
  fun_induction withSlashes cs with
  | case1 rest ih => exact absurd ⟨[], rest, rfl⟩ plain
  | case2 c rest _ ih => rw [ih fun later => plain (List.infix_cons later)]
  | case3 => rfl

/-- Two names have one URL just when they are the same with each `%2F` read as a slash. The path of
a URL behind the URL of the registry, up to a question mark or a number sign, is read back as the
name just when the name has neither of these in it and no percent sign that spells an octet. -/
theorem packageUrl_identifies (r : RegistryClient) (a b : String) :
    (r.packageUrl a = r.packageUrl b ↔ withSlashes a.toList = withSlashes b.toList) ∧
    (¬['%', '2', 'F'] <:+: a.toList → ¬['%', '2', 'F'] <:+: b.toList →
      r.packageUrl a = r.packageUrl b → a = b) ∧
    (decoded? (pathBehind r.url (r.packageUrl a)) = some a ↔
      '?' ∉ a.toList ∧ '#' ∉ a.toList ∧ ¬HasEscape a.toList) :=
  ⟨packageUrl_eq_iff, fun plain plain' same => by
    have same := packageUrl_eq_iff.1 same
    rwa [withSlashes_of_plain plain, withSlashes_of_plain plain', String.toList_inj] at same,
    decoded?_eq_some_iff.trans octets_pathBehind_iff⟩

/-- A scoped name and the name that spells its slash are two names with one URL, and only the first
one is read back from it. -/
theorem scopedName_shares_url :
    "@a/b" ≠ "@a%2Fb" ∧
      (ofUrl RegistrySettings.standard.url true).packageUrl "@a/b" =
        (ofUrl RegistrySettings.standard.url true).packageUrl "@a%2Fb" ∧
      decoded? (pathBehind (ofUrl RegistrySettings.standard.url true).url
        ((ofUrl RegistrySettings.standard.url true).packageUrl "@a%2Fb")) ≠ some "@a%2Fb" := by
  have noEscape : ¬HasEscape "@a/b".toList := by
    rintro ⟨before, rest, split, -⟩
    have percent : '%' ∈ "@a/b".toList := by simp [split]
    exact absurd percent (by decide)
  have shared : (ofUrl RegistrySettings.standard.url true).packageUrl "@a/b" =
      (ofUrl RegistrySettings.standard.url true).packageUrl "@a%2Fb" :=
    packageUrl_eq_iff.2 (by decide)
  refine ⟨by decide, shared, ?_⟩
  rw [← shared, decoded?_eq_some_iff.2 (octets_pathBehind_iff.2 ⟨by decide, by decide, noEscape⟩)]
  decide

end RegistryClient

end PackageRisk
