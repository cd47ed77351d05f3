import Mathlib.Tactic.Linarith
import Mathlib.Tactic.Ring
import PackageRisk.Archive.Extract
import PackageRisk.Proofs.Results

/-!
# How much an archive can hold

A symbol of compressed data stands for no more octets than the longest repetition has, and no
more symbols and blocks are read than there are bits. So what is read of an archive is bounded
by its size, whatever it says about itself: `members_content_size_le`.
-/

namespace PackageRisk

namespace Inflate

variable {data out : ByteArray} {n pos start : Nat} {p : Progress}

/-- The number of octets of the longest repetition. -/
def longestRepetition : Nat := 258

/-- What was read in all, however reading ended. -/
def Ending.read : Ending → ByteArray
  | .finished p => p.out
  | .stopped _ out => out

theorem bit_lt {b : Nat} (read : bit data pos = .ok b) : b < 2 := by
  unfold bit at read
  split at read
  · cases read
    omega
  · cases read

theorem bits_lt {v : Nat} (read : bits data n pos = .ok v) : v < 2 ^ n := by
  induction n generalizing pos v with
  | zero =>
    cases read
    simp
  | succ n ih =>
    obtain ⟨low, first, rest⟩ := bind_eq_ok.1 read
    obtain ⟨high, others, ⟨⟩⟩ := bind_eq_ok.1 rest
    have := bit_lt first
    have := ih others
    rw [pow_succ]
    omega

/-- Each row of the table leaves room for the bits that follow its symbol. -/
theorem lengthTable_le : ∀ row ∈ lengthTable.toList, row.1 + 2 ^ row.2 ≤ longestRepetition + 1 := by
  decide

theorem tableValue_le {symbol length pos' : Nat}
    (read : tableValue lengthTable data symbol pos = .ok (length, pos')) :
    length ≤ longestRepetition := by
  unfold tableValue at read
  split at read
  · next least width row =>
    obtain ⟨more, spelled, ⟨⟩⟩ := bind_eq_ok.1 read
    have room : least + 2 ^ width ≤ longestRepetition + 1 :=
      lengthTable_le (least, width) (Array.mem_toList_iff.2 (Array.mem_of_getElem? row))
    have := bits_lt spelled
    omega
  · cases read

theorem repetition_le {distances : Code} {symbol length distance pos' : Nat}
    (read : repetition data distances symbol pos = .ok (length, distance, pos')) :
    length ≤ longestRepetition := by
  obtain ⟨⟨length, after⟩, spelled, rest⟩ := bind_eq_ok.1 read
  obtain ⟨_, -, rest⟩ := bind_eq_ok.1 rest
  obtain ⟨_, -, ⟨⟩⟩ := bind_eq_ok.1 rest
  exact tableValue_le spelled

@[simp]
theorem size_repeated (distance n : Nat) (out : ByteArray) :
    (repeated distance n out).size = out.size + n := by
  induction n generalizing out with
  | zero => rfl
  | succ n ih =>
    rw [repeated, ih, ByteArray.size_push]
    omega

/-- One symbol adds no more than the longest repetition has. -/
theorem symbolStep_size_le {literals distances : Code} {q : Progress}
    (read : symbolStep data literals distances start p = .ok q) :
    q.out.size ≤ p.out.size + longestRepetition := by
  unfold symbolStep at read
  split at read
  · cases read
  split_ifs at read
  · cases read
    simp only [ByteArray.size_push, longestRepetition]
    omega
  split at read
  · cases read
  · next length distance pos repeats =>
    split_ifs at read
    cases read
    have := repetition_le repeats
    simp only [size_repeated]
    omega

theorem read_of_symbolStep {literals distances : Code} {ending : Ending}
    (read : symbolStep data literals distances start p = .error ending) :
    ending.read = p.out := by
  unfold symbolStep at read
  split at read
  · cases read
    rfl
  split_ifs at read
  · cases read
    rfl
  split at read
  · cases read
    rfl
  · split_ifs at read
    cases read
    rfl

theorem symbolsFrom_size_le (data : ByteArray) (literals distances : Code) (start n : Nat)
    (p : Progress) :
    (symbolsFrom data literals distances start n p).read.size ≤
      p.out.size + longestRepetition * n := by
  induction n generalizing p with
  | zero => exact Nat.le_add_right _ _
  | succ n ih =>
    have more : longestRepetition * (n + 1) = longestRepetition * n + longestRepetition :=
      Nat.mul_succ _ _
    unfold symbolsFrom
    split
    · next q read =>
      have := symbolStep_size_le read
      have := ih q
      omega
    · next ending read =>
      rw [read_of_symbolStep read]
      exact Nat.le_add_right _ _

theorem storedBlock_size_le (data : ByteArray) (p : Progress) :
    (storedBlock data p).read.size ≤ p.out.size + data.size := by
  unfold storedBlock
  dsimp only
  split
  · split_ifs
    · exact Nat.le_add_right _ _
    all_goals
      simp only [Ending.read, ByteArray.size_append, ByteArray.size_extract]
      omega
  · exact Nat.le_add_right _ _

theorem block_size_le (data : ByteArray) (start n kind : Nat) (p : Progress) :
    (block data start n kind p).read.size ≤
      p.out.size + (longestRepetition * n + data.size) := by
  unfold block
  split
  · exact (storedBlock_size_le data p).trans (by omega)
  · split
    · exact (symbolsFrom_size_le data _ _ start n p).trans (by omega)
    · exact Nat.le_add_right _ _
  · split
    · exact (symbolsFrom_size_le data _ _ start n _).trans (by simp only; omega)
    · exact Nat.le_add_right _ _
  · exact Nat.le_add_right _ _

/-- The most octets that one block adds. -/
def blockLimit (size : Nat) : Nat := longestRepetition * (8 * size) + size

theorem blocksFrom_size_le (data : ByteArray) (start n : Nat) (p : Progress) :
    (blocksFrom data start n p).read.size ≤ p.out.size + n * blockLimit data.size := by
  induction n generalizing p with
  | zero => exact Nat.le_add_right _ _
  | succ n ih =>
    have more : (n + 1) * blockLimit data.size = n * blockLimit data.size + blockLimit data.size :=
      Nat.succ_mul _ _
    unfold blocksFrom
    split
    · next last kind _ _ =>
      have first : (block data start (8 * data.size) kind ⟨p.pos + 3, p.out⟩).read.size ≤
          p.out.size + blockLimit data.size :=
        block_size_le data start (8 * data.size) kind ⟨p.pos + 3, p.out⟩
      split
      · next q read =>
        rw [read] at first
        simp only [Ending.read] at first
        split_ifs
        · simp only [Ending.read]
          omega
        · have := ih q
          omega
      · omega
    · exact Nat.le_add_right _ _

/-- The most octets that compressed data of a size add. -/
def inflateLimit (size : Nat) : Nat := 8 * size * blockLimit size

theorem inflate_size_le (data : ByteArray) (offset : Nat) (out : ByteArray) :
    (inflate data offset out).read.size ≤ out.size + inflateLimit data.size :=
  blocksFrom_size_le data out.size (8 * data.size) ⟨8 * offset, out⟩

end Inflate

namespace Gzip

open Inflate

theorem membersFrom_size_le (data : ByteArray) (n pos : Nat) (out : ByteArray) :
    (membersFrom data n pos out).bytes.size ≤ out.size + n * inflateLimit data.size := by
  induction n generalizing pos out with
  | zero => exact Nat.le_add_right _ _
  | succ n ih =>
    have more : (n + 1) * inflateLimit data.size =
        n * inflateLimit data.size + inflateLimit data.size := Nat.succ_mul _ _
    unfold membersFrom
    split_ifs
    · exact Nat.le_add_right _ _
    · exact Nat.le_add_right _ _
    · split
      · exact Nat.le_add_right _ _
      · next body _ =>
        have first := inflate_size_le data body out
        split
        · next read ended =>
          rw [ended, Ending.read] at first
          dsimp only
          omega
        · next read ended =>
          rw [ended, Ending.read] at first
          simp only [ByteArray.size_extract]
          omega
        · next p ended =>
          rw [ended, Ending.read] at first
          dsimp only
          split_ifs
          · refine (ih _ p.out).trans ?_
            omega
          · dsimp only
            omega

end Gzip

namespace Tar

theorem memberOf_size_le (bytes : ByteArray) (h : Header) (amended : Amendment)
    (common : Option String) (start : Nat) :
    (memberOf bytes h amended common start).1.content.size ≤ bytes.size := by
  unfold memberOf
  dsimp only
  split
  · simp only [ByteArray.size_extract]
    omega
  · exact Nat.zero_le _

/-- A member holds no more octets than the archive. -/
theorem membersFrom_size_le {bytes : ByteArray} {sound : Bool} {n pos : Nat} {amended : Amendment}
    {common : Option String} {ms : List Member}
    (read : membersFrom bytes sound n pos amended common = .ok ms) :
    ∀ m ∈ ms, m.content.size ≤ bytes.size := by
  induction n generalizing pos amended common ms with
  | zero =>
    cases read
    exact List.forall_mem_nil _
  | succ n ih =>
    unfold membersFrom at read
    split at read
    · cases read
    split at read
    · -- Without a header there are no further members.
      repeat' split at read
      all_goals cases read
      all_goals exact List.forall_mem_nil _
    · next h _ =>
      dsimp only at read
      split at read
      · exact ih read
      split at read
      · exact ih read
      split at read
      · split at read
        · cases read
        · split at read <;> exact ih read
      · revert read
        rcases others : membersFrom bytes sound n (memberOf bytes h amended common
          (pos + blockSize)).2 .none common with e | rest
        · rintro ⟨⟩
        · rintro ⟨⟩
          rw [List.forall_mem_cons]
          exact ⟨memberOf_size_le _ _ _ _ _, ih others⟩

end Tar

namespace Archive

/-- The most octets that a member of an archive of a size has. -/
def memberLimit (size : Nat) : Nat := (size + 1) * Inflate.inflateLimit size + size

/-- What an archive holds is bounded by its size. -/
theorem members_content_size_le {content : ByteArray} {ms : List Tar.Member}
    (read : members content = .ok ms) : ∀ m ∈ ms, m.content.size ≤ memberLimit content.size := by
  intro m mem
  unfold memberLimit
  unfold members at read
  split at read
  · next expanded expands =>
    have inner : m.content.size ≤ expanded.bytes.size := Tar.membersFrom_size_le read m mem
    unfold Gzip.expand? at expands
    split_ifs at expands
    cases expands
    have outer := Gzip.membersFrom_size_le content (content.size + 1) 0 ByteArray.empty
    rw [ByteArray.size_empty] at outer
    omega
  · have inner : m.content.size ≤ content.size := Tar.membersFrom_size_le read m mem
    omega

end Archive

end PackageRisk
