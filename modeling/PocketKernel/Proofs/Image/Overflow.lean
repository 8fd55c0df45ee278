import Mathlib
import PocketKernel.Proofs.Image.Layout

/-!
# Sums that are too large

The numbers of a header come from the file, and two sums of them are made before anything bounds
them: the end of the bytes in the file, which is added up to be compared with the length of the
file, and the end of the address range. A 64-bit file can make either sum too large, and then the
tool stops instead of refusing the file. A 32-bit file cannot, and no other step of the tool fails.
Main statement: `overflows_iff`.
-/
namespace PocketKernel
variable {read : ProgramReader} {file : Bytes}

namespace Segment

/-- The header is taken: its bytes are in the file, at an end that is a 64-bit word. -/
structure Taken (file : Bytes) (h : ProgramHeader) : Prop extends Fits file h where
  small : h.fileOffset + h.fileSize < UInt64.size

theorem ofHeader_eq_sumOverflow {h : ProgramHeader} :
    ofHeader file h = .error .sumOverflow ↔
      h.fileSize ≤ h.memSize ∧ UInt64.size ≤ h.fileOffset + h.fileSize := by
  unfold ofHeader
  split
  next larger => simp [Nat.not_le.2 larger]
  next inMemory =>
  rw [Except.bind_eq_error, addWords_eq_error]
  constructor
  · rintro (⟨-, large⟩ | ⟨sum, -, failed⟩)
    · exact ⟨Nat.le_of_not_lt inMemory, large⟩
    · split at failed <;> cases failed
  · exact fun h => .inl ⟨rfl, h.2⟩

theorem isFault_of_ofHeader {h : ProgramHeader} {e : ElfError}
    (failed : ofHeader file h = .error e) (other : e ≠ .sumOverflow) : e.isFault = false := by
  unfold ofHeader at failed
  split at failed
  · cases failed
    rfl
  rcases Except.bind_eq_error.1 failed with sum | ⟨-, -, failed⟩
  · exact absurd (addWords_eq_error.1 sum).1 other
  · split at failed <;> cases failed
    rfl

theorem exists_ofHeader_iff {h : ProgramHeader} :
    (∃ s, ofHeader file h = .ok s) ↔ Taken file h := by
  constructor
  · rintro ⟨s, done⟩
    refine ⟨(ofHeader_eq_ok done).2, Nat.lt_of_not_le fun large => ?_⟩
    rw [ofHeader_eq_sumOverflow.2 ⟨(ofHeader_eq_ok done).2.inMemory, large⟩] at done
    cases done
  · intro taken
    have sum : addWords h.fileOffset h.fileSize = .ok (h.fileOffset + h.fileSize) :=
      addWords_eq_ok.2 ⟨rfl, taken.small⟩
    have found : file.slice? h.fileOffset h.fileSize = some (stored file h).data :=
      if_pos taken.inFile
    refine ⟨stored file h, ?_⟩
    rw [ofHeader, if_neg (Nat.not_lt.2 taken.inMemory), Except.bind_eq_ok]
    refine ⟨_, sum, ?_⟩
    rw [found]
    rfl

end Segment

namespace LoadPlan

theorem ofFile_eq_error {e : ElfError} : ofFile read file = .error e ↔
    (∃ cause, read file = .error cause ∧ .unread cause = e) ∨
      ∃ p, read file = .ok p ∧ Segment.ofFile file p.headers = .error e := by
  simp only [ofFile, Except.bind_eq_error, Except.mapError_eq_error, Except.mapError_eq_ok, pure,
    Except.pure, reduceCtorEq, and_false, exists_false, or_false]

def imageOf (read : ProgramReader) (file : Bytes) : Except ElfError (Option (Bytes × Nat)) :=
  ofFile read file >>= layOut

/-- A sum of header fields comes out as no 64-bit word. -/
def Overflows (read : ProgramReader) (file : Bytes) : Prop :=
  imageOf read file = .error .sumOverflow

instance : Decidable (Overflows read file) :=
  inferInstanceAs (Decidable (imageOf read file = .error .sumOverflow))

inductive LargeSum (file : Bytes) (headers : List ProgramHeader) : Prop where
  /-- Where the bytes of a header end in the file; all headers before it are taken. -/
  | inFile (earlier later : List ProgramHeader) (h : ProgramHeader)
      (split : headers = earlier ++ h :: later)
      (taken : ∀ g ∈ earlier, Segment.Taken file g)
      (inMemory : h.fileSize ≤ h.memSize)
      (large : UInt64.size ≤ h.fileOffset + h.fileSize)
  /-- Where the addresses of a header end; all headers are taken. -/
  | inMemory (h : ProgramHeader) (member : h ∈ headers)
      (taken : ∀ g ∈ headers, Segment.Taken file g)
      (large : UInt64.size ≤ h.vaddr + h.memSize)

theorem largeSum_iff {p : ProgramFile} (found : read file = .ok p) :
    LargeSum file (p.headers.filter Segment.isLoaded) ↔ Overflows read file := by
  constructor
  · rintro (⟨earlier, later, h, split, taken, inMemory, large⟩ | ⟨h, member, taken, large⟩)
    · have failed : Segment.ofFile file p.headers = .error .sumOverflow :=
        Except.mapM_eq_error.2 ⟨earlier, h, later, split,
          fun g hg => Segment.exists_ofHeader_iff.2 (taken g hg),
          Segment.ofHeader_eq_sumOverflow.2 ⟨inMemory, large⟩⟩
      exact Except.bind_eq_error.2 (.inl (ofFile_eq_error.2 (.inr ⟨p, found, failed⟩)))
    · obtain ⟨segments, loaded⟩ : ∃ segments, Segment.ofFile file p.headers = .ok segments :=
        Except.exists_mapM_eq_ok.2 fun g hg => Segment.exists_ofHeader_iff.2 (taken g hg)
      have accepted : ofFile read file = .ok ⟨p.entry, segments⟩ :=
        ofFile_eq_ok.2 ⟨p, found, rfl, loaded⟩
      have stored : Segment.stored file h ∈ segments :=
        (Segment.ofFile_eq_ok loaded).1 ▸ List.mem_map_of_mem member
      have failed : layOut ⟨p.entry, segments⟩ = .error .sumOverflow :=
        (layOut_eq_error (data_le_of_ofFile loaded)).2 ⟨rfl, _, stored, large⟩
      exact Except.bind_eq_error.2 (.inr ⟨_, accepted, failed⟩)
  · intro overflows
    rcases Except.bind_eq_error.1 overflows with failed | ⟨plan, accepted, failed⟩
    · rcases ofFile_eq_error.1 failed with ⟨_, -, unread⟩ | ⟨q, same, failed⟩
      · cases unread
      · cases found.symm.trans same
        obtain ⟨earlier, h, later, split, taken, failed⟩ := Except.mapM_eq_error.1 failed
        obtain ⟨inMemory, large⟩ := Segment.ofHeader_eq_sumOverflow.1 failed
        exact .inFile earlier later h split
          (fun g hg => Segment.exists_ofHeader_iff.1 (taken g hg)) inMemory large
    · obtain ⟨q, same, -, loaded⟩ := ofFile_eq_ok.1 accepted
      cases found.symm.trans same
      obtain ⟨-, s, hs, large⟩ := (layOut_eq_error (data_le_of_ofFile loaded)).1 failed
      rw [(Segment.ofFile_eq_ok loaded).1] at hs
      obtain ⟨h, member, rfl⟩ := List.mem_map.1 hs
      exact .inMemory h member (fun g hg => Segment.exists_ofHeader_iff.1
        (Except.exists_mapM_eq_ok.1 ⟨_, loaded⟩ g hg)) large

theorem isFault_of_imageOf {e : ElfError} (failed : imageOf read file = .error e)
    (other : e ≠ .sumOverflow) : e.isFault = false := by
  rcases Except.bind_eq_error.1 failed with failed | ⟨plan, accepted, failed⟩
  · rcases ofFile_eq_error.1 failed with ⟨_, -, rfl⟩ | ⟨p, -, failed⟩
    · rfl
    · obtain ⟨_, h, _, -, -, failed⟩ := Except.mapM_eq_error.1 failed
      exact Segment.isFault_of_ofHeader failed other
  · obtain ⟨p, -, -, loaded⟩ := ofFile_eq_ok.1 accepted
    exact absurd ((layOut_eq_error (data_le_of_ofFile loaded)).1 failed).1 other

theorem exists_of_overflows (overflows : Overflows read file) : ∃ p, read file = .ok p := by
  cases found : read file with
  | error cause =>
    have failed : imageOf read file = .error (.unread cause) :=
      Except.bind_eq_error.2 (.inl (ofFile_eq_error.2 (.inl ⟨cause, found, rfl⟩)))
    cases failed.symm.trans overflows
  | ok p => exact ⟨p, rfl⟩

theorem overflows_iff_largeSum (faithful : ReportsStored read) : Overflows read file ↔
    (∃ p, read file = .ok p) ∧ LargeSum file ((storedHeaders file).filter Segment.isLoaded) := by
  constructor
  · intro overflows
    obtain ⟨p, found⟩ := exists_of_overflows overflows
    exact ⟨⟨p, found⟩, faithful file p found ▸ (largeSum_iff found).2 overflows⟩
  · rintro ⟨⟨p, found⟩, large⟩
    exact (largeSum_iff found).1 (faithful file p found ▸ large)

theorem not_largeSum_of_bits32 (width : file.getD 4 0 = 1) :
    ¬ LargeSum file ((storedHeaders file).filter Segment.isLoaded) := by
  have small := sums_lt_of_bits32 width
  intro large
  cases large with
  | inFile earlier later h split _ _ large =>
    have member : h ∈ (storedHeaders file).filter Segment.isLoaded :=
      split ▸ List.mem_append_right _ List.mem_cons_self
    exact absurd (small h (List.mem_filter.1 member).1).1 (Nat.not_lt.2 large)
  | inMemory h member _ large =>
    exact absurd (small h (List.mem_filter.1 member).1).2 (Nat.not_lt.2 large)

/-- Whatever reads the headers and reports them as they are stored, the tool stops at a file exactly
when the reader accepts it and its headers make a sum too large: never at a 32-bit file, and for no
other reason. -/
theorem overflows_iff (faithful : ReportsStored read) (file : Bytes) :
    (Overflows read file ↔ (∃ p, read file = .ok p) ∧
      LargeSum file ((storedHeaders file).filter Segment.isLoaded)) ∧
    (file.getD 4 0 = 1 → ¬ Overflows read file) ∧
    (¬ Overflows read file → ∀ e, imageOf read file = .error e → e.isFault = false) := by
  refine ⟨overflows_iff_largeSum faithful, fun width overflows => ?_, fun fine e failed => ?_⟩
  · exact not_largeSum_of_bits32 width ((overflows_iff_largeSum faithful).1 overflows).2
  · refine isFault_of_imageOf failed ?_
    rintro rfl
    exact fine failed

def oneHeader (fileOffset vaddr fileSize memSize : Nat) : Bytes :=
  ProgramFile.magic ++ [2, 1, 1] ++ Bytes.zeros 9 ++ [2, 0, 243, 0, 1, 0, 0, 0] ++
    [0x01000000, 64, 0].flatMap (Bytes.ofLE 8) ++
    [0, 0, 0, 0, 64, 0, 56, 0, 1, 0, 64, 0, 0, 0, 0, 0] ++ [1, 0, 0, 0, 7, 0, 0, 0] ++
    [fileOffset, vaddr, vaddr, fileSize, memSize, 4096].flatMap (Bytes.ofLE 8)

/-- One byte at the last offset of the file: the end is 2⁶⁴. One byte of memory at the last
address, too. -/
theorem overflows_oneHeader :
    parse (oneHeader (2 ^ 64 - 1) 0x01000000 1 1) = .error .sumOverflow ∧
      Overflows ProgramFile.reader (oneHeader (2 ^ 64 - 1) 0x01000000 1 1) ∧
      Overflows ProgramFile.reader (oneHeader 0 (2 ^ 64 - 1) 0 1) := by
  decide +kernel

/-- The byte of memory at the last address is found among the stored headers; one address below it
nothing overflows. -/
theorem overflows_iff_lastAddress :
    LargeSum (oneHeader 0 (2 ^ 64 - 1) 0 1)
        ((storedHeaders (oneHeader 0 (2 ^ 64 - 1) 0 1)).filter Segment.isLoaded) ∧
      ¬ LargeSum (oneHeader 0 (2 ^ 64 - 2) 0 1)
        ((storedHeaders (oneHeader 0 (2 ^ 64 - 2) 0 1)).filter Segment.isLoaded) := by
  have faithful := ProgramFile.reportsStored_reader
  have fine : ¬ Overflows ProgramFile.reader (oneHeader 0 (2 ^ 64 - 2) 0 1) := by decide +kernel
  obtain ⟨p, found⟩ : ∃ p, ProgramFile.reader (oneHeader 0 (2 ^ 64 - 2) 0 1) = .ok p :=
    ⟨⟨0x01000000, [⟨1, 0, 2 ^ 64 - 2, 0, 1⟩]⟩, by decide +kernel⟩
  exact ⟨((overflows_iff faithful _).1.1 (by decide +kernel)).2,
    fun large => fine ((overflows_iff faithful _).1.2 ⟨⟨p, found⟩, large⟩)⟩

end LoadPlan

end PocketKernel
