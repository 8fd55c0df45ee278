import Mathlib
import PocketKernel.Proofs.Archive.Format

/-!
# The size that a header declares

A size field has room for twelve octal digits, and the reader counts in 32 bits, so that a field can
declare more than the reader sees. Here the field is read as a number without bounds. Main
statement: a header is taken at its word exactly if it declares no more than 32 bits can count, or
if what is left of the size in 32 bits runs past the image as well (`goesBySize_iff`).
-/
namespace PocketKernel

namespace Octal

/-- The number that a field denotes: octal digits behind spaces, up to the first other byte. -/
def number (field : Bytes) : Nat :=
  let digits := (field.dropWhile (· == 32)).takeWhile isDigit
  Nat.ofDigits 8 (digits.reverse.map fun b => b.toNat - 48)

/-- A reader of digits loses what does not fit in 32 bits. -/
theorem toNat_value {digits : Bytes} (h : ∀ b ∈ digits, isDigit b = true) :
    (value digits).toNat =
      Nat.ofDigits 8 (digits.reverse.map fun b => b.toNat - 48) % UInt32.size := by
  induction digits using List.reverseRecOn with
  | nil => rfl
  | append_singleton xs b ih =>
    simp only [List.mem_append, List.mem_singleton] at h
    have before := ih fun b hb => h b (.inl hb)
    have low : 48 ≤ b.toNat := by
      have digit := h b (.inr rfl)
      simp only [isDigit, Bool.and_eq_true, decide_eq_true_eq, UInt8.le_iff_toNat_le] at digit
      exact digit.1
    have digit : (b.toUInt32 - 48).toNat = b.toNat - 48 :=
      UInt32.toNat_sub_of_le _ _ (UInt32.le_iff_toNat_le.2 (by simpa using low))
    have append : (xs ++ [b]).reverse.map (fun b => b.toNat - 48) =
        (b.toNat - 48) :: xs.reverse.map fun b => b.toNat - 48 := by simp
    rw [value_append, append, Nat.ofDigits_cons, UInt32.toNat_add, UInt32.toNat_mul, before, digit]
    simp only [UInt32.size, UInt32.reduceToNat]
    omega

theorem toNat_parse (field : Bytes) : (parse field).toNat = number field % UInt32.size :=
  toNat_value fun _ => List.mem_takeWhile_imp

end Octal

namespace Archive
variable {image header : Bytes} {offset : Nat}

def declaredSize (header : Bytes) : Nat := Octal.number ((header.drop 124).take 12)

structure HeaderAt (image : Bytes) (offset : Nat) (header : Bytes) : Prop where
  found : image.slice? offset headerSize = some header
  live : header.headD 0 ≠ 0
  marked : (header.drop 257).take 5 = magic
  summed : Octal.parse ((header.drop 148).take 8) = checksum header

theorem HeaderAt.unique {other : Bytes} (h : HeaderAt image offset header)
    (h' : HeaderAt image offset other) : other = header :=
  Option.some.inj (h'.found.symm.trans h.found)

/-- Behind a header the reader takes as many bytes as 32 bits tell of, if the image has them. -/
theorem HeaderAt.readEntry_eq (h : HeaderAt image offset header) :
    readEntry image offset =
      (image.slice? (offset + headerSize) (declaredSize header % UInt32.size)).elim
        (.error (.truncated offset)) fun data =>
          .ok (some (⟨(header.take nameField).takeWhile (· != 0), data⟩,
            offset + entryLength (declaredSize header % UInt32.size))) := by
  have live : (header.headD 0 == 0) = false := by simpa using h.live
  have size : (Octal.parse ((header.drop 124).take 12)).toNat =
      declaredSize header % UInt32.size := Octal.toNat_parse _
  unfold readEntry
  simp only [h.found, live, h.marked, h.summed, size, bne_self_eq_false, Bool.false_eq_true,
    if_false]
  cases image.slice? (offset + headerSize) (declaredSize header % UInt32.size) <;> rfl

theorem HeaderAt.readEntry_of_past (h : HeaderAt image offset header)
    (past : image.length < offset + headerSize + declaredSize header % UInt32.size) :
    readEntry image offset = .error (.truncated offset) := by
  have short : image.slice? (offset + headerSize) (declaredSize header % UInt32.size) = none :=
    if_neg (by omega)
  rw [h.readEntry_eq, short, Option.elim]

theorem HeaderAt.readEntry_of_inside (h : HeaderAt image offset header)
    (inside : offset + headerSize + declaredSize header % UInt32.size ≤ image.length) :
    ∃ e next, readEntry image offset = .ok (some (e, next)) := by
  have whole : image.slice? (offset + headerSize) (declaredSize header % UInt32.size) =
    some ((image.drop (offset + headerSize)).take (declaredSize header % UInt32.size)) :=
    if_pos inside
  rw [h.readEntry_eq, whole, Option.elim]
  exact ⟨_, _, rfl⟩

/-- An entry has a header, and 32 bits of the size that it declares. -/
theorem headerAt_of_readEntry {e : Entry} {next : Nat}
    (h : readEntry image offset = .ok (some (e, next))) :
    ∃ header, HeaderAt image offset header ∧
      e.data.length = declaredSize header % UInt32.size := by
  obtain ⟨header, found, live, marked, summed, data, -⟩ := readEntry_eq_some h
  refine ⟨header, ⟨found, live, marked, summed⟩, ?_⟩
  rw [Bytes.length_of_slice? data]
  exact Octal.toNat_parse _

/-- A reader at the offset takes a header at its word. -/
structure GoesBySize (image : Bytes) (offset : Nat) : Prop where
  /-- An entry has as many bytes as its header declares. -/
  size : ∀ e next, readEntry image offset = .ok (some (e, next)) →
    ∃ header, HeaderAt image offset header ∧ e.data.length = declaredSize header
  /-- An entry whose declared size runs past the image is refused. -/
  refused : ∀ header, HeaderAt image offset header →
    image.length < offset + headerSize + declaredSize header →
      readEntry image offset = .error (.truncated offset)

/-- A header is taken at its word if and only if it declares a size of 32 bits, or one that runs
past the image even when it is cut to 32 bits. -/
theorem goesBySize_iff (image : Bytes) (offset : Nat) :
    GoesBySize image offset ↔ ∀ header, HeaderAt image offset header →
      declaredSize header < UInt32.size ∨
        image.length < offset + headerSize + declaredSize header % UInt32.size := by
  constructor
  · intro goes header h
    by_contra! misread
    obtain ⟨large, inside⟩ := misread
    obtain ⟨e, next, read⟩ := h.readEntry_of_inside inside
    obtain ⟨other, h', size⟩ := goes.size e next read
    obtain ⟨last, h'', cut⟩ := headerAt_of_readEntry read
    rw [h.unique h'] at size
    rw [h.unique h''] at cut
    have small : declaredSize header % UInt32.size < UInt32.size := Nat.mod_lt _ (by decide)
    omega
  · intro fits
    refine ⟨fun e next read => ?_, fun header h past => h.readEntry_of_past ?_⟩
    · obtain ⟨header, h, cut⟩ := headerAt_of_readEntry read
      refine ⟨header, h, ?_⟩
      rcases fits header h with small | past
      · rwa [Nat.mod_eq_of_lt small] at cut
      · rw [h.readEntry_of_past past] at read
        cases read
    · rcases fits header h with small | past'
      · rwa [Nat.mod_eq_of_lt small]
      · exact past'

/-- A header that declares 8 ^ 11 + 1 bytes, and one byte behind it. -/
def oversized : Bytes :=
  let filled := (plainHeader [0x61] 0).splice 124 (Bytes.ofAscii "100000000001")
  filled.splice 148 (Octal.field 7 (checksum filled).toNat ++ [32]) ++ [7]

/-- The header is accepted, with the one byte. -/
theorem readEntry_oversized :
    (∃ header, HeaderAt oversized 0 header ∧ declaredSize header = 8589934593) ∧
      oversized.length = 513 ∧ readEntry oversized 0 = .ok (some (⟨[0x61], [7]⟩, 1024)) ∧
      ¬ GoesBySize oversized 0 := by
  have h : HeaderAt oversized 0 (oversized.take headerSize) := by
    constructor <;> decide +kernel
  have size : declaredSize (oversized.take headerSize) = 8589934593 := by decide +kernel
  have read : readEntry oversized 0 = .ok (some (⟨[0x61], [7]⟩, 1024)) := by decide +kernel
  refine ⟨⟨_, h, size⟩, by decide +kernel, read, fun goes => ?_⟩
  obtain ⟨header, h', declared⟩ := goes.size _ _ read
  rw [h.unique h', size] at declared
  cases declared

end Archive

end PocketKernel
