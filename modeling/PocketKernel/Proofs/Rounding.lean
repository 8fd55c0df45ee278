import Mathlib
import PocketKernel.Files.Store

/-!
# Rounding up, and the room for files

Clearing the low bits of a sum rounds up to a power of two as long as the sum fits in 64 bits.
Entries of an archive are rounded up to whole blocks, and the part of a disk that holds the file
table has room for as many of them as the table has. Main statement: `rounding_exact`.
-/
namespace PocketKernel

/-- The least multiple of a positive number that is not below `n`. -/
theorem isLeast_mul_ceilDiv {a : Nat} (pos : 0 < a) (n : Nat) :
    IsLeast {m | a ∣ m ∧ n ≤ m} (a * (n ⌈/⌉ a)) := by
  refine ⟨⟨Nat.dvd_mul_right _ _, le_smul_ceilDiv pos⟩, ?_⟩
  rintro m ⟨⟨c, rfl⟩, le⟩
  exact Nat.mul_le_mul_left a ((ceilDiv_le_iff_le_smul pos).2 le)

/-- For a power of two the mask formula is a rounded quotient. -/
theorem alignUp_two_pow {value k : Nat} (fits : value + (2 ^ k - 1) < UInt64.size) :
    alignUp value (2 ^ k) = 2 ^ k * (value ⌈/⌉ 2 ^ k) := by
  have pos : 0 < 2 ^ k := Nat.two_pow_pos k
  have small : k ≤ 64 := by
    have : 2 ^ k ≤ UInt64.size := by omega
    exact (Nat.pow_le_pow_iff_right (by decide)).1 this
  have shifts := alignUp_one_shiftLeft value k small (by simpa [Nat.shiftLeft_eq] using fits)
  rw [Nat.shiftLeft_eq, Nat.shiftLeft_eq, Nat.shiftRight_eq_div_pow, Nat.one_mul] at shifts
  rw [shifts, Nat.ceilDiv_eq_add_pred_div, Nat.mul_comm, Nat.add_sub_assoc pos]

theorem isLeast_alignUp {value align : Nat} (power : align.isPowerOfTwo)
    (fits : value + align - 1 < UInt64.size) :
    IsLeast {m | align ∣ m ∧ value ≤ m} (alignUp value align) := by
  obtain ⟨k, rfl⟩ := power
  have pos : 0 < 2 ^ k := Nat.two_pow_pos k
  rw [alignUp_two_pow (by rwa [← Nat.add_sub_assoc pos])]
  exact isLeast_mul_ceilDiv pos value

/-- On words of 64 bits: nothing is carried out of the sum, and the mask is the complement. -/
theorem toNat_and_not {value align : UInt64} (pos : 1 ≤ align.toNat)
    (fits : value.toNat + align.toNat - 1 < UInt64.size) :
    ((value + (align - 1)) &&& ~~~(align - 1)).toNat = alignUp value.toNat align.toNat := by
  have less : (align - 1).toNat = align.toNat - 1 :=
    UInt64.toNat_sub_of_le _ _ (UInt64.le_iff_toNat_le.2 pos)
  have sum : (value + (align - 1)).toNat = value.toNat + (align.toNat - 1) := by
    rw [UInt64.toNat_add, less, ← Nat.add_sub_assoc pos]
    exact Nat.mod_eq_of_lt fits
  have mask : (~~~(align - 1)).toNat = UInt64.size - align.toNat := by
    rw [UInt64.toNat_not, less]
    omega
  rw [UInt64.toNat_and, sum, mask, alignUp]

namespace Archive

theorem isLeast_entryLength {size : Nat} (h : size < 2 ^ 63) :
    IsLeast {m | 512 ∣ m ∧ 512 + size ≤ m} (entryLength size) := by
  have fits : 512 + size + 512 - 1 < UInt64.size := by
    rw [show UInt64.size = 2 ^ 64 from rfl]
    omega
  exact isLeast_alignUp ⟨9, rfl⟩ fits

/-- The room for more data is also room for less. -/
theorem monotoneOn_entryLength : MonotoneOn entryLength (Set.Iio (2 ^ 63)) := by
  intro a ha b hb le
  obtain ⟨multiple, room⟩ := (isLeast_entryLength hb).1
  exact (isLeast_entryLength ha).2 ⟨multiple, (Nat.add_le_add_left le 512).trans room⟩

end Archive

open Archive (entryLength monotoneOn_entryLength isLeast_entryLength)

/-- The table's part of a disk has room for all files at full size, and for nothing more. -/
theorem diskSize_eq : diskSize = filesMax * entryLength fileDataMax := by decide

theorem sum_entryLength_le {sizes : List Nat} (few : sizes.length ≤ filesMax)
    (small : ∀ size ∈ sizes, size ≤ fileDataMax) : (sizes.map entryLength).sum ≤ diskSize := by
  have wide : fileDataMax < 2 ^ 63 := by decide
  have each : ∀ room ∈ sizes.map entryLength, room ≤ entryLength fileDataMax := by
    simp only [List.forall_mem_map]
    intro size mem
    exact monotoneOn_entryLength ((small size mem).trans_lt wide) wide (small size mem)
  calc (sizes.map entryLength).sum
      ≤ (sizes.map entryLength).length * entryLength fileDataMax := List.sum_le_card_nsmul _ _ each
    _ = sizes.length * entryLength fileDataMax := by rw [List.length_map]
    _ ≤ filesMax * entryLength fileDataMax := Nat.mul_le_mul_right _ few
    _ = diskSize := diskSize_eq.symm

/-- Rounding up to a power of two gives the least multiple that is not smaller, on numbers as on
words, if the sum fits in 64 bits. So an entry takes the fewest blocks that hold a header and the
data, more data never take less room, and the table's part of a disk has room for any files that
the table can have. -/
theorem rounding_exact :
    (∀ value align : Nat, align.isPowerOfTwo → value + align - 1 < UInt64.size →
      IsLeast {m | align ∣ m ∧ value ≤ m} (alignUp value align)) ∧
    (∀ value align : UInt64, align.toNat.isPowerOfTwo →
      value.toNat + align.toNat - 1 < UInt64.size →
      ((value + (align - 1)) &&& ~~~(align - 1)).toNat = alignUp value.toNat align.toNat) ∧
    (∀ size < 2 ^ 63, IsLeast {m | 512 ∣ m ∧ 512 + size ≤ m} (entryLength size)) ∧
    MonotoneOn entryLength (Set.Iio (2 ^ 63)) ∧
    ∀ sizes : List Nat, sizes.length ≤ filesMax → (∀ size ∈ sizes, size ≤ fileDataMax) →
      (sizes.map entryLength).sum ≤ diskSize := by
  refine ⟨fun _ _ => isLeast_alignUp, fun value align power => ?_, fun _ => isLeast_entryLength,
    monotoneOn_entryLength, fun _ => sum_entryLength_le⟩
  obtain ⟨k, h⟩ := power
  exact toNat_and_not (h ▸ Nat.two_pow_pos k)

/-- A value at the upper end of the words, a size at the end of the range, and a table with one full
file and one that is a byte over a block. -/
theorem rounding_exact_atLimits :
    alignUp (2 ^ 64 - 4096) 4096 = 2 ^ 64 - 4096 ∧
      IsLeast {m | 4096 ∣ m ∧ 2 ^ 64 - 4096 ≤ m} (alignUp (2 ^ 64 - 4096) 4096) ∧
      (((0xfffffffffffff000 : UInt64) + (4096 - 1)) &&& ~~~(4096 - 1)).toNat =
        alignUp (2 ^ 64 - 4096) 4096 ∧
      IsLeast {m | 512 ∣ m ∧ 512 + (2 ^ 63 - 1) ≤ m} (entryLength (2 ^ 63 - 1)) ∧
      entryLength 513 ≤ entryLength 1024 ∧
      ([1024, 513].map entryLength).sum ≤ diskSize := by
  obtain ⟨numbers, words, entries, monotone, sums⟩ := rounding_exact
  refine ⟨by decide, numbers _ _ ⟨12, rfl⟩ (by decide), words _ _ ⟨12, rfl⟩ (by decide),
    entries _ (by decide), ?_, sums _ (by decide) (by decide)⟩
  exact monotone (by decide) (by decide) (by decide)

end PocketKernel
