import Mathlib
import PocketKernel.Archive.Octal
import PocketKernel.Proofs.Bytes

/-!
# Octal fields read back

The digits that are written denote the number that was given, and a reader finds exactly these
digits: the field begins with a digit, so no space is skipped, and it stops at the byte after them.
-/
namespace PocketKernel.Octal

theorem isDigit_of_mem_digits {count n : Nat} {b : UInt8} (h : b ∈ digits count n) :
    isDigit b = true ∧ b ≠ 32 := by
  induction count generalizing n with
  | zero => simp [digits] at h
  | succ count ih =>
    rcases List.mem_append.1 h with front | last
    · exact ih front
    · obtain rfl := List.mem_singleton.1 last
      have small : n % 8 < 8 := Nat.mod_lt _ (by decide)
      interval_cases n % 8 <;> decide

/-- One more digit, in 32 bits. -/
theorem value_append (xs : Bytes) (b : UInt8) :
    value (xs ++ [b]) = value xs * 8 + (b.toUInt32 - 48) := by
  simp [value, List.foldl_append]

theorem digit_value (n : Nat) :
    (UInt8.ofNat (48 + n % 8)).toUInt32 - 48 = UInt32.ofNat (n % 8) := by
  have small : n % 8 < 8 := Nat.mod_lt _ (by decide)
  interval_cases n % 8 <;> rfl

theorem value_digits (count n : Nat) : value (digits count n) = UInt32.ofNat (n % 8 ^ count) := by
  induction count generalizing n with
  | zero => simp [digits, value, Nat.mod_one]
  | succ count ih =>
    rw [digits, value_append, ih, digit_value, Nat.pow_succ', Nat.mod_mul, Nat.mul_comm,
      UInt32.ofNat_add, UInt32.ofNat_mul, add_comm]
    rfl

/-- A reader that meets digits and then another byte takes the digits. -/
theorem parse_digits_append (count n : Nat) {b : UInt8} (rest : Bytes) (h : isDigit b = false)
    (hs : b ≠ 32) : parse (digits count n ++ b :: rest) = UInt32.ofNat (n % 8 ^ count) := by
  have no_space :
      (digits count n ++ b :: rest).dropWhile (· == 32) = digits count n ++ b :: rest := by
    rw [List.dropWhile_eq_self_iff]
    intro room
    rcases count with - | count
    · simpa [digits] using hs
    · have first : (digits (count + 1) n ++ b :: rest)[0] ∈ digits (count + 1) n := by
        rw [List.getElem_append_left (by simp)]
        exact List.getElem_mem _
      simpa using (isDigit_of_mem_digits first).2
  have stop : (digits count n ++ b :: rest).takeWhile isDigit = digits count n := by
    rw [List.takeWhile_append_of_pos fun b hb => (isDigit_of_mem_digits hb).1]
    simp [h]
  rw [parse, no_space, stop, value_digits]

/-- A reader of a field stops at its zero byte, whatever follows. -/
theorem parse_field_append (width n : Nat) (rest : Bytes) :
    parse (field width n ++ rest) = UInt32.ofNat (n % 8 ^ (width - 1)) := by
  rw [field, List.append_assoc, List.singleton_append]
  exact parse_digits_append _ _ _ (by decide) (by decide)

/-- The size field of an archive header is exact for every 32-bit size. -/
theorem parse_field_twelve {n : Nat} (h : n < UInt32.size) : (parse (field 12 n)).toNat = n := by
  have fits : n % 8 ^ (12 - 1) = n := Nat.mod_eq_of_lt (h.trans (by decide))
  have read := parse_field_append 12 n []
  rw [List.append_nil, fits] at read
  rw [read]
  exact UInt32.toNat_ofNat_of_lt h

/-- The checksum field of an archive header, which has a space after its zero byte, is exact for
every number of six digits. -/
theorem parse_field_seven {n : Nat} (h : n < 8 ^ 6) (rest : Bytes) :
    (parse (field 7 n ++ rest)).toNat = n := by
  rw [parse_field_append, Nat.mod_eq_of_lt h]
  exact UInt32.toNat_ofNat_of_lt (h.trans (by decide))

end PocketKernel.Octal
