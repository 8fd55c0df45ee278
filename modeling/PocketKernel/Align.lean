/-!
# Rounding up

Lengths are rounded up with a mask: one less than the alignment is added and the bits below it are
cleared. The mask is a 64-bit word. For a power of two, written as a shifted one, the result is the
sum with its low bits shifted out and back, as `alignUp_one_shiftLeft` says.
-/
namespace PocketKernel

/-- The mask formula; the complement of `align - 1` among the 64-bit words is their number less
`align`. -/
def alignUp (value align : Nat) : Nat := (value + (align - 1)) &&& (UInt64.size - align)

theorem alignUp_one_shiftLeft (value k : Nat) (hk : k ≤ 64)
    (h : value + (1 <<< k - 1) < UInt64.size) :
    alignUp value (1 <<< k) = (value + (1 <<< k - 1)) >>> k <<< k := by
  unfold alignUp
  simp only [Nat.shiftRight_eq_div_pow, Nat.shiftLeft_eq, Nat.one_mul] at h ⊢
  rw [show UInt64.size = 2 ^ 64 from rfl] at h ⊢
  have hpos : 0 < 2 ^ k := Nat.two_pow_pos k
  have hle : 2 ^ k ≤ 2 ^ 64 := Nat.pow_le_pow_right (by decide) hk
  apply Nat.eq_of_testBit_eq
  intro i
  have hm : 2 ^ 64 - 2 ^ k = 2 ^ 64 - ((2 ^ k - 1) + 1) := by omega
  rw [Nat.testBit_and, hm, Nat.testBit_two_pow_sub_succ (by omega), Nat.testBit_two_pow_sub_one,
    Nat.testBit_mul_two_pow, Nat.testBit_div_two_pow]
  by_cases hi : i < k
  · simp [hi, Nat.not_le.2 hi]
  · have hki : k ≤ i := by omega
    have hs : i - k + k = i := by omega
    simp only [hi, hki, hs, decide_false, decide_true, Bool.not_false, Bool.and_true, Bool.true_and]
    by_cases h64 : i < 64
    · simp [h64]
    · have : (value + (2 ^ k - 1)).testBit i = false :=
        Nat.testBit_lt_two_pow (Nat.lt_of_lt_of_le h (Nat.pow_le_pow_right (by decide) (by omega)))
      simp [this]

end PocketKernel
