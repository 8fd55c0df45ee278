/-!
# Byte strings

Bytes are lists of octets. This module has the one way to overwrite a range of a byte string, the
checked way to take a range out of it, numbers as little-endian and big-endian bytes, and the text
constants of the byte formats.
-/
namespace PocketKernel

abbrev Bytes := List UInt8

namespace Bytes

def zeros (n : Nat) : Bytes := List.replicate n 0

@[simp] theorem length_zeros (n : Nat) : (zeros n).length = n := by simp [zeros]

/-- The bytes of `xs` with the range that begins at `start` replaced by `ys`. -/
def splice (xs : Bytes) (start : Nat) (ys : Bytes) : Bytes :=
  xs.take start ++ ys ++ xs.drop (start + ys.length)

@[simp] theorem length_splice (xs ys : Bytes) (start : Nat) (h : start + ys.length ≤ xs.length) :
    (splice xs start ys).length = xs.length := by
  simp [splice]; omega

theorem length_splice_eq {xs ys : Bytes} {start n : Nat} (hx : xs.length = n)
    (h : start + ys.length ≤ n) : (splice xs start ys).length = n := by
  rw [length_splice xs ys start (by omega), hx]

theorem getElem?_splice (xs ys : Bytes) (start i : Nat) (h : start + ys.length ≤ xs.length) :
    (splice xs start ys)[i]? =
      if start ≤ i ∧ i < start + ys.length then ys[i - start]? else xs[i]? := by
  unfold splice
  rw [List.append_assoc, List.getElem?_append, List.getElem?_append]
  simp only [List.length_take, List.getElem?_take, List.getElem?_drop]
  have : min start xs.length = start := by omega
  rw [this]
  split
  · rw [if_neg (by omega)]
  · split
    · rw [if_pos (by omega)]
    · rw [if_neg (by omega)]
      congr 1
      omega

/-- The `n` bytes from `start` on, when `xs` has all of them. -/
def slice? (xs : Bytes) (start n : Nat) : Option Bytes :=
  if start + n ≤ xs.length then some ((xs.drop start).take n) else none

theorem length_of_slice? {xs ys : Bytes} {start n : Nat} (h : slice? xs start n = some ys) :
    ys.length = n := by
  unfold slice? at h
  split at h
  · cases h; simp; omega
  · cases h

/-- The first `n` bytes, with zeros where `xs` has no more. -/
def fit (n : Nat) (xs : Bytes) : Bytes := xs.take n ++ zeros (n - xs.length)

@[simp] theorem length_fit (n : Nat) (xs : Bytes) : (fit n xs).length = n := by
  simp [fit]; omega

/-- The pieces of `n + 1` bytes of `xs`; the last one may be shorter. -/
def chunks (n : Nat) (xs : Bytes) : List Bytes :=
  match xs with
  | [] => []
  | x :: rest => (x :: rest.take n) :: chunks n (rest.drop n)
termination_by xs.length
decreasing_by rw [List.length_drop, List.length_cons]; omega

@[simp] theorem flatten_chunks (n : Nat) (xs : Bytes) : (chunks n xs).flatten = xs := by
  fun_induction chunks n xs with
  | case1 => rfl
  | case2 x rest ih => simp [ih]

/-- The number whose digits to base 256 are `xs`, lowest first. -/
def leNat : Bytes → Nat
  | [] => 0
  | b :: rest => b.toNat + 256 * leNat rest

/-- The lowest `width` digits of `n` to base 256, lowest first. -/
def ofLE : (width n : Nat) → Bytes
  | 0, _ => []
  | width + 1, n => UInt8.ofNat n :: ofLE width (n / 256)

@[simp] theorem length_ofLE (width n : Nat) : (ofLE width n).length = width := by
  induction width generalizing n with
  | zero => rfl
  | succ width ih => simp [ofLE, ih]

theorem leNat_ofLE (width n : Nat) : leNat (ofLE width n) = n % (1 <<< (8 * width)) := by
  induction width generalizing n with
  | zero => simp [ofLE, leNat, Nat.mod_one]
  | succ width ih =>
    have digit : (UInt8.ofNat n).toNat = n % 256 := UInt8.toNat_ofNat'
    have step : 1 <<< (8 * (width + 1)) = 256 * (1 <<< (8 * width)) := by
      rw [Nat.mul_succ, Nat.add_comm, Nat.shiftLeft_add]
      simp only [Nat.shiftLeft_eq, Nat.one_mul]
    rw [ofLE, leNat, ih, digit, step, Nat.mod_mul]

/-- The number whose digits to base 256 are `xs`, highest first. -/
def beNat (xs : Bytes) : Nat := leNat xs.reverse

/-- The bytes of a text of ASCII characters. -/
def ofAscii (text : String) : Bytes := text.toList.map fun c => UInt8.ofNat c.toNat

end Bytes

end PocketKernel
