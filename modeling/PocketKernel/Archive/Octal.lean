import PocketKernel.Bytes

/-!
# Octal fields

Numbers in archive headers are octal digits in fields of fixed width. A written field ends in a
zero byte. A read field may begin with spaces and ends at its first byte that is no octal digit;
the value is a 32-bit word and higher digits are lost.
-/
namespace PocketKernel.Octal

def isDigit (b : UInt8) : Bool := 48 ≤ b && b ≤ 55

def value (digits : Bytes) : UInt32 :=
  digits.foldl (fun acc b => acc * 8 + (b.toUInt32 - 48)) 0

def parse (field : Bytes) : UInt32 := value ((field.dropWhile (· == 32)).takeWhile isDigit)

/-- The last `count` octal digits of `n`. -/
def digits : (count n : Nat) → Bytes
  | 0, _ => []
  | count + 1, n => digits count (n / 8) ++ [UInt8.ofNat (48 + n % 8)]

@[simp] theorem length_digits (count n : Nat) : (digits count n).length = count := by
  induction count generalizing n with
  | zero => rfl
  | succ count ih => simp [digits, ih]

/-- A field of `width` bytes: the last `width - 1` digits of `n` and a zero byte. -/
def field (width n : Nat) : Bytes := digits (width - 1) n ++ [0]

end PocketKernel.Octal
