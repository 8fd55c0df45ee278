/-!
# Hexadecimal numbers

Numbers to base sixteen in lowercase digits, as the kernel's messages write them.
-/
namespace PocketKernel.Hex

def digits (n : Nat) : String := String.ofList (Nat.toDigits 16 n)

/-- The digits after the mark `0x`. -/
def marked (n : Nat) : String := "0x" ++ digits n

/-- The digits with zeros in front, at least `width` of them. -/
def padded (width n : Nat) : String :=
  let ds := Nat.toDigits 16 n
  String.ofList (List.replicate (width - ds.length) '0' ++ ds)

end PocketKernel.Hex
