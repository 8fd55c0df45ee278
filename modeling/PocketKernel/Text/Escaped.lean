import PocketKernel.Bytes
import PocketKernel.Text.Hex

/-!
# Byte strings in messages

A byte string such as a file name is shown as text: visible ASCII characters and spaces stand for
themselves, and every other byte is written in hexadecimal.
-/
namespace PocketKernel.Escaped

/-- A visible ASCII character or a space. -/
def isPlain (b : UInt8) : Bool := 32 ≤ b && b ≤ 126

def octet (b : UInt8) : String :=
  if isPlain b then String.singleton (Char.ofNat b.toNat) else "\\x" ++ Hex.padded 2 b.toNat

def text (bytes : Bytes) : String := String.join (bytes.map octet)

end PocketKernel.Escaped
