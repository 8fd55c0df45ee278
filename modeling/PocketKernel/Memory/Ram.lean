import PocketKernel.Bytes
import PocketKernel.Fault
import PocketKernel.Memory.ByteTree

/-!
# Physical memory

Memory is a range of bytes with a window of addresses that exist. Every access names a range and
faults unless the whole range lies in the window; words are little-endian. `byteAt` is the view of
a memory, and what a write does to it is said by `byteAt_write` and `byteAt_clear`.
-/
namespace PocketKernel

/-- The addresses from `base` up to but not including `limit` exist. -/
structure Ram where
  base : UInt32
  limit : UInt32
  /-- The bytes of all 32-bit addresses. -/
  cells : ByteTree
  deriving DecidableEq, Repr

namespace Ram

/-- Memory of zeros. -/
def blank (base limit : UInt32) : Ram := ⟨base, limit, .fill 0⟩

/-- The byte at a 32-bit address. -/
def byteAt (r : Ram) (addr : Nat) : UInt8 := r.cells.get UInt32.size addr

/-- All `n` bytes from `addr` on exist. -/
def holds (r : Ram) (addr : UInt32) (n : Nat) : Bool :=
  r.base ≤ addr && addr.toNat + n ≤ r.limit.toNat

/-- The `n` bytes from `addr` on. -/
def bytes (r : Ram) (addr n : Nat) : Bytes := (List.range n).map fun i => r.byteAt (addr + i)

@[simp] theorem length_bytes (r : Ram) (addr n : Nat) : (r.bytes addr n).length = n := by
  simp [bytes]

/-- The `n` bytes from `addr` on set to zero. -/
def clear (r : Ram) (addr n : Nat) : Ram :=
  { r with cells := .fillRange 0 32 UInt32.size addr (addr + n) r.cells }

theorem byteAt_clear (r : Ram) (addr n : Nat) {a : Nat} (h : a < UInt32.size) :
    (r.clear addr n).byteAt a = if addr ≤ a ∧ a < addr + n then 0 else r.byteAt a :=
  ByteTree.get_fillRange 0 32 addr (addr + n) r.cells h

/-- The bytes from `addr` on replaced by `data`. -/
def write (r : Ram) (addr : Nat) (data : Bytes) : Ram :=
  { r with cells := .write 32 UInt32.size addr data r.cells }

theorem byteAt_write (r : Ram) (addr : Nat) (data : Bytes) {a : Nat} (h : a < UInt32.size) :
    (r.write addr data).byteAt a =
      if addr ≤ a ∧ a < addr + data.length then data.getD (a - addr) 0 else r.byteAt a :=
  ByteTree.get_write 32 addr data r.cells h

def load (r : Ram) (addr : UInt32) (n : Nat) : Except Fault Bytes :=
  if r.holds addr n then .ok (r.bytes addr.toNat n) else .error (.badAccess addr n)

def store (addr : UInt32) (data : Bytes) : Action Ram Unit := fun r =>
  if r.holds addr data.length then .ok () (r.write addr.toNat data)
  else .error (.badAccess addr data.length) r

def zero (addr : UInt32) (n : Nat) : Action Ram Unit := fun r =>
  if r.holds addr n then .ok () (r.clear addr.toNat n) else .error (.badAccess addr n) r

def loadWord (r : Ram) (addr : UInt32) : Except Fault UInt32 := do
  return UInt32.ofNat (Bytes.leNat (← r.load addr 4))

def storeWord (addr word : UInt32) : Action Ram Unit := store addr (Bytes.ofLE 4 word.toNat)

end Ram

end PocketKernel
